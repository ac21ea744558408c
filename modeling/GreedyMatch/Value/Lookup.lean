import GreedyMatch.Value.Equal
import GreedyMatch.Value.Render

/-!
# Looking a name up in a table

The entries of a table have names; a look-up may be made with any value. A value
that cannot serve as a key is refused, and one that is no name of an entry is not
found.
-/
namespace GreedyMatch

inductive LookupError
  | unhashable
  | unknown (key : Value)

variable {α : Type}

def lookup (table : List (Text × α)) (key : Value) : Except LookupError α :=
  if key.isHashable then
    match table.find? (fun entry => (Value.text entry.1).same key) with
    | some entry => .ok entry.2
    | none => .error (.unknown key)
  else .error .unhashable

end GreedyMatch
