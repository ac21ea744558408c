import GreedyMatch.Match.Fault

/-!
# Nullability

A component is nullable when it may stand for no input at all. The answer is coarse:
a repetition that may be left out is nullable whatever it repeats, while one that may
not and an alternation never are. Looking inside a group goes one level deeper and is
held to the limit; a sequence is asked from the left, and no further than the first
component that is not nullable.
-/
namespace GreedyMatch

mutual

def Component.nullable (limit : Option Int) : Component → Int → Except Fault Bool
  | .literal _, _ => .ok false
  | .classified _ _, _ => .ok false
  | .zeroOrMore _, _ => .ok true
  | .oneOrMore _, _ => .ok false
  | .zeroOrOne _, _ => .ok true
  | .group inner, depth =>
    match allow limit (depth + 1) with
    | .ok () => Grammar.nullable limit inner (depth + 1)
    | .error fault => .error fault
  | .alternation _ _, _ => .ok false
  | .unknown cls payload, _ => .error (.unsupported (.component (.unknown cls payload)) none)

def Grammar.nullable (limit : Option Int) : List Component → Int → Except Fault Bool
  | [], _ => .ok true
  | c :: cs, depth =>
    match c.nullable limit depth with
    | .ok true => Grammar.nullable limit cs depth
    | .ok false => .ok false
    | .error fault => .error fault

end

/-- The second of two grammars is asked only if the first one is nullable. -/
theorem Grammar.nullable_append (limit : Option Int) (depth : Int) (g h : Grammar) :
    Grammar.nullable limit (g ++ h) depth =
      match Grammar.nullable limit g depth with
      | .ok true => Grammar.nullable limit h depth
      | .ok false => .ok false
      | .error fault => .error fault := by
  induction g with
  | nil => rfl
  | cons c g ih =>
    rw [List.cons_append, Grammar.nullable, Grammar.nullable, ih]
    rcases c.nullable limit depth with fault | _ | _ <;> rfl

theorem Grammar.nullable_cons_eq_true_iff {limit : Option Int} {depth : Int} {c : Component}
    {cs : Grammar} : Grammar.nullable limit (c :: cs) depth = .ok true ↔
      c.nullable limit depth = .ok true ∧ Grammar.nullable limit cs depth = .ok true := by
  rw [Grammar.nullable]
  rcases c.nullable limit depth with fault | _ | _ <;> simp

def Value.nullable (limit : Option Int) (v : Value) (depth : Int) : Except Fault Bool :=
  match v with
  | .component c => c.nullable limit depth
  | .grammar g => Grammar.nullable limit g depth
  | v => .error (.unsupported v none)

end GreedyMatch
