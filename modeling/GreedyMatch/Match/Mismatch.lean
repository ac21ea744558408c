import GreedyMatch.Match.Fault
import GreedyMatch.Source.Picture
import GreedyMatch.Value.Render

/-!
# Mismatches

A mismatch describes a text that was not matched, and roughly where things went wrong
in it. Its complaint points at that place; an ambiguous text is at fault as a whole.
-/
namespace GreedyMatch

inductive Mismatch
  /-- No more is known than the place. -/
  | plain (text : Text) (position : Int)
  | noMatch (text : Text) (position : Int)
  | ambiguous (text : Text) (indices : List Int)
  | unsupported (value : Value) (text : Text) (position : Int)

namespace Mismatch

def text : Mismatch → Text
  | .plain text _ => text
  | .noMatch text _ => text
  | .ambiguous text _ => text
  | .unsupported _ text _ => text

def position : Mismatch → Int
  | .plain _ position => position
  | .noMatch _ position => position
  | .ambiguous _ _ => 0
  | .unsupported _ _ position => position

def span (m : Mismatch) : Int × Int := (m.position, m.position + 1)

def gripe : Mismatch → Text
  | .plain _ _ => "Match failed.".toList
  | .noMatch _ _ => "No grammar matches the input beyond this point.".toList
  | .ambiguous _ _ => "More than one grammar matches this input.".toList
  | .unsupported value _ _ => "Component ".toList ++ value.render ++ " is not supported.".toList

def caption : Mismatch → Text
  | .plain _ _ => Picture.caption
  | .noMatch _ _ => "no grammar gets past here".toList
  | .ambiguous _ _ => "matched more than once".toList
  | .unsupported _ _ _ => Picture.caption

def complaint (m : Mismatch) : Text :=
  let source : Source := ⟨m.text, .any⟩
  match m with
  | .ambiguous _ indices =>
    let line := (source.line? 1).getD []
    m.gripe ++ " Candidates: ".toList ++ Text.commaSeparated (indices.map Text.ofInt) ++ ".\n".toList ++
      Picture.draw Picture.margin line 0 line.length m.caption
  | _ => source.complaint m.span.1 m.span.2 m.gripe m.caption

end Mismatch

inductive Failure
  | tooDeep (depth limit : Int)
  /-- A depth met a limit that is no number. -/
  | noLimit
  | mismatch (m : Mismatch)

def Failure.tooDeepMessage (depth limit : Int) : Text :=
  "grammar too deeply nested: depth ".toList ++ Text.ofInt depth ++ " exceeds the limit of ".toList ++
    Text.ofInt limit

/-- A fault as it is told of the text in which it was met. A value that was found
unsupported before any text was looked at is told of no text. -/
def Fault.failure (text : Text) : Fault → Failure
  | .tooDeep depth limit => .tooDeep depth limit
  | .noLimit => .noLimit
  | .unsupported value (some position) => .mismatch (.unsupported value text position)
  | .unsupported value none => .mismatch (.unsupported value [] 0)

end GreedyMatch
