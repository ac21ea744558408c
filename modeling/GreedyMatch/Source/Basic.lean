import GreedyMatch.Sequence.Slice
import GreedyMatch.Source.LineBreaks

/-!
# Rows and columns

The bounds of a source are its start, the end of each line break, and its end; a row
lies between two neighbouring bounds and includes its break. A source that ends in a
break has an empty last row. Rows count from one and columns from zero.
-/
namespace GreedyMatch

structure Source where
  content : Text
  breaks : LineBreaks

namespace Source

def starts (s : Source) : List Nat := 0 :: s.breaks.ends 0 s.content

def bounds (s : Source) : List Nat := s.starts ++ [s.content.length]

def isSingleLine (s : Source) : Bool := s.starts.length == 1

/-- The row that holds an offset and the column in it. What lies before the source is on row zero,
where columns are reckoned back from the end. -/
def rowCol (s : Source) (index : Int) : Nat × Int :=
  match s.starts.countP fun (start : Nat) => (start : Int) ≤ index with
  | 0 => (0, index - s.content.length)
  | row + 1 => (row + 1, index - s.starts.getD row 0)

/-- The text of a row with its break. Rows below one act as the first. -/
def line? (s : Source) (row : Int) : Option Text := do
  let r := (row - 1).toNat
  let start ← s.bounds[r]?
  let stop ← s.bounds[r + 1]?
  return (s.content.take stop).drop start

end Source
end GreedyMatch
