import GreedyMatch.Source.Basic
import GreedyMatch.Text.Blank

/-!
# Pictures and complaints

A picture shows a line, less its break, and under it carets below the characters in
question. A tab above stays a tab below, so that the carets stand where they should
however wide a tab is. A complaint says in words where an offset lies, what is the
matter there, and ends with a picture.
-/
namespace GreedyMatch

/-- A number of things, with the noun in the plural unless there is one. -/
def Text.counted (count : Int) (noun : Text) : Text :=
  Text.ofInt count ++ ' ' :: noun ++ if count = 1 then [] else ['s']

namespace Picture

def isBreak (c : Char) : Bool := c == '\r' || c == '\n'

/-- As wide as `t`, and blank. -/
def indent (t : Text) : Text := t.map fun c => if c = '\t' then '\t' else ' '

/-- How many carets stand under `width` characters from `start` on: at least one, and
none past the end of the line. -/
def caretCount (size : Nat) (start width : Int) : Nat := (max 1 (min width (size - start))).toNat

def margin : Text := " >>> ".toList

def caption : Text := "near here".toList

def draw (margin line : Text) (start width : Int) (caption : Text) : Text :=
  let visible := line.dropRightWhile isBreak
  margin ++ visible ++ '\n' :: indent (margin ++ Sequence.upTo visible start) ++
    List.replicate (caretCount visible.length start width) '^' ++ ' ' :: caption

end Picture

namespace Source

/-- Where an offset lies: a count of characters if all is on one row. -/
def location (s : Source) (index : Int) : Text :=
  if s.isSingleLine then "after ".toList ++ Text.counted index "character".toList
  else
    let (row, col) := s.rowCol index
    "at line ".toList ++ Text.ofNat row ++ ", column ".toList ++ Text.ofInt (col + 1)

def capitalized : Text → Text
  | [] => []
  | c :: cs => c.toUpper :: cs

def complaint (s : Source) (start stop : Int) (message caption : Text) : Text :=
  let (row, col) := s.rowCol start
  let line := (s.line? row).getD []
  capitalized (s.location start) ++ ": ".toList ++ message ++ '\n' ::
    Picture.draw Picture.margin line col (stop - start) caption

end Source
end GreedyMatch
