import GreedyMatch.Value.Lookup

/-!
# Line breaks

A convention says which characters break a line. Breaks are found from left to right,
the longest one first, so a carriage return and the line feed after it are a single
break wherever both count.
-/
namespace GreedyMatch

inductive LineBreaks
  /-- A line feed, a carriage return, or a carriage return and a line feed. -/
  | any
  | lf
  | cr
  | crlf
  deriving DecidableEq

namespace LineBreaks

/-- The length of the break at the front of a text, zero if there is none. -/
def atFront : LineBreaks → Text → Nat
  | .any, '\r' :: '\n' :: _ => 2
  | .any, '\r' :: _ => 1
  | .any, '\n' :: _ => 1
  | .lf, '\n' :: _ => 1
  | .cr, '\r' :: _ => 1
  | .crlf, '\r' :: '\n' :: _ => 2
  | _, _ => 0

/-- The offsets at which a break ends, in a text that starts at `offset`. -/
def ends (breaks : LineBreaks) (offset : Nat) : Text → List Nat
  | [] => []
  | c :: cs =>
    match breaks.atFront (c :: cs) with
    | 0 => ends breaks (offset + 1) cs
    | n + 1 => (offset + n + 1) :: ends breaks (offset + n + 1) (cs.drop n)
termination_by t => t.length

def table : List (Text × LineBreaks) :=
  [("normal".toList, .any), ("unix".toList, .lf), ("apple".toList, .cr), ("dos".toList, .crlf)]

def ofKey (key : Value) : Except LookupError LineBreaks := lookup table key

end LineBreaks
end GreedyMatch
