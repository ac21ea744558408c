import GreedyMatch.Match.Run

/-!
# Sessions

A session makes any number of attempts at one text, and remembers the furthest
position that any of them has reached. The mark only ever goes up.
-/
namespace GreedyMatch

structure Session where
  text : Text
  limit : Option Int
  furthest : Nat

namespace Session
variable {α : Type}

def start (text : Text) (limit : Option Int) : Session := ⟨text, limit, 0⟩

def record (s : Session) (a : Attempt α) : Session × Except Fault α :=
  ({ s with furthest := max s.furthest a.reached }, a.result)

/-- A run from `position`, which a nested one may end anywhere. -/
def run (s : Session) (g : Grammar) (depth position : Int) (nested : Bool) :
    Session × Except Fault (Option Match) :=
  s.record <|
    if nested then g.run s.text s.limit depth position
    else g.runWhole s.text s.limit depth position

def consume (s : Session) (v : Value) (depth position : Int) : Session × Except Fault Match :=
  s.record (v.consume s.text s.limit depth position)

inductive Call
  | run (g : Grammar) (depth position : Int) (nested : Bool)
  | consume (v : Value) (depth position : Int)

inductive Answer
  | run (outcome : Option Match)
  | consume (m : Match)

/-- One call: the session that it leaves behind, and what it answers. -/
def call (s : Session) : Call → Session × Except Fault Answer
  | .run g depth position nested =>
    let (next, outcome) := s.run g depth position nested
    (next, outcome.map .run)
  | .consume v depth position =>
    let (next, m) := s.consume v depth position
    (next, m.map .consume)

def calls (s : Session) : List Call → Session × List (Except Fault Answer)
  | [] => (s, [])
  | c :: cs =>
    let (next, answer) := s.call c
    let (last, answers) := next.calls cs
    (last, answer :: answers)

end Session
end GreedyMatch
