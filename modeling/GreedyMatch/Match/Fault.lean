import GreedyMatch.Value.Basic

/-!
# Faults

A fault ends whatever was being worked out. It is not a failed match: a grammar that
nests deeper than the limit, or a value that is no known component, has no outcome.

The limit is a number, but something else may have been asked for in its place. That is
no fault until a depth has to be compared with it.
-/
namespace GreedyMatch

inductive Fault
  | tooDeep (depth limit : Int)
  /-- A depth met a limit that is no number. -/
  | noLimit
  /-- The position is known only when the value was met in a text. -/
  | unsupported (value : Value) (position : Option Int)

def defaultLimit : Int := 100

/-- Lets pass the depths up to the limit, which is `none` if it is no number. -/
def allow (limit : Option Int) (depth : Int) : Except Fault Unit :=
  match limit with
  | some n => if n < depth then .error (.tooDeep depth n) else .ok ()
  | none => .error .noLimit

theorem allow_of_le {n depth : Int} (h : depth ≤ n) : allow (some n) depth = .ok () :=
  if_neg (Int.not_lt.2 h)

theorem allow_of_lt {n depth : Int} (h : n < depth) :
    allow (some n) depth = .error (.tooDeep depth n) := if_pos h

theorem allow_eq_ok_iff {limit : Option Int} {depth : Int} :
    allow limit depth = .ok () ↔ ∃ n, limit = some n ∧ depth ≤ n := by
  constructor
  · intro h
    cases limit with
    | none => cases h
    | some n =>
      refine ⟨n, rfl, ?_⟩
      by_cases hn : n < depth
      · rw [allow_of_lt hn] at h
        cases h
      · exact Int.not_lt.1 hn
  · rintro ⟨n, rfl, h⟩
    exact allow_of_le h

end GreedyMatch
