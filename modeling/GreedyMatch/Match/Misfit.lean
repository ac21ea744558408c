import GreedyMatch.Grammar.Nullable

/-!
# Runs over what is no text

A run may be asked of a value that is no text. Nothing can be read from such a value,
and so nothing is taken from it: the run idles where it starts, and all it can find is
that it may stop there. The length of the value counts, if it has one, since a run that
is at the end already does not read. Everything else about the value is a misfit.
-/
namespace GreedyMatch

inductive Misfit
  | fault (f : Fault)
  /-- The value has no length. -/
  | unsized
  /-- A word was to be read from the value. -/
  | unreadable

def Value.size? : Value → Option Nat
  | .text t => some t.length
  | .list items => some items.length
  | .tuple items => some items.length
  | .component c => some c.payload.length
  | .grammar g => some g.length
  | _ => none

namespace Misfit

def demand : Option Nat → Except Misfit Nat
  | some n => .ok n
  | none => .error .unsized

def guarded {α : Type} (limit : Option Int) (depth : Int) (run : Except Misfit α) :
    Except Misfit α :=
  match allow limit depth with
  | .ok () => run
  | .error f => .error (.fault f)

end Misfit

mutual

/-- What keeps a component from idling at a position. One that repeats stops after a
pass that takes nothing, and is not tried at the end. -/
def Component.idle (size? : Option Nat) (limit : Option Int) :
    Component → Int → Int → Except Misfit Unit
  | .literal _, _, _ => .error .unreadable
  | .classified _ _, _, _ => .error .unreadable
  | .zeroOrMore inner, depth, position => do
    if position < (← Misfit.demand size?) then
      discard <| Misfit.guarded limit (depth + 1)
        (Grammar.idle size? limit inner (depth + 1) position)
  | .oneOrMore inner, depth, position => do
    if position < (← Misfit.demand size?) then
      discard <| Misfit.guarded limit (depth + 1)
        (Grammar.idle size? limit inner (depth + 1) position)
  | .zeroOrOne inner, depth, position =>
    discard <| Misfit.guarded limit (depth + 1)
      (Grammar.idle size? limit inner (depth + 1) position)
  | .group inner, depth, position =>
    discard <| Misfit.guarded limit (depth + 1)
      (Grammar.idle size? limit inner (depth + 1) position)
  | .alternation left right, depth, position => do
    discard <| Misfit.guarded limit (depth + 1)
      (Grammar.idle size? limit left (depth + 1) position)
    discard <| Misfit.guarded limit (depth + 1)
      (Grammar.idle size? limit right (depth + 1) position)
  | .unknown cls payload, _, position =>
    .error (.fault (.unsupported (.component (.unknown cls payload)) (some position)))

def Grammar.idle (size? : Option Nat) (limit : Option Int) :
    List Component → Int → Int → Except Misfit Bool
  | [], _, _ => do
    discard <| Misfit.demand size?
    return true
  | c :: cs, depth, position => do
    if position = (← Misfit.demand size?) then
      (Grammar.nullable limit (c :: cs) depth).mapError .fault
    else do
      c.idle size? limit depth position
      if ← (c.nullable limit depth).mapError .fault then
        Grammar.idle size? limit cs depth position
      else
        return false

end

/-- Whether a run over a value succeeds; one that is not nested has to be at the end. -/
def Grammar.idleRun (subject : Value) (limit : Option Int) (g : Grammar)
    (depth position : Int) (nested : Bool) : Except Misfit Bool := do
  let passed ← Misfit.guarded limit depth (idle subject.size? limit g depth position)
  return passed && (nested || subject.size?.any fun n => position = n)

def Value.idle (v subject : Value) (limit : Option Int) (depth position : Int) :
    Except Misfit Unit :=
  match v with
  | .component c => c.idle subject.size? limit depth position
  | v => .error (.fault (.unsupported v (some position)))

end GreedyMatch
