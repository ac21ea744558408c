import GreedyMatch.Match.Misfit
import GreedyMatch.Proofs.Grammar.Shape
import GreedyMatch.Proofs.Match.Concat
import Mathlib.Tactic

/-!
# Idle runs

What an idle run finds is what a run finds over any text of the same length, as long as no word is
read: it takes nothing and marks nothing, so that of the text only the length counts. Over a value
that has no length there is nothing to find.
-/
namespace GreedyMatch

/-- The attempt comes to what is foretold without moving along its text. Nothing is foretold of one
that reads a word or lacks a length. -/
def Misfit.Foretells {α β : Type} (found : Except Misfit α) (f : α → β) (x : Attempt β) : Prop :=
  match found with
  | .ok a => x = pure (f a)
  | .error (.fault e) => x = .fail e
  | .error _ => True

namespace Misfit.Foretells
variable {α β γ δ : Type} {found : Except Misfit α} {f : α → β} {x : Attempt β}

theorem bind (h : Foretells found f x) {next : α → Except Misfit γ} {g : γ → δ}
    {y : β → Attempt δ} (hnext : ∀ a, Foretells (next a) g (y (f a))) :
    Foretells (found >>= next) g (x >>= y) := by
  rcases found with (e | _ | _) | a
  · obtain rfl : x = .fail e := h
    rfl
  · trivial
  · trivial
  · obtain rfl : x = pure (f a) := h
    rw [pure_bind]
    exact hnext a

theorem discard (h : Foretells found f x) {c : γ} {y : β → Attempt γ}
    (hy : ∀ a, y (f a) = pure c) : Foretells (Functor.discard found) (fun _ => c) (x >>= y) := by
  rw [show Functor.discard found = found >>= fun _ => pure () by cases found <;> rfl]
  exact h.bind hy

theorem andThen (h : Foretells found f x) {next : Except Misfit γ} {g : γ → δ}
    {y : β → Attempt δ} (hnext : ∀ a, Foretells next g (y (f a))) :
    Foretells (Functor.discard found >>= fun _ => next) g (x >>= y) := by
  rw [show (Functor.discard found >>= fun _ => next) = found >>= fun _ => next by
    cases found <;> rfl]
  exact h.bind hnext

theorem ofExcept (e : Except Fault α) : Foretells (e.mapError .fault) id (.ofExcept e) := by
  cases e <;> exact rfl

theorem guarded {run : Int → Attempt β} {cursor : Int} (h : Foretells found f (run cursor))
    (limit : Option Int) (depth : Int) :
    Foretells (Misfit.guarded limit depth found) f
      (GreedyMatch.guarded limit depth run cursor) := by
  unfold Misfit.guarded GreedyMatch.guarded
  cases allow limit depth with
  | ok _ => exact h
  | error e => exact rfl

end Misfit.Foretells

def Match.idle (passed : Bool) : Option Match := if passed then some .empty else none

theorem Match.extent_idle (passed : Bool) : extent (idle passed) = 0 := by
  cases passed <;> rfl

open Misfit
variable {text : Text} {limit : Option Int}

def Component.Idles (text : Text) (limit : Option Int) (c : Component) : Prop :=
  ∀ depth position, Foretells (c.idle (some text.length) limit depth position) (fun _ => .empty)
    (c.consume text limit depth position)

def Grammar.Idles (text : Text) (limit : Option Int) (g : Grammar) : Prop :=
  ∀ depth position, Foretells (Grammar.idle (some text.length) limit g depth position) Match.idle
    (Grammar.walk text limit g depth position)

namespace Grammar.Idles
variable {g h : Grammar}

theorem run (hg : g.Idles text limit) (depth position : Int) :
    Foretells (Misfit.guarded limit depth (Grammar.idle (some text.length) limit g depth position))
      Match.idle (Grammar.run text limit g depth position) :=
  (hg depth position).guarded limit depth

theorem zeroOrMore (hg : g.Idles text limit) : (Component.zeroOrMore g).Idles text limit := by
  intro depth position
  rw [Component.consume_zeroOrMore, passes]
  change Foretells (if position < (text.length : Int) then _ else pure ()) _ _
  split_ifs
  · rw [bind_assoc]
    refine (hg.run (depth + 1) position).discard fun passed => ?_
    rw [Match.extent_idle]
    rfl
  · exact rfl

theorem zeroOrOne (hg : g.Idles text limit) : (Component.zeroOrOne g).Idles text limit := by
  intro depth position
  refine (hg.run (depth + 1) position).discard fun passed => ?_
  rw [Match.extent_idle]
  rfl

theorem group (hg : g.Idles text limit) : (Component.group g).Idles text limit := by
  intro depth position
  refine (hg.run (depth + 1) position).discard fun passed => ?_
  cases passed <;> rfl

theorem alternation (hg : g.Idles text limit) (hh : h.Idles text limit) :
    (Component.alternation g h).Idles text limit := by
  intro depth position
  refine (hg.run (depth + 1) position).andThen fun passed => ?_
  rw [Match.extent_idle, if_neg (Nat.lt_irrefl 0)]
  refine (hh.run (depth + 1) position).discard fun passed' => ?_
  rw [Match.extent_idle]
  rfl

theorem cons {c : Component} (hc : c.Idles text limit) (hg : g.Idles text limit) :
    Grammar.Idles text limit (c :: g) := by
  intro depth position
  rw [walk]
  change Foretells (if position = (text.length : Int) then _ else _) _ _
  split_ifs
  · rw [← bind_pure (Except.mapError _ _)]
    exact (Foretells.ofExcept _).bind fun bare => rfl
  · refine (hc depth position).bind fun _ => ?_
    rw [if_neg (show ¬0 < Match.empty.length from Nat.lt_irrefl 0)]
    refine (Foretells.ofExcept _).bind fun bare => ?_
    cases bare with
    | true => exact hg depth position
    | false => exact rfl

end Grammar.Idles

theorem Inherited.idles (text : Text) (limit : Option Int) :
    Inherited (Component.Idles text limit) (Grammar.Idles text limit) where
  literal _ _ _ := trivial
  classified _ _ _ _ := trivial
  zeroOrMore := Grammar.Idles.zeroOrMore
  oneOrMore := Grammar.Idles.zeroOrMore
  zeroOrOne := Grammar.Idles.zeroOrOne
  group := Grammar.Idles.group
  alternation := Grammar.Idles.alternation
  unknown _ _ _ _ := rfl
  nil _ _ := rfl
  cons := Grammar.Idles.cons

/-- An idle run foretells the run over a text of the length of the value. -/
theorem Grammar.foretells_idleRun {subject : Value} (hsize : subject.size? = some text.length)
    (g : Grammar) (depth position : Int) (nested : Bool) :
    Foretells (g.idleRun subject limit depth position nested) Match.idle
      (if nested then g.run text limit depth position
        else g.runWhole text limit depth position) := by
  have hrun := ((Inherited.idles text limit).grammar g).run depth position
  rw [idleRun, hsize]
  cases nested with
  | true =>
    rw [if_pos rfl, ← bind_pure (g.run text limit depth position)]
    refine hrun.bind fun passed => ?_
    rw [Bool.true_or, Bool.and_true]
    exact rfl
  | false =>
    rw [if_neg Bool.false_ne_true, runWhole]
    refine hrun.bind fun passed => congrArg pure ?_
    cases passed with
    | false => rfl
    | true => simp [Match.idle, Match.empty, Option.filter]

theorem Value.foretells_idle {subject : Value} (hsize : subject.size? = some text.length)
    (v : Value) (depth position : Int) :
    Foretells (v.idle subject limit depth position) (fun _ => .empty)
      (v.consume text limit depth position) := by
  cases v with
  | component c =>
    rw [idle, hsize]
    exact (Inherited.idles text limit).component c depth position
  | _ => exact rfl

/-- A grammar cannot be walked without a length to compare the position with. -/
theorem Grammar.idleRun_of_unsized {subject : Value} (hsize : subject.size? = none) (g : Grammar)
    (depth position : Int) (nested : Bool) :
    g.idleRun subject limit depth position nested =
      Misfit.guarded limit depth (.error .unsized) := by
  have hidle : Grammar.idle none limit g depth position = .error .unsized := by
    cases g <;> rfl
  rw [idleRun, hsize, hidle, Misfit.guarded]
  cases allow limit depth <;> rfl

theorem Misfit.Foretells.record {α β : Type} {found : Except Misfit α} {f : α → β} {x : Attempt β}
    (h : Foretells found f x) (s : Session) :
    (∀ a, found = .ok a → s.record x = (s, .ok (f a))) ∧
      ∀ e, found = .error (.fault e) → s.record x = (s, .error e) := by
  constructor
  · rintro a rfl
    obtain rfl : x = pure (f a) := h
    exact s.record_ofExcept _
  · rintro e rfl
    obtain rfl : x = .fail e := h
    exact s.record_ofExcept _

namespace Session
variable {s : Session} {subject : Value}

/-- What an idle run finds, a session answers over each text of that length, and it stays as it
is. -/
theorem run_of_idleRun (hsize : subject.size? = some s.text.length) (g : Grammar)
    (depth position : Int) (nested : Bool) :
    (∀ passed, g.idleRun subject s.limit depth position nested = .ok passed →
      s.run g depth position nested = (s, .ok (Match.idle passed))) ∧
    ∀ e, g.idleRun subject s.limit depth position nested = .error (.fault e) →
      s.run g depth position nested = (s, .error e) :=
  (Grammar.foretells_idleRun hsize g depth position nested).record s

theorem consume_of_idle (hsize : subject.size? = some s.text.length) (v : Value)
    (depth position : Int) :
    (v.idle subject s.limit depth position = .ok () →
      s.consume v depth position = (s, .ok .empty)) ∧
    ∀ e, v.idle subject s.limit depth position = .error (.fault e) →
      s.consume v depth position = (s, .error e) :=
  have h := (Value.foretells_idle hsize v depth position).record s
  ⟨h.1 (), h.2⟩

end Session

end GreedyMatch
