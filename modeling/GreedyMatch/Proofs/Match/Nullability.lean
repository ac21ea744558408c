import GreedyMatch.Proofs.Match.Outcome
import Mathlib.Tactic

/-!
# Nullability and runs

Nullability never looks inside repetitions and alternations, a run does. They agree all
the same: what a run can leave out is nullable, a nullable grammar never fails, and at
the end of the text the two give one answer.
-/
namespace GreedyMatch
variable {text : Text} {limit : Option Int} {depth position : Int}

theorem Component.Advances.nullable {c : Component} {m : Match}
    (h : c.Advances text limit depth position m) (h0 : m.length = 0) :
    c.nullable limit depth = .ok true := by
  cases h with
  | taking h hm => omega
  | skipping h hm hn => exact hn

namespace Grammar
variable {g : Grammar}

/-- A walk that takes nothing asked of each component whether it may be left out. -/
theorem nullable_of_walk {m : Match} (h : (walk text limit g depth position).result = .ok (some m))
    (h0 : m.length = 0) : nullable limit g depth = .ok true := by
  induction g generalizing position m with
  | nil => rfl
  | cons c cs ih =>
    rcases walk_cons_eq_some_iff.1 h with ⟨-, hbare, -⟩ | ⟨-, k, l, hk, hrest, rfl⟩
    · exact hbare
    · rw [Match.length_append] at h0
      exact nullable_cons_eq_true_iff.2 ⟨hk.nullable (by omega), ih hrest (by omega)⟩

theorem walk_ne_none (h : nullable limit g depth = .ok true) :
    (walk text limit g depth position).result ≠ .ok none := by
  induction g generalizing position with
  | nil => simp [walk_nil]
  | cons c cs ih =>
    intro hw
    by_cases hp : position = text.length
    · subst hp
      obtain ⟨bare, hbare, hnone⟩ := walk_at_end_eq_ok_iff.1 hw
      rw [h] at hbare
      cases hbare
      cases hnone
    · obtain ⟨hc, hcs⟩ := nullable_cons_eq_true_iff.1 h
      rcases (walk_cons_eq_ok_iff hp).1 hw with ⟨⟨-, hstuck⟩, -⟩ | ⟨k, rest, hk, hrest, hnone⟩
      · rw [hc] at hstuck
        cases hstuck
      · cases rest with
        | none => exact ih hcs hrest
        | some l => cases hnone

theorem run_of_le {n : Int} (hd : depth ≤ n) :
    run text (some n) g depth position = walk text (some n) g depth position := by
  unfold run guarded
  rw [allow_of_le hd]

theorem run_at_end {n : Int} (hd : depth ≤ n) :
    (run text (some n) g depth text.length).result =
      (nullable (some n) g depth).map fun bare => if bare then some .empty else none := by
  rw [run_of_le hd, walk_at_end]

/-- What is left of the text there is nothing, so a run that has to use it up does no more
than a nested one. -/
theorem runWhole_at_end {n : Int} (hd : depth ≤ n) :
    (runWhole text (some n) g depth text.length).result =
      (nullable (some n) g depth).map fun bare => if bare then some .empty else none := by
  have hrun : (run text (some n) g depth text.length).result = _ := run_at_end hd
  rw [runWhole]
  rcases hn : nullable (some n) g depth with fault | _ | _ <;> rw [hn] at hrun
  · exact Attempt.result_bind_of_error _ hrun
  · exact Attempt.result_bind_of_ok _ hrun
  · rw [Attempt.result_bind_of_ok _ hrun]
    simp [Match.empty, Except.map]

end Grammar

/-- Nullability and runs agree on what may be left out, and they fail alike at the end. -/
theorem nullable_agrees_with_runs (g : Grammar) {depth n : Int} (hd : depth ≤ n) :
    (∀ text position m, (g.run text (some n) depth position).result = .ok (some m) →
      position + m.length = position → Grammar.nullable (some n) g depth = .ok true) ∧
    (Grammar.nullable (some n) g depth = .ok true →
      ∀ text position, (g.run text (some n) depth position).result ≠ .ok none) ∧
    (∀ text : Text,
      (g.run text (some n) depth text.length).result =
        (Grammar.nullable (some n) g depth).map (fun bare => if bare then some .empty else none) ∧
      (g.runWhole text (some n) depth text.length).result =
        (Grammar.nullable (some n) g depth).map fun bare => if bare then some .empty else none) ∧
    Grammar.isMatch [] g = Grammar.nullable (some defaultLimit) g 0 := by
  refine ⟨?_, ?_, ?_, ?_⟩
  · intro text position m h h0
    rw [Grammar.run_of_le hd] at h
    exact Grammar.nullable_of_walk h (by omega)
  · intro hn text position
    rw [Grammar.run_of_le hd]
    exact Grammar.walk_ne_none hn
  · intro text
    exact ⟨Grammar.run_at_end hd, Grammar.runWhole_at_end hd⟩
  · have hlimit : 0 ≤ defaultLimit := by decide
    change (Grammar.runWhole [] (some defaultLimit) g 0 (([] : Text).length : Int)).result.map
      Option.isSome = _
    rw [Grammar.runWhole_at_end hlimit]
    rcases Grammar.nullable (some defaultLimit) g 0 with fault | _ | _ <;> rfl

theorem nullable_agrees_with_runs_group :
    (0 : Int) ≤ 2 ∧
    (Grammar.run ['b'] (some 2) [.group [.zeroOrMore [.literal ⟨'a', []⟩]]] 0 0).result =
      .ok (some .empty) ∧
    Grammar.nullable (some 2) [.group [.zeroOrMore [.literal ⟨'a', []⟩]]] 0 = .ok true ∧
    (∀ text position, (Grammar.run text (some 2) [.group [.zeroOrMore [.literal ⟨'a', []⟩]]]
      0 position).result ≠ .ok none) ∧
    (Grammar.runWhole "ab".toList (some 2) [.group [.zeroOrMore [.literal ⟨'a', []⟩]]] 0 2).result =
      .ok (some .empty) := by
  have hd : (0 : Int) ≤ 2 := by decide
  have hrun : (Grammar.run ['b'] (some 2) [.group [.zeroOrMore [.literal ⟨'a', []⟩]]] 0 0).result =
      .ok (some .empty) := by cbv
  have hall := nullable_agrees_with_runs [.group [.zeroOrMore [.literal ⟨'a', []⟩]]] hd
  have hn := hall.1 ['b'] 0 .empty hrun rfl
  refine ⟨hd, hrun, hn, hall.2.1 hn, ?_⟩
  have hend := (hall.2.2.1 "ab".toList).2
  rw [hn] at hend
  exact hend

end GreedyMatch
