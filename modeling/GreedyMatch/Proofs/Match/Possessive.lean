import GreedyMatch.Proofs.Grammar.Derivation
import GreedyMatch.Proofs.Match.Passes

/-!
# What a repetition leaves behind

A repetition is left where one more pass of it takes nothing. Whatever would make that very pass
next, a repetition of the same grammar or the grammar itself as a group, takes nothing either. If
it must not be left out, it fails, however the text goes on and whatever the repetition could have
given back. If it may be left out, it might as well not be there.
-/
namespace GreedyMatch
variable {text : Text} {limit : Option Int} {depth position : Int}

/-- Passes over the grammar take nothing at the position. -/
def Grammar.Exhausted (text : Text) (limit : Option Int) (X : Grammar) (depth position : Int) :
    Prop :=
  Chain text.length (X.run text limit (depth + 1)) position 0

namespace Chain
variable {size : Nat} {pass : Int → Attempt (Option Match)} {cursor : Int} {n : Nat}

theorem extent_eq_zero {r : Option Match} (h : Chain size pass cursor n) (hn : n = 0)
    (hc : cursor < size) (hr : (pass cursor).result = .ok r) : Match.extent r = 0 := by
  cases h with
  | used h => omega
  | stalled h hr' h0 =>
    rw [hr] at hr'
    cases hr'
    exact h0
  | onward h hr' hm rest => omega

theorem reached_stop_le (h : Chain size pass cursor n) :
    (passes size pass (cursor + n)).reached ≤ (passes size pass cursor).reached := by
  induction h with
  | used h => simp
  | stalled h hr h0 => simp
  | @onward cursor m n h hr hm rest ih =>
    have hm' : 0 < Match.extent (some m) := hm
    have hreached : (passes size pass cursor).reached =
        max (pass cursor).reached (passes size pass (cursor + m.length)).reached := by
      rw [passes, if_pos h, Attempt.reached_bind_of_ok _ hr, if_pos hm', Attempt.reached_bind_pure]
      rfl
    rw [Nat.cast_add, ← Int.add_assoc, hreached]
    exact ih.trans (Nat.le_max_right _ _)

end Chain

/-- Of two ways to go on that come to the same it makes no difference if one gets further than the
other, but no further than the run before them. -/
theorem Attempt.followedBy_eq_of_max_reached {x : Attempt (Option Match)}
    {next next' : Int → Attempt (Option Match)}
    (h : ∀ m, x.result = .ok (some m) →
      (next (position + m.length)).result = (next' (position + m.length)).result ∧
        max x.reached (next (position + m.length)).reached =
          max x.reached (next' (position + m.length)).reached) :
    x.followedBy next position = x.followedBy next' position := by
  rcases x with ⟨r, fault | _ | m⟩
  · rfl
  · rfl
  · obtain ⟨hresult, hreached⟩ := h m rfl
    rw [followedBy_eq_of_some, followedBy_eq_of_some, hresult]
    exact congrArg (Attempt.mk · _) hreached

theorem Attempt.empty_followedBy_of_reached (r : Nat) (next : Int → Attempt (Option Match)) :
    followedBy ⟨r, .ok (some .empty)⟩ next position =
      ⟨max r (next position).reached, (next position).result⟩ := by
  have hstay : position + ((Match.empty.length : Nat) : Int) = position := Int.add_zero position
  rw [followedBy_eq_of_some, hstay]
  cases (next position).result with
  | error fault => rfl
  | ok o => rw [Except.map, map_empty_append]

namespace Component
variable {X : Grammar} {R c : Component} {m : Match}

theorem consume_of_repetition (hR : R ∈ [zeroOrMore X, oneOrMore X]) :
    R.consume text limit depth position = (zeroOrMore X).consume text limit depth position := by
  rw [List.mem_pair] at hR
  rcases hR with rfl | rfl <;> rfl

theorem Advances.exists_consume (h : c.Advances text limit depth position m) :
    ∃ k, (c.consume text limit depth position).result = .ok k ∧ k.length = m.length := by
  cases h with
  | taking h hm => exact ⟨m, h, rfl⟩
  | @skipping k h hm hn => exact ⟨k, h, hm⟩

/-- Where a walk gets past a repetition no more is to be had. -/
theorem Advances.exhausted (hR : R ∈ [zeroOrMore X, oneOrMore X])
    (h : R.Advances text limit depth position m) :
    X.Exhausted text limit depth (position + m.length) := by
  obtain ⟨k, hk, heq⟩ := h.exists_consume
  rw [consume_of_repetition hR] at hk
  obtain ⟨n, hn, rfl⟩ := consume_zeroOrMore_eq_ok_iff.1 hk
  rw [← heq, Match.length_merged]
  exact hn.at_stop

theorem Advances.reached_stop_le (h : (zeroOrMore X).Advances text limit depth position m) :
    ((zeroOrMore X).consume text limit depth (position + m.length)).reached ≤
      ((zeroOrMore X).consume text limit depth position).reached := by
  obtain ⟨k, hk, heq⟩ := h.exists_consume
  obtain ⟨n, hn, rfl⟩ := consume_zeroOrMore_eq_ok_iff.1 hk
  rw [← heq, Match.length_merged, reached_consume_zeroOrMore, reached_consume_zeroOrMore]
  exact hn.reached_stop_le

theorem advances_of_step
    (h : (c.step text limit depth position).result = .ok (some m)) :
    c.Advances text limit depth position m := by
  rcases hc : c.consume text limit depth position with ⟨r, fault | k⟩
  · rw [step, Attempt.result_bind_of_error _ (congrArg Attempt.result hc)] at h
    cases h
  · by_cases h0 : 0 < k.length
    · rw [step_of_taking hc h0] at h
      cases h
      exact .taking (congrArg Attempt.result hc) h0
    · rw [step_of_not_taking hc (by omega)] at h
      rcases hn : c.nullable limit depth with fault | _ | _ <;> rw [hn] at h <;> cases h
      exact .skipping (congrArg Attempt.result hc) (by omega) hn

theorem reached_consume_le_step (c : Component) :
    (c.consume text limit depth position).reached ≤ (c.step text limit depth position).reached :=
  Attempt.reached_le_reached_bind _ _

end Component

namespace Grammar
variable {X h : Grammar} {c c' : Component} {m : Match}

/-- Whatever limit and depth it is asked at, nullability gives one answer if any. -/
theorem nullable_unique {limit' : Option Int} {depth' : Int} {bare bare' : Bool}
    (h : nullable limit X depth = .ok bare) (h' : nullable limit' X depth' = .ok bare') :
    bare = bare' := by
  have hbare := Inherited.nullableExact.grammar X limit depth bare h
  have hbare' := Inherited.nullableExact.grammar X limit' depth' bare' h'
  cases bare <;> cases bare'
  · rfl
  · exact absurd ⟨[], hbare'⟩ hbare
  · exact absurd ⟨[], hbare⟩ hbare'
  · rfl

namespace Exhausted

theorem extent_eq_zero (h : X.Exhausted text limit depth position) {r : Option Match}
    (hr : (X.run text limit (depth + 1) position).result = .ok r) : Match.extent r = 0 := by
  by_cases hp : position < text.length
  · exact Chain.extent_eq_zero h rfl hp hr
  · have hstop := (X.covering text limit).stop_extent_le hr
    omega

theorem consume_eq (h : X.Exhausted text limit depth position) :
    ((Component.zeroOrMore X).consume text limit depth position).result = .ok .empty :=
  Component.consume_zeroOrMore_eq_ok_iff.2 ⟨0, h, rfl⟩

theorem not_advances_oneOrMore (h : X.Exhausted text limit depth position) :
    ¬ (Component.oneOrMore X).Advances text limit depth position m := by
  intro hm
  cases hm with
  | taking hm h0 =>
    rw [Component.consume_oneOrMore, h.consume_eq] at hm
    cases hm
    cases h0
  | skipping hm h0 hn => cases hn

theorem not_advances_group (h : X.Exhausted text limit depth position)
    (hn : (Component.group X).nullable limit depth ≠ .ok true) :
    ¬ (Component.group X).Advances text limit depth position m := by
  intro hm
  cases hm with
  | taking hm h0 =>
    obtain ⟨r, hr, rfl⟩ := Component.consume_group_eq_ok_iff.1 hm
    have hzero := h.extent_eq_zero hr
    cases r with
    | none => cases h0
    | some m => exact absurd hzero (Nat.ne_of_gt h0)
  | skipping hm h0 hbare => exact hn hbare

end Exhausted

theorem walk_of_exhausted (hX : X.Exhausted text limit depth position) :
    walk text limit (.zeroOrMore X :: h) depth position =
      ⟨max ((Component.zeroOrMore X).consume text limit depth position).reached
          (walk text limit h depth position).reached,
        (walk text limit h depth position).result⟩ := by
  by_cases hp : position = text.length
  · subst hp
    have hnullable : nullable limit (.zeroOrMore X :: h) depth = nullable limit h depth := rfl
    rw [Component.reached_consume_zeroOrMore, passes_of_le _ le_rfl, walk_length, walk_length,
      hnullable]
    rfl
  · rw [walk_cons hp, Component.step_of_not_taking (congrArg (Attempt.mk _) hX.consume_eq) rfl]
    exact Attempt.empty_followedBy_of_reached _ _

/-- A repetition made once more comes to the same and gets no further. -/
theorem walk_zeroOrMore_twice (X h : Grammar) :
    walk text limit (.zeroOrMore X :: .zeroOrMore X :: h) depth position =
      walk text limit (.zeroOrMore X :: h) depth position := by
  by_cases hp : position = text.length
  · subst hp
    rw [walk_length, walk_length]
    rfl
  · rw [walk_cons hp, walk_cons hp]
    -- The last pass is made once more, so going on from here is not the same: it reaches as far as
    -- that pass does, wherever that is.
    apply Attempt.followedBy_eq_of_max_reached
    intro m hm
    have hadv := Component.advances_of_step hm
    have hreached := hadv.reached_stop_le.trans (Component.reached_consume_le_step _)
    rw [walk_of_exhausted (hadv.exhausted (List.mem_cons_self ..)), ← max_assoc, max_eq_left hreached]
    exact ⟨rfl, rfl⟩

theorem run_zeroOrMore_twice (X h : Grammar) :
    run text limit (.zeroOrMore X :: .zeroOrMore X :: h) depth position =
      run text limit (.zeroOrMore X :: h) depth position := by
  rw [run, run, guarded, guarded, walk_zeroOrMore_twice]

/-- A walk does not succeed if, wherever it gets past the first component, it does not get past the
second one. -/
theorem walk_ne_some_of_not_advances (hn : c'.nullable limit depth ≠ .ok true)
    (hblock : ∀ k l, c.Advances text limit depth position k →
      ¬ c'.Advances text limit depth (position + k.length) l) :
    (walk text limit (c :: c' :: h) depth position).result ≠ .ok (some m) := by
  intro hw
  rcases walk_cons_eq_some_iff.1 hw with ⟨-, hbare, -⟩ | ⟨-, k, l, hk, hrest, -⟩
  · exact hn (nullable_cons_eq_true_iff.1 (nullable_cons_eq_true_iff.1 hbare).2).1
  · rcases walk_cons_eq_some_iff.1 hrest with ⟨-, hbare, -⟩ | ⟨-, k', l', hk', -, -⟩
    · exact hn (nullable_cons_eq_true_iff.1 hbare).1
    · exact hblock k k' hk hk'

theorem run_ne_some_of_not_advances (hn : c'.nullable limit depth ≠ .ok true)
    (hblock : ∀ k l, c.Advances text limit depth position k →
      ¬ c'.Advances text limit depth (position + k.length) l) :
    (run text limit (c :: c' :: h) depth position).result ≠ .ok (some m) := fun hrun =>
  walk_ne_some_of_not_advances hn hblock (run_eq_ok_iff.1 hrun).2

theorem nullable_group_ne_true {limit' : Option Int} {depth' : Int}
    (h : nullable limit' X depth' = .ok false) :
    (Component.group X).nullable limit depth ≠ .ok true := by
  intro hn
  rw [Component.nullable] at hn
  cases ha : allow limit (depth + 1) with
  | error fault => simp [ha] at hn
  | ok u =>
    rw [ha] at hn
    cases nullable_unique h hn

end Grammar

/-- A repetition never gives anything back: behind it neither a further one that must not be left
out nor its grammar as a group succeeds, and one that may be left out changes nothing. -/
theorem repetitions_give_nothing_back (s : Session) (X h : Grammar) (depth position : Int)
    (nested : Bool) :
    (∀ R ∈ [Component.zeroOrMore X, .oneOrMore X], ∀ m,
      (s.run ([R, .oneOrMore X] ++ h) depth position nested).2 ≠ .ok (some m)) ∧
    (∀ limit depth', Grammar.nullable limit X depth' = .ok false →
      ∀ R ∈ [Component.zeroOrMore X, .oneOrMore X], ∀ m,
        (s.run ([R, .group X] ++ h) depth position nested).2 ≠ .ok (some m)) ∧
    s.run ([.zeroOrMore X, .zeroOrMore X] ++ h) depth position nested =
      s.run ([.zeroOrMore X] ++ h) depth position nested := by
  refine ⟨?_, ?_, ?_⟩
  · intro R hR m hrun
    obtain ⟨hrun, -⟩ := Session.run_eq_some_iff.1 hrun
    refine Grammar.run_ne_some_of_not_advances (by intro hn; cases hn) ?_ hrun
    intro k l hk
    exact (hk.exhausted hR).not_advances_oneOrMore
  · intro limit depth' hX R hR m hrun
    obtain ⟨hrun, -⟩ := Session.run_eq_some_iff.1 hrun
    refine Grammar.run_ne_some_of_not_advances (Grammar.nullable_group_ne_true hX) ?_ hrun
    intro k l hk
    exact (hk.exhausted hR).not_advances_group (Grammar.nullable_group_ne_true hX)
  · have htwice : s.run (.zeroOrMore X :: .zeroOrMore X :: h) depth position nested =
        s.run (.zeroOrMore X :: h) depth position nested := by
      rw [Session.run, Session.run, Grammar.runWhole, Grammar.runWhole,
        Grammar.run_zeroOrMore_twice]
    exact htwice

theorem repetitions_give_nothing_back_aba :
    Grammar.nullable (some 100) [.literal ⟨'a', []⟩, .zeroOrOne [.literal ⟨'b', []⟩]] 0 =
      .ok false ∧
    (∀ m, ((Session.start "aba".toList (some 3)).run
      ([.zeroOrMore [.literal ⟨'a', []⟩, .zeroOrOne [.literal ⟨'b', []⟩]],
        .oneOrMore [.literal ⟨'a', []⟩, .zeroOrOne [.literal ⟨'b', []⟩]]] ++ []) 0 0 true).2 ≠
        .ok (some m)) ∧
    (∀ m, ((Session.start "aba".toList (some 3)).run
      ([.oneOrMore [.literal ⟨'a', []⟩, .zeroOrOne [.literal ⟨'b', []⟩]],
        .group [.literal ⟨'a', []⟩, .zeroOrOne [.literal ⟨'b', []⟩]]] ++ []) 0 0 true).2 ≠
        .ok (some m)) ∧
    ((Session.start "aba".toList (some 3)).run
      ([.zeroOrMore [.literal ⟨'a', []⟩, .zeroOrOne [.literal ⟨'b', []⟩]],
        .zeroOrMore [.literal ⟨'a', []⟩, .zeroOrOne [.literal ⟨'b', []⟩]]] ++ []) 0 0 true).2 =
        .ok (some ⟨3, ["aba".toList]⟩) := by
  obtain ⟨hplus, hgroup, htwice⟩ := repetitions_give_nothing_back
    (Session.start "aba".toList (some 3)) [.literal ⟨'a', []⟩, .zeroOrOne [.literal ⟨'b', []⟩]]
    [] 0 0 true
  have hn : Grammar.nullable (some 100)
      [.literal ⟨'a', []⟩, .zeroOrOne [.literal ⟨'b', []⟩]] 0 = .ok false := rfl
  refine ⟨hn, hplus _ (.head _), hgroup (some 100) 0 hn _ (.tail _ (.head _)), ?_⟩
  rw [htwice]
  cbv

end GreedyMatch
