import GreedyMatch.Proofs.Match.Place
import Mathlib.Order.Bounds.Basic

/-!
# How far a run reaches

The furthest position of a run is the greatest one at which a step that takes something
ends, at any of the places that the run comes to. It makes no difference whether the step
is part of the match or of a branch that was given up, nor how the run ends.
-/
namespace GreedyMatch
variable {text : Text} {limit : Option Int} {depth cursor stop : Int}

/-- At the place the run takes something, and it ends at the position. -/
inductive Place.Takes (text : Text) (limit : Option Int) : Place → Int → Prop
  | intro {c : Component} {cs : Grammar} {depth cursor : Int} {m : Match} (hp : cursor ≠ text.length)
      (h : (c.consume text limit depth cursor).result = .ok m) (h0 : 0 < m.length) :
      Takes text limit ⟨c :: cs, depth, cursor⟩ (cursor + m.length)

/-- Somewhere on its way from the place the run takes something, and gets as far as this. -/
def Place.Attains (text : Text) (limit : Option Int) (P : Place) (n : Nat) : Prop :=
  ∃ Q stop, Relation.ReflTransGen (Place.Step text limit) P Q ∧ Q.Takes text limit stop ∧
    stop.toNat = n

/-! ### No step gets further -/

theorem PassAt.reached_le {size : Nat} {pass : Int → Attempt (Option Match)} {p : Int}
    (h : PassAt size pass cursor p) : (pass p).reached ≤ (passes size pass cursor).reached := by
  induction h with
  | here h =>
    rw [passes, if_pos h]
    exact Attempt.reached_le_reached_bind _ _
  | @onward cursor p m h hr hm rest ih =>
    have hm' : 0 < Match.extent (some m) := hm
    rw [passes, if_pos h, Attempt.reached_bind_of_ok _ hr, if_pos hm', Attempt.reached_bind_pure]
    exact ih.trans (Nat.le_max_right _ _)

namespace Component
variable {inner left right g : Grammar} {p : Int}

theorem reached_consume_zeroOrMore :
    ((zeroOrMore inner).consume text limit depth cursor).reached =
      (passes text.length (inner.run text limit (depth + 1)) cursor).reached :=
  Attempt.reached_bind_pure _ _

theorem reached_consume_zeroOrOne :
    ((zeroOrOne inner).consume text limit depth cursor).reached =
      (inner.run text limit (depth + 1) cursor).reached :=
  Attempt.reached_bind_pure _ _

theorem reached_consume_group :
    ((group inner).consume text limit depth cursor).reached =
      (inner.run text limit (depth + 1) cursor).reached :=
  Attempt.reached_bind_pure _ _

/-- A left branch that takes nothing counts all the same. -/
theorem reached_consume_alternation {r : Option Match}
    (hr : (left.run text limit (depth + 1) cursor).result = .ok r) (h0 : Match.extent r = 0) :
    ((alternation left right).consume text limit depth cursor).reached =
      max (left.run text limit (depth + 1) cursor).reached
        (right.run text limit (depth + 1) cursor).reached := by
  rw [consume_alternation, Attempt.reached_bind_of_ok _ hr, if_neg (by omega),
    Attempt.reached_bind_pure]

theorem Enters.reached_le {c : Component} (h : c.Enters text limit depth cursor g p) :
    (g.run text limit (depth + 1) p).reached ≤ (c.consume text limit depth cursor).reached := by
  cases h with
  | zeroOrMore h => exact h.reached_le.trans_eq reached_consume_zeroOrMore.symm
  | oneOrMore h => exact h.reached_le.trans_eq reached_consume_zeroOrMore.symm
  | zeroOrOne => exact reached_consume_zeroOrOne.ge
  | group => exact reached_consume_group.ge
  | left => exact Attempt.reached_le_reached_bind _ _
  | right hr h0 =>
    rw [reached_consume_alternation hr h0]
    exact Nat.le_max_right _ _

end Component

namespace Grammar
variable {c : Component} {cs g : Grammar} {m : Match}

theorem reached_run_of_allow (h : allow limit depth = .ok ()) :
    (run text limit g depth cursor).reached = (walk text limit g depth cursor).reached := by
  rw [run, guarded, h]

theorem reached_run_of_not_allow {fault : Fault} (h : allow limit depth = .error fault) :
    (run text limit g depth cursor).reached = 0 := by
  rw [run, guarded, h]
  rfl

theorem reached_consume_le_walk (hp : cursor ≠ text.length) :
    (c.consume text limit depth cursor).reached ≤
      (walk text limit (c :: cs) depth cursor).reached := by
  rw [walk, if_neg hp]
  exact Attempt.reached_le_reached_bind _ _

theorem reached_walk_of_error {fault : Fault} (hp : cursor ≠ text.length)
    (h : (c.consume text limit depth cursor).result = .error fault) :
    (walk text limit (c :: cs) depth cursor).reached =
      (c.consume text limit depth cursor).reached := by
  rw [walk, if_neg hp, Attempt.reached_bind_of_error _ h]

theorem reached_walk_of_taking (hp : cursor ≠ text.length)
    (h : (c.consume text limit depth cursor).result = .ok m) (h0 : 0 < m.length) :
    (walk text limit (c :: cs) depth cursor).reached =
      max (max (c.consume text limit depth cursor).reached (cursor + m.length).toNat)
        (walk text limit cs depth (cursor + m.length)).reached := by
  rw [walk_cons hp, Component.step_of_taking (congrArg (Attempt.mk _) h) h0,
    Attempt.followedBy_eq_of_some]

theorem reached_walk_of_skipping (hp : cursor ≠ text.length)
    (h : (c.consume text limit depth cursor).result = .ok m) (h0 : m.length = 0)
    (hn : c.nullable limit depth = .ok true) :
    (walk text limit (c :: cs) depth cursor).reached =
      max (c.consume text limit depth cursor).reached (walk text limit cs depth cursor).reached := by
  have hstay : cursor + ((Match.empty.length : Nat) : Int) = cursor := Int.add_zero cursor
  have hstep : c.step text limit depth cursor =
      ⟨(c.consume text limit depth cursor).reached, .ok (some .empty)⟩ := by
    rw [Component.step_of_not_taking (congrArg (Attempt.mk _) h) h0, hn]
    rfl
  rw [walk_cons hp, hstep, Attempt.followedBy_eq_of_some, hstay]

theorem reached_walk_of_stuck (hp : cursor ≠ text.length)
    (h : (c.consume text limit depth cursor).result = .ok m) (h0 : m.length = 0)
    (hn : c.nullable limit depth ≠ .ok true) :
    (walk text limit (c :: cs) depth cursor).reached =
      (c.consume text limit depth cursor).reached := by
  rw [walk_cons hp, Component.step_of_not_taking (congrArg (Attempt.mk _) h) h0]
  rcases hc : c.nullable limit depth with fault | _ | _
  · rfl
  · exact Nat.max_zero _
  · exact absurd hc hn

end Grammar

namespace Place
variable {P Q : Place} {n : Nat}

theorem Takes.toNat_le_reached (h : P.Takes text limit stop) :
    stop.toNat ≤ (P.walk text limit).reached := by
  obtain ⟨hp, h, h0⟩ := h
  rw [walk, Grammar.reached_walk_of_taking hp h h0]
  exact (Nat.le_max_right _ _).trans (Nat.le_max_left _ _)

theorem Step.reached_le (h : P.Step text limit Q) :
    (Q.walk text limit).reached ≤ (P.walk text limit).reached := by
  cases h with
  | @past c cs depth cursor m hp h =>
    cases h with
    | taking h h0 =>
      exact (Nat.le_max_right _ _).trans_eq (Grammar.reached_walk_of_taking hp h h0).symm
    | skipping h h0 hn =>
      have hstay : cursor + ((Match.empty.length : Nat) : Int) = cursor := Int.add_zero cursor
      rw [hstay]
      exact (Nat.le_max_right _ _).trans_eq (Grammar.reached_walk_of_skipping hp h h0 hn).symm
  | enter hp h hallow =>
    exact (Grammar.reached_run_of_allow hallow).ge.trans
      (h.reached_le.trans (Grammar.reached_consume_le_walk hp))

theorem Attains.le_reached (h : P.Attains text limit n) : n ≤ (P.walk text limit).reached := by
  obtain ⟨Q, stop, hQ, hstop, rfl⟩ := h
  induction hQ using Relation.ReflTransGen.head_induction_on with
  | refl => exact hstop.toNat_le_reached
  | head hstep _ ih => exact ih.trans hstep.reached_le

theorem Step.attains (h : P.Step text limit Q) (hQ : Q.Attains text limit n) :
    P.Attains text limit n := by
  obtain ⟨R, stop, hR, hstop⟩ := hQ
  exact ⟨R, stop, .head h hR, hstop⟩

end Place

/-! ### Some step gets as far -/

/-- Passes reach no further than one of them does. -/
theorem passes_reached_cases (size : Nat) (pass : Int → Attempt (Option Match)) (cursor : Int) :
    (passes size pass cursor).reached = 0 ∨
      ∃ p, PassAt size pass cursor p ∧ (passes size pass cursor).reached = (pass p).reached := by
  fun_induction passes size pass cursor with
  | case1 cursor hc ih =>
    cases hr : (pass cursor).result with
    | error fault => exact .inr ⟨cursor, .here hc, Attempt.reached_bind_of_error _ hr⟩
    | ok r =>
      rw [Attempt.reached_bind_of_ok _ hr]
      by_cases h0 : 0 < Match.extent r
      · rw [if_pos h0, Attempt.reached_bind_pure]
        cases r with
        | none => cases h0
        | some m =>
          -- Either this pass got further than those behind it, or one of those did.
          rcases Nat.le_total (passes size pass (cursor + m.length)).reached (pass cursor).reached
            with hle | hle
          · exact .inr ⟨cursor, .here hc, Nat.max_eq_left hle⟩
          · rcases ih (some m) h0 with hzero | ⟨p, hpass, hreached⟩
            · exact .inr ⟨cursor, .here hc, Nat.max_eq_left (hzero.le.trans (Nat.zero_le _))⟩
            · exact .inr ⟨p, .onward hc hr h0 hpass, (Nat.max_eq_right hle).trans hreached⟩
      · rw [if_neg h0]
        exact .inr ⟨cursor, .here hc, Nat.max_zero _⟩
  | case2 cursor hc => exact .inl rfl

theorem Component.reached_consume_cases (c : Component) :
    (c.consume text limit depth cursor).reached = 0 ∨
      ∃ g p, c.Enters text limit depth cursor g p ∧
        (c.consume text limit depth cursor).reached = (g.run text limit (depth + 1) p).reached := by
  cases c with
  | literal w =>
    rw [consume_literal]
    exact .inl rfl
  | classified w kind =>
    rw [consume_classified]
    exact .inl rfl
  | zeroOrMore inner =>
    rw [reached_consume_zeroOrMore]
    refine (passes_reached_cases _ _ _).imp_right ?_
    rintro ⟨p, hpass, hreached⟩
    exact ⟨inner, p, .zeroOrMore hpass, hreached⟩
  | oneOrMore inner =>
    rw [consume_oneOrMore, reached_consume_zeroOrMore]
    refine (passes_reached_cases _ _ _).imp_right ?_
    rintro ⟨p, hpass, hreached⟩
    exact ⟨inner, p, .oneOrMore hpass, hreached⟩
  | zeroOrOne inner => exact .inr ⟨inner, cursor, .zeroOrOne, reached_consume_zeroOrOne⟩
  | group inner => exact .inr ⟨inner, cursor, .group, reached_consume_group⟩
  | alternation left right =>
    right
    cases hr : (Grammar.run text limit left (depth + 1) cursor).result with
    | error fault => exact ⟨left, cursor, .left, Attempt.reached_bind_of_error _ hr⟩
    | ok r =>
      by_cases h0 : 0 < Match.extent r
      · refine ⟨left, cursor, .left, ?_⟩
        rw [consume_alternation, Attempt.reached_bind_of_ok _ hr, if_pos h0]
        exact Nat.max_zero _
      · have h0 := Nat.eq_zero_of_not_pos h0
        rw [reached_consume_alternation hr h0]
        rcases Nat.le_total (Grammar.run text limit right (depth + 1) cursor).reached
          (Grammar.run text limit left (depth + 1) cursor).reached with hle | hle
        · exact ⟨left, cursor, .left, Nat.max_eq_left hle⟩
        · exact ⟨right, cursor, .right hr h0, Nat.max_eq_right hle⟩
  | unknown cls payload =>
    rw [consume_unknown]
    exact .inl rfl

/-- A walk of the grammar that reaches anything gets as far by taking something. -/
def Grammar.Attained (text : Text) (limit : Option Int) (g : Grammar) : Prop :=
  ∀ depth cursor, (walk text limit g depth cursor).reached = 0 ∨
    Place.Attains text limit ⟨g, depth, cursor⟩ (walk text limit g depth cursor).reached

def Component.Attained (text : Text) (limit : Option Int) (c : Component) : Prop :=
  ∀ depth cursor g p, c.Enters text limit depth cursor g p → g.Attained text limit

namespace Grammar.Attained
variable {c : Component} {g : Grammar}

theorem consume (hc : c.Attained text limit) (g : Grammar) (depth : Int)
    (hp : cursor ≠ text.length) :
    (c.consume text limit depth cursor).reached = 0 ∨
      Place.Attains text limit ⟨c :: g, depth, cursor⟩
        (c.consume text limit depth cursor).reached := by
  rcases c.reached_consume_cases with hzero | ⟨g', p, henter, hreached⟩
  · exact .inl hzero
  · rw [hreached]
    cases hallow : allow limit (depth + 1) with
    | error fault => exact .inl (reached_run_of_not_allow hallow)
    | ok u =>
      rw [reached_run_of_allow hallow]
      exact (hc depth cursor g' p henter (depth + 1) p).imp_right
        (Place.Step.enter hp henter hallow).attains

theorem max {P : Place} {m n : Nat} (hm : m = 0 ∨ P.Attains text limit m)
    (hn : n = 0 ∨ P.Attains text limit n) : max m n = 0 ∨ P.Attains text limit (max m n) := by
  rcases Nat.le_total n m with hle | hle
  · rwa [Nat.max_eq_left hle]
  · rwa [Nat.max_eq_right hle]

theorem cons (hc : c.Attained text limit) (hg : g.Attained text limit) :
    Grammar.Attained text limit (c :: g) := by
  intro depth cursor
  by_cases hp : cursor = text.length
  · subst hp
    rw [walk_length]
    exact .inl rfl
  · have hfirst := consume hc g depth hp
    cases h : (c.consume text limit depth cursor).result with
    | error fault => rwa [reached_walk_of_error hp h]
    | ok m =>
      by_cases h0 : 0 < m.length
      · -- Three things count: the runs inside of the component, its end, and what comes behind.
        rw [reached_walk_of_taking hp h h0]
        refine max (max hfirst (.inr ⟨_, _, .refl, .intro hp h h0, rfl⟩)) ?_
        exact (hg depth (cursor + m.length)).imp_right
          (Place.Step.past hp (.taking h h0)).attains
      · have h0 := Nat.eq_zero_of_not_pos h0
        by_cases hn : c.nullable limit depth = .ok true
        · have hstay : cursor + ((Match.empty.length : Nat) : Int) = cursor := Int.add_zero cursor
          have hpast : Place.Step text limit ⟨c :: g, depth, cursor⟩ ⟨g, depth, cursor⟩ := by
            simpa only [hstay] using Place.Step.past hp (.skipping h h0 hn)
          rw [reached_walk_of_skipping hp h h0 hn]
          exact max hfirst ((hg depth cursor).imp_right hpast.attains)
        · rwa [reached_walk_of_stuck hp h h0 hn]

end Grammar.Attained

theorem Inherited.attained (text : Text) (limit : Option Int) :
    Inherited (Component.Attained text limit) (Grammar.Attained text limit) := by
  refine .ofEnters ?_ fun hc hg => Grammar.Attained.cons hc hg
  intro depth cursor
  rw [Grammar.walk_nil]
  exact .inl rfl

/-- A walk reaches the furthest position to which a step on its way takes it. -/
theorem Place.isGreatest_reached (P : Place) :
    IsGreatest {n | n = 0 ∨ P.Attains text limit n} (P.walk text limit).reached := by
  refine ⟨(Inherited.attained text limit).grammar P.rest P.depth P.cursor, ?_⟩
  rintro n (rfl | h)
  · exact Nat.zero_le _
  · exact h.le_reached

end GreedyMatch
