import GreedyMatch.Proofs.Grammar.Shape
import GreedyMatch.Proofs.Match.Outcome

/-!
# Runs within the limit

A grammar of known components that nests no deeper than the limit allows meets no fault:
its nullability is decided, and a run of it comes to an end at any position of any text.
-/
namespace GreedyMatch
variable {text : Text} {n depth position : Int}

def Component.Decided (n : Int) (c : Component) : Prop :=
  c.isKnown = true → ∀ depth : Int, depth + c.height ≤ n →
    ∃ bare, c.nullable (some n) depth = .ok bare

def Grammar.Decided (n : Int) (g : Grammar) : Prop :=
  g.isKnown = true → ∀ depth : Int, depth + g.height ≤ n →
    ∃ bare, Grammar.nullable (some n) g depth = .ok bare

theorem Grammar.Decided.group {g : Grammar} (hg : g.Decided n) : (Component.group g).Decided n := by
  intro hk depth hd
  rw [Component.height] at hd
  rw [Component.nullable, allow_of_le (by omega)]
  exact hg hk (depth + 1) (by omega)

theorem Grammar.Decided.cons {c : Component} {g : Grammar} (hc : c.Decided n) (hg : g.Decided n) :
    Grammar.Decided n (c :: g) := by
  intro hk depth hd
  rw [Grammar.isKnown, Bool.and_eq_true] at hk
  rw [Grammar.height] at hd
  obtain ⟨bare, hbare⟩ := hc hk.1 depth (by omega)
  rw [Grammar.nullable, hbare]
  cases bare with
  | true => exact hg hk.2 depth (by omega)
  | false => exact ⟨false, rfl⟩

theorem Inherited.decided (n : Int) : Inherited (Component.Decided n) (Grammar.Decided n) where
  literal _ _ _ _ := ⟨false, rfl⟩
  classified _ _ _ _ _ := ⟨false, rfl⟩
  zeroOrMore _ _ _ _ := ⟨true, rfl⟩
  oneOrMore _ _ _ _ := ⟨false, rfl⟩
  zeroOrOne _ _ _ _ := ⟨true, rfl⟩
  group hg := hg.group
  alternation _ _ _ _ _ := ⟨false, rfl⟩
  unknown _ _ hk := by cases hk
  nil _ _ _ := ⟨true, rfl⟩
  cons hc hg := hg.cons hc

/-- Passes that all come to an end do so together, since each one has to make progress. -/
theorem Chain.exists_of_returns (size : Nat) {pass : Int → Attempt (Option Match)}
    (hpass : ∀ p, ∃ r, (pass p).result = .ok r) (cursor : Int) : ∃ k, Chain size pass cursor k := by
  by_cases hc : cursor < size
  · obtain ⟨r, hr⟩ := hpass cursor
    cases r with
    | none => exact ⟨0, .stalled hc hr rfl⟩
    | some m =>
      by_cases hm : 0 < m.length
      · obtain ⟨k, hk⟩ := exists_of_returns size hpass (cursor + m.length)
        exact ⟨m.length + k, .onward hc hr hm hk⟩
      · exact ⟨0, .stalled hc hr (Nat.eq_zero_of_not_pos hm)⟩
  · exact ⟨0, .used (Int.not_lt.1 hc)⟩
termination_by (size - cursor).toNat

def Component.Returns (text : Text) (n : Int) (c : Component) : Prop :=
  c.isKnown = true → ∀ depth : Int, depth + c.height ≤ n →
    ∀ position, ∃ m, (c.consume text (some n) depth position).result = .ok m

def Grammar.Returns (text : Text) (n : Int) (g : Grammar) : Prop :=
  g.isKnown = true → ∀ depth : Int, depth + g.height ≤ n →
    ∀ position, ∃ r, (g.run text (some n) depth position).result = .ok r

namespace Grammar.Returns
variable {c : Component} {g h : Grammar}

theorem zeroOrMore (hg : g.Returns text n) : (Component.zeroOrMore g).Returns text n := by
  intro hk depth hd position
  rw [Component.height] at hd
  obtain ⟨k, hchain⟩ := Chain.exists_of_returns text.length
    (hg hk (depth + 1) (by omega)) position
  exact ⟨_, Component.consume_zeroOrMore_eq_ok_iff.2 ⟨k, hchain, rfl⟩⟩

theorem zeroOrOne (hg : g.Returns text n) : (Component.zeroOrOne g).Returns text n := by
  intro hk depth hd position
  rw [Component.height] at hd
  obtain ⟨r, hr⟩ := hg hk (depth + 1) (by omega) position
  exact ⟨_, Component.consume_zeroOrOne_eq_ok_iff.2 ⟨r, hr, rfl⟩⟩

theorem group (hg : g.Returns text n) : (Component.group g).Returns text n := by
  intro hk depth hd position
  rw [Component.height] at hd
  obtain ⟨r, hr⟩ := hg hk (depth + 1) (by omega) position
  exact ⟨_, Component.consume_group_eq_ok_iff.2 ⟨r, hr, rfl⟩⟩

theorem alternation (hg : g.Returns text n) (hh : h.Returns text n) :
    (Component.alternation g h).Returns text n := by
  intro hk depth hd position
  rw [Component.isKnown, Bool.and_eq_true] at hk
  rw [Component.height] at hd
  obtain ⟨r, hr⟩ := hg hk.1 (depth + 1) (by omega) position
  obtain ⟨r', hr'⟩ := hh hk.2 (depth + 1) (by omega) position
  by_cases h0 : 0 < Match.extent r
  · exact ⟨_, Component.consume_alternation_eq_ok_iff.2 ⟨r, hr, .inl ⟨h0, rfl⟩⟩⟩
  · exact ⟨_, Component.consume_alternation_eq_ok_iff.2
      ⟨r, hr, .inr ⟨Nat.eq_zero_of_not_pos h0, r', hr', rfl⟩⟩⟩

theorem cons (hc : c.Returns text n) (hg : g.Returns text n) : Grammar.Returns text n (c :: g) := by
  intro hk depth hd position
  obtain ⟨hkc, hkg⟩ := Bool.and_eq_true_iff.1 (show (c.isKnown && g.isKnown) = true from hk)
  have hdc : depth + c.height ≤ n ∧ depth + g.height ≤ n := by rw [Grammar.height] at hd; omega
  have hallow : allow (some n) depth = .ok () := allow_of_le (by omega)
  have hwalk (p : Int) : ∃ r, (walk text (some n) g depth p).result = .ok r := by
    obtain ⟨r, hr⟩ := hg hkg depth hdc.2 p
    exact ⟨r, (run_eq_ok_iff.1 hr).2⟩
  by_cases hp : position = text.length
  · obtain ⟨bare, hbare⟩ := (Inherited.decided n).grammar (c :: g) hk depth hd
    rw [hp]
    exact ⟨_, run_eq_ok_iff.2 ⟨hallow, walk_at_end_eq_ok_iff.2 ⟨bare, hbare, rfl⟩⟩⟩
  · obtain ⟨m, hm⟩ := hc hkc depth hdc.1 position
    by_cases h0 : 0 < m.length
    · obtain ⟨r, hr⟩ := hwalk (position + m.length)
      exact ⟨_, run_eq_ok_iff.2
        ⟨hallow, (walk_cons_eq_ok_iff hp).2 (.inr ⟨m, r, .taking hm h0, hr, rfl⟩)⟩⟩
    · have h0 := Nat.eq_zero_of_not_pos h0
      obtain ⟨bare, hbare⟩ := (Inherited.decided n).component c hkc depth hdc.1
      cases bare with
      | false =>
        exact ⟨none, run_eq_ok_iff.2
          ⟨hallow, (walk_cons_eq_ok_iff hp).2 (.inl ⟨⟨⟨m, hm, h0⟩, hbare⟩, rfl⟩)⟩⟩
      | true =>
        obtain ⟨r, hr⟩ := hwalk (position + Match.empty.length)
        exact ⟨_, run_eq_ok_iff.2
          ⟨hallow, (walk_cons_eq_ok_iff hp).2 (.inr ⟨.empty, r, .skipping hm h0 hbare, hr, rfl⟩)⟩⟩

end Grammar.Returns

theorem Inherited.returns (text : Text) (n : Int) :
    Inherited (Component.Returns text n) (Grammar.Returns text n) where
  literal w _ _ _ _ := ⟨_, by rw [Component.consume_literal]; rfl⟩
  classified w kind _ _ _ _ := ⟨_, by rw [Component.consume_classified]; rfl⟩
  zeroOrMore hg := hg.zeroOrMore
  oneOrMore hg := hg.zeroOrMore
  zeroOrOne hg := hg.zeroOrOne
  group hg := hg.group
  alternation hg hh := hg.alternation hh
  unknown _ _ hk := by cases hk
  nil _ depth hd position :=
    ⟨_, Grammar.run_eq_ok_iff.2
      ⟨allow_of_le (by rw [Grammar.height] at hd; omega), by rw [Grammar.walk_nil]; rfl⟩⟩
  cons hc hg := hg.cons hc

namespace Grammar

theorem exists_nullable {g : Grammar} (hk : g.isKnown = true) (hd : depth + g.height ≤ n) :
    ∃ bare, nullable (some n) g depth = .ok bare :=
  (Inherited.decided n).grammar g hk depth hd

theorem exists_run {g : Grammar} (hk : g.isKnown = true) (hd : depth + g.height ≤ n) :
    ∃ r, (run text (some n) g depth position).result = .ok r :=
  (Inherited.returns text n).grammar g hk depth hd position

end Grammar
end GreedyMatch
