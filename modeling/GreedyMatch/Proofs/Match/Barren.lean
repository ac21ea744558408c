import GreedyMatch.Proofs.Match.Concat
import GreedyMatch.Proofs.Match.Nullability
import GreedyMatch.Proofs.Match.Total
import Mathlib.Tactic

/-!
# Barren positions

A position is barren where none of the words in question lies. Within the limit, whatever
is made of such words takes nothing there and reaches nothing: a run can only ask what may
be left out. All positions from the end of the text on are barren.
-/
namespace GreedyMatch
variable {text : Text} {n depth position : Int}

/-- None of the words lies at the position. -/
def Text.Barren (text : Text) (ws : List Word) (position : Int) : Prop :=
  ∀ w ∈ ws, Match.word text w position = .empty

theorem Match.word_of_length_le (w : Word) (h : (text.length : Int) ≤ position) :
    Match.word text w position = .empty := by
  have hclamp : Sequence.clamp text.length position = text.length := by
    rw [Sequence.clamp_of_nonneg (by omega)]
    omega
  rw [Match.word, hclamp, List.drop_length]
  exact if_neg Bool.false_ne_true

namespace Text.Barren
variable {ws vs : List Word}

theorem of_length_le (h : (text.length : Int) ≤ position) : text.Barren ws position :=
  fun w _ => Match.word_of_length_le w h

theorem left (h : text.Barren (ws ++ vs) position) : text.Barren ws position :=
  fun w hw => h w (List.mem_append_left vs hw)

theorem right (h : text.Barren (ws ++ vs) position) : text.Barren vs position :=
  fun w hw => h w (List.mem_append_right ws hw)

end Text.Barren

/-- Where its words do not lie the component takes nothing. -/
def Component.Abstains (text : Text) (n : Int) (c : Component) : Prop :=
  c.isKnown = true → ∀ depth : Int, depth + c.height ≤ n →
    ∀ position, text.Barren c.words position →
      c.consume text (some n) depth position = pure .empty

/-- Where its words do not lie a run of the grammar asks what may be left out. -/
def Grammar.Abstains (text : Text) (n : Int) (g : Grammar) : Prop :=
  g.isKnown = true → ∀ depth : Int, depth + g.height ≤ n →
    ∀ position, text.Barren g.words position →
      g.run text (some n) depth position =
        .ofExcept ((nullable (some n) g depth).map fun bare => if bare then some .empty else none)

theorem passes_of_extent_eq_zero (size : Nat) {pass : Int → Attempt (Option Match)} {cursor : Int}
    {r : Option Match} (hr : pass cursor = pure r) (h0 : Match.extent r = 0) :
    passes size pass cursor = pure 0 := by
  rw [passes]
  by_cases hc : cursor < size
  · rw [if_pos hc, hr, pure_bind, h0]
    exact if_neg (Nat.lt_irrefl 0)
  · rw [if_neg hc]

theorem Component.step_of_empty {limit : Option Int} {c : Component}
    (h : c.consume text limit depth position = pure .empty) :
    c.step text limit depth position =
      .ofExcept ((c.nullable limit depth).map fun bare => if bare then some .empty else none) := by
  have h0 : ¬ 0 < Match.empty.length := Nat.lt_irrefl 0
  rw [step, h, pure_bind, if_neg h0]
  cases c.nullable limit depth with
  | error fault => rfl
  | ok bare => rfl

/-- Where neither a component nor those after it take anything, all there is to a walk is
whether the whole row may be left out. -/
theorem Component.step_followedBy_of_empty {limit : Option Int} {c : Component} {cs : Grammar}
    {next : Int → Attempt (Option Match)}
    (h : c.consume text limit depth position = pure .empty)
    (hnext : next position =
      .ofExcept ((Grammar.nullable limit cs depth).map fun bare =>
        if bare then some .empty else none)) :
    (c.step text limit depth position).followedBy next position =
      .ofExcept ((Grammar.nullable limit (c :: cs) depth).map fun bare =>
        if bare then some .empty else none) := by
  rw [step_of_empty h, Grammar.nullable]
  cases c.nullable limit depth with
  | error fault => rfl
  | ok bare =>
    cases bare with
    | false => exact Attempt.none_followedBy next
    | true => exact (Attempt.empty_followedBy next).trans hnext

namespace Grammar.Abstains
variable {c : Component} {g h : Grammar}

theorem exists_eq_pure (hg : g.Abstains text n) (hk : g.isKnown = true) (hd : depth + g.height ≤ n)
    (hb : text.Barren g.words position) :
    ∃ r, g.run text (some n) depth position = pure r ∧ Match.extent r = 0 := by
  obtain ⟨bare, hbare⟩ := exists_nullable hk hd
  refine ⟨if bare then some .empty else none, ?_, ?_⟩
  · rw [hg hk depth hd position hb, hbare]
    rfl
  · cases bare <;> rfl

theorem zeroOrMore (hg : g.Abstains text n) : (Component.zeroOrMore g).Abstains text n := by
  intro hk depth hd position hb
  rw [Component.height] at hd
  obtain ⟨r, hr, h0⟩ := hg.exists_eq_pure hk (show depth + 1 + g.height ≤ n by omega) hb
  rw [Component.consume_zeroOrMore, passes_of_extent_eq_zero text.length hr h0, pure_bind]
  rfl

theorem zeroOrOne (hg : g.Abstains text n) : (Component.zeroOrOne g).Abstains text n := by
  intro hk depth hd position hb
  rw [Component.height] at hd
  obtain ⟨r, hr, h0⟩ := hg.exists_eq_pure hk (show depth + 1 + g.height ≤ n by omega) hb
  rw [Component.consume_zeroOrOne, hr, pure_bind, h0]
  rfl

theorem group (hg : g.Abstains text n) : (Component.group g).Abstains text n := by
  intro hk depth hd position hb
  rw [Component.height] at hd
  obtain ⟨bare, hbare⟩ := exists_nullable hk (show depth + 1 + g.height ≤ n by omega)
  rw [Component.consume_group, hg hk (depth + 1) (by omega) position hb, hbare]
  cases bare <;> rfl

theorem alternation (hg : g.Abstains text n) (hh : h.Abstains text n) :
    (Component.alternation g h).Abstains text n := by
  intro hk depth hd position hb
  rw [Component.isKnown_alternation_iff] at hk
  rw [Component.height] at hd
  rw [Component.words] at hb
  obtain ⟨r, hr, h0⟩ := hg.exists_eq_pure hk.1 (show depth + 1 + g.height ≤ n by omega) hb.left
  obtain ⟨r', hr', h0'⟩ := hh.exists_eq_pure hk.2 (show depth + 1 + h.height ≤ n by omega) hb.right
  rw [Component.consume_alternation, hr, pure_bind, h0, if_neg (Nat.lt_irrefl 0), hr', pure_bind,
    h0']
  rfl

theorem nil : Grammar.Abstains text n [] := by
  intro _ depth hd position _
  rw [run_of_le (by rw [height] at hd; omega), walk_nil]
  rfl

theorem cons (hc : c.Abstains text n) (hg : g.Abstains text n) :
    Grammar.Abstains text n (c :: g) := by
  intro hk depth hd position hb
  obtain ⟨hkc, hkg⟩ := isKnown_cons_iff.1 hk
  rw [height] at hd
  rw [words] at hb
  have hdepth : depth ≤ n := by omega
  rw [run_of_le hdepth]
  by_cases hp : position = text.length
  · rw [hp, walk_length]
  · have hrest := hg hkg depth (by omega) position hb.right
    rw [run_of_le hdepth] at hrest
    rw [walk_cons hp]
    exact Component.step_followedBy_of_empty (hc hkc depth (by omega) position hb.left) hrest

end Grammar.Abstains

theorem Component.Abstains.literal (text : Text) (n : Int) (w : Word) :
    (Component.literal w).Abstains text n := by
  intro _ depth _ position hb
  rw [consume_literal, hb w (List.mem_singleton_self w)]

theorem Inherited.abstains (text : Text) (n : Int) :
    Inherited (Component.Abstains text n) (Grammar.Abstains text n) where
  literal w := .literal text n w
  classified w _ := Component.Abstains.literal text n w
  zeroOrMore hg := hg.zeroOrMore
  oneOrMore hg := hg.zeroOrMore
  zeroOrOne hg := hg.zeroOrOne
  group hg := hg.group
  alternation hg hh := hg.alternation hh
  unknown _ _ hk := by cases hk
  nil := .nil
  cons hc hg := hg.cons hc

theorem Component.abstains (text : Text) (n : Int) (c : Component) : c.Abstains text n :=
  (Inherited.abstains text n).component c

theorem Grammar.abstains (text : Text) (n : Int) (g : Grammar) : g.Abstains text n :=
  (Inherited.abstains text n).grammar g

/-- Within the limit a walk may take its step at the end of the text as it does before it. -/
theorem Grammar.walk_cons_of_isKnown {c : Component} {cs : Grammar}
    (hk : isKnown (c :: cs) = true) (hd : depth + height (c :: cs) ≤ n) :
    walk text (some n) (c :: cs) depth position =
      (c.step text (some n) depth position).followedBy (walk text (some n) cs depth) position := by
  by_cases hp : position = text.length
  · obtain ⟨hkc, -⟩ := isKnown_cons_iff.1 hk
    rw [height] at hd
    subst hp
    rw [walk_length]
    have hbarren : text.Barren c.words text.length := .of_length_le (Int.le_refl _)
    have hempty := c.abstains text n hkc depth (by omega) text.length hbarren
    exact (Component.step_followedBy_of_empty hempty (walk_length cs)).symm
  · exact walk_cons hp

end GreedyMatch
