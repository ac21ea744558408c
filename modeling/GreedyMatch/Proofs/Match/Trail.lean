import GreedyMatch.Proofs.Grammar.Spelling
import GreedyMatch.Proofs.Match.Reach
import GreedyMatch.Proofs.Match.Soundness

/-!
# What a run leaves behind

A run that began with the text never comes to a place without having taken, component by
component, all of the text before it. So what lies before any of its places is made up of fixed
words of the grammar, and so is what lies before the furthest position that it reached.
-/
namespace GreedyMatch
variable {text : Text} {limit : Option Int} {depth cursor stop : Int}

/-- The text is made up of words from the list. -/
def Text.SpelledBy (ws : List Word) (t : Text) : Prop := ∃ us, us ⊆ ws ∧ Text.ofWords us = t

namespace Text.SpelledBy
variable {ws : List Word} {t u : Text}

theorem nil : SpelledBy ws [] := ⟨[], List.nil_subset ws, rfl⟩

theorem append (ht : SpelledBy ws t) (hu : SpelledBy ws u) : SpelledBy ws (t ++ u) := by
  obtain ⟨us, hus, rfl⟩ := ht
  obtain ⟨vs, hvs, rfl⟩ := hu
  exact ⟨us ++ vs, List.append_subset.2 ⟨hus, hvs⟩, ofWords_append us vs⟩

theorem mono {vs : List Word} (ht : SpelledBy ws t) (h : ws ⊆ vs) : SpelledBy vs t := by
  obtain ⟨us, hus, rfl⟩ := ht
  exact ⟨us, List.Subset.trans hus h, rfl⟩

/-- What lies before a position and what is taken there make up what lies before its end. -/
theorem take_add (hpos : 0 ≤ cursor) {n : Nat} (hbefore : SpelledBy ws (text.take cursor.toNat))
    (hthere : SpelledBy ws (Sequence.between text cursor (cursor + n))) :
    SpelledBy ws (text.take (cursor + n).toNat) := by
  obtain ⟨p, rfl⟩ := Int.eq_ofNat_of_zero_le hpos
  have hstop : ((p : Int) + n).toNat = p + n := by omega
  rw [hstop, List.take_add, ← Sequence.between_add]
  exact hbefore.append hthere

end Text.SpelledBy

theorem Component.StandsFor.spelledBy {c : Component} {t : Text} (h : c.StandsFor t) :
    t.SpelledBy c.words := by
  obtain ⟨us, hus, ht⟩ := (Inherited.spelled.component c t).1 h
  exact ⟨us, Inherited.spellings_over.component c us hus, ht⟩

theorem Grammar.StandsFor.spelledBy {g : Grammar} {t : Text} (h : g.StandsFor t) :
    t.SpelledBy g.words := by
  obtain ⟨us, hus, ht⟩ := (Inherited.spelled.grammar g t).1 h
  exact ⟨us, Inherited.spellings_over.grammar g us hus, ht⟩

namespace Component
variable {c : Component} {g : Grammar} {p : Int} {m : Match}

theorem Enters.words_subset (h : c.Enters text limit depth cursor g p) : g.words ⊆ c.words := by
  cases h with
  | zeroOrMore h => exact List.Subset.refl _
  | oneOrMore h => exact List.Subset.refl _
  | zeroOrOne => exact List.Subset.refl _
  | group => exact List.Subset.refl _
  | left => exact List.subset_append_left _ _
  | right hr h0 => exact List.subset_append_right _ _

theorem Advances.spelledBy (h : c.Advances text limit depth cursor m) (hpos : 0 ≤ cursor) :
    Text.SpelledBy c.words (Sequence.between text cursor (cursor + m.length)) :=
  StandsFor.spelledBy
    ⟨m.tokens, Grammar.Sound.advances ((Inherited.sound text limit).component c) hpos h⟩

end Component

theorem PassAt.spelledBy {pass : Int → Attempt (Option Match)} {p : Int} {ws : List Word}
    (h : PassAt text.length pass cursor p) (hpos : 0 ≤ cursor)
    (hpass : ∀ i m, 0 ≤ i → (pass i).result = .ok (some m) →
      Text.SpelledBy ws (Sequence.between text i (i + m.length)))
    (hbefore : Text.SpelledBy ws (text.take cursor.toNat)) :
    0 ≤ p ∧ Text.SpelledBy ws (text.take p.toNat) := by
  induction h with
  | here h => exact ⟨hpos, hbefore⟩
  | @onward cursor p m h hr hm rest ih =>
    exact ih (by omega) (hbefore.take_add hpos (hpass cursor m hpos hr))

/-- What lies before the place, and what is left to walk there, is a matter of these words. -/
structure Place.Grounded (text : Text) (ws : List Word) (P : Place) : Prop where
  words : P.rest.words ⊆ ws
  nonneg : 0 ≤ P.cursor
  before : Text.SpelledBy ws (text.take P.cursor.toNat)

theorem Component.Enters.spelledBy {c : Component} {g : Grammar} {p : Int} {ws : List Word}
    (h : c.Enters text limit depth cursor g p) (hwords : c.words ⊆ ws) (hpos : 0 ≤ cursor)
    (hbefore : Text.SpelledBy ws (text.take cursor.toNat)) :
    0 ≤ p ∧ Text.SpelledBy ws (text.take p.toNat) := by
  have hpass (i : Int) (m : Match) (hi : 0 ≤ i)
      (hm : (g.run text limit (depth + 1) i).result = .ok (some m)) :
      Text.SpelledBy ws (Sequence.between text i (i + m.length)) :=
    (Grammar.StandsFor.spelledBy ⟨m.tokens, g.sound text limit (depth + 1) i m hi hm⟩).mono
      (List.Subset.trans h.words_subset hwords)
  cases h with
  | zeroOrMore h => exact h.spelledBy hpos hpass hbefore
  | oneOrMore h => exact h.spelledBy hpos hpass hbefore
  | zeroOrOne => exact ⟨hpos, hbefore⟩
  | group => exact ⟨hpos, hbefore⟩
  | left => exact ⟨hpos, hbefore⟩
  | right => exact ⟨hpos, hbefore⟩

namespace Place.Grounded
variable {P Q : Place} {ws : List Word}

theorem step (hP : P.Grounded text ws) (h : P.Step text limit Q) : Q.Grounded text ws := by
  obtain ⟨hwords, hpos, hbefore⟩ := hP
  cases h with
  | @past c cs depth cursor m hp h =>
    obtain ⟨hc, hcs⟩ := List.append_subset.1 hwords
    have hstop : 0 ≤ cursor + m.length := Int.add_nonneg hpos (Int.natCast_nonneg _)
    exact ⟨hcs, hstop, hbefore.take_add hpos ((h.spelledBy hpos).mono hc)⟩
  | enter hp h hallow =>
    obtain ⟨hc, -⟩ := List.append_subset.1 hwords
    obtain ⟨hp, hbefore⟩ := h.spelledBy hc hpos hbefore
    exact ⟨List.Subset.trans h.words_subset hc, hp, hbefore⟩

theorem steps (hP : P.Grounded text ws) (h : Relation.ReflTransGen (Step text limit) P Q) :
    Q.Grounded text ws := by
  induction h with
  | refl => exact hP
  | tail _ hstep ih => exact ih.step hstep

theorem takes (hP : P.Grounded text ws) (h : P.Takes text limit stop) :
    0 ≤ stop ∧ Text.SpelledBy ws (text.take stop.toNat) := by
  obtain ⟨hwords, hpos, hbefore⟩ := hP
  obtain @⟨c, cs, depth, cursor, m, hp, h, h0⟩ := h
  obtain ⟨hc, -⟩ := List.append_subset.1 hwords
  have hthere := (Component.Advances.taking h h0).spelledBy hpos
  exact ⟨Int.add_nonneg hpos (Int.natCast_nonneg _), hbefore.take_add hpos (hthere.mono hc)⟩

theorem start (g : Grammar) (depth : Int) : Place.Grounded text g.words ⟨g, depth, 0⟩ :=
  ⟨List.Subset.refl _, Int.le_refl 0, .nil⟩

end Place.Grounded

/-- What lies before the furthest position of a walk is made up of the words. -/
theorem Place.Grounded.reached {P : Place} {ws : List Word} (hP : P.Grounded text ws) :
    Text.SpelledBy ws (text.take (P.walk text limit).reached) := by
  rcases P.isGreatest_reached.1 with h0 | ⟨Q, stop, hQ, hstop, hn⟩
  · rw [h0]
    exact .nil
  · rw [← hn]
    exact ((hP.steps hQ).takes hstop).2

/-! ### Runs from the beginning of the text -/

def Grammar.Visits (text : Text) (limit : Option Int) (g : Grammar) (depth : Int) (P : Place) :
    Prop :=
  allow limit depth = .ok () ∧ Relation.ReflTransGen (Place.Step text limit) ⟨g, depth, 0⟩ P

namespace Session
variable {g : Grammar} {nested : Bool}

theorem furthest_start_run :
    ((start text limit).run g depth cursor nested).1.furthest =
      (g.run text limit depth cursor).reached := by
  cases nested with
  | true => exact Nat.zero_max _
  | false => exact (Nat.zero_max _).trans (Attempt.reached_bind_pure _ _)

theorem isGreatest_furthest :
    IsGreatest {p : Int | p = 0 ∨ ∃ P, g.Visits text limit depth P ∧ P.Takes text limit p}
      ((start text limit).run g depth 0 nested).1.furthest := by
  rw [furthest_start_run]
  cases hallow : allow limit depth with
  | error fault =>
    rw [Grammar.reached_run_of_not_allow hallow]
    refine ⟨.inl rfl, ?_⟩
    rintro p (rfl | ⟨P, ⟨h, -⟩, -⟩)
    · exact Int.le_refl 0
    · rw [hallow] at h
      cases h
  | ok u =>
    rw [Grammar.reached_run_of_allow hallow]
    obtain ⟨hmem, hle⟩ : IsGreatest {n | n = 0 ∨ Place.Attains text limit ⟨g, depth, 0⟩ n}
        (Grammar.walk text limit g depth 0).reached :=
      Place.isGreatest_reached ⟨g, depth, 0⟩
    constructor
    · -- No place lies before the text, so nothing is lost where positions are cut off at zero.
      refine hmem.imp (congrArg Int.ofNat) ?_
      rintro ⟨P, stop, hP, hstop, hn⟩
      obtain ⟨h0, -⟩ := ((Place.Grounded.start g depth).steps hP).takes hstop
      rw [← hn, Int.toNat_of_nonneg h0]
      exact ⟨P, ⟨hallow, hP⟩, hstop⟩
    · rintro p (rfl | ⟨P, ⟨-, hP⟩, hstop⟩)
      · exact Int.natCast_nonneg _
      · exact Int.toNat_le.1 (hle (.inr ⟨P, p, hP, hstop, rfl⟩))

theorem spelledBy_furthest :
    Text.SpelledBy g.words
      (text.take ((start text limit).run g depth 0 nested).1.furthest) := by
  rw [furthest_start_run]
  cases hallow : allow limit depth with
  | error fault =>
    rw [Grammar.reached_run_of_not_allow hallow]
    exact .nil
  | ok u =>
    rw [Grammar.reached_run_of_allow hallow]
    exact (Place.Grounded.start g depth).reached

theorem length_le_furthest {m : Match}
    (h : ((start text limit).run g depth 0 nested).2 = .ok (some m)) :
    m.length ≤ ((start text limit).run g depth 0 nested).1.furthest := by
  rw [furthest_start_run]
  by_cases h0 : 0 < m.length
  · have hstop : (0 + (m.length : Int)).toNat ≤ (g.run text limit depth 0).reached :=
      g.reachesStop_run m (run_eq_some_iff.1 h).1 h0
    omega
  · omega

end Session

end GreedyMatch
