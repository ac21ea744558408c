import GreedyMatch.Proofs.Catalog.Mismatch
import GreedyMatch.Proofs.Match.Trail
import Mathlib.Tactic

/-!
# Where a text stops matching

A text that no grammar of a catalog matches is told with the furthest position that any of
them reached. That is a position of one of the grammars, whose fixed words make up all of the
text before it.
-/
namespace GreedyMatch
variable {text : Text} {limit : Option Int} {gs : List Grammar}

namespace Survey

theorem furthest_ofGrammars_cases :
    (ofGrammars text limit 0 gs).furthest = 0 ∨
      ∃ g ∈ gs, (ofGrammars text limit 0 gs).furthest = (g.attempt text limit).1.furthest := by
  rw [furthest]
  refine List.foldlRecOn
    (motive := fun n => n = 0 ∨ ∃ g ∈ gs, n = (g.attempt text limit).1.furthest) _ _ (.inl rfl) ?_
  intro n hn t ht
  rcases Nat.le_total n t.reached with hle | hle
  · obtain ⟨g, hg, hreached, -⟩ := exists_attempt_of_mem_trials ht
    exact .inr ⟨g, hg, (Nat.max_eq_right hle).trans hreached⟩
  · rwa [Nat.max_eq_left hle]

end Survey

namespace Catalog
variable {c : Catalog}

theorem noMatch_of_call_tokens {t : Text} {p : Int}
    (h : (c.call (.tokens text)).2 = .error (.refusal (.failure (.mismatch (.noMatch t p))))) :
    t = text.trim ∧ p = (c.survey text.trim).furthest := by
  have hrefutes : c.Refutes text (.noMatch t p) := .inl h
  rcases hrefutes.cases with ⟨fault, -, hm⟩ | hm | ⟨indices, hm⟩
  · obtain ⟨v, position, -, hm⟩ := Fault.failure_eq_mismatch hm
    cases position with
    | none => cases hm
    | some q => cases hm
  · cases hm
    exact ⟨rfl, rfl⟩
  · cases hm

end Catalog

/-- The furthest position of a run is the greatest one at which anything ends that the run has
taken, and what lies before it is made up of fixed words of the grammar. So a catalog that finds no
match tells of such a position in the trimmed text. -/
theorem furthest_is_greatest_and_spelled :
    (∀ (text : Text) (limit : Option Int) (g : Grammar) (depth : Int) (nested : Bool),
      let ran := (Session.start text limit).run g depth 0 nested
      IsGreatest {p : Int | p = 0 ∨ ∃ P, g.Visits text limit depth P ∧ P.Takes text limit p}
        ran.1.furthest ∧
      ran.1.furthest ≤ text.length ∧
      Text.SpelledBy g.words (text.take ran.1.furthest) ∧
      ∀ m, ran.2 = .ok (some m) →
        m.length ≤ ran.1.furthest ∧ (nested = false → ran.1.furthest = text.length)) ∧
    ∀ (c : Catalog) (text t : Text) (p : Int),
      (c.call (.tokens text)).2 = .error (.refusal (.failure (.mismatch (.noMatch t p)))) →
        t = text.trim ∧ 0 ≤ p ∧ p ≤ text.trim.length ∧
        (text.trim.take p.toNat = [] ∨
          ∃ g ∈ c.grammars, Text.SpelledBy g.words (text.trim.take p.toNat)) := by
  constructor
  · intro text limit g depth nested ran
    have hle : ran.1.furthest ≤ text.length :=
      Nat.max_le.2 ⟨Nat.zero_le _, (Session.start text limit).reached_attempt_le g nested⟩
    refine ⟨Session.isGreatest_furthest, hle, Session.spelledBy_furthest, ?_⟩
    intro m hm
    have hlength : m.length ≤ ran.1.furthest := Session.length_le_furthest hm
    refine ⟨hlength, ?_⟩
    rintro rfl
    have hstop : (0 : Int) + m.length = text.length :=
      (Session.run_eq_some_iff.1 hm).2.resolve_left Bool.false_ne_true
    omega
  · intro c text t p h
    obtain ⟨rfl, rfl⟩ := Catalog.noMatch_of_call_tokens h
    refine ⟨rfl, Int.natCast_nonneg _, Int.ofNat_le.2 Survey.furthest_ofGrammars_le, ?_⟩
    rw [Int.toNat_natCast]
    rcases Survey.furthest_ofGrammars_cases with hzero | ⟨g, hg, hfurthest⟩
    · left
      rw [Catalog.survey, hzero, List.take_zero]
    · right
      refine ⟨g, hg, ?_⟩
      rw [Catalog.survey, hfurthest]
      exact Session.spelledBy_furthest

theorem furthest_is_greatest_and_spelled_abd :
    ((Session.start "ab".toList (some 1)).run
        [.zeroOrOne [.literal ⟨'a', []⟩, .literal ⟨'c', []⟩], .literal ⟨'a', ['b']⟩] 0 0 false).2 =
      .ok (some ⟨2, ["ab".toList]⟩) ∧
    2 ≤ ((Session.start "ab".toList (some 1)).run
        [.zeroOrOne [.literal ⟨'a', []⟩, .literal ⟨'c', []⟩], .literal ⟨'a', ['b']⟩]
        0 0 false).1.furthest ∧
    ((Session.start "ab".toList (some 1)).run
        [.zeroOrOne [.literal ⟨'a', []⟩, .literal ⟨'c', []⟩], .literal ⟨'a', ['b']⟩]
        0 0 false).1.furthest = "ab".toList.length ∧
    (Catalog.call ⟨.greedy, some 1, [[.alternation
        [.literal ⟨'a', []⟩, .literal ⟨'b', []⟩, .literal ⟨'c', []⟩] [.literal ⟨'a', []⟩],
        .literal ⟨'d', []⟩]]⟩ (.tokens " abd ".toList)).2 =
      .error (.refusal (.failure (.mismatch (.noMatch "abd".toList 2)))) ∧
    "abd".toList = Text.trim " abd ".toList ∧ (2 : Int) ≤ (Text.trim " abd ".toList).length ∧
    Text.SpelledBy [⟨'a', []⟩, ⟨'b', []⟩, ⟨'c', []⟩, ⟨'a', []⟩, ⟨'d', []⟩] "ab".toList := by
  have hrun : ((Session.start "ab".toList (some 1)).run
        [.zeroOrOne [.literal ⟨'a', []⟩, .literal ⟨'c', []⟩], .literal ⟨'a', ['b']⟩] 0 0 false).2 =
      .ok (some ⟨2, ["ab".toList]⟩) := by cbv
  have hcall : (Catalog.call ⟨.greedy, some 1, [[.alternation
        [.literal ⟨'a', []⟩, .literal ⟨'b', []⟩, .literal ⟨'c', []⟩] [.literal ⟨'a', []⟩],
        .literal ⟨'d', []⟩]]⟩ (.tokens " abd ".toList)).2 =
      .error (.refusal (.failure (.mismatch (.noMatch "abd".toList 2)))) := by cbv
  have htake : (Text.trim " abd ".toList).take (2 : Int).toNat = "ab".toList := by cbv
  obtain ⟨hlength, hwhole⟩ :=
    (furthest_is_greatest_and_spelled.1 "ab".toList (some 1) _ 0 false).2.2.2 _ hrun
  obtain ⟨htext, -, hstop, hspelled⟩ := furthest_is_greatest_and_spelled.2 _ _ _ _ hcall
  rw [htake] at hspelled
  refine ⟨hrun, hlength, hwhole rfl, hcall, htext, hstop, ?_⟩
  rcases hspelled with hnil | ⟨g, hg, hspelled⟩
  · cases hnil
  · rwa [List.mem_singleton.1 hg] at hspelled

end GreedyMatch
