import GreedyMatch.Catalog.Call
import GreedyMatch.Proofs.Catalog.Survey
import Mathlib.Tactic

/-!
# Verdicts

What a catalog says of a text is settled by what each of its grammars makes of the text on
its own. The first fault decides, even if some of the grammars match. Without a fault the
number of those that match decides, and neither their order nor what they take.
-/
namespace GreedyMatch
variable {text : Text} {limit : Option Int} {gs : List Grammar}

namespace Survey

theorem pairwise_mapIdx_ofAttempt (gs : List Grammar) :
    (gs.mapIdx (Trial.ofAttempt text limit)).Pairwise fun t t' => t.index < t'.index := by
  rw [List.pairwise_iff_getElem]
  intro i j hi hj hij
  simpa only [List.getElem_mapIdx, Trial.ofAttempt] using hij

theorem pairwise_winners (hgs : ∀ g ∈ gs, ∃ r, (g.attempt text limit).2 = .ok r) :
    ((ofGrammars text limit 0 gs).winners.map (·.1)).Pairwise (· < ·) := by
  rw [ofGrammars_of_ok hgs, winners, List.pairwise_map, List.pairwise_filterMap]
  refine (pairwise_mapIdx_ofAttempt gs).imp ?_
  intro t t' hlt w hw w' hw'
  obtain ⟨m, -, rfl⟩ := Option.map_eq_some_iff.1 hw
  obtain ⟨m', -, rfl⟩ := Option.map_eq_some_iff.1 hw'
  exact hlt

theorem mem_winners_ofGrammars (hgs : ∀ g ∈ gs, ∃ r, (g.attempt text limit).2 = .ok r) {i : Nat}
    {tokens : List Text} : (i, tokens) ∈ (ofGrammars text limit 0 gs).winners ↔
      ∃ g m, gs[i]? = some g ∧ (g.attempt text limit).2 = .ok (some m) ∧ tokens = m.tokens := by
  rw [ofGrammars_of_ok hgs, mem_winners]
  constructor
  · rintro ⟨t, ht, m, hm, hw⟩
    obtain ⟨j, hj, rfl⟩ := List.mem_mapIdx.1 ht
    obtain ⟨rfl, rfl⟩ : i = j ∧ tokens = m.tokens := Prod.mk.inj hw
    obtain ⟨r, hr⟩ := hgs _ (List.getElem_mem hj)
    refine ⟨gs[i], m, List.getElem?_eq_getElem hj, ?_, rfl⟩
    rw [Trial.ofAttempt, hr] at hm
    rw [hr, show r = some m from hm]
  · rintro ⟨g, m, hg, hm, rfl⟩
    obtain ⟨hi, rfl⟩ := List.getElem?_eq_some_iff.1 hg
    refine ⟨_, List.mem_mapIdx.2 ⟨i, hi, rfl⟩, m, ?_, rfl⟩
    rw [Trial.ofAttempt, hm]
    rfl

theorem furthest_ofGrammars (hgs : ∀ g ∈ gs, ∃ r, (g.attempt text limit).2 = .ok r) :
    (ofGrammars text limit 0 gs).furthest =
      (gs.map fun g => (g.attempt text limit).1.furthest).foldl max 0 := by
  have hreached : (gs.mapIdx (Trial.ofAttempt text limit)).map (·.reached) =
      gs.map fun g => (g.attempt text limit).1.furthest := by
    apply List.ext_getElem
    · simp only [List.length_map, List.length_mapIdx]
    · intro i hi hi'
      simp only [List.getElem_map, List.getElem_mapIdx, Trial.ofAttempt]
  rw [ofGrammars_of_ok hgs, furthest, ← hreached, List.foldl_map]

theorem winners_eq_singleton (hgs : ∀ g ∈ gs, ∃ r, (g.attempt text limit).2 = .ok r) {i : Nat}
    {g : Grammar} {m : Match} (hg : gs[i]? = some g) (hm : (g.attempt text limit).2 = .ok (some m))
    (halone : (ofGrammars text limit 0 gs).winners.map (·.1) = [i]) :
    (ofGrammars text limit 0 gs).winners = [(i, m.tokens)] := by
  have hmem : (i, m.tokens) ∈ (ofGrammars text limit 0 gs).winners :=
    (mem_winners_ofGrammars hgs).2 ⟨g, m, hg, hm, rfl⟩
  obtain ⟨w, hw, -⟩ := List.map_eq_singleton_iff.1 halone
  rw [hw, List.mem_singleton] at hmem
  rw [hw, hmem]

end Survey

namespace Catalog
variable {c : Catalog}

/-- A grammar's attempt at the trimmed text, on its own and within the limit of the catalog. -/
def attempt (c : Catalog) (text : Text) (g : Grammar) : Session × Except Fault (Option Match) :=
  g.attempt text.trim c.limit

section
variable (hc : c.strategy = .greedy)
include hc

theorem call_tokens_eq : c.call (.tokens text) =
    (c, (((c.survey text.trim).verdict text.trim).map .tokens).mapError .refusal) := by
  rw [call, tokens, hc]

theorem call_candidates_eq : c.call (.candidates text) =
    (c, (((c.survey text.trim).candidates text.trim).map .candidates).mapError .refusal) := by
  rw [call, candidates, hc]

theorem call_of_fault {fault : Fault} (hfault : (c.survey text.trim).fault = some fault) :
    c.call (.candidates text) = (c, .error (.refusal (.failure (fault.failure text.trim)))) ∧
    c.call (.tokens text) = (c, .error (.refusal (.failure (fault.failure text.trim)))) := by
  constructor
  · rw [call_candidates_eq hc, Survey.candidates, Survey.conclude, hfault]
    rfl
  · rw [call_tokens_eq hc, Survey.verdict, Survey.conclude, hfault]
    rfl

variable (hnone : (c.survey text.trim).fault = none)
include hnone

theorem call_candidates : c.call (.candidates text) =
    (c, .ok (.candidates ((c.survey text.trim).winners.map (·.1)))) := by
  rw [call_candidates_eq hc, Survey.candidates, Survey.conclude, hnone]
  rfl

theorem call_tokens_of_winners_eq_nil (hw : (c.survey text.trim).winners = []) :
    c.call (.tokens text) = (c, .error (.refusal (.failure (.mismatch
      (.noMatch text.trim (c.survey text.trim).furthest))))) := by
  rw [call_tokens_eq hc, Survey.verdict, Survey.conclude, hnone, hw]
  rfl

theorem call_tokens_of_winners_eq_singleton {w : Nat × List Text}
    (hw : (c.survey text.trim).winners = [w]) :
    c.call (.tokens text) = (c, .ok (.tokens w.2)) := by
  rw [call_tokens_eq hc, Survey.verdict, Survey.conclude, hnone, hw]
  rfl

theorem call_tokens_of_two_le (hw : 2 ≤ (c.survey text.trim).winners.length) :
    c.call (.tokens text) = (c, .error (.refusal (.failure (.mismatch (.ambiguous text.trim
      ((c.survey text.trim).winners.map fun w => (w.1 : Int))))))) := by
  rw [call_tokens_eq hc, Survey.verdict, Survey.conclude, hnone]
  rcases hws : (c.survey text.trim).winners with _ | ⟨w, _ | ⟨w', ws⟩⟩
  · simp [hws] at hw
  · simp [hws] at hw
  · rfl

end
end Catalog

/-- What each grammar makes of the trimmed text on its own settles what the catalog says: the first
fault, or else the candidates and the tokens of the only one of them. -/
theorem catalog_verdict {c : Catalog} (hc : c.strategy = .greedy) (text : Text) :
    (∀ (i : Nat) (g : Grammar) (fault : Fault), c.grammars[i]? = some g →
      (c.attempt text g).2 = .error fault →
      (∀ h ∈ c.grammars.take i, ∃ r, (c.attempt text h).2 = .ok r) →
        c.call (.candidates text) = (c, .error (.refusal (.failure (fault.failure text.trim)))) ∧
        c.call (.tokens text) = (c, .error (.refusal (.failure (fault.failure text.trim))))) ∧
    ((∀ g ∈ c.grammars, ∃ r, (c.attempt text g).2 = .ok r) →
      ∃ winners : List Nat, winners.Pairwise (· < ·) ∧
        (∀ i, i ∈ winners ↔
          ∃ g m, c.grammars[i]? = some g ∧ (c.attempt text g).2 = .ok (some m)) ∧
        c.call (.candidates text) = (c, .ok (.candidates winners)) ∧
        (∀ i g m, winners = [i] → c.grammars[i]? = some g → (c.attempt text g).2 = .ok (some m) →
          c.call (.tokens text) = (c, .ok (.tokens m.tokens))) ∧
        (winners = [] →
          c.call (.tokens text) = (c, .error (.refusal (.failure (.mismatch (.noMatch text.trim
            ((c.grammars.map fun g => (c.attempt text g).1.furthest).foldl max 0 : Nat))))))) ∧
        (2 ≤ winners.length → ∃ m : Mismatch,
          m = .ambiguous text.trim (winners.map fun i : Nat => (i : Int)) ∧ m.position = 0 ∧
          c.call (.tokens text) = (c, .error (.refusal (.failure (.mismatch m)))))) := by
  constructor
  · intro i g fault hg hfault hbefore
    exact Catalog.call_of_fault hc (Survey.fault_ofGrammars hg hfault hbefore)
  · intro hgs
    have hnone : (c.survey text.trim).fault = none :=
      congrArg Survey.fault (Survey.ofGrammars_of_ok hgs)
    refine ⟨(c.survey text.trim).winners.map (·.1), Survey.pairwise_winners hgs, ?_,
      Catalog.call_candidates hc hnone, ?_, ?_, ?_⟩
    · intro i
      constructor
      · intro hi
        obtain ⟨⟨i, tokens⟩, hw, rfl⟩ := List.mem_map.1 hi
        obtain ⟨g, m, hg, hm, -⟩ := (Survey.mem_winners_ofGrammars hgs).1 hw
        exact ⟨g, m, hg, hm⟩
      · rintro ⟨g, m, hg, hm⟩
        exact List.mem_map.2 ⟨(i, m.tokens),
          (Survey.mem_winners_ofGrammars hgs).2 ⟨g, m, hg, hm, rfl⟩, rfl⟩
    · intro i g m halone hg hm
      exact Catalog.call_tokens_of_winners_eq_singleton hc hnone
        (Survey.winners_eq_singleton hgs hg hm halone)
    · intro hnil
      have hfurthest : (c.survey text.trim).furthest =
          (c.grammars.map fun g => (c.attempt text g).1.furthest).foldl max 0 :=
        Survey.furthest_ofGrammars hgs
      rw [← hfurthest]
      exact Catalog.call_tokens_of_winners_eq_nil hc hnone (List.map_eq_nil_iff.1 hnil)
    · intro htwo
      rw [List.length_map] at htwo
      refine ⟨_, rfl, rfl, ?_⟩
      rw [Catalog.call_tokens_of_two_le hc hnone htwo, List.map_map]
      rfl

theorem catalog_verdict_aa :
    (Catalog.mk .greedy (some 1) [[.oneOrMore [.literal ⟨'a', []⟩]],
        [.literal ⟨'a', ['a']⟩, .wildcard []], [.literal ⟨'a', ['a']⟩]]).strategy = .greedy ∧
    (Catalog.attempt ⟨.greedy, some 1, [[.oneOrMore [.literal ⟨'a', []⟩]],
        [.literal ⟨'a', ['a']⟩, .wildcard []], [.literal ⟨'a', ['a']⟩]]⟩ " aa".toList
        [.literal ⟨'a', ['a']⟩, .wildcard []]).2 =
      .error (.unsupported (.component (.wildcard [])) none) ∧
    Catalog.call ⟨.greedy, some 1, [[.oneOrMore [.literal ⟨'a', []⟩]],
        [.literal ⟨'a', ['a']⟩, .wildcard []], [.literal ⟨'a', ['a']⟩]]⟩ (.tokens " aa".toList) =
      (⟨.greedy, some 1, [[.oneOrMore [.literal ⟨'a', []⟩]],
        [.literal ⟨'a', ['a']⟩, .wildcard []], [.literal ⟨'a', ['a']⟩]]⟩,
        .error (.refusal (.failure (.mismatch (.unsupported (.component (.wildcard [])) [] 0))))) ∧
    (∀ g ∈ [[.oneOrMore [.literal ⟨'a', []⟩]], [.literal ⟨'a', []⟩], [.literal ⟨'a', ['a']⟩]],
      ∃ r, (Catalog.attempt ⟨.greedy, some 1, [[.oneOrMore [.literal ⟨'a', []⟩]],
        [.literal ⟨'a', []⟩], [.literal ⟨'a', ['a']⟩]]⟩ " aa".toList g).2 = .ok r) ∧
    Catalog.call ⟨.greedy, some 1, [[.oneOrMore [.literal ⟨'a', []⟩]],
        [.literal ⟨'a', []⟩], [.literal ⟨'a', ['a']⟩]]⟩ (.candidates " aa".toList) =
      (⟨.greedy, some 1, [[.oneOrMore [.literal ⟨'a', []⟩]],
        [.literal ⟨'a', []⟩], [.literal ⟨'a', ['a']⟩]]⟩, .ok (.candidates [0, 2])) ∧
    Catalog.call ⟨.greedy, some 1, [[.oneOrMore [.literal ⟨'a', []⟩]],
        [.literal ⟨'a', []⟩], [.literal ⟨'a', ['a']⟩]]⟩ (.tokens " aa".toList) =
      (⟨.greedy, some 1, [[.oneOrMore [.literal ⟨'a', []⟩]],
        [.literal ⟨'a', []⟩], [.literal ⟨'a', ['a']⟩]]⟩,
        .error (.refusal (.failure (.mismatch (.ambiguous "aa".toList [0, 2]))))) := by
  have hfault : (Catalog.attempt ⟨.greedy, some 1, [[.oneOrMore [.literal ⟨'a', []⟩]],
        [.literal ⟨'a', ['a']⟩, .wildcard []], [.literal ⟨'a', ['a']⟩]]⟩ " aa".toList
        [.literal ⟨'a', ['a']⟩, .wildcard []]).2 =
      .error (.unsupported (.component (.wildcard [])) none) := by cbv
  have hbefore : ∀ h ∈ [[Component.oneOrMore [.literal ⟨'a', []⟩]]], ∃ r,
      (Catalog.attempt ⟨.greedy, some 1, [[.oneOrMore [.literal ⟨'a', []⟩]],
        [.literal ⟨'a', ['a']⟩, .wildcard []], [.literal ⟨'a', ['a']⟩]]⟩ " aa".toList h).2 =
      .ok r := by
    intro h hh
    rw [List.mem_singleton.1 hh]
    exact ⟨some ⟨2, ["aa".toList]⟩, by cbv⟩
  have hall : ∀ g ∈ [[Component.oneOrMore [.literal ⟨'a', []⟩]], [.literal ⟨'a', []⟩],
      [.literal ⟨'a', ['a']⟩]],
      ∃ r, (Catalog.attempt ⟨.greedy, some 1, [[.oneOrMore [.literal ⟨'a', []⟩]],
        [.literal ⟨'a', []⟩], [.literal ⟨'a', ['a']⟩]]⟩ " aa".toList g).2 = .ok r := by
    intro g hg
    simp only [List.mem_cons, List.not_mem_nil, or_false] at hg
    rcases hg with rfl | rfl | rfl
    · exact ⟨some ⟨2, ["aa".toList]⟩, by cbv⟩
    · exact ⟨none, by cbv⟩
    · exact ⟨some ⟨2, ["aa".toList]⟩, by cbv⟩
  have hcandidates : Catalog.call ⟨.greedy, some 1, [[.oneOrMore [.literal ⟨'a', []⟩]],
        [.literal ⟨'a', []⟩], [.literal ⟨'a', ['a']⟩]]⟩ (.candidates " aa".toList) =
      (⟨.greedy, some 1, [[.oneOrMore [.literal ⟨'a', []⟩]],
        [.literal ⟨'a', []⟩], [.literal ⟨'a', ['a']⟩]]⟩, .ok (.candidates [0, 2])) := by cbv
  have hfirst := (catalog_verdict (c := ⟨.greedy, some 1, [[.oneOrMore [.literal ⟨'a', []⟩]],
    [.literal ⟨'a', ['a']⟩, .wildcard []], [.literal ⟨'a', ['a']⟩]]⟩) rfl " aa".toList).1
    1 _ _ rfl hfault hbefore
  obtain ⟨winners, -, -, hw, -, -, htwo⟩ := (catalog_verdict (c := ⟨.greedy, some 1,
    [[.oneOrMore [.literal ⟨'a', []⟩]], [.literal ⟨'a', []⟩], [.literal ⟨'a', ['a']⟩]]⟩)
    rfl " aa".toList).2 hall
  obtain rfl : [0, 2] = winners := by
    rw [hcandidates] at hw
    cases hw
    rfl
  obtain ⟨m, rfl, -, hambiguous⟩ := htwo (Nat.le_refl 2)
  exact ⟨rfl, hfault, hfirst.2, hall, hcandidates, hambiguous⟩

end GreedyMatch
