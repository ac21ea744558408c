import GreedyMatch.Catalog.Request
import GreedyMatch.Proofs.Catalog.Verdict
import Mathlib.Tactic

/-!
# Lists of candidates

As long as no attempt is ended by a fault, the candidates for a text are the indices of the
grammars that match it on their own, in increasing order. There is only one such list, so the
answer of a catalog is known as soon as it is known which of its grammars match. When a grammar
is removed the indices behind it close up; when one is added they stay as they are.
-/
namespace GreedyMatch

namespace Sequence
variable {i k : Nat} {is : List Nat}

/-- The indices of a sequence once the item at `k` is gone, without `k` itself. -/
def closeUp (k : Nat) (is : List Nat) : List Nat :=
  (is.filter fun i => i ≠ k).map fun i => if k < i then i - 1 else i

theorem mem_closeUp : i ∈ closeUp k is ↔ (if i < k then i else i + 1) ∈ is := by
  simp only [closeUp, List.mem_map, List.mem_filter, decide_eq_true_eq]
  constructor
  · rintro ⟨j, ⟨hj, hne⟩, rfl⟩
    by_cases hk : k < j
    · rwa [if_pos hk, if_neg (by omega), Nat.sub_add_cancel (by omega)]
    · rwa [if_neg hk, if_pos (by omega)]
  · intro h
    refine ⟨_, ⟨h, ?_⟩, ?_⟩
    · split_ifs <;> omega
    · split_ifs <;> omega

theorem pairwise_closeUp (h : is.Pairwise (· < ·)) : (closeUp k is).Pairwise (· < ·) := by
  rw [closeUp, List.pairwise_map]
  refine (h.filter _).imp_of_mem ?_
  intro i j hi hj hij
  have hik := of_decide_eq_true (List.mem_filter.1 hi).2
  have hjk := of_decide_eq_true (List.mem_filter.1 hj).2
  split_ifs <;> omega

end Sequence

namespace Catalog
variable {c : Catalog} {text : Text} {g : Grammar} {k : Nat} {l l' : List Nat}

def Faultless (c : Catalog) (text : Text) : Prop :=
  ∀ g ∈ c.grammars, ∃ r, (c.attempt text g).2 = .ok r

/-- The grammar matches the trimmed text, on its own and within the limit of the catalog. -/
def Matches (c : Catalog) (text : Text) (g : Grammar) : Prop :=
  ∃ m, (c.attempt text g).2 = .ok (some m)

/-- The list tells of the grammars that match the text in the order of their indices. -/
structure Lists (c : Catalog) (text : Text) (l : List Nat) : Prop where
  increasing : l.Pairwise (· < ·)
  mem_iff : ∀ i, i ∈ l ↔ ∃ g, c.grammars[i]? = some g ∧ c.Matches text g

theorem lists_winners (hgs : c.Faultless text) :
    c.Lists text ((c.survey text.trim).winners.map (·.1)) where
  increasing := Survey.pairwise_winners hgs
  mem_iff i := by
    constructor
    · intro hi
      obtain ⟨⟨i, tokens⟩, hw, rfl⟩ := List.mem_map.1 hi
      obtain ⟨g, m, hg, hm, -⟩ := (Survey.mem_winners_ofGrammars hgs).1 hw
      exact ⟨g, hg, m, hm⟩
    · rintro ⟨g, hg, m, hm⟩
      exact List.mem_map.2 ⟨(i, m.tokens),
        (Survey.mem_winners_ofGrammars hgs).2 ⟨g, m, hg, hm, rfl⟩, rfl⟩

namespace Lists

theorem unique (h : c.Lists text l) (h' : c.Lists text l') : l = l' :=
  h.increasing.eq_of_mem_iff h'.increasing fun i => (h.mem_iff i).trans (h'.mem_iff i).symm

theorem map_winners_eq (h : c.Lists text l) (hgs : c.Faultless text) :
    (c.survey text.trim).winners.map (·.1) = l := (lists_winners hgs).unique h

theorem lt_size (h : c.Lists text l) {i : Nat} (hi : i ∈ l) : i < c.size := by
  obtain ⟨g, hg, -⟩ := (h.mem_iff i).1 hi
  exact (List.getElem?_eq_some_iff.1 hg).1

theorem append (h : c.Lists text l) {r : Option Match} (hr : (c.attempt text g).2 = .ok r) :
    Lists { c with grammars := c.grammars ++ [g] } text
      (l ++ if r.isSome then [c.size] else []) := by
  have hmatches : c.Matches text g ↔ r.isSome = true := by
    rw [Matches, hr]
    simp [Option.isSome_iff_exists]
  constructor
  · refine List.pairwise_append.2 ⟨h.increasing, ?_, ?_⟩
    · split_ifs <;> simp
    · intro i hi j hj
      split_ifs at hj with hsome
      · rw [List.mem_singleton.1 hj]
        exact h.lt_size hi
      · cases hj
  · intro i
    rw [List.mem_append, h.mem_iff]
    change _ ↔ ∃ g', (c.grammars ++ [g])[i]? = some g' ∧ c.Matches text g'
    -- Below the old size nothing changes, at it stands the new grammar, and above it nothing does.
    rcases Nat.lt_trichotomy i c.size with hi | rfl | hi
    · have hlast : i ∉ if r.isSome then [c.size] else [] := by
        split_ifs <;> simp [Nat.ne_of_lt hi]
      rw [List.getElem?_append_left hi]
      simp only [hlast, or_false]
    · have hlast : c.grammars[c.size]? = none := List.getElem?_eq_none (Nat.le_refl _)
      rw [hlast, size, List.getElem?_concat_length]
      by_cases hsome : r.isSome = true <;> simp [hmatches, hsome]
    · have hsize : c.grammars.length < i := hi
      have hnone : c.grammars[i]? = none := List.getElem?_eq_none (by omega)
      have hnone' : (c.grammars ++ [g])[i]? = none :=
        List.getElem?_eq_none (by rw [List.length_append, List.length_singleton]; omega)
      have hlast : i ∉ if r.isSome then [c.size] else [] := by
        split_ifs <;> simp [Nat.ne_of_gt hi]
      simp [hnone, hnone', hlast]

theorem eraseIdx (h : c.Lists text l) (k : Nat) :
    Lists { c with grammars := c.grammars.eraseIdx k } text (Sequence.closeUp k l) := by
  refine ⟨Sequence.pairwise_closeUp h.increasing, fun i => ?_⟩
  rw [Sequence.mem_closeUp, h.mem_iff]
  change _ ↔ ∃ g, (c.grammars.eraseIdx k)[i]? = some g ∧ c.Matches text g
  rw [List.getElem?_eraseIdx, apply_ite (c.grammars[·]?)]

end Lists

theorem Faultless.append (hgs : c.Faultless text) {r : Option Match}
    (hr : (c.attempt text g).2 = .ok r) :
    Faultless { c with grammars := c.grammars ++ [g] } text := by
  intro g' hg'
  rcases List.mem_append.1 hg' with hg' | hg'
  · exact hgs g' hg'
  · rw [List.mem_singleton.1 hg']
    exact ⟨r, hr⟩

theorem Faultless.eraseIdx (hgs : c.Faultless text) (k : Nat) :
    Faultless { c with grammars := c.grammars.eraseIdx k } text :=
  fun g hg => hgs g (List.mem_of_mem_eraseIdx hg)

theorem fault_survey (hgs : c.Faultless text) : (c.survey text.trim).fault = none :=
  congrArg Survey.fault (Survey.ofGrammars_of_ok hgs)

namespace Lists
variable (h : c.Lists text l) (hc : c.strategy = .greedy) (hgs : c.Faultless text)
include h hc hgs

theorem call_candidates : c.call (.candidates text) = (c, .ok (.candidates l)) := by
  rw [Catalog.call_candidates hc (fault_survey hgs), h.map_winners_eq hgs]

theorem request_candidates :
    c.request (.candidates (.text text)) = (c, .ok (.candidates l)) := by
  have hcall : (Request.candidates (.text text)).call c.strategy = .ok (.candidates text) := by
    rw [hc]
    rfl
  rw [request_of_call hcall, h.call_candidates hc hgs]
  rfl

theorem call_tokens_of_eq_nil (hl : l = []) : c.call (.tokens text) =
    (c, .error (.refusal (.failure (.mismatch (.noMatch text.trim
      ((c.grammars.map fun g => (c.attempt text g).1.furthest).foldl max 0 : Nat)))))) := by
  have hfurthest : (c.survey text.trim).furthest =
      (c.grammars.map fun g => (c.attempt text g).1.furthest).foldl max 0 :=
    Survey.furthest_ofGrammars hgs
  rw [← hfurthest]
  exact call_tokens_of_winners_eq_nil hc (fault_survey hgs)
    (List.map_eq_nil_iff.1 ((h.map_winners_eq hgs).trans hl))

theorem call_tokens_of_eq_singleton {i : Nat} {m : Match} (hl : l = [i])
    (hg : c.grammars[i]? = some g) (hm : (c.attempt text g).2 = .ok (some m)) :
    c.call (.tokens text) = (c, .ok (.tokens m.tokens)) :=
  call_tokens_of_winners_eq_singleton hc (fault_survey hgs)
    (Survey.winners_eq_singleton hgs hg hm ((h.map_winners_eq hgs).trans hl))

theorem call_tokens_of_two_le (hl : 2 ≤ l.length) : c.call (.tokens text) =
    (c, .error (.refusal (.failure (.mismatch (.ambiguous text.trim
      (l.map fun i : Nat => (i : Int))))))) := by
  rw [← h.map_winners_eq hgs, List.length_map] at hl
  rw [Catalog.call_tokens_of_two_le hc (fault_survey hgs) hl, ← h.map_winners_eq hgs, List.map_map]
  rfl

end Lists
end Catalog
end GreedyMatch
