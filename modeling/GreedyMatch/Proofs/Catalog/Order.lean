import GreedyMatch.Proofs.Catalog.Candidates

/-!
# Order of registration

Two catalogs that hold the same grammars in different orders say the same of every text that
no fault is met at. Where indices are told, those of the one are those of the other as the
grammars have been moved, in increasing order again.
-/
namespace GreedyMatch

/-- Where the item at an index goes when a row of `n` items is rearranged; an index beyond the
row stays, which keeps the map injective. -/
def Sequence.moved {n : Nat} (σ : Equiv.Perm (Fin n)) (i : Nat) : Nat :=
  if h : i < n then σ ⟨i, h⟩ else i

namespace Sequence
variable {n i : Nat} (σ : Equiv.Perm (Fin n))

theorem moved_of_lt (h : i < n) : moved σ i = σ ⟨i, h⟩ := dif_pos h

theorem moved_of_le (h : n ≤ i) : moved σ i = i := dif_neg (Nat.not_lt.2 h)

theorem moved_symm_moved (i : Nat) : moved σ.symm (moved σ i) = i := by
  by_cases h : i < n
  · simp [moved_of_lt, h]
  · have h := Nat.le_of_not_lt h
    rw [moved_of_le σ h, moved_of_le σ.symm h]

theorem moved_injective : Function.Injective (moved σ) :=
  Function.LeftInverse.injective (moved_symm_moved σ)

end Sequence

namespace Catalog
variable {c : Catalog} {text : Text} {l : List Nat}

/-- The catalog with its grammars in another order: the one at `i` goes to `σ i`. -/
def rearrange (c : Catalog) (σ : Equiv.Perm (Fin c.size)) : Catalog :=
  { c with grammars := List.ofFn fun i => c.grammars[σ.symm i] }

section
variable (σ : Equiv.Perm (Fin c.size))

theorem getElem?_rearrange (i : Nat) :
    (c.rearrange σ).grammars[Sequence.moved σ i]? = c.grammars[i]? := by
  by_cases h : i < c.size
  · rw [Sequence.moved_of_lt σ h, rearrange, List.getElem?_ofFn, dif_pos (Fin.is_lt _)]
    simp
  · have h := Nat.le_of_not_lt h
    rw [Sequence.moved_of_le σ h, List.getElem?_eq_none h, List.getElem?_eq_none]
    simpa only [rearrange, List.length_ofFn] using h

theorem perm_rearrange : (c.rearrange σ).grammars.Perm c.grammars := by
  have hperm := Equiv.Perm.ofFn_comp_perm σ.symm fun i : Fin c.size => c.grammars[i]
  have hsame : List.ofFn (fun i : Fin c.size => c.grammars[i]) = c.grammars := List.ofFn_getElem
  rwa [hsame] at hperm

theorem Faultless.rearrange (hgs : c.Faultless text) : (c.rearrange σ).Faultless text :=
  fun g hg => hgs g ((perm_rearrange σ).mem_iff.1 hg)

theorem Lists.rearrange (h : c.Lists text l) :
    (c.rearrange σ).Lists text (l.map (Sequence.moved σ)).mergeSort where
  increasing := by
    have hnodup : (l.map (Sequence.moved σ)).mergeSort.Nodup :=
      (List.mergeSort_perm _ _).nodup_iff.2
        ((h.increasing.imp Nat.ne_of_lt).map _ fun _ _ => (Sequence.moved_injective σ).ne)
    exact (List.sortedLE_mergeSort.sortedLT_of_nodup hnodup).pairwise
  mem_iff i := by
    rw [List.mem_mergeSort, List.mem_map]
    constructor
    · rintro ⟨j, hj, rfl⟩
      obtain ⟨g, hg, hm⟩ := (h.mem_iff j).1 hj
      exact ⟨g, (getElem?_rearrange σ j).trans hg, hm⟩
    · rintro ⟨g, hg, hm⟩
      have hback : Sequence.moved σ (Sequence.moved σ.symm i) = i :=
        Sequence.moved_symm_moved σ.symm i
      refine ⟨Sequence.moved σ.symm i, (h.mem_iff _).2 ⟨g, ?_, hm⟩, hback⟩
      rw [← getElem?_rearrange σ, hback, hg]

theorem foldl_max_rearrange (text : Text) :
    ((c.rearrange σ).grammars.map fun g => (c.attempt text g).1.furthest).foldl max 0 =
      (c.grammars.map fun g => (c.attempt text g).1.furthest).foldl max 0 :=
  ((perm_rearrange σ).map _).foldl_eq 0

end
end Catalog

/-- In whatever order a catalog holds its grammars, it says the same of a text at which none of them
meets a fault, with the indices of where the grammars have been moved to. -/
theorem order_never_decides (c : Catalog) (hc : c.strategy = .greedy)
    (σ : Equiv.Perm (Fin c.size)) (text : Text) (hgs : c.Faultless text) :
    ∃ l : List Nat,
      let l' := (l.map (Sequence.moved σ)).mergeSort
      (c.call (.candidates text)).2 = .ok (.candidates l) ∧
      ((c.rearrange σ).call (.candidates text)).2 = .ok (.candidates l') ∧
      ((∃ tokens,
          (c.call (.tokens text)).2 = .ok (.tokens tokens) ∧
          ((c.rearrange σ).call (.tokens text)).2 = .ok (.tokens tokens)) ∨
        (∃ p : Nat,
          (c.call (.tokens text)).2 =
            .error (.refusal (.failure (.mismatch (.noMatch text.trim p)))) ∧
          ((c.rearrange σ).call (.tokens text)).2 =
            .error (.refusal (.failure (.mismatch (.noMatch text.trim p))))) ∨
        (c.call (.tokens text)).2 = .error (.refusal (.failure (.mismatch
            (.ambiguous text.trim (l.map fun i : Nat => (i : Int)))))) ∧
          ((c.rearrange σ).call (.tokens text)).2 = .error (.refusal (.failure (.mismatch
            (.ambiguous text.trim (l'.map fun i : Nat => (i : Int))))))) := by
  have hl := Catalog.lists_winners hgs
  have hl' := hl.rearrange σ
  have hgs' := hgs.rearrange σ
  refine ⟨_, congrArg Prod.snd (hl.call_candidates hc hgs),
    congrArg Prod.snd (hl'.call_candidates hc hgs'), ?_⟩
  generalize (c.survey text.trim).winners.map (·.1) = l at hl hl' ⊢
  have hlength : (l.map (Sequence.moved σ)).mergeSort.length = l.length := by
    rw [List.length_mergeSort, List.length_map]
  rcases l with _ | ⟨i, _ | ⟨j, is⟩⟩
  · refine .inr (.inl ⟨_, congrArg Prod.snd (hl.call_tokens_of_eq_nil hc hgs rfl), ?_⟩)
    rw [hl'.call_tokens_of_eq_nil hc hgs' List.mergeSort_nil, ← Catalog.foldl_max_rearrange σ text]
    rfl
  · obtain ⟨g, hg, m, hm⟩ := (hl.mem_iff i).1 List.mem_cons_self
    have hg' := (Catalog.getElem?_rearrange σ i).trans hg
    exact .inl ⟨m.tokens, congrArg Prod.snd (hl.call_tokens_of_eq_singleton hc hgs rfl hg hm),
      congrArg Prod.snd
        (hl'.call_tokens_of_eq_singleton hc hgs' (List.mergeSort_singleton _) hg' hm)⟩
  · have htwo : 2 ≤ (i :: j :: is).length := Nat.le_add_left 2 _
    exact .inr (.inr ⟨congrArg Prod.snd (hl.call_tokens_of_two_le hc hgs htwo),
      congrArg Prod.snd (hl'.call_tokens_of_two_le hc hgs' (htwo.trans_eq hlength.symm))⟩)

theorem order_never_decides_aba :
    Catalog.Faultless ⟨.greedy, some 1,
      [[.literal ⟨'a', []⟩], [.literal ⟨'b', []⟩], [.oneOrMore [.literal ⟨'a', []⟩]]]⟩
      " a ".toList ∧
    (Catalog.call ⟨.greedy, some 1,
        [[.literal ⟨'a', []⟩], [.literal ⟨'b', []⟩], [.oneOrMore [.literal ⟨'a', []⟩]]]⟩
      (.tokens " a ".toList)).2 =
        .error (.refusal (.failure (.mismatch (.ambiguous "a".toList [0, 2])))) ∧
    ((Catalog.rearrange ⟨.greedy, some 1,
        [[.literal ⟨'a', []⟩], [.literal ⟨'b', []⟩], [.oneOrMore [.literal ⟨'a', []⟩]]]⟩
        (finRotate 3)).call (.candidates " a ".toList)).2 = .ok (.candidates [0, 1]) ∧
    ((Catalog.rearrange ⟨.greedy, some 1,
        [[.literal ⟨'a', []⟩], [.literal ⟨'b', []⟩], [.oneOrMore [.literal ⟨'a', []⟩]]]⟩
        (finRotate 3)).call (.tokens " a ".toList)).2 =
      .error (.refusal (.failure (.mismatch (.ambiguous "a".toList [0, 1])))) := by
  have hgs : Catalog.Faultless ⟨.greedy, some 1,
      [[.literal ⟨'a', []⟩], [.literal ⟨'b', []⟩], [.oneOrMore [.literal ⟨'a', []⟩]]]⟩
      " a ".toList := by
    intro g hg
    simp only [List.mem_cons, List.not_mem_nil, or_false] at hg
    rcases hg with rfl | rfl | rfl
    · exact ⟨some ⟨1, ["a".toList]⟩, by cbv⟩
    · exact ⟨none, by cbv⟩
    · exact ⟨some ⟨1, ["a".toList]⟩, by cbv⟩
  have htokens : (Catalog.call ⟨.greedy, some 1,
        [[.literal ⟨'a', []⟩], [.literal ⟨'b', []⟩], [.oneOrMore [.literal ⟨'a', []⟩]]]⟩
      (.tokens " a ".toList)).2 =
        .error (.refusal (.failure (.mismatch (.ambiguous "a".toList [0, 2])))) := by cbv
  have hcandidates : (Catalog.call ⟨.greedy, some 1,
        [[.literal ⟨'a', []⟩], [.literal ⟨'b', []⟩], [.oneOrMore [.literal ⟨'a', []⟩]]]⟩
      (.candidates " a ".toList)).2 = .ok (.candidates [0, 2]) := by cbv
  have htrim : Text.trim " a ".toList = "a".toList := by cbv
  have hmoved : [0, 2].map (Sequence.moved (finRotate 3)) = [1, 0] := by decide
  have hsorted : ([0, 2].map (Sequence.moved (finRotate 3))).mergeSort = [0, 1] := by
    rw [hmoved]
    cbv
  obtain ⟨l, hl, hl', hverdict⟩ := order_never_decides ⟨.greedy, some 1,
      [[.literal ⟨'a', []⟩], [.literal ⟨'b', []⟩], [.oneOrMore [.literal ⟨'a', []⟩]]]⟩ rfl
    (finRotate 3) " a ".toList hgs
  rw [hcandidates] at hl
  cases hl
  refine ⟨hgs, htokens,
    hl'.trans (congrArg (fun l => Except.ok (Catalog.Answer.candidates l)) hsorted), ?_⟩
  rw [htokens, htrim] at hverdict
  rcases hverdict with ⟨tokens, h, -⟩ | ⟨p, h, -⟩ | ⟨-, h⟩
  · cases h
  · cases h
  · exact h.trans (congrArg (fun l : List Nat => Except.error (Catalog.CallError.refusal
      (.failure (.mismatch (.ambiguous "a".toList (l.map fun i : Nat => (i : Int))))))) hsorted)

end GreedyMatch
