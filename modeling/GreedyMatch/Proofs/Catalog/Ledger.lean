import GreedyMatch.Proofs.Catalog.Candidates

/-!
# The ledger of a catalog

To keep a ledger of a catalog is to write down each grammar that it took and to strike out each
one that it gave up, going by the requests and the answers alone. At any time the catalog holds
the grammars of its ledger, whatever else it has been asked and however that ended.
-/
namespace GreedyMatch
open Catalog (Request RequestError Answer)

namespace Sequence

theorem slot?_eq_some_iff {size k : Nat} {i : Int} :
    slot? size i = some k ↔ -size ≤ i ∧ i < size ∧ k = (fromFront size i).toNat := by
  simp only [slot?, fromFront]
  split_ifs <;> simp <;> omega

theorem slot?_eq_none_iff {size : Nat} {i : Int} :
    slot? size i = none ↔ ¬(-size ≤ i ∧ i < size) := by
  simp only [slot?, fromFront]
  split_ifs <;> simp <;> omega

end Sequence

def Catalog.Request.asks : Request → Bool
  | .grammars => true
  | .tokens _ => true
  | .candidates _ => true
  | _ => false

/-- What becomes of a ledger with a request and its answer. -/
def Catalog.Request.enter (gs : List Grammar) : Request → Except RequestError Answer → List Grammar
  | .add (.grammar g), .ok _ => gs ++ [g]
  | .remove index, .ok _ =>
    match index.int? with
    | some i => gs.eraseIdx (Sequence.fromFront gs.length i).toNat
    | none => gs
  | _, _ => gs

def Catalog.ledger (gs : List Grammar) (entries : List (Request × Except RequestError Answer)) :
    List Grammar :=
  entries.foldl (fun gs entry => entry.1.enter gs entry.2) gs

namespace Catalog
variable {c : Catalog} {r : Request} {index v : Value} {i : Int}

namespace Request
variable {gs : List Grammar} {answer : Except RequestError Answer}

theorem enter_of_asks (h : r.asks = true) : r.enter gs answer = gs := by
  cases r with
  | grammars => rfl
  | tokens v => rfl
  | candidates v => rfl
  | _ => cases h

theorem enter_error (r : Request) (e : RequestError) : r.enter gs (.error e) = gs := by
  cases r with
  | add v => cases v <;> rfl
  | _ => rfl

end Request

theorem request_add_of_ne (hv : ∀ g, v ≠ .grammar g) :
    c.request (.add v) = (c, .error (.call (.build (.notGrammar v)))) := by
  cases v with
  | grammar g => exact absurd rfl (hv g)
  | _ => rfl

theorem request_remove_of_int?_eq_none (h : index.int? = none) :
    c.request (.remove index) = (c, .error (.notIndex index)) :=
  request_of_error (by rw [Request.call, h])

theorem request_remove_of_int?_eq_some (h : index.int? = some i) :
    c.request (.remove index) =
      if -c.size ≤ i ∧ i < c.size then
        ({ c with grammars := c.grammars.eraseIdx (Sequence.fromFront c.size i).toNat }, .ok .done)
      else (c, .error (.call .noGrammar)) := by
  have hcall : (Request.remove index).call c.strategy = .ok (.remove i) := by rw [Request.call, h]
  rw [request_of_call hcall, call, remove?]
  by_cases hi : -c.size ≤ i ∧ i < c.size
  · rw [Sequence.slot?_eq_some_iff.2 ⟨hi.1, hi.2, rfl⟩, if_pos hi]
    rfl
  · rw [Sequence.slot?_eq_none_iff.2 hi, if_neg hi]
    rfl

theorem request_of_asks (h : r.asks = true) : (c.request r).1 = c := by
  -- Where there is no text to match the request is refused before it comes to a call.
  have htext (v : Value) (k : Text → Call) (hk : ∀ t, (c.call (k t)).1 = c)
      (hr : r.call c.strategy = (Request.textOf c.strategy v).map k) : (c.request r).1 = c := by
    cases ht : Request.textOf c.strategy v with
    | error e => rw [request_of_error (hr.trans (congrArg (Except.map k) ht))]
    | ok t =>
      rw [request_of_call (hr.trans (congrArg (Except.map k) ht))]
      exact hk t
  cases r with
  | grammars => rfl
  | tokens v => exact htext v .tokens (fun _ => rfl) rfl
  | candidates v => exact htext v .candidates (fun _ => rfl) rfl
  | _ => cases h

/-- All that a request can do: to add a grammar, to remove the one at an index in the list, to set
the limit, or else to leave the catalog as it is. -/
theorem request_cases (c : Catalog) (r : Request) :
    (∃ g, r = .add (.grammar g) ∧
      c.request r = ({ c with grammars := c.grammars ++ [g] }, .ok (.index c.size))) ∨
    (∃ index i, r = .remove index ∧ index.int? = some i ∧ (-c.size ≤ i ∧ i < c.size) ∧
      c.request r =
        ({ c with grammars := c.grammars.eraseIdx (Sequence.fromFront c.size i).toNat },
          .ok .done)) ∨
    (∃ v, r = .withLimit v ∧ c.request r = (c.withLimit v.int?, .ok .done)) ∨
    ((c.request r).1 = c ∧ (r.asks = true ∨ ∃ e, (c.request r).2 = .error e)) := by
  cases r with
  | add v =>
    by_cases hv : ∃ g, v = .grammar g
    · obtain ⟨g, rfl⟩ := hv
      exact .inl ⟨g, rfl, rfl⟩
    · rw [request_add_of_ne (not_exists.1 hv)]
      exact .inr (.inr (.inr ⟨rfl, .inr ⟨_, rfl⟩⟩))
  | remove index =>
    cases h : index.int? with
    | none =>
      rw [request_remove_of_int?_eq_none h]
      exact .inr (.inr (.inr ⟨rfl, .inr ⟨_, rfl⟩⟩))
    | some i =>
      rw [request_remove_of_int?_eq_some h]
      split_ifs with hi
      · exact .inr (.inl ⟨index, i, rfl, h, hi, rfl⟩)
      · exact .inr (.inr (.inr ⟨rfl, .inr ⟨_, rfl⟩⟩))
  | withLimit v => exact .inr (.inr (.inl ⟨v, rfl, rfl⟩))
  | _ => exact .inr (.inr (.inr ⟨request_of_asks rfl, .inl rfl⟩))

/-- The catalog holds what is entered for a request. -/
theorem grammars_request (c : Catalog) (r : Request) :
    (c.request r).1.grammars = r.enter c.grammars (c.request r).2 := by
  rcases c.request_cases r with ⟨g, rfl, h⟩ | ⟨index, i, rfl, hi, -, h⟩ | ⟨v, rfl, h⟩ | ⟨h, hr⟩
  · rw [h]
    rfl
  · rw [h]
    simp only [Request.enter, hi, size]
  · rw [h]
    rfl
  · rw [h]
    rcases hr with hasks | ⟨e, he⟩
    · exact (Request.enter_of_asks hasks).symm
    · rw [he, Request.enter_error]

theorem grammars_requests (c : Catalog) (rs : List Request) :
    (c.requests rs).1.grammars = ledger c.grammars (rs.zip (c.requests rs).2) := by
  induction rs generalizing c with
  | nil => rfl
  | cons r rs ih =>
    rw [requests]
    dsimp only
    rw [ih, grammars_request]
    rfl

theorem request_of_fails {e : RequestError} (he : (c.request r).2 = .error e) :
    (c.request r).1 = c := by
  rcases c.request_cases r with ⟨g, -, h⟩ | ⟨index, i, -, -, -, h⟩ | ⟨v, -, h⟩ | ⟨h, -⟩
  · simp [h] at he
  · simp [h] at he
  · simp [h] at he
  · exact h

theorem limit_request (hr : ∀ v, r ≠ .withLimit v) : (c.request r).1.limit = c.limit := by
  rcases c.request_cases r with ⟨g, -, h⟩ | ⟨index, i, -, -, -, h⟩ | ⟨v, hv, -⟩ | ⟨h, -⟩
  · rw [h]
  · rw [h]
  · exact absurd hv (hr v)
  · rw [h]

theorem exists_grammar_of_request_add {answer : Answer}
    (ha : (c.request (.add v)).2 = .ok answer) : ∃ g, v = .grammar g := by
  by_contra hv
  rw [request_add_of_ne (not_exists.1 hv)] at ha
  cases ha

theorem exists_request_remove_eq_ok_iff :
    (∃ answer, (c.request (.remove index)).2 = .ok answer) ↔
      ∃ i, index.int? = some i ∧ -c.size ≤ i ∧ i < c.size := by
  cases h : index.int? with
  | none => simp [request_remove_of_int?_eq_none h]
  | some i =>
    rw [request_remove_of_int?_eq_some h]
    split_ifs with hi
    · simp [hi]
    · simp [hi]

end Catalog

/-- A catalog always holds the grammars of its ledger, whatever fails or only asks leaves it as it
is, and the candidates move with the grammars as others are added and removed. -/
theorem catalogs_hold_their_ledger (c : Catalog) :
    (∀ rs : List Request, let ran := c.requests rs
      ran.1.request .grammars =
        (ran.1, .ok (.grammars (Catalog.ledger c.grammars (rs.zip ran.2))))) ∧
    (∀ g, ∃ n, (c.request (.add (.grammar g))).2 = .ok (.index n) ∧
      (c.request (.add (.grammar g))).1.grammars[n]? = some g) ∧
    (∀ v answer, (c.request (.add v)).2 = .ok answer → ∃ g, v = .grammar g) ∧
    (∀ index, (∃ answer, (c.request (.remove index)).2 = .ok answer) ↔
      ∃ i, index.int? = some i ∧ -c.size ≤ i ∧ i < c.size) ∧
    (∀ r e, (c.request r).2 = .error e → (c.request r).1 = c) ∧
    (∀ v, (c.request (.tokens v)).1 = c ∧ (c.request (.candidates v)).1 = c) ∧
    (∀ r, (∀ v, r ≠ .withLimit v) → (c.request r).1.limit = c.limit) ∧
    (∀ text, c.strategy = .greedy → c.Faultless text → ∃ old,
      c.request (.candidates (.text text)) = (c, .ok (.candidates old)) ∧
      (∀ index i next, index.int? = some i → c.request (.remove index) = (next, .ok .done) →
        next.request (.candidates (.text text)) = (next, .ok (.candidates
          (Sequence.closeUp (Sequence.fromFront c.size i).toNat old)))) ∧
      ∀ g r n next, (c.attempt text g).2 = .ok r →
        c.request (.add (.grammar g)) = (next, .ok (.index n)) →
        next.request (.candidates (.text text)) =
          (next, .ok (.candidates (old ++ if r.isSome then [n] else [])))) := by
  refine ⟨?_, ?_, fun _ _ => Catalog.exists_grammar_of_request_add,
    fun _ => Catalog.exists_request_remove_eq_ok_iff, fun _ _ => Catalog.request_of_fails,
    fun _ => ⟨Catalog.request_of_asks rfl, Catalog.request_of_asks rfl⟩,
    fun _ => Catalog.limit_request, ?_⟩
  · intro rs ran
    rw [← c.grammars_requests rs]
    rfl
  · intro g
    exact ⟨c.size, rfl, List.getElem?_concat_length⟩
  · intro text hc hgs
    have hold := Catalog.lists_winners hgs
    refine ⟨_, hold.request_candidates hc hgs, ?_, ?_⟩
    · intro index i next hi h
      rw [Catalog.request_remove_of_int?_eq_some hi] at h
      split_ifs at h
      · cases h
        exact (hold.eraseIdx _).request_candidates hc (hgs.eraseIdx _)
      · cases h
    · intro g r n next hr h
      cases h
      exact (hold.append hr).request_candidates hc (hgs.append hr)

theorem catalogs_hold_their_ledger_aba :
    Catalog.Faultless ⟨.greedy, some 1,
      [[.literal ⟨'a', []⟩], [.literal ⟨'b', []⟩], [.literal ⟨'a', []⟩]]⟩ " a ".toList ∧
    (Catalog.request ⟨.greedy, some 1,
        [[.literal ⟨'a', []⟩], [.literal ⟨'b', []⟩], [.literal ⟨'a', []⟩]]⟩
      (.candidates (.text " a ".toList))).2 = .ok (.candidates [0, 2]) ∧
    (Catalog.request ⟨.greedy, some 1, [[.literal ⟨'a', []⟩], [.literal ⟨'a', []⟩]]⟩
      (.candidates (.text " a ".toList))).2 = .ok (.candidates [0, 1]) ∧
    (Catalog.request ⟨.greedy, some 1,
        [[.literal ⟨'a', []⟩], [.literal ⟨'b', []⟩], [.literal ⟨'a', []⟩],
          [.oneOrMore [.literal ⟨'a', []⟩]]]⟩
      (.candidates (.text " a ".toList))).2 = .ok (.candidates [0, 2, 3]) := by
  have hgs : Catalog.Faultless ⟨.greedy, some 1,
      [[.literal ⟨'a', []⟩], [.literal ⟨'b', []⟩], [.literal ⟨'a', []⟩]]⟩ " a ".toList := by
    intro g hg
    simp only [List.mem_cons, List.not_mem_nil, or_false] at hg
    rcases hg with rfl | rfl | rfl
    · exact ⟨some ⟨1, ["a".toList]⟩, by cbv⟩
    · exact ⟨none, by cbv⟩
    · exact ⟨some ⟨1, ["a".toList]⟩, by cbv⟩
  have hadded : (Catalog.attempt ⟨.greedy, some 1,
        [[.literal ⟨'a', []⟩], [.literal ⟨'b', []⟩], [.literal ⟨'a', []⟩]]⟩ " a ".toList
        [.oneOrMore [.literal ⟨'a', []⟩]]).2 = .ok (some ⟨1, ["a".toList]⟩) := by cbv
  obtain ⟨old, hold, hremove, hadd⟩ :=
    (catalogs_hold_their_ledger _).2.2.2.2.2.2.2 " a ".toList rfl hgs
  obtain rfl : old = [0, 2] := by
    have hcandidates : (Catalog.request ⟨.greedy, some 1,
        [[.literal ⟨'a', []⟩], [.literal ⟨'b', []⟩], [.literal ⟨'a', []⟩]]⟩
      (.candidates (.text " a ".toList))).2 = .ok (.candidates [0, 2]) := by cbv
    rw [hold] at hcandidates
    cases hcandidates
    rfl
  refine ⟨hgs, congrArg Prod.snd hold, ?_, ?_⟩
  · exact congrArg Prod.snd (hremove (.int (-2)) (-2) _ rfl rfl)
  · exact congrArg Prod.snd (hadd _ _ _ _ hadded rfl)

end GreedyMatch
