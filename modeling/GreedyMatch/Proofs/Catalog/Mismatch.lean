import GreedyMatch.Catalog.Call
import GreedyMatch.Proofs.Catalog.Survey
import GreedyMatch.Proofs.Match.Accord
import GreedyMatch.Proofs.Match.Place

/-!
# What mismatches tell of

A mismatch tells of the trimmed text and of a place in it. The one exception is a value
that is met only when the text is used up, since nullability, which meets it, is told of no
text: that mismatch tells of an empty text and of its beginning.
-/
namespace GreedyMatch
variable {text : Text} {limit : Option Int} {depth : Int} {v : Value} {m : Mismatch}

/-- A run that comes to the place meets an unsupported value there. -/
inductive Place.Meets (text : Text) (limit : Option Int) : Place → Value → Prop
  | matching {cls : UnknownClass} {payload : List Value} {cs : Grammar} {depth cursor : Int}
      (hp : cursor ≠ text.length) :
      Meets text limit ⟨.unknown cls payload :: cs, depth, cursor⟩
        (.component (.unknown cls payload))
  | atEnd {g : Grammar} {depth : Int} {v : Value}
      (h : Grammar.nullable limit g depth = .error (.unsupported v none)) :
      Meets text limit ⟨g, depth, text.length⟩ v

/-- Asking whether the component may be left out tells of no position. -/
def Component.Placeless (limit : Option Int) (c : Component) : Prop :=
  ∀ depth v position, c.nullable limit depth = .error (.unsupported v position) → position = none

def Grammar.Placeless (limit : Option Int) (g : Grammar) : Prop :=
  ∀ depth v position,
    Grammar.nullable limit g depth = .error (.unsupported v position) → position = none

theorem allow_ne_unsupported {position : Option Int} :
    allow limit depth ≠ .error (.unsupported v position) := by
  intro h
  cases limit with
  | none => cases h
  | some n =>
    rw [allow] at h
    split_ifs at h
    cases h

theorem Grammar.Placeless.group {g : Grammar} (hg : g.Placeless limit) :
    (Component.group g).Placeless limit := by
  intro depth v position h
  rw [Component.nullable] at h
  cases hallow : allow limit (depth + 1) with
  | error fault =>
    rw [hallow] at h
    cases h
    exact absurd hallow allow_ne_unsupported
  | ok _ =>
    rw [hallow] at h
    exact hg (depth + 1) v position h

theorem Grammar.Placeless.cons {c : Component} {g : Grammar} (hc : c.Placeless limit)
    (hg : g.Placeless limit) : Grammar.Placeless limit (c :: g) := by
  intro depth v position h
  rw [nullable] at h
  rcases hn : c.nullable limit depth with fault | _ | _ <;> rw [hn] at h
  · exact hc depth v position (hn.trans h)
  · cases h
  · exact hg depth v position h

theorem Inherited.placeless (limit : Option Int) :
    Inherited (Component.Placeless limit) (Grammar.Placeless limit) where
  literal _ _ _ _ h := nomatch h
  classified _ _ _ _ _ h := nomatch h
  zeroOrMore _ _ _ _ h := nomatch h
  oneOrMore _ _ _ _ h := nomatch h
  zeroOrOne _ _ _ _ h := nomatch h
  group hg := hg.group
  alternation _ _ _ _ _ h := nomatch h
  unknown _ _ _ _ _ h := by
    cases h
    rfl
  nil _ _ _ h := nomatch h
  cons hc hg := .cons hc hg

namespace Place
variable {P Q : Place}

theorem Raises.meets {position : Option Int} (h : P.Raises text limit (.unsupported v position)) :
    P.Meets text limit v ∧
      position = if P.cursor = text.length then none else some P.cursor := by
  cases h with
  | @atEnd g depth _ h =>
    obtain rfl : position = none := (Inherited.placeless limit).grammar g depth v position h
    exact ⟨.atEnd h, (if_pos rfl).symm⟩
  | unknown hp => exact ⟨.matching hp, (if_neg hp).symm⟩
  | barred hp h hallow => exact absurd hallow allow_ne_unsupported

theorem Meets.raises (h : P.Meets text limit v) :
    P.Raises text limit
      (.unsupported v (if P.cursor = text.length then none else some P.cursor)) := by
  cases h with
  | matching hp =>
    rw [if_neg hp]
    exact .unknown hp
  | atEnd h =>
    rw [if_pos rfl]
    exact .atEnd h

end Place

def Grammar.ComesTo (text : Text) (limit : Option Int) (g : Grammar) (P : Place) : Prop :=
  Relation.ReflTransGen (Place.Step text limit) ⟨g, 0, 0⟩ P

namespace Grammar
variable {g : Grammar} {P Q : Place}

theorem ComesTo.inside (h : g.ComesTo text limit P) : P.Inside text :=
  Place.inside_of_steps h ⟨Int.le_refl 0, Int.natCast_nonneg _⟩

theorem exists_meets_of_attempt {position : Option Int}
    (h : (g.attempt text limit).2 = .error (.unsupported v position)) :
    ∃ P, g.ComesTo text limit P ∧ P.Meets text limit v ∧
      position = if P.cursor = text.length then none else some P.cursor := by
  rcases run_eq_error_iff.1 (runWhole_eq_error_iff.1 h) with hallow | ⟨-, hwalk⟩
  · exact absurd hallow allow_ne_unsupported
  · obtain ⟨P, hP, hraises⟩ := (Place.walk_eq_error_iff (P := ⟨g, 0, 0⟩)).1 hwalk
    exact ⟨P, hP, hraises.meets⟩

/-- An attempt meets no more than one unsupported value, and at one cursor. -/
theorem ComesTo.meets_unique {w : Value} (hP : g.ComesTo text limit P)
    (hv : P.Meets text limit v) (hQ : g.ComesTo text limit Q) (hw : Q.Meets text limit w) :
    w = v ∧ Q.cursor = P.cursor := by
  have hfirst := Place.walk_eq_error_iff.2 ⟨P, hP, hv.raises⟩
  have hsecond := Place.walk_eq_error_iff.2 ⟨Q, hQ, hw.raises⟩
  have hsame := hsecond.symm.trans hfirst
  simp only [Except.error.injEq, Fault.unsupported.injEq] at hsame
  obtain ⟨rfl, hcursor⟩ := hsame
  refine ⟨rfl, ?_⟩
  split_ifs at hcursor with hend hend'
  · exact hend.trans hend'.symm
  · exact Option.some.inj hcursor

end Grammar

namespace Survey
variable {gs : List Grammar}

theorem exists_attempt_of_fault {index : Nat} {fault : Fault}
    (h : (ofGrammars text limit index gs).fault = some fault) :
    ∃ g ∈ gs, (g.attempt text limit).2 = .error fault := by
  induction gs generalizing index with
  | nil => cases h
  | cons g gs ih =>
    rw [ofGrammars_cons] at h
    cases hg : (g.attempt text limit).2 with
    | error e =>
      rw [hg] at h
      cases h
      exact ⟨g, List.mem_cons_self, hg⟩
    | ok r =>
      rw [hg] at h
      obtain ⟨g', hmem, hfault⟩ := ih h
      exact ⟨g', List.mem_cons_of_mem g hmem, hfault⟩

theorem reached_le_of_mem_trials {t : Trial} {index : Nat}
    (ht : t ∈ (ofGrammars text limit index gs).trials) : t.reached ≤ text.length := by
  obtain ⟨g, -, hreached, -⟩ := exists_attempt_of_mem_trials ht
  rw [hreached]
  exact Nat.max_le.2 ⟨Nat.zero_le _, (Session.start text limit).reached_attempt_le g false⟩

theorem furthest_ofGrammars_le : (ofGrammars text limit 0 gs).furthest ≤ text.length := by
  rw [furthest]
  refine List.foldlRecOn (motive := fun n => n ≤ text.length) _ _ (Nat.zero_le _) ?_
  intro n hn t ht
  exact Nat.max_le.2 ⟨hn, reached_le_of_mem_trials ht⟩

theorem conclude_eq_error_iff {α : Type} {s : Survey} {answer : Except Refusal α} {r : Refusal} :
    s.conclude text answer = .error r ↔
      (∃ fault, s.fault = some fault ∧ r = .failure (fault.failure text)) ∨
        s.fault = none ∧ answer = .error r := by
  unfold conclude
  cases s.fault with
  | none => simp
  | some fault => simp [eq_comm]

end Survey

namespace Catalog
variable {c : Catalog}

/-- The catalog answers one of the two questions about a text with the mismatch. -/
def Refutes (c : Catalog) (text : Text) (m : Mismatch) : Prop :=
  (c.call (.tokens text)).2 = .error (.refusal (.failure (.mismatch m))) ∨
    (c.call (.candidates text)).2 = .error (.refusal (.failure (.mismatch m)))

theorem call_tokens_eq_refusal_iff {r : Refusal} :
    (c.call (.tokens text)).2 = .error (.refusal r) ↔ c.tokens text = .error r := by
  rw [call]
  cases c.tokens text <;> simp [Except.map, Except.mapError]

theorem call_candidates_eq_refusal_iff {r : Refusal} :
    (c.call (.candidates text)).2 = .error (.refusal r) ↔ c.candidates text = .error r := by
  rw [call]
  cases c.candidates text <;> simp [Except.map, Except.mapError]

theorem Refutes.cases (h : c.Refutes text m) :
    (∃ fault, (c.survey text.trim).fault = some fault ∧
      fault.failure text.trim = .mismatch m) ∨
    m = .noMatch text.trim (c.survey text.trim).furthest ∨
    ∃ indices, m = .ambiguous text.trim indices := by
  have hconclude {α : Type} {answer : Except Refusal α}
      (h : (c.survey text.trim).conclude text.trim answer = .error (.failure (.mismatch m))) :
      (∃ fault, (c.survey text.trim).fault = some fault ∧
        fault.failure text.trim = .mismatch m) ∨ answer = .error (.failure (.mismatch m)) := by
    rcases Survey.conclude_eq_error_iff.1 h with ⟨fault, hfault, hm⟩ | ⟨-, hanswer⟩
    · exact .inl ⟨fault, hfault, (Refusal.failure.inj hm).symm⟩
    · exact .inr hanswer
  rcases h with h | h
  · rw [call_tokens_eq_refusal_iff, tokens] at h
    cases hs : c.strategy with
    | planned p =>
      rw [hs] at h
      cases h
    | greedy =>
      rw [hs] at h
      rcases hconclude h with hfault | h
      · exact .inl hfault
      · rcases hws : (c.survey text.trim).winners with _ | ⟨w, _ | ⟨w', ws⟩⟩ <;> rw [hws] at h
        · cases h
          exact .inr (.inl rfl)
        · cases h
        · cases h
          exact .inr (.inr ⟨_, rfl⟩)
  · rw [call_candidates_eq_refusal_iff, candidates] at h
    cases hs : c.strategy with
    | planned p =>
      rw [hs] at h
      cases h
    | greedy =>
      rw [hs] at h
      rcases hconclude h with hfault | h
      · exact .inl hfault
      · cases h

end Catalog

/-- A fault becomes a mismatch only over an unsupported value, and tells of the text only if
it tells of a position in it. -/
theorem Fault.failure_eq_mismatch {fault : Fault} (h : fault.failure text = .mismatch m) :
    ∃ v position, fault = .unsupported v position ∧
      m = match position with
        | some p => .unsupported v text p
        | none => .unsupported v [] 0 := by
  cases fault with
  | tooDeep depth limit => cases h
  | noLimit => cases h
  | unsupported v position =>
    cases position with
    | none => exact ⟨v, none, rfl, (Failure.mismatch.inj h).symm⟩
    | some p => exact ⟨v, some p, rfl, (Failure.mismatch.inj h).symm⟩

/-- A mismatch tells of the trimmed text and of a place in it, but where it is over an unsupported
value that was met at the end of the text: then it tells of no text. -/
theorem mismatches_tell_of_trimmed_text (c : Catalog) (text : Text) (m : Mismatch)
    (h : c.Refutes text m) :
    ((∀ v t p, m ≠ .unsupported v t p) →
      m.text = text.trim ∧ 0 ≤ m.position ∧ m.position ≤ text.trim.length) ∧
    ∀ v t p, m = .unsupported v t p →
      ∃ g ∈ c.grammars, ∃ P, g.ComesTo text.trim c.limit P ∧ P.Meets text.trim c.limit v ∧
        0 ≤ P.cursor ∧ P.cursor ≤ text.trim.length ∧
        (P.cursor < text.trim.length → m.text = text.trim ∧ m.position = P.cursor) ∧
        (P.cursor = text.trim.length → m.text = [] ∧ m.position = 0) ∧
        ∀ Q w, g.ComesTo text.trim c.limit Q → Q.Meets text.trim c.limit w →
          w = v ∧ Q.cursor = P.cursor := by
  rcases h.cases with ⟨fault, hfault, hm⟩ | rfl | ⟨indices, rfl⟩
  · obtain ⟨v, position, rfl, rfl⟩ := Fault.failure_eq_mismatch hm
    obtain ⟨g, hg, hattempt⟩ := Survey.exists_attempt_of_fault hfault
    obtain ⟨P, hP, hv, rfl⟩ := Grammar.exists_meets_of_attempt hattempt
    obtain ⟨hstart, hstop⟩ := hP.inside
    by_cases hend : P.cursor = text.trim.length
    · rw [if_pos hend]
      refine ⟨fun hne => absurd rfl (hne v [] 0), ?_⟩
      rintro _ _ _ ⟨⟩
      exact ⟨g, hg, P, hP, hv, hstart, hstop, fun hlt => absurd hend (Int.ne_of_lt hlt),
        fun _ => ⟨rfl, rfl⟩, fun Q w hQ hw => hP.meets_unique hv hQ hw⟩
    · rw [if_neg hend]
      refine ⟨fun hne => absurd rfl (hne v text.trim P.cursor), ?_⟩
      rintro _ _ _ ⟨⟩
      exact ⟨g, hg, P, hP, hv, hstart, hstop, fun _ => ⟨rfl, rfl⟩, fun h => absurd h hend,
        fun Q w hQ hw => hP.meets_unique hv hQ hw⟩
  · refine ⟨fun _ => ⟨rfl, Int.natCast_nonneg _, ?_⟩, ?_⟩
    · exact Int.ofNat_le.2 Survey.furthest_ofGrammars_le
    · rintro _ _ _ ⟨⟩
  · refine ⟨fun _ => ⟨rfl, Int.le_refl 0, Int.natCast_nonneg _⟩, ?_⟩
    rintro _ _ _ ⟨⟩

theorem mismatches_tell_of_trimmed_text_ab :
    (Catalog.mk .greedy (some 1) [[.literal ⟨'a', []⟩, .wildcard []]]).Refutes " ab ".toList
      (.unsupported (.component (.wildcard [])) "ab".toList 1) ∧
    (∃ P, Grammar.ComesTo "ab".toList (some 1) [.literal ⟨'a', []⟩, .wildcard []] P ∧
      P.Meets "ab".toList (some 1) (.component (.wildcard [])) ∧ P.cursor = 1) ∧
    (Catalog.mk .greedy (some 1) [[.literal ⟨'a', []⟩]]).Refutes " ab ".toList
      (.noMatch "ab".toList 1) ∧
    (Mismatch.noMatch "ab".toList 1).text = Text.trim " ab ".toList ∧
    0 ≤ (Mismatch.noMatch "ab".toList 1).position ∧
    (Mismatch.noMatch "ab".toList 1).position ≤ (Text.trim " ab ".toList).length := by
  have htrim : Text.trim " ab ".toList = "ab".toList := by cbv
  have hunsupported : (Catalog.mk .greedy (some 1) [[.literal ⟨'a', []⟩, .wildcard []]]).Refutes
      " ab ".toList (.unsupported (.component (.wildcard [])) "ab".toList 1) := .inl (by cbv)
  have hnone : (Catalog.mk .greedy (some 1) [[.literal ⟨'a', []⟩]]).Refutes " ab ".toList
      (.noMatch "ab".toList 1) := .inl (by cbv)
  have hother (v : Value) (t : Text) (p : Int) :
      Mismatch.noMatch "ab".toList 1 ≠ .unsupported v t p := by
    intro h
    cases h
  refine ⟨hunsupported, ?_, hnone, (mismatches_tell_of_trimmed_text _ _ _ hnone).1 hother⟩
  obtain ⟨g, hg, P, hP, hv, -, hstop, hbefore, hend, -⟩ :=
    (mismatches_tell_of_trimmed_text _ _ _ hunsupported).2 _ _ _ rfl
  obtain rfl := List.mem_singleton.1 hg
  rw [htrim] at hP hv hstop hbefore hend
  refine ⟨P, hP, hv, ?_⟩
  rcases Int.lt_or_eq_of_le hstop with hlt | heq
  · exact (hbefore hlt).2.symm
  · exact absurd (hend heq).1 (by decide)

/-- At the end of "a" a value is met with one character behind it, and the mismatch tells of
neither. -/
theorem mismatch_at_end_tells_of_no_text :
    (Catalog.mk .greedy (some defaultLimit) [[.literal ⟨'a', []⟩, .wildcard []]]).Refutes
      " a ".toList (.unsupported (.component (.wildcard [])) [] 0) ∧
    Grammar.ComesTo (Text.trim " a ".toList) (some defaultLimit)
      [.literal ⟨'a', []⟩, .wildcard []] ⟨[.wildcard []], 0, 1⟩ ∧
    (Place.mk [.wildcard []] 0 1).Meets (Text.trim " a ".toList) (some defaultLimit)
      (.component (.wildcard [])) ∧
    (Mismatch.unsupported (.component (.wildcard [])) [] 0).text ≠ Text.trim " a ".toList ∧
    (Mismatch.unsupported (.component (.wildcard [])) [] 0).position ≠ 1 := by
  have htrim : Text.trim " a ".toList = ['a'] := by cbv
  rw [htrim]
  refine ⟨.inl (by cbv), ?_, .atEnd rfl, by decide, by decide⟩
  have hword : (Component.consume ['a'] (some defaultLimit) (.literal ⟨'a', []⟩) 0 0).result =
      .ok ⟨1, [['a']]⟩ := by cbv
  exact .single (.past (by decide) (.taking hword Nat.one_pos))

end GreedyMatch
