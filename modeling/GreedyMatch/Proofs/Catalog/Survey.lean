import GreedyMatch.Catalog.Verdict
import GreedyMatch.Proofs.Match.Outcome

/-!
# What a survey records

Each trial of a survey is one grammar's own attempt at the whole text, and a catalog
answers with tokens only when no fault ended the survey and one trial alone succeeded.
-/
namespace GreedyMatch

/-- One grammar's attempt at a whole text, in a session of its own. -/
def Grammar.attempt (text : Text) (limit : Option Int) (g : Grammar) :
    Session × Except Fault (Option Match) :=
  (Session.start text limit).run g 0 0 false

def Trial.ofAttempt (text : Text) (limit : Option Int) (index : Nat) (g : Grammar) : Trial :=
  ⟨index, (g.attempt text limit).1.furthest, (g.attempt text limit).2.toOption.join⟩

namespace Survey
variable {text : Text} {limit : Option Int}

theorem ofGrammars_cons (index : Nat) (g : Grammar) (gs : List Grammar) :
    ofGrammars text limit index (g :: gs) =
      match (g.attempt text limit).2 with
      | .error fault => ⟨[], some fault⟩
      | .ok _ =>
        ⟨.ofAttempt text limit index g :: (ofGrammars text limit (index + 1) gs).trials,
          (ofGrammars text limit (index + 1) gs).fault⟩ := by
  have hfurthest : (g.attempt text limit).1.furthest = (g.runWhole text limit 0 0).reached :=
    Nat.zero_max _
  have hresult : (g.attempt text limit).2 = (g.runWhole text limit 0 0).result := rfl
  rw [ofGrammars, Trial.ofAttempt, hfurthest, hresult]
  cases (g.runWhole text limit 0 0).result with
  | error fault => rfl
  | ok outcome => rfl

/-- A survey goes on behind grammars that meet no fault, and has recorded an attempt of each. -/
theorem ofGrammars_append {gs : List Grammar}
    (hgs : ∀ g ∈ gs, ∃ r, (g.attempt text limit).2 = .ok r) (index : Nat) (hs : List Grammar) :
    ofGrammars text limit index (gs ++ hs) =
      ⟨gs.mapIdx (fun i g => .ofAttempt text limit (index + i) g) ++
          (ofGrammars text limit (index + gs.length) hs).trials,
        (ofGrammars text limit (index + gs.length) hs).fault⟩ := by
  induction gs generalizing index with
  | nil => rfl
  | cons g gs ih =>
    obtain ⟨r, hr⟩ := hgs g List.mem_cons_self
    have hrest := ih (fun g hg => hgs g (List.mem_cons_of_mem _ hg)) (index + 1)
    rw [List.cons_append, ofGrammars_cons, hr, hrest]
    simp only [List.mapIdx_cons, List.length_cons, List.cons_append, Nat.add_zero, Nat.add_assoc,
      Nat.add_comm 1]

theorem ofGrammars_of_ok {gs : List Grammar}
    (hgs : ∀ g ∈ gs, ∃ r, (g.attempt text limit).2 = .ok r) :
    ofGrammars text limit 0 gs = ⟨gs.mapIdx (Trial.ofAttempt text limit), none⟩ := by
  have h := ofGrammars_append hgs 0 []
  simpa only [List.append_nil, ofGrammars, Nat.zero_add] using h

/-- The first attempt to meet a fault ends the survey with it, whatever comes after. -/
theorem fault_ofGrammars {gs : List Grammar} {i : Nat} {g : Grammar} {fault : Fault}
    (hg : gs[i]? = some g) (hfault : (g.attempt text limit).2 = .error fault)
    (hbefore : ∀ h ∈ gs.take i, ∃ r, (h.attempt text limit).2 = .ok r) :
    (ofGrammars text limit 0 gs).fault = some fault := by
  obtain ⟨hi, rfl⟩ := List.getElem?_eq_some_iff.1 hg
  rw [← List.take_append_drop i gs, ofGrammars_append hbefore, List.drop_eq_getElem_cons hi,
    ofGrammars_cons, hfault]

theorem exists_attempt_of_mem_trials {t : Trial} {gs : List Grammar} {index : Nat}
    (ht : t ∈ (ofGrammars text limit index gs).trials) :
    ∃ g ∈ gs, t.reached = (g.attempt text limit).1.furthest ∧
      (g.attempt text limit).2 = .ok t.outcome := by
  induction gs generalizing index with
  | nil => simp [ofGrammars] at ht
  | cons g gs ih =>
    rw [ofGrammars_cons] at ht
    cases hg : (g.attempt text limit).2 with
    | error fault => simp [hg] at ht
    | ok outcome =>
      simp only [hg, List.mem_cons] at ht
      rcases ht with rfl | ht
      · refine ⟨g, List.mem_cons_self, rfl, ?_⟩
        rw [Trial.ofAttempt, hg]
        rfl
      · obtain ⟨g', hmem, hattempt⟩ := ih ht
        exact ⟨g', List.mem_cons_of_mem _ hmem, hattempt⟩

theorem mem_trials_ofGrammars {t : Trial} {gs : List Grammar} {index : Nat}
    (ht : t ∈ (ofGrammars text limit index gs).trials) :
    ∃ g ∈ gs, (g.runWhole text limit 0 0).result = .ok t.outcome := by
  obtain ⟨g, hmem, -, hrun⟩ := exists_attempt_of_mem_trials ht
  exact ⟨g, hmem, hrun⟩

theorem mem_winners {s : Survey} {w : Nat × List Text} :
    w ∈ s.winners ↔ ∃ t ∈ s.trials, ∃ m, t.outcome = some m ∧ w = (t.index, m.tokens) := by
  simp only [winners, List.mem_filterMap, Option.map_eq_some_iff, @eq_comm _ _ w]

theorem conclude_eq_ok_iff {α : Type} {s : Survey} {answer : Except Refusal α} {a : α} :
    s.conclude text answer = .ok a ↔ s.fault = none ∧ answer = .ok a := by
  unfold conclude
  cases s.fault <;> simp

theorem verdict_eq_ok_iff {s : Survey} {tokens : List Text} :
    s.verdict text = .ok tokens ↔ s.fault = none ∧ ∃ i, s.winners = [(i, tokens)] := by
  rw [verdict, conclude_eq_ok_iff]
  refine and_congr_right fun _ => ?_
  rcases s.winners with _ | ⟨⟨i, ts⟩, _ | ⟨w, ws⟩⟩ <;> simp

/-- The tokens a catalog answers with are those of one grammar's run over the trimmed text. -/
theorem exists_run_of_tokens {c : Catalog} {tokens : List Text} (h : c.tokens text = .ok tokens) :
    ∃ g ∈ c.grammars, ∃ m : Match,
      (g.runWhole text.trim c.limit 0 0).result = .ok (some m) ∧ tokens = m.tokens := by
  rw [Catalog.tokens] at h
  cases hs : c.strategy with
  | planned p => simp [hs] at h
  | greedy =>
    simp only [hs] at h
    obtain ⟨-, i, hw⟩ := verdict_eq_ok_iff.1 h
    have hmem : (i, tokens) ∈ (c.survey text.trim).winners := by
      rw [hw]
      exact List.mem_singleton_self _
    obtain ⟨t, ht, m, hm, htm⟩ := mem_winners.1 hmem
    obtain ⟨g, hg, hrun⟩ := mem_trials_ofGrammars ht
    exact ⟨g, hg, m, by rw [hrun, hm], (Prod.ext_iff.1 htm).2⟩

end Survey
end GreedyMatch
