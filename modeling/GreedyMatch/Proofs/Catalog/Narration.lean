import GreedyMatch.Proofs.Catalog.Candidates
import GreedyMatch.Proofs.Catalog.Mismatch
import GreedyMatch.Proofs.Catalog.Report
import Mathlib.Tactic

/-!
# Surveys that are told of

A survey may be told of while it is made: each trial is reported as soon as it is over, and the
winners, the tokens of the last one and the furthest position are kept along the way. Telling
of it changes nothing about the answer, and what is told agrees with the answer.
-/
namespace GreedyMatch
variable {text : Text} {limit : Option Int}

/-- What may fail and may tell of something; the lines told before it fails remain. -/
abbrev Narrated (ε α : Type) := ExceptT ε (StateM (List Text)) α

theorem Narrated.run_bind {ε α β : Type} (x : Narrated ε α) (f : α → Narrated ε β)
    (told : List Text) : (x >>= f).run.run told =
      match x.run.run told with
      | (.ok a, told') => (f a).run.run told'
      | (.error e, told') => (.error e, told') := by
  rw [ExceptT.run_bind, StateT.run_bind]
  rcases x.run.run told with ⟨e | a, told'⟩ <;> rfl

structure Tally where
  winners : List Nat
  /-- Those of the last winner, if there is any. -/
  tokens : List Text
  furthest : Nat

namespace Tally

def start : Tally := ⟨[], [], 0⟩

def add (tally : Tally) (t : Trial) : Tally :=
  let furthest := max tally.furthest t.reached
  match t.outcome with
  | none => { tally with furthest := furthest }
  | some m => ⟨tally.winners ++ [t.index], m.tokens, furthest⟩

/-- All grammars are tried in order, each in a session of its own, until a fault is met. -/
def narrate (verbose : Bool) (text : Text) (limit : Option Int) :
    Nat → List Grammar → Tally → Narrated Fault Tally
  | _, [], tally => pure tally
  | index, g :: gs, tally => do
    let (session, result) := g.attempt text limit
    let outcome ← liftExcept result
    let trial : Trial := ⟨index, session.furthest, outcome⟩
    if verbose then modify (· ++ [trial.report text.length])
    narrate verbose text limit (index + 1) gs (tally.add trial)

/-- A survey comes to what it records, whether it is told of or not. -/
theorem run_narrate (verbose : Bool) (text : Text) (limit : Option Int) (index : Nat)
    (gs : List Grammar) (tally : Tally) (told : List Text) :
    (narrate verbose text limit index gs tally).run.run told =
      (match (Survey.ofGrammars text limit index gs).fault with
        | some fault => .error fault
        | none => .ok ((Survey.ofGrammars text limit index gs).trials.foldl add tally),
      told ++ if verbose then (Survey.ofGrammars text limit index gs).report text.length else []) := by
  -- What has been told and tallied before a grammar is tried is arbitrary in the induction.
  induction gs generalizing index tally told with
  | nil => cases verbose <;> exact congrArg (Except.ok tally, ·) (List.append_nil told).symm
  | cons g gs ih =>
    rw [narrate, Survey.ofGrammars_cons]
    rcases hg : g.attempt text limit with ⟨session, fault | outcome⟩
    · cases verbose <;> exact congrArg (Except.error fault, ·) (List.append_nil told).symm
    · have htrial : Trial.ofAttempt text limit index g = ⟨index, session.furthest, outcome⟩ := by
        rw [Trial.ofAttempt, hg]
        rfl
      rw [htrial]
      have hrest := ih (index + 1) (tally.add ⟨index, session.furthest, outcome⟩)
      cases verbose with
      | false => exact hrest told
      | true =>
        refine (hrest _).trans ?_
        rw [if_pos rfl, if_pos rfl, List.append_assoc]
        rfl

theorem foldl_add (s : Survey) : s.trials.foldl add start =
    ⟨s.winners.map (·.1), (s.winners.map (·.2)).getLastD [], s.furthest⟩ := by
  have hfold (ts : List Trial) (tally : Tally) : ts.foldl add tally =
      ⟨tally.winners ++ (Survey.winners ⟨ts, none⟩).map (·.1),
        ((Survey.winners ⟨ts, none⟩).map (·.2)).getLastD tally.tokens,
        ts.foldl (fun n t => max n t.reached) tally.furthest⟩ := by
    induction ts generalizing tally with
    | nil => rw [Survey.winners, List.filterMap_nil, List.map_nil, List.append_nil]; rfl
    | cons t ts ih =>
      rw [List.foldl_cons, ih]
      rcases t with ⟨index, reached, _ | m⟩
      · rfl
      · have hwinners : Survey.winners ⟨⟨index, reached, some m⟩ :: ts, none⟩ =
            (index, m.tokens) :: Survey.winners ⟨ts, none⟩ := rfl
        rw [hwinners, List.map_cons, List.map_cons, List.getLastD_cons, ← List.singleton_append,
          ← List.append_assoc]
        rfl
  exact hfold s.trials start

end Tally

namespace Catalog
variable (c : Catalog)

def narrate (verbose : Bool) (text : Text) : Narrated Refusal Tally :=
  ExceptT.adapt (fun fault => .failure (fault.failure text))
    (Tally.narrate verbose text c.limit 0 c.grammars .start)

def tokensNarrated (verbose : Bool) (text : Text) : Narrated Refusal (List Text) :=
  match c.strategy with
  | .planned p => throw (.notImplemented p)
  | .greedy => do
    let tally ← c.narrate verbose text.trim
    if tally.winners = [] then
      throw (.failure (.mismatch (.noMatch text.trim tally.furthest)))
    if 1 < tally.winners.length then
      throw (.failure (.mismatch (.ambiguous text.trim (tally.winners.map fun i : Nat => (i : Int)))))
    return tally.tokens

def candidatesNarrated (verbose : Bool) (text : Text) : Narrated Refusal (List Nat) :=
  match c.strategy with
  | .planned p => throw (.noCandidates p)
  | .greedy => return (← c.narrate verbose text.trim).winners

theorem run_narrate (verbose : Bool) (text : Text) (told : List Text) :
    (c.narrate verbose text).run.run told =
      ((c.survey text).conclude text (.ok ⟨(c.survey text).winners.map (·.1),
          ((c.survey text).winners.map (·.2)).getLastD [], (c.survey text).furthest⟩),
        told ++ if verbose then (c.survey text).report text.length else []) := by
  have hrun := Tally.run_narrate verbose text c.limit 0 c.grammars .start told
  rw [Tally.foldl_add] at hrun
  have hadapt : (c.narrate verbose text).run.run told =
      (((Tally.narrate verbose text c.limit 0 c.grammars .start).run.run told).1.mapError
          fun fault => .failure (fault.failure text),
        ((Tally.narrate verbose text c.limit 0 c.grammars .start).run.run told).2) := rfl
  rw [hadapt, hrun, Survey.conclude, survey]
  cases (Survey.ofGrammars text c.limit 0 c.grammars).fault <;> rfl

theorem run_candidatesNarrated (verbose : Bool) (text : Text) (told : List Text) :
    (c.candidatesNarrated verbose text).run.run told =
      (c.candidates text, told ++ if verbose then c.trace text else []) := by
  rw [candidatesNarrated, candidates, trace]
  cases c.strategy with
  | planned p => cases verbose <;> exact congrArg (Except.error _, ·) (List.append_nil told).symm
  | greedy =>
    rw [Narrated.run_bind, run_narrate]
    unfold Survey.candidates Survey.conclude
    cases (c.survey text.trim).fault <;> rfl

theorem run_tokensNarrated (verbose : Bool) (text : Text) (told : List Text) :
    (c.tokensNarrated verbose text).run.run told =
      (c.tokens text, told ++ if verbose then c.trace text else []) := by
  rw [tokensNarrated, tokens, trace]
  cases c.strategy with
  | planned p => cases verbose <;> exact congrArg (Except.error _, ·) (List.append_nil told).symm
  | greedy =>
    rw [Narrated.run_bind, run_narrate]
    unfold Survey.verdict Survey.conclude
    cases (c.survey text.trim).fault with
    | some fault => rfl
    | none =>
      rcases (c.survey text.trim).winners with _ | ⟨w, _ | ⟨w', ws⟩⟩
      · rfl
      · rfl
      · have hne : (w :: w' :: ws).map (·.1) ≠ [] := List.cons_ne_nil _ _
        have htwo : 1 < ((w :: w' :: ws).map (·.1)).length := by simp
        have hcast : ((w :: w' :: ws).map (·.1)).map (fun i : Nat => (i : Int)) =
            (w :: w' :: ws).map fun w => (w.1 : Int) := List.map_map
        dsimp only
        rw [if_neg hne, if_pos htwo, hcast]
        rfl

end Catalog

namespace Survey
variable {gs : List Grammar}

theorem map_index_lines_of_ok (hgs : ∀ g ∈ gs, ∃ r, (g.attempt text limit).2 = .ok r) (size : Nat) :
    ((ofGrammars text limit 0 gs).lines size).map (·.index) = List.range gs.length := by
  rw [ofGrammars_of_ok hgs, lines, List.map_map]
  apply List.ext_getElem
  · simp only [List.length_map, List.length_mapIdx, List.length_range]
  · intro i hi hi'
    simp only [List.getElem_map, List.getElem_mapIdx, List.getElem_range, Function.comp_apply,
      Trial.line, Trial.ofAttempt]

theorem trials_ofGrammars_of_fault {k : Nat} {g : Grammar} {fault : Fault} (hg : gs[k]? = some g)
    (hfault : (g.attempt text limit).2 = .error fault)
    (hbefore : ∀ h ∈ gs.take k, ∃ r, (h.attempt text limit).2 = .ok r) :
    (ofGrammars text limit 0 gs).trials = (ofGrammars text limit 0 (gs.take k)).trials := by
  obtain ⟨hk, rfl⟩ := List.getElem?_eq_some_iff.1 hg
  have hwhole := ofGrammars_append hbefore 0 (gs.drop k)
  rw [List.take_append_drop, List.drop_eq_getElem_cons hk, ofGrammars_cons, hfault] at hwhole
  rw [hwhole, ofGrammars_of_ok hbefore, List.append_nil]
  simp only [Nat.zero_add]

/-- A line tells of a position in the text, and of the size of the text. -/
theorem le_of_mem_lines {index p size : Nat} {line : Line}
    (hline : line ∈ (ofGrammars text limit index gs).lines text.length)
    (hfinding : line.finding = .reached p size) : p ≤ size ∧ size = text.length := by
  obtain ⟨t, ht, rfl⟩ := List.mem_map.1 hline
  have hreached := reached_le_of_mem_trials ht
  rw [Trial.line] at hfinding
  cases houtcome : t.outcome with
  | some m =>
    rw [houtcome] at hfinding
    cases hfinding
  | none =>
    rw [houtcome] at hfinding
    cases hfinding
    exact ⟨hreached, rfl⟩

theorem winners_of_verdict_eq_noMatch {s : Survey} {t : Text} {p : Int}
    (h : s.verdict text = .error (.failure (.mismatch (.noMatch t p)))) :
    s.winners = [] ∧ p = s.furthest := by
  rcases conclude_eq_error_iff.1 h with ⟨fault, -, hfailure⟩ | ⟨-, hanswer⟩
  · obtain ⟨v, _ | q, -, hm⟩ := Fault.failure_eq_mismatch (Refusal.failure.inj hfailure).symm
    · cases hm
    · cases hm
  · rcases hws : s.winners with _ | ⟨w, _ | ⟨w', ws⟩⟩ <;> rw [hws] at hanswer
    · cases hanswer
      exact ⟨rfl, rfl⟩
    · cases hanswer
    · cases hanswer

end Survey

namespace Catalog
variable {c : Catalog}

/-- What the reports on a question about the text tell. -/
def lines (c : Catalog) (text : Text) : List Line := (c.trace text).filterMap Line.read?

section
variable (hc : c.strategy = .greedy)
include hc

theorem trace_eq : c.trace text = (c.survey text.trim).report text.trim.length := by
  rw [trace, hc]

theorem lines_eq : c.lines text = (c.survey text.trim).lines text.trim.length := by
  rw [lines, trace_eq hc, Survey.filterMap_read?_report]

theorem map_index_lines (hgs : c.Faultless text) :
    (c.lines text).map (·.index) = List.range c.size := by
  rw [lines_eq hc]
  exact Survey.map_index_lines_of_ok hgs _

/-- Where a grammar meets a fault first, the later ones leave no trace. -/
theorem trace_take {k : Nat} {g : Grammar} {fault : Fault} (hg : c.grammars[k]? = some g)
    (hfault : (c.attempt text g).2 = .error fault)
    (hbefore : Faultless { c with grammars := c.grammars.take k } text) :
    c.trace text = trace { c with grammars := c.grammars.take k } text := by
  rw [trace_eq hc, trace, hc, survey, Survey.report,
    Survey.trials_ofGrammars_of_fault hg hfault hbefore]
  rfl

theorem candidates_of_faultless (hgs : c.Faultless text) :
    c.candidates text = .ok (((c.lines text).filter Line.isMatch).map (·.index)) := by
  rw [lines_eq hc, Survey.filter_isMatch_lines, List.map_map, candidates, hc]
  change (c.survey text.trim).conclude _ _ = _
  rw [Survey.conclude, fault_survey hgs]
  rfl

end
end Catalog

/-- Telling of a survey costs nothing, and what is told is true: the answers are the same with it
and without it, and the candidates, the tokens and the furthest position can be read off the lines.
-/
theorem narration_is_true_and_free (c : Catalog) (hc : c.strategy = .greedy) (text : Text) :
    (∀ verbose told,
      (c.tokensNarrated verbose text).run.run told =
        (c.tokens text, told ++ if verbose then c.trace text else []) ∧
      (c.candidatesNarrated verbose text).run.run told =
        (c.candidates text, told ++ if verbose then c.trace text else [])) ∧
    (∀ line ∈ c.trace text, line.Unbroken) ∧
    c.trace text = (c.lines text).map Line.write ∧
    (c.Faultless text →
      (c.lines text).map (·.index) = List.range c.size ∧
      c.candidates text = .ok (((c.lines text).filter Line.isMatch).map (·.index))) ∧
    (∀ tokens, c.tokens text = .ok tokens →
      ∃ i, (c.lines text).filter Line.isMatch = [⟨i, .matched (Text.renderTokens tokens)⟩]) ∧
    (∀ t p, c.tokens text = .error (.failure (.mismatch (.noMatch t p))) →
      p = ((c.lines text).filterMap Line.reached?).max?.getD 0) ∧
    (∀ line ∈ c.lines text, ∀ p size, line.finding = .reached p size →
      p ≤ size ∧ size = text.trim.length) ∧
    ∀ k g fault, c.grammars[k]? = some g → (c.attempt text g).2 = .error fault →
      Catalog.Faultless { c with grammars := c.grammars.take k } text →
        c.trace text = Catalog.trace { c with grammars := c.grammars.take k } text ∧
        (c.lines text).map (·.index) = List.range k := by
  refine ⟨fun verbose told => ⟨c.run_tokensNarrated verbose text told,
    c.run_candidatesNarrated verbose text told⟩, ?_, ?_, ?_, ?_, ?_, ?_, ?_⟩
  · rw [Catalog.trace_eq hc]
    intro line hline
    obtain ⟨t, -, rfl⟩ := List.mem_map.1 hline
    exact t.unbroken_report _
  · rw [Catalog.lines_eq hc, Catalog.trace_eq hc, Survey.report_eq]
  · intro hgs
    exact ⟨Catalog.map_index_lines hc hgs, Catalog.candidates_of_faultless hc hgs⟩
  · intro tokens h
    rw [Catalog.tokens, hc] at h
    obtain ⟨-, i, hwinners⟩ := Survey.verdict_eq_ok_iff.1 h
    exact ⟨i, by rw [Catalog.lines_eq hc, Survey.filter_isMatch_lines, hwinners]; rfl⟩
  · intro t p h
    rw [Catalog.tokens, hc] at h
    obtain ⟨hwinners, rfl⟩ := Survey.winners_of_verdict_eq_noMatch h
    rw [Catalog.lines_eq hc, Survey.furthest_eq_max?_lines _ _ hwinners]
  · intro line hline p size hfinding
    rw [Catalog.lines_eq hc] at hline
    exact Survey.le_of_mem_lines hline hfinding
  · intro k g fault hg hfault hbefore
    have hk : k < c.grammars.length := (List.getElem?_eq_some_iff.1 hg).1
    have htrace := Catalog.trace_take hc hg hfault hbefore
    have hindices :=
      Catalog.map_index_lines (c := { c with grammars := c.grammars.take k }) hc hbefore
    rw [Catalog.size, List.length_take_of_le (Nat.le_of_lt hk)] at hindices
    refine ⟨htrace, ?_⟩
    rwa [Catalog.lines, htrace]

theorem narration_is_true_and_free_ac :
    let c : Catalog := ⟨.greedy, some 1, [[.literal ⟨'a', []⟩, .literal ⟨'b', []⟩],
      [.literal ⟨'a', []⟩, .literal ⟨'c', []⟩]]⟩
    let d : Catalog := ⟨.greedy, some 1, [[.literal ⟨'a', []⟩], [.wildcard []], [.literal ⟨'b', []⟩]]⟩
    c.strategy = .greedy ∧ c.Faultless " ac ".toList ∧
    (c.tokensNarrated true " ac ".toList).run.run [] =
      (.ok ["a".toList, "c".toList], ["Grammar 0: no match; reached 1 of 2.".toList,
        "Grammar 1: matched as ['a', 'c'].".toList]) ∧
    (c.tokensNarrated false " ac ".toList).run.run [] = (.ok ["a".toList, "c".toList], []) ∧
    c.candidates " ac ".toList = .ok [1] ∧
    (∃ i, (c.lines " ac ".toList).filter Line.isMatch = [⟨i, .matched "['a', 'c']".toList⟩]) ∧
    c.tokens "aa".toList = .error (.failure (.mismatch (.noMatch "aa".toList 1))) ∧
    (1 : Int) = ((c.lines "aa".toList).filterMap Line.reached?).max?.getD 0 ∧
    (d.lines "a".toList).map (·.index) = [0] := by
  intro c d
  have hfaultless : c.Faultless " ac ".toList := by
    intro g hg
    rcases List.mem_pair.1 hg with rfl | rfl
    · exact ⟨none, by cbv⟩
    · exact ⟨some ⟨2, ["a".toList, "c".toList]⟩, by cbv⟩
  have hbefore : Catalog.Faultless { d with grammars := d.grammars.take 1 } "a".toList := by
    intro g hg
    obtain rfl := List.mem_singleton.1 hg
    exact ⟨some ⟨1, ["a".toList]⟩, by cbv⟩
  have htokens : c.tokens " ac ".toList = .ok ["a".toList, "c".toList] := by cbv
  have htrace : c.trace " ac ".toList = ["Grammar 0: no match; reached 1 of 2.".toList,
      "Grammar 1: matched as ['a', 'c'].".toList] := by decide +kernel
  have hnone : c.tokens "aa".toList =
      .error (.failure (.mismatch (.noMatch "aa".toList 1))) := by cbv
  obtain ⟨hanswers, -, -, hall, hshown, -⟩ :=
    narration_is_true_and_free c rfl " ac ".toList
  obtain ⟨-, -, -, -, -, hmax, -⟩ := narration_is_true_and_free c rfl "aa".toList
  obtain ⟨-, -, -, -, -, -, -, hfirst⟩ := narration_is_true_and_free d rfl "a".toList
  have hverbose := (hanswers true []).1
  have hquiet := (hanswers false []).1
  rw [htokens, htrace] at hverbose
  rw [htokens] at hquiet
  have hindex : ((c.lines " ac ".toList).filter Line.isMatch).map (·.index) = [1] := by
    decide +kernel
  have hfault : (d.attempt "a".toList [.wildcard []]).2 =
      .error (.unsupported (.component (.wildcard [])) (some 0)) := by cbv
  refine ⟨rfl, hfaultless, hverbose, hquiet, ?_, ?_, hnone, hmax _ _ hnone, ?_⟩
  · rw [(hall hfaultless).2, hindex]
  · exact hshown _ htokens
  · exact (hfirst 1 _ _ rfl hfault hbefore).2

end GreedyMatch
