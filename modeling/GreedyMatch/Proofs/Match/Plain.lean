import GreedyMatch.Proofs.Match.Barren
import Mathlib.Data.PFun
import Mathlib.Tactic

/-!
# The plain walk

The plain walk knows nothing of the end of the text. It hands every component over to be
matched, and asks of one that takes nothing whether it may be left out; a repetition goes on
as long as its passes take something. Nothing in it sees to it that the passes ever stop.
Within the limit they do, and the plain walk comes to the same match as the walk that looks
out for the end, and reaches equally far.
-/
namespace GreedyMatch

/-- A journey carries along the furthest position reached so far. It may be ended by a fault,
and it need not come to an end at all. -/
abbrev Journey : Type → Type := ExceptT Fault (StateT Nat Part)

namespace Journey
variable {α β σ : Type}

def mark (position : Int) : Journey Unit := modify (max · position.toNat)

def guarded (limit : Option Int) (depth : Int) (run : Int → Journey α) (cursor : Int) :
    Journey α := do
  ofExcept (allow limit depth)
  run cursor

def outcome (x : Journey α) (furthest : Nat) : Part (Except Fault α × Nat) := x.run.run furthest

/-- Whether a step is the last one, be it for its answer or for a fault. -/
def turn : Except Fault (β ⊕ σ) × Nat → (Except Fault β × Nat) ⊕ (σ × Nat)
  | (.error fault, furthest) => .inl (.error fault, furthest)
  | (.ok (.inl b), furthest) => .inl (.ok b, furthest)
  | (.ok (.inr a), furthest) => .inr (a, furthest)

/-- One step after the other until one of them answers, which may never be. -/
def iterate (step : σ → Journey (β ⊕ σ)) (a : σ) : Journey β :=
  ExceptT.mk fun furthest =>
    PFun.fix (fun (a, furthest) => ((step a).outcome furthest).map turn) (a, furthest)

/-- One more pass, from where the passes before have come to. It is the last one if it takes
nothing. -/
def onePass (pass : Int → Journey (Option Match)) (cursor : Int) (taken : Nat) :
    Journey (Nat ⊕ Nat) := do
  let n := Match.extent (← pass (cursor + taken))
  return if 0 < n then .inr (taken + n) else .inl taken

def passes (pass : Int → Journey (Option Match)) (cursor : Int) : Journey Nat :=
  iterate (onePass pass cursor) 0

end Journey

mutual

/-- What a component takes when the end of the text is not looked out for. -/
def Component.plainConsume (text : Text) (limit : Option Int) :
    Component → Int → Int → Journey Match
  | .literal w, _, position => return .word text w position
  | .classified w _, _, position => return .word text w position
  | .zeroOrMore inner, depth, position => do
    let n ← Journey.passes
      (Journey.guarded limit (depth + 1) (Grammar.plainWalk text limit inner (depth + 1))) position
    return .merged text position n
  | .oneOrMore inner, depth, position => do
    let n ← Journey.passes
      (Journey.guarded limit (depth + 1) (Grammar.plainWalk text limit inner (depth + 1))) position
    return .merged text position n
  | .zeroOrOne inner, depth, position => do
    let m ← Journey.guarded limit (depth + 1)
      (Grammar.plainWalk text limit inner (depth + 1)) position
    return .merged text position (Match.extent m)
  | .group inner, depth, position => do
    let m ← Journey.guarded limit (depth + 1)
      (Grammar.plainWalk text limit inner (depth + 1)) position
    return m.getD .empty
  | .alternation left right, depth, position => do
    let m ← Journey.guarded limit (depth + 1)
      (Grammar.plainWalk text limit left (depth + 1)) position
    if 0 < Match.extent m then
      return .merged text position (Match.extent m)
    else do
      let n ← Journey.guarded limit (depth + 1)
        (Grammar.plainWalk text limit right (depth + 1)) position
      return .merged text position (Match.extent n)
  | .unknown cls payload, _, position =>
    throw (.unsupported (.component (.unknown cls payload)) (some position))

/-- A walk at `depth` that hands over every component, at the end of the text too. -/
def Grammar.plainWalk (text : Text) (limit : Option Int) :
    List Component → Int → Int → Journey (Option Match)
  | [], _, _ => return some .empty
  | c :: cs, depth, cursor => do
    let m ← c.plainConsume text limit depth cursor
    if 0 < m.length then
      Journey.mark (cursor + m.length)
      let rest ← Grammar.plainWalk text limit cs depth (cursor + m.length)
      return rest.map (m ++ ·)
    else if ← ofExcept (c.nullable limit depth) then
      Grammar.plainWalk text limit cs depth cursor
    else
      return none

end

namespace Grammar

def plainRun (text : Text) (limit : Option Int) (g : Grammar) (depth position : Int) :
    Journey (Option Match) :=
  Journey.guarded limit depth (plainWalk text limit g depth) position

def plainRunWhole (text : Text) (limit : Option Int) (g : Grammar) (depth position : Int) :
    Journey (Option Match) := do
  let m ← plainRun text limit g depth position
  return m.filter fun m => position + m.length = text.length

end Grammar

def Session.plainRun (s : Session) (g : Grammar) (depth position : Int) (nested : Bool) :
    Part (Session × Except Fault (Option Match)) :=
  let journey :=
    if nested then g.plainRun s.text s.limit depth position
    else g.plainRunWhole s.text s.limit depth position
  (journey.outcome s.furthest).map fun (result, furthest) =>
    ({ s with furthest := furthest }, result)

theorem guarded_eq_bind {α : Type} (limit : Option Int) (depth : Int) (run : Int → Attempt α)
    (cursor : Int) :
    guarded limit depth run cursor = (do
      .ofExcept (allow limit depth)
      run cursor) := by
  rw [guarded]
  cases allow limit depth with
  | error fault => rfl
  | ok _ => exact (pure_bind _ _).symm

namespace Journey
variable {α β σ : Type}

theorem ext {x y : Journey α} (h : ∀ furthest, x.outcome furthest = y.outcome furthest) : x = y :=
  funext h

theorem outcome_bind (x : Journey α) (f : α → Journey β) (furthest : Nat) :
    (x >>= f).outcome furthest = (x.outcome furthest).bind fun
      | (.error fault, k) => .some (.error fault, k)
      | (.ok a, k) => (f a).outcome k := by
  rw [outcome, ExceptT.run_bind, StateT.run_bind]
  refine bind_congr fun (r, k) => ?_
  cases r <;> rfl

theorem outcome_pure (a : α) (furthest : Nat) :
    (pure a : Journey α).outcome furthest = .some (.ok a, furthest) := rfl

theorem iterate_eq (step : σ → Journey (β ⊕ σ)) (a : σ) :
    iterate step a = (do
      match ← step a with
      | .inl b => return b
      | .inr a => iterate step a) := by
  apply ext
  intro furthest
  apply Part.ext
  intro out
  rw [outcome_bind, Part.mem_bind_iff]
  refine PFun.mem_fix_iff.trans ?_
  simp only [Part.mem_map_iff]
  constructor
  · rintro (⟨⟨r, k⟩, hr, hturn⟩ | ⟨⟨a', k'⟩, ⟨⟨r, k⟩, hr, hturn⟩, hrest⟩)
    · refine ⟨_, hr, ?_⟩
      rcases r with fault | b | a' <;> cases hturn
      · exact Part.mem_some _
      · exact Part.mem_some _
    · refine ⟨_, hr, ?_⟩
      rcases r with fault | b | a' <;> cases hturn
      exact hrest
  · rintro ⟨⟨r, k⟩, hr, hout⟩
    rcases r with fault | b | a'
    · cases Part.mem_some_iff.1 hout
      exact .inl ⟨_, hr, rfl⟩
    · cases Part.mem_some_iff.1 hout
      exact .inl ⟨_, hr, rfl⟩
    · exact .inr ⟨_, ⟨_, hr, rfl⟩, hout⟩

def ofAttempt (x : Attempt α) : Journey α :=
  ExceptT.mk fun furthest => Part.some (x.result, max furthest x.reached)

theorem outcome_ofAttempt (x : Attempt α) (furthest : Nat) :
    (ofAttempt x).outcome furthest = .some (x.result, max furthest x.reached) := rfl

theorem ofAttempt_pure (a : α) : ofAttempt (pure a) = pure a := by
  apply ext
  intro furthest
  rw [outcome_ofAttempt, outcome_pure]
  exact congrArg (fun k => Part.some (Except.ok a, k)) (Nat.max_zero furthest)

theorem ofAttempt_fail (fault : Fault) : ofAttempt (.fail fault : Attempt α) = throw fault := by
  apply ext
  intro furthest
  rw [outcome_ofAttempt]
  exact congrArg (fun k => Part.some (Except.error fault, k)) (Nat.max_zero furthest)

theorem ofAttempt_ofExcept (e : Except Fault α) : ofAttempt (.ofExcept e) = ofExcept e := by
  cases e with
  | error fault => exact ofAttempt_fail fault
  | ok a => exact ofAttempt_pure a

theorem ofAttempt_mark (position : Int) : ofAttempt (.mark position) = mark position := by
  have hmodify : (modify (max · position.toNat) : Journey Unit) =
      ExceptT.lift (StateT.modifyGet fun k => ((), max k position.toNat)) := rfl
  apply ext
  intro furthest
  rw [outcome_ofAttempt, mark, hmodify, outcome, ExceptT.run_lift, StateT.run_map]
  change _ = Part.map _ (Part.some ((), max furthest position.toNat))
  rw [Part.map_some]
  rfl

theorem ofAttempt_bind (x : Attempt α) (f : α → Attempt β) :
    ofAttempt (x >>= f) = ofAttempt x >>= fun a => ofAttempt (f a) := by
  apply ext
  intro furthest
  rw [outcome_bind, outcome_ofAttempt, outcome_ofAttempt, Part.bind_some]
  rcases x with ⟨r, fault | a⟩
  · rfl
  · rw [Attempt.bind_eq_of_ok]
    simp only [outcome_ofAttempt, Nat.max_assoc]

theorem ofAttempt_guarded {limit : Option Int} {depth : Int} {run : Int → Attempt α}
    {run' : Int → Journey α} (h : ∀ p, run' p = ofAttempt (run p)) (cursor : Int) :
    guarded limit depth run' cursor = ofAttempt (GreedyMatch.guarded limit depth run cursor) := by
  rw [guarded, guarded_eq_bind, ofAttempt_bind, ofAttempt_ofExcept, h cursor]

theorem guarded_of_le {n depth : Int} (hd : depth ≤ n) (run : Int → Journey α) (cursor : Int) :
    guarded (some n) depth run cursor = run cursor := by
  rw [guarded, allow_of_le hd]
  exact pure_bind _ _

section
variable {size : Nat} {pass : Int → Attempt (Option Match)} {pass' : Int → Journey (Option Match)}

/-- The induction is on the text left, which each pass but the last one uses up some of. -/
theorem iterate_onePass (h : ∀ p, pass' p = ofAttempt (pass p))
    (hend : ∀ p, (size : Int) ≤ p → ∃ r, pass p = pure r ∧ Match.extent r = 0) (cursor : Int)
    (taken : Nat) :
    iterate (onePass pass' cursor) taken =
      ofAttempt ((taken + ·) <$> GreedyMatch.passes size pass (cursor + taken)) := by
  rw [iterate_eq, onePass, h (cursor + taken)]
  by_cases hc : cursor + taken < size
  · rw [GreedyMatch.passes, if_pos hc, map_bind, ofAttempt_bind, bind_assoc]
    refine bind_congr fun r => ?_
    rw [pure_bind]
    by_cases h0 : 0 < Match.extent r
    · have hrest := iterate_onePass h hend cursor (taken + Match.extent r)
      rw [if_pos h0, if_pos h0]
      simp only [hrest, map_eq_pure_bind, bind_assoc, pure_bind, Nat.cast_add, Int.add_assoc,
        Nat.add_assoc]
    · rw [if_neg h0, if_neg h0, map_pure, ofAttempt_pure, Nat.add_zero]
  · obtain ⟨r, hr, h0⟩ := hend (cursor + taken) (Int.not_lt.1 hc)
    rw [passes_of_extent_eq_zero size hr h0, hr, map_pure, ofAttempt_pure, ofAttempt_pure,
      pure_bind, h0, pure_bind, Nat.add_zero]
    rfl
termination_by (size - (cursor + taken)).toNat

theorem passes_eq_ofAttempt (h : ∀ p, pass' p = ofAttempt (pass p))
    (hend : ∀ p, (size : Int) ≤ p → ∃ r, pass p = pure r ∧ Match.extent r = 0) (cursor : Int) :
    passes pass' cursor = ofAttempt (GreedyMatch.passes size pass cursor) := by
  have hstart : cursor + ((0 : Nat) : Int) = cursor := Int.add_zero cursor
  rw [passes, iterate_onePass h hend, hstart]
  simp only [Nat.zero_add, id_map']

end

end Journey

/-- Within the limit the plain walk takes from a component what the walk takes. -/
def Component.PlainAgrees (text : Text) (n : Int) (c : Component) : Prop :=
  c.isKnown = true → ∀ depth : Int, depth + c.height ≤ n →
    ∀ position, c.plainConsume text (some n) depth position =
      .ofAttempt (c.consume text (some n) depth position)

def Grammar.PlainAgrees (text : Text) (n : Int) (g : Grammar) : Prop :=
  g.isKnown = true → ∀ depth : Int, depth + g.height ≤ n →
    ∀ position, g.plainRun text (some n) depth position =
      .ofAttempt (g.run text (some n) depth position)

theorem Grammar.PlainAgrees.passes {text : Text} {n depth : Int} {g : Grammar}
    (hg : g.PlainAgrees text n) (hk : g.isKnown = true) (hd : depth + g.height ≤ n)
    (position : Int) :
    Journey.passes (g.plainRun text (some n) depth) position =
      .ofAttempt (passes text.length (g.run text (some n) depth) position) := by
  apply Journey.passes_eq_ofAttempt (hg hk depth hd)
  intro p hp
  exact (g.abstains text n).exists_eq_pure hk hd (.of_length_le hp)

namespace Grammar.PlainAgrees
variable {text : Text} {n : Int} {c : Component} {g h : Grammar}

theorem zeroOrMore (hg : g.PlainAgrees text n) : (Component.zeroOrMore g).PlainAgrees text n := by
  intro hk depth hd position
  rw [Component.height] at hd
  have hpasses := hg.passes hk (show depth + 1 + g.height ≤ n by omega) position
  rw [Component.consume_zeroOrMore, Journey.ofAttempt_bind, ← hpasses]
  simp only [Journey.ofAttempt_pure]
  rfl

theorem zeroOrOne (hg : g.PlainAgrees text n) : (Component.zeroOrOne g).PlainAgrees text n := by
  intro hk depth hd position
  rw [Component.height] at hd
  rw [Component.consume_zeroOrOne, Journey.ofAttempt_bind, ← hg hk (depth + 1) (by omega) position]
  simp only [Journey.ofAttempt_pure]
  rfl

theorem group (hg : g.PlainAgrees text n) : (Component.group g).PlainAgrees text n := by
  intro hk depth hd position
  rw [Component.height] at hd
  rw [Component.consume_group, Journey.ofAttempt_bind, ← hg hk (depth + 1) (by omega) position]
  simp only [Journey.ofAttempt_pure]
  rfl

theorem alternation (hg : g.PlainAgrees text n) (hh : h.PlainAgrees text n) :
    (Component.alternation g h).PlainAgrees text n := by
  intro hk depth hd position
  rw [Component.isKnown_alternation_iff] at hk
  rw [Component.height] at hd
  have hleft := hg hk.1 (depth + 1) (by omega) position
  have hright := hh hk.2 (depth + 1) (by omega) position
  rw [Component.consume_alternation, Journey.ofAttempt_bind, ← hleft]
  refine bind_congr fun r => ?_
  by_cases h0 : 0 < Match.extent r
  · rw [if_pos h0, if_pos h0, Journey.ofAttempt_pure]
  · rw [if_neg h0, if_neg h0, Journey.ofAttempt_bind, ← hright]
    simp only [Journey.ofAttempt_pure]
    rfl

theorem nil : Grammar.PlainAgrees text n [] := by
  intro _ depth hd position
  apply Journey.ofAttempt_guarded
  intro p
  rw [plainWalk, walk_nil, Journey.ofAttempt_pure]

theorem walk (hg : g.PlainAgrees text n) (hk : g.isKnown = true) {depth : Int}
    (hd : depth + g.height ≤ n) (p : Int) :
    plainWalk text (some n) g depth p = .ofAttempt (Grammar.walk text (some n) g depth p) := by
  have hdepth : depth ≤ n := by omega
  rw [← run_of_le hdepth, ← hg hk depth hd p, plainRun, Journey.guarded_of_le hdepth]

theorem cons (hc : c.PlainAgrees text n) (hg : g.PlainAgrees text n) :
    Grammar.PlainAgrees text n (c :: g) := by
  intro hk depth hd position
  obtain ⟨hkc, hkg⟩ := isKnown_cons_iff.1 hk
  have hdc : depth + c.height ≤ n ∧ depth + g.height ≤ n := by rw [Grammar.height] at hd; omega
  have hrest := hg.walk hkg hdc.2
  apply Journey.ofAttempt_guarded
  intro p
  rw [plainWalk, walk_cons_of_isKnown hk hd, Component.step_followedBy, Journey.ofAttempt_bind,
    hc hkc depth hdc.1 p]
  refine bind_congr fun m => ?_
  by_cases h0 : 0 < m.length
  · rw [if_pos h0, if_pos h0, Journey.ofAttempt_bind, Journey.ofAttempt_mark, hrest]
    simp only [Journey.ofAttempt_bind, Journey.ofAttempt_pure]
  · rw [if_neg h0, if_neg h0, Journey.ofAttempt_bind, Journey.ofAttempt_ofExcept, hrest]
    refine bind_congr fun bare => ?_
    cases bare with
    | true => rw [if_pos rfl, if_pos rfl]
    | false => exact (Journey.ofAttempt_pure none).symm

end Grammar.PlainAgrees

theorem Component.PlainAgrees.literal (text : Text) (n : Int) (w : Word) :
    (Component.literal w).PlainAgrees text n := by
  intro _ depth _ position
  rw [plainConsume, consume_literal, Journey.ofAttempt_pure]

theorem Inherited.plainAgrees (text : Text) (n : Int) :
    Inherited (Component.PlainAgrees text n) (Grammar.PlainAgrees text n) where
  literal w := .literal text n w
  classified w _ := Component.PlainAgrees.literal text n w
  zeroOrMore hg := hg.zeroOrMore
  oneOrMore hg := hg.zeroOrMore
  zeroOrOne hg := hg.zeroOrOne
  group hg := hg.group
  alternation hg hh := hg.alternation hh
  unknown _ _ hk := by cases hk
  nil := .nil
  cons hc hg := hg.cons hc

theorem Session.map_outcome_ofAttempt {α : Type} (s : Session) (x : Attempt α) :
    ((Journey.ofAttempt x).outcome s.furthest).map (fun (result, furthest) =>
      ({ s with furthest := furthest }, result)) = Part.some (s.record x) := by
  rw [Journey.outcome_ofAttempt, Part.map_some, record]

/-- Within the limit the plain walk comes to an end from any position, and to the same outcome as
the walk that looks out for the end of the text. -/
theorem plain_walk_terminates_alike (s : Session) (g : Grammar) {n depth : Int}
    (hn : s.limit = some n) (hk : g.isKnown = true) (hd : depth + g.height ≤ n) (position : Int)
    (nested : Bool) :
    s.plainRun g depth position nested = Part.some (s.run g depth position nested) := by
  have hrun : g.plainRun s.text s.limit depth position =
      .ofAttempt (g.run s.text s.limit depth position) := by
    rw [hn]
    exact (Inherited.plainAgrees s.text n).grammar g hk depth hd position
  have hwhole : g.plainRunWhole s.text s.limit depth position =
      .ofAttempt (g.runWhole s.text s.limit depth position) := by
    rw [Grammar.plainRunWhole, Grammar.runWhole, hrun, Journey.ofAttempt_bind]
    simp only [Journey.ofAttempt_pure]
  cases nested with
  | true =>
    rw [Session.plainRun, if_pos rfl, hrun, Session.map_outcome_ofAttempt]
    rfl
  | false =>
    rw [Session.plainRun, if_neg Bool.false_ne_true, hwhole, Session.map_outcome_ofAttempt]
    rfl

theorem plain_walk_terminates_alike_xab :
    (0 : Int) + Grammar.height [.literal ⟨'x', []⟩,
        .zeroOrMore [.literal ⟨'a', []⟩, .group [.zeroOrOne [.literal ⟨'b', []⟩]]],
        .group [.zeroOrMore [.zeroOrOne [.literal ⟨'c', []⟩]]]] ≤ 3 ∧
    Grammar.isKnown [.literal ⟨'x', []⟩,
        .zeroOrMore [.literal ⟨'a', []⟩, .group [.zeroOrOne [.literal ⟨'b', []⟩]]],
        .group [.zeroOrMore [.zeroOrOne [.literal ⟨'c', []⟩]]]] = true ∧
    (Session.start "xab".toList (some 3)).plainRun [.literal ⟨'x', []⟩,
        .zeroOrMore [.literal ⟨'a', []⟩, .group [.zeroOrOne [.literal ⟨'b', []⟩]]],
        .group [.zeroOrMore [.zeroOrOne [.literal ⟨'c', []⟩]]]] 0 0 false =
      Part.some (⟨"xab".toList, some 3, 3⟩, .ok (some ⟨3, ["x".toList, "ab".toList]⟩)) := by
  have hd : (0 : Int) + Grammar.height [.literal ⟨'x', []⟩,
      .zeroOrMore [.literal ⟨'a', []⟩, .group [.zeroOrOne [.literal ⟨'b', []⟩]]],
      .group [.zeroOrMore [.zeroOrOne [.literal ⟨'c', []⟩]]]] ≤ 3 := by decide
  have hk : Grammar.isKnown [.literal ⟨'x', []⟩,
      .zeroOrMore [.literal ⟨'a', []⟩, .group [.zeroOrOne [.literal ⟨'b', []⟩]]],
      .group [.zeroOrMore [.zeroOrOne [.literal ⟨'c', []⟩]]]] = true := by decide
  have hlimit : (Session.start "xab".toList (some 3)).limit = some 3 := rfl
  have hrun := plain_walk_terminates_alike _ _ hlimit hk hd 0 false
  refine ⟨hd, hk, hrun.trans (congrArg Part.some ?_)⟩
  cbv

end GreedyMatch
