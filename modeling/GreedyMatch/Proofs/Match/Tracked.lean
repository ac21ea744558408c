import GreedyMatch.Proofs.Match.Accord
import GreedyMatch.Proofs.Match.Plain

/-!
# Sessions that go on

A tracked run writes the furthest position of its session as it goes: every step that gets
further raises it at once, be it nested, given up later or followed by a fault. What such a
run comes to does not depend on the position that it finds there, and what it leaves there is
the greater of that position and the one it reaches by itself. So the calls of a session do
not know of each other.
-/
namespace GreedyMatch
variable {text : Text} {limit : Option Int} {depth position : Int}

theorem Attempt.reached_map {α β : Type} (f : α → β) (x : Attempt α) :
    (f <$> x).reached = x.reached := by
  rw [map_eq_pure_bind, reached_bind_pure]

namespace Journey
variable {pass : Int → Attempt (Option Match)} {pass' : Int → Journey (Option Match)}

/-- Raises the furthest position if the cursor has gone beyond it. -/
def raise (cursor : Int) : Journey Unit := do
  if (← get) < cursor then set cursor.toNat

def passesWithin (size : Nat) (pass : Int → Journey (Option Match)) (cursor : Int) :
    Journey Nat :=
  if cursor < size then do
    let n := Match.extent (← pass cursor)
    if 0 < n then return n + (← passesWithin size pass (cursor + n)) else return 0
  else return 0
termination_by (size - cursor).toNat
decreasing_by omega

theorem outcome_lift {α : Type} (x : StateT Nat Part α) (furthest : Nat) :
    outcome (ExceptT.lift x) furthest = (x.run furthest).map fun (a, k) => (.ok a, k) := by
  rw [outcome, ExceptT.run_lift, StateT.run_map]
  rfl

theorem outcome_get (furthest : Nat) :
    outcome get furthest = .some (.ok furthest, furthest) :=
  (outcome_lift get furthest).trans (Part.map_some _ _)

theorem outcome_set (k furthest : Nat) : outcome (set k) furthest = .some (.ok ⟨⟩, k) :=
  (outcome_lift (set k) furthest).trans (Part.map_some _ _)

theorem ofAttempt_map {α β : Type} (f : α → β) (x : Attempt α) :
    ofAttempt (f <$> x) = f <$> ofAttempt x := by
  simp only [map_eq_pure_bind, ofAttempt_bind, ofAttempt_pure]

theorem raise_eq_mark (cursor : Int) : raise cursor = mark cursor := by
  apply ext
  intro furthest
  rw [← ofAttempt_mark, outcome_ofAttempt, raise, outcome_bind, outcome_get, Part.bind_some]
  dsimp only
  by_cases h : (furthest : Int) < cursor
  · have hmax : max furthest cursor.toNat = cursor.toNat := by omega
    rw [if_pos h, outcome_set, Attempt.mark, hmax]
  · have hmax : max furthest cursor.toNat = furthest := by omega
    rw [if_neg h, outcome_pure, Attempt.mark, hmax]

theorem passesWithin_eq_ofAttempt (h : ∀ p, pass' p = ofAttempt (pass p)) (size : Nat)
    (cursor : Int) :
    passesWithin size pass' cursor = ofAttempt (GreedyMatch.passes size pass cursor) := by
  rw [passesWithin, GreedyMatch.passes]
  by_cases hc : cursor < size
  · rw [if_pos hc, if_pos hc, ofAttempt_bind, h cursor]
    refine bind_congr fun r => ?_
    by_cases h0 : 0 < Match.extent r
    · have hrest := passesWithin_eq_ofAttempt h size (cursor + Match.extent r)
      rw [if_pos h0, if_pos h0, ofAttempt_bind, hrest]
      simp only [ofAttempt_pure]
    · rw [if_neg h0, if_neg h0, ofAttempt_pure]
  · rw [if_neg hc, if_neg hc, ofAttempt_pure]
termination_by (size - cursor).toNat

end Journey

mutual

/-- What a component takes, with the furthest position written on the way. -/
def Component.trackedConsume (text : Text) (limit : Option Int) :
    Component → Int → Int → Journey Match
  | .literal w, _, position => return .word text w position
  | .classified w _, _, position => return .word text w position
  | .zeroOrMore inner, depth, position => do
    let n ← Journey.passesWithin text.length
      (Journey.guarded limit (depth + 1) (Grammar.trackedWalk text limit inner (depth + 1)))
      position
    return .merged text position n
  | .oneOrMore inner, depth, position => do
    let n ← Journey.passesWithin text.length
      (Journey.guarded limit (depth + 1) (Grammar.trackedWalk text limit inner (depth + 1)))
      position
    return .merged text position n
  | .zeroOrOne inner, depth, position => do
    let m ← Journey.guarded limit (depth + 1)
      (Grammar.trackedWalk text limit inner (depth + 1)) position
    return .merged text position (Match.extent m)
  | .group inner, depth, position => do
    let m ← Journey.guarded limit (depth + 1)
      (Grammar.trackedWalk text limit inner (depth + 1)) position
    return m.getD .empty
  | .alternation left right, depth, position => do
    let m ← Journey.guarded limit (depth + 1)
      (Grammar.trackedWalk text limit left (depth + 1)) position
    if 0 < Match.extent m then
      return .merged text position (Match.extent m)
    else do
      let n ← Journey.guarded limit (depth + 1)
        (Grammar.trackedWalk text limit right (depth + 1)) position
      return .merged text position (Match.extent n)
  | .unknown cls payload, _, position =>
    throw (.unsupported (.component (.unknown cls payload)) (some position))

def Grammar.trackedWalk (text : Text) (limit : Option Int) :
    List Component → Int → Int → Journey (Option Match)
  | [], _, _ => return some .empty
  | c :: cs, depth, cursor =>
    if cursor = text.length then do
      let bare ← ofExcept (Grammar.nullable limit (c :: cs) depth)
      return if bare then some .empty else none
    else do
      let m ← c.trackedConsume text limit depth cursor
      if 0 < m.length then
        Journey.raise (cursor + m.length)
        let rest ← Grammar.trackedWalk text limit cs depth (cursor + m.length)
        return rest.map (m ++ ·)
      else if ← ofExcept (c.nullable limit depth) then
        Grammar.trackedWalk text limit cs depth cursor
      else
        return none

end

namespace Grammar

def trackedRun (text : Text) (limit : Option Int) (g : Grammar) (depth position : Int) :
    Journey (Option Match) :=
  Journey.guarded limit depth (trackedWalk text limit g depth) position

def trackedRunWhole (text : Text) (limit : Option Int) (g : Grammar) (depth position : Int) :
    Journey (Option Match) := do
  let m ← trackedRun text limit g depth position
  return m.filter fun m => position + m.length = text.length

end Grammar

def Value.trackedConsume (text : Text) (limit : Option Int) (v : Value) (depth position : Int) :
    Journey Match :=
  match v with
  | .component c => c.trackedConsume text limit depth position
  | v => throw (.unsupported v (some position))

def Component.TracksAlike (text : Text) (limit : Option Int) (c : Component) : Prop :=
  ∀ depth position, c.trackedConsume text limit depth position =
    .ofAttempt (c.consume text limit depth position)

def Grammar.TracksAlike (text : Text) (limit : Option Int) (g : Grammar) : Prop :=
  ∀ depth position, trackedWalk text limit g depth position =
    .ofAttempt (walk text limit g depth position)

namespace Grammar.TracksAlike
variable {c : Component} {g h : Grammar}

theorem run (hg : g.TracksAlike text limit) (depth position : Int) :
    g.trackedRun text limit depth position = .ofAttempt (g.run text limit depth position) :=
  Journey.ofAttempt_guarded (hg depth) position

theorem zeroOrMore (hg : g.TracksAlike text limit) :
    (Component.zeroOrMore g).TracksAlike text limit := by
  intro depth position
  rw [Component.consume_zeroOrMore, Journey.ofAttempt_bind,
    ← Journey.passesWithin_eq_ofAttempt (hg.run (depth + 1))]
  simp only [Journey.ofAttempt_pure]
  rfl

theorem zeroOrOne (hg : g.TracksAlike text limit) :
    (Component.zeroOrOne g).TracksAlike text limit := by
  intro depth position
  rw [Component.consume_zeroOrOne, Journey.ofAttempt_bind, ← hg.run]
  simp only [Journey.ofAttempt_pure]
  rfl

theorem group (hg : g.TracksAlike text limit) : (Component.group g).TracksAlike text limit := by
  intro depth position
  rw [Component.consume_group, Journey.ofAttempt_bind, ← hg.run]
  simp only [Journey.ofAttempt_pure]
  rfl

theorem alternation (hg : g.TracksAlike text limit) (hh : h.TracksAlike text limit) :
    (Component.alternation g h).TracksAlike text limit := by
  intro depth position
  rw [Component.consume_alternation, Journey.ofAttempt_bind, ← hg.run]
  refine bind_congr fun r => ?_
  by_cases h0 : 0 < Match.extent r
  · rw [if_pos h0, if_pos h0, Journey.ofAttempt_pure]
  · rw [if_neg h0, if_neg h0, Journey.ofAttempt_bind, ← hh.run]
    simp only [Journey.ofAttempt_pure]
    rfl

theorem cons (hc : c.TracksAlike text limit) (hg : g.TracksAlike text limit) :
    Grammar.TracksAlike text limit (c :: g) := by
  intro depth position
  rw [trackedWalk, Grammar.walk]
  by_cases hp : position = text.length
  · rw [if_pos hp, if_pos hp, Journey.ofAttempt_bind, Journey.ofAttempt_ofExcept]
    simp only [Journey.ofAttempt_pure]
  · rw [if_neg hp, if_neg hp, Journey.ofAttempt_bind, hc depth position]
    refine bind_congr fun m => ?_
    by_cases h0 : 0 < m.length
    · rw [if_pos h0, if_pos h0, Journey.ofAttempt_bind, Journey.ofAttempt_mark,
        Journey.raise_eq_mark, hg]
      simp only [Journey.ofAttempt_bind, Journey.ofAttempt_pure]
    · rw [if_neg h0, if_neg h0, Journey.ofAttempt_bind, Journey.ofAttempt_ofExcept, hg]
      refine bind_congr fun bare => ?_
      cases bare with
      | true => rw [if_pos rfl, if_pos rfl]
      | false => exact (Journey.ofAttempt_pure none).symm

end Grammar.TracksAlike

theorem Component.TracksAlike.literal (text : Text) (limit : Option Int) (w : Word) :
    (Component.literal w).TracksAlike text limit := by
  intro depth position
  rw [trackedConsume, consume_literal, Journey.ofAttempt_pure]

theorem Inherited.tracksAlike (text : Text) (limit : Option Int) :
    Inherited (Component.TracksAlike text limit) (Grammar.TracksAlike text limit) where
  literal w := .literal text limit w
  classified w _ := Component.TracksAlike.literal text limit w
  zeroOrMore hg := hg.zeroOrMore
  oneOrMore hg := hg.zeroOrMore
  zeroOrOne hg := hg.zeroOrOne
  group hg := hg.group
  alternation hg hh := hg.alternation hh
  unknown cls payload depth position := by
    rw [Component.trackedConsume, Component.consume_unknown, Journey.ofAttempt_fail]
  nil depth position := by
    rw [Grammar.trackedWalk, Grammar.walk_nil, Journey.ofAttempt_pure]
  cons hc hg := .cons hc hg

theorem Value.trackedConsume_eq (v : Value) (depth position : Int) :
    v.trackedConsume text limit depth position =
      .ofAttempt (v.consume text limit depth position) := by
  cases v with
  | component c => exact (Inherited.tracksAlike text limit).component c depth position
  | _ => exact (Journey.ofAttempt_fail _).symm

namespace Grammar

theorem trackedRun_eq (g : Grammar) (depth position : Int) :
    g.trackedRun text limit depth position = .ofAttempt (g.run text limit depth position) :=
  ((Inherited.tracksAlike text limit).grammar g).run depth position

theorem trackedRunWhole_eq (g : Grammar) (depth position : Int) :
    g.trackedRunWhole text limit depth position =
      .ofAttempt (g.runWhole text limit depth position) := by
  rw [trackedRunWhole, runWhole, trackedRun_eq, Journey.ofAttempt_bind]
  simp only [Journey.ofAttempt_pure]

end Grammar

namespace Session

def Call.attempt (text : Text) (limit : Option Int) : Call → Attempt Answer
  | .run g depth position nested =>
    .run <$> if nested then g.run text limit depth position else g.runWhole text limit depth position
  | .consume v depth position => .consume <$> v.consume text limit depth position

/-- The call as a journey, which may set out with any furthest position. -/
def Call.tracked (text : Text) (limit : Option Int) : Call → Journey Answer
  | .run g depth position nested =>
    .run <$> if nested then g.trackedRun text limit depth position
      else g.trackedRunWhole text limit depth position
  | .consume v depth position => .consume <$> v.trackedConsume text limit depth position

def trackedCall (s : Session) (c : Call) : Part (Session × Except Fault Answer) :=
  ((c.tracked s.text s.limit).outcome s.furthest).map fun (answer, furthest) =>
    ({ s with furthest := furthest }, answer)

def trackedCalls (s : Session) : List Call → Part (Session × List (Except Fault Answer))
  | [] => return (s, [])
  | c :: cs => do
    let (next, answer) ← s.trackedCall c
    let (last, answers) ← next.trackedCalls cs
    return (last, answer :: answers)

theorem Call.tracked_eq (c : Call) : c.tracked text limit = .ofAttempt (c.attempt text limit) := by
  cases c with
  | run g depth position nested =>
    rw [tracked, attempt, Journey.ofAttempt_map, Grammar.trackedRun_eq, Grammar.trackedRunWhole_eq]
    cases nested with
    | true => rfl
    | false => rfl
  | consume v depth position =>
    rw [tracked, attempt, Journey.ofAttempt_map, Value.trackedConsume_eq]

theorem record_map {α β : Type} (s : Session) (f : α → β) (x : Attempt α) :
    s.record (f <$> x) = ((s.record x).1, (s.record x).2.map f) := by
  rcases x with ⟨r, fault | a⟩
  · rfl
  · rw [map_eq_pure_bind, Attempt.bind_eq_of_ok]
    simp only [record, Attempt.pure_eq, Nat.max_zero, Except.map]

theorem call_eq_record (s : Session) (c : Call) :
    s.call c = s.record (c.attempt s.text s.limit) := by
  cases c with
  | run g depth position nested => exact (s.record_map Answer.run _).symm
  | consume v depth position => exact (s.record_map Answer.consume _).symm

theorem trackedCall_eq (s : Session) (c : Call) : s.trackedCall c = Part.some (s.call c) := by
  rw [trackedCall, Call.tracked_eq, map_outcome_ofAttempt, call_eq_record]

theorem trackedCalls_eq (s : Session) (cs : List Call) :
    s.trackedCalls cs = Part.some (s.calls cs) := by
  induction cs generalizing s with
  | nil => rfl
  | cons c cs ih =>
    rw [trackedCalls, trackedCall_eq, Part.bind_eq_bind, Part.bind_some, calls]
    rcases s.call c with ⟨next, answer⟩
    dsimp only
    rw [ih]
    exact Part.bind_some _ _

/-- The first call changes nothing for the others but the furthest position. -/
theorem calls_eq (s : Session) (cs : List Call) :
    s.calls cs =
      ({ s with
          furthest := (cs.map fun c => (c.attempt s.text s.limit).reached).foldl max s.furthest },
        cs.map fun c => (c.attempt s.text s.limit).result) := by
  induction cs generalizing s with
  | nil => rfl
  | cons c cs ih =>
    rw [calls, call_eq_record]
    dsimp only
    rw [ih]
    rfl

theorem call_start (c : Call) :
    (start text limit).call c =
      (⟨text, limit, (c.attempt text limit).reached⟩, (c.attempt text limit).result) := by
  have hfresh : max 0 (c.attempt text limit).reached = (c.attempt text limit).reached :=
    Nat.zero_max _
  rw [call_eq_record, start, record, hfresh]

theorem Call.reached_attempt_le (c : Call) : (c.attempt text limit).reached ≤ text.length := by
  cases c with
  | run g depth position nested =>
    rw [attempt, Attempt.reached_map]
    exact (start text limit).reached_attempt_le g nested
  | consume v depth position =>
    rw [attempt, Attempt.reached_map]
    cases v with
    | component c =>
      exact ((Inherited.accords (.inside text limit)).component c depth depth rfl).2 position
    | _ => exact Nat.zero_le _

theorem furthest_calls_le (cs : List Call) :
    ((start text limit).calls cs).1.furthest ≤ text.length := by
  rw [calls_eq]
  refine List.foldlRecOn (motive := fun n => n ≤ text.length) _ _ (Nat.zero_le _) ?_
  intro n hn r hr
  obtain ⟨c, -, rfl⟩ := List.mem_map.1 hr
  exact Nat.max_le.2 ⟨hn, c.reached_attempt_le⟩

end Session

/-- Whatever a session has been asked before, a call answers as in a session of its own, and the
session remembers the furthest position that any of its calls would have come to there. -/
theorem sessions_remember_furthest (text : Text) (limit : Option Int) (cs : List Session.Call) :
    let fresh := Session.start text limit
    fresh.trackedCalls cs = Part.some (fresh.calls cs) ∧
    (fresh.calls cs).2 = cs.map (fun c => (fresh.call c).2) ∧
    (fresh.calls cs).1.furthest = (cs.map fun c => (fresh.call c).1.furthest).foldl max 0 ∧
    (fresh.calls cs).1.furthest ≤ text.length ∧
    ∀ c, (fresh.calls cs).1.furthest ≤ (fresh.calls (cs ++ [c])).1.furthest := by
  intro fresh
  have hcalls (cs : List Session.Call) :
      (fresh.calls cs).1.furthest = (cs.map fun c => (fresh.call c).1.furthest).foldl max 0 := by
    simp only [fresh, Session.calls_eq, Session.call_start]
    rfl
  refine ⟨fresh.trackedCalls_eq cs, ?_, hcalls cs, Session.furthest_calls_le cs, ?_⟩
  · simp only [fresh, Session.calls_eq, Session.call_start]
    rfl
  · intro c
    rw [hcalls, hcalls, List.map_append, List.foldl_append]
    exact Nat.le_max_left _ _

end GreedyMatch
