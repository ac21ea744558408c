import GreedyMatch.Proofs.Match.Collapse

/-!
# Ordered choice

An alternation takes what the first of its branches takes that takes anything. A branch that takes
nothing is passed over, whether it failed or may stand for nothing. So it makes no difference how
branches in a row are bracketed, and an alternation is never left out: a run that has to get past
one takes something.
-/
namespace GreedyMatch
variable {text : Text} {limit : Option Int} {depth depth' position : Int}

/-- How much a nested run takes, if it succeeds and takes anything. -/
def Session.progress (s : Session) (g : Grammar) (depth position : Int) : Option Nat :=
  match (s.run g depth position true).2 with
  | .ok (some m) => if 0 < m.length then some m.length else none
  | _ => none

namespace Attempt
variable {x x' y y' z : Attempt Nat} {n : Nat}

/-- The second attempt is made only if the first one takes nothing. -/
def orElse (x y : Attempt Nat) : Attempt Nat := do
  let n ← x
  if 0 < n then return n else y

theorem orElse_assoc (x y z : Attempt Nat) : (x.orElse y).orElse z = x.orElse (y.orElse z) := by
  rw [orElse, orElse, orElse, bind_assoc]
  refine bind_congr fun n => ?_
  by_cases h0 : 0 < n
  · rw [if_pos h0, if_pos h0, pure_bind, if_pos h0]
  · rw [if_neg h0, if_neg h0]
    rfl

theorem orElse_zero (x : Attempt Nat) : x.orElse (pure 0) = x := by
  refine Eq.trans (bind_congr fun n => ?_) (bind_pure x)
  by_cases h0 : 0 < n
  · rw [if_pos h0]
  · rw [if_neg h0, Nat.eq_zero_of_not_pos h0]

theorem orElse_eq_ok_iff : (x.orElse y).result = .ok n ↔
    (x.result = .ok n ∧ 0 < n) ∨ (x.result = .ok 0 ∧ y.result = .ok n) := by
  rw [orElse, result_bind_eq_ok_iff]
  constructor
  · rintro ⟨k, hk, h⟩
    by_cases h0 : 0 < k
    · rw [if_pos h0] at h
      cases h
      exact .inl ⟨hk, h0⟩
    · rw [if_neg h0] at h
      rw [Nat.eq_zero_of_not_pos h0] at hk
      exact .inr ⟨hk, h⟩
  · rintro (⟨hx, h0⟩ | ⟨hx, hy⟩)
    · exact ⟨n, hx, by rw [if_pos h0]; rfl⟩
    · exact ⟨0, hx, by rwa [if_neg (Nat.lt_irrefl 0)]⟩

theorem SameUnlessTooDeep.orElse (hx : x.SameUnlessTooDeep x') (hy : y.SameUnlessTooDeep y') :
    (x.orElse y).SameUnlessTooDeep (x'.orElse y') := by
  apply hx.bind
  intro n
  by_cases h0 : 0 < n
  · rw [if_pos h0, if_pos h0]
    exact .refl _
  · rw [if_neg h0, if_neg h0]
    exact hy

/-- An attempt that tells how much it takes from a position reaches the end of that. -/
def Arrives (x : Attempt Nat) (position : Int) : Prop :=
  ∀ n, x.result = .ok n → 0 < n → (position + n).toNat ≤ x.reached

theorem Arrives.orElse (hx : x.Arrives position) (hy : y.Arrives position) :
    (x.orElse y).Arrives position := by
  intro n h h0
  rcases orElse_eq_ok_iff.1 h with ⟨hn, -⟩ | ⟨hzero, hn⟩
  · exact (hx n hn h0).trans (reached_le_reached_bind x _)
  · rw [Attempt.orElse, reached_bind_of_ok _ hzero, if_neg (Nat.lt_irrefl 0)]
    exact (hy n hn h0).trans (Nat.le_max_right _ _)

end Attempt

namespace Grammar
variable {left right g : Grammar} {n : Nat}

def taken (text : Text) (limit : Option Int) (depth position : Int) (g : Grammar) : Attempt Nat := do
  return Match.extent (← g.run text limit depth position)

/-- How much the first grammar takes that takes anything. -/
def firstTaken (text : Text) (limit : Option Int) (depth position : Int) :
    List Grammar → Attempt Nat
  | [] => pure 0
  | g :: gs => (g.taken text limit depth position).orElse (firstTaken text limit depth position gs)

theorem firstTaken_triple (g g' g'' : Grammar) :
    firstTaken text limit depth position [g, g', g''] =
      (g.taken text limit depth position).orElse
        ((g'.taken text limit depth position).orElse (g''.taken text limit depth position)) := by
  rw [firstTaken, firstTaken, firstTaken, firstTaken, Attempt.orElse_zero]

theorem taken_eq_ok_iff : (g.taken text limit depth position).result = .ok n ↔
    ∃ r, (g.run text limit depth position).result = .ok r ∧ Match.extent r = n := by
  rw [taken, Attempt.result_bind_eq_ok_iff]
  simp

theorem taken_shallower (g : Grammar) (hd : depth' ≤ depth) :
    (g.taken text limit depth position).SameUnlessTooDeep (g.taken text limit depth' position) :=
  (g.run_shallower hd position).bind fun _ => .refl _

theorem arrives_taken (g : Grammar) : (g.taken text limit depth position).Arrives position := by
  intro n h h0
  obtain ⟨r, hr, rfl⟩ := taken_eq_ok_iff.1 h
  cases r with
  | none => cases h0
  | some m =>
    rw [taken, Attempt.reached_bind_pure]
    exact g.reachesStop_run m hr h0

end Grammar

theorem Component.consume_alternation_eq (left right : Grammar) :
    (alternation left right).consume text limit depth position = (do
      let n ← (left.taken text limit (depth + 1) position).orElse
        (right.taken text limit (depth + 1) position)
      return .merged text position n) := by
  rw [consume_alternation, Attempt.orElse, Grammar.taken, Grammar.taken]
  simp only [bind_assoc, pure_bind]
  refine bind_congr fun r => ?_
  by_cases h0 : 0 < Match.extent r
  · rw [if_pos h0, if_pos h0, pure_bind]
  · rw [if_neg h0, if_neg h0, bind_assoc]
    simp only [pure_bind]

/-- A component that must not be left out and merges what it takes into one token fails where that
is nothing. -/
theorem Component.extent_step {c : Component} {x : Attempt Nat}
    (hn : c.nullable limit depth = .ok false) (hx : x.Arrives position)
    (hc : c.consume text limit depth position = (do return .merged text position (← x))) :
    (do return Match.extent (← c.step text limit depth position)) = x := by
  rcases x with ⟨k, fault | n⟩
  · rw [step, hc]
    rfl
  · have hconsume : c.consume text limit depth position = ⟨k, .ok (.merged text position n)⟩ :=
      hc.trans (congrArg (Attempt.mk · _) (Nat.max_zero k))
    have hlength := Match.length_merged text position n
    by_cases h0 : 0 < n
    · have hstop := hx n rfl h0
      rw [step_of_taking hconsume (by omega), hlength, Nat.max_eq_left hstop, Attempt.bind_eq_of_ok,
        Match.extent, hlength]
      exact congrArg (Attempt.mk · _) (Nat.max_zero k)
    · rw [step_of_not_taking hconsume (by omega), hn, Nat.eq_zero_of_not_pos h0]
      exact congrArg (Attempt.mk · _) (Nat.max_zero k)

namespace Grammar
variable {left right g : Grammar} {n : Nat}

/-- Before the end of the text an alternation on its own takes what its branches take. -/
theorem taken_alternation (hallow : allow limit depth = .ok ()) (hp : position ≠ text.length) :
    taken text limit depth position [.alternation left right] =
      (left.taken text limit (depth + 1) position).orElse
        (right.taken text limit (depth + 1) position) := by
  have hrun : run text limit [.alternation left right] depth position =
      (Component.alternation left right).step text limit depth position := by
    rw [run, guarded, hallow]
    exact walk_singleton hp
  rw [taken, hrun]
  exact Component.extent_step rfl ((arrives_taken left).orElse (arrives_taken right))
    (Component.consume_alternation_eq left right)

theorem reached_run_at_end (g : Grammar) : (run text limit g depth text.length).reached = 0 := by
  rw [run, guarded]
  cases allow limit depth with
  | error fault => rfl
  | ok _ =>
    rw [walk_length]
    rfl

theorem nullable_of_mem {c : Component} (h : nullable limit g depth = .ok true) (hc : c ∈ g) :
    c.nullable limit depth = .ok true := by
  induction g with
  | nil => cases hc
  | cons c' cs ih =>
    obtain ⟨hfirst, hrest⟩ := nullable_cons_eq_true_iff.1 h
    rcases List.mem_cons.1 hc with rfl | hc
    · exact hfirst
    · exact ih hrest hc

end Grammar

theorem Component.consume_alternation_at_end {left right : Grammar} {m : Match}
    (h : ((alternation left right).consume text limit depth text.length).result = .ok m) :
    (alternation left right).consume text limit depth text.length = ⟨0, .ok .empty⟩ := by
  obtain ⟨r, hr, hcases⟩ := consume_alternation_eq_ok_iff.1 h
  have h0 := Grammar.extent_run_at_end hr
  rcases hcases with ⟨hpos, -⟩ | ⟨-, r', hr', rfl⟩
  · omega
  · have hreached : ((alternation left right).consume text limit depth text.length).reached =
        max (left.run text limit (depth + 1) text.length).reached
          (right.run text limit (depth + 1) text.length).reached :=
      reached_consume_alternation hr h0
    rw [Grammar.reached_run_at_end, Grammar.reached_run_at_end] at hreached
    rw [Grammar.extent_run_at_end hr'] at h
    rcases hc : (alternation left right).consume text limit depth text.length with ⟨k, e⟩
    rw [hc] at h hreached
    subst h hreached
    rfl

namespace Session
variable {s : Session} {g : Grammar} {gs : List Grammar} {n : Nat}

theorem progress_of_taken (h : (g.taken s.text s.limit depth position).result = .ok n) :
    s.progress g depth position = if 0 < n then some n else none := by
  obtain ⟨r, hr, rfl⟩ := Grammar.taken_eq_ok_iff.1 h
  have hrun : (s.run g depth position true).2 = .ok r := hr
  rw [progress, hrun]
  cases r with
  | none => rfl
  | some m => rfl

theorem progress_at_end (g : Grammar) : s.progress g depth s.text.length = none := by
  cases hr : (g.run s.text s.limit depth s.text.length).result with
  | error fault =>
    have hrun : (s.run g depth s.text.length true).2 = .error fault := hr
    rw [progress, hrun]
  | ok r =>
    have htaken := Grammar.taken_eq_ok_iff.2 ⟨r, hr, Grammar.extent_run_at_end hr⟩
    exact progress_of_taken htaken

theorem findSome?_progress (h : (Grammar.firstTaken s.text s.limit depth position gs).result = .ok n) :
    gs.findSome? (s.progress · depth position) = if 0 < n then some n else none := by
  induction gs with
  | nil =>
    cases h
    rfl
  | cons g gs ih =>
    rw [List.findSome?_cons]
    rcases Attempt.orElse_eq_ok_iff.1 h with ⟨hg, h0⟩ | ⟨hg, hrest⟩
    · rw [progress_of_taken hg, if_pos h0]
    · rw [progress_of_taken hg]
      exact ih hrest

theorem merged_of_firstTaken
    (h : (Grammar.firstTaken s.text s.limit depth position gs).result = .ok n) :
    Match.merged s.text position n = match gs.findSome? (s.progress · depth position) with
      | some k => ⟨k, [Sequence.between s.text position (position + k)]⟩
      | none => .empty := by
  rw [findSome?_progress h]
  by_cases h0 : 0 < n
  · rw [if_pos h0]
    exact Match.merged_of_pos s.text position h0
  · rw [if_neg h0, Nat.eq_zero_of_not_pos h0]
    rfl

end Session

namespace Component
variable {X Y Z : Grammar} {m : Match}

/-- With the second and the third of three branches in an alternation of their own an alternation
does as a choice from all three in a row, unless it nests too deeply. -/
theorem consume_alternation_right (hallow : allow limit (depth + 1) = .ok ())
    (hp : position ≠ text.length) :
    ((alternation X [alternation Y Z]).consume text limit depth position).SameUnlessTooDeep (do
      return .merged text position
        (← Grammar.firstTaken text limit (depth + 1) position [X, Y, Z])) := by
  have hd : depth + 1 ≤ depth + 1 + 1 := by omega
  rw [consume_alternation_eq, Grammar.taken_alternation hallow hp, Grammar.firstTaken_triple]
  refine .bind (.orElse (.refl _) (.orElse ?_ ?_)) fun _ => .refl _
  · exact Y.taken_shallower hd
  · exact Z.taken_shallower hd

theorem consume_alternation_left (hallow : allow limit (depth + 1) = .ok ())
    (hp : position ≠ text.length) :
    ((alternation [alternation X Y] Z).consume text limit depth position).SameUnlessTooDeep (do
      return .merged text position
        (← Grammar.firstTaken text limit (depth + 1) position [X, Y, Z])) := by
  have hd : depth + 1 ≤ depth + 1 + 1 := by omega
  rw [consume_alternation_eq, Grammar.taken_alternation hallow hp, Grammar.firstTaken_triple,
    ← Attempt.orElse_assoc]
  refine .bind (.orElse (.orElse ?_ ?_) (.refl _)) fun _ => .refl _
  · exact X.taken_shallower hd
  · exact Y.taken_shallower hd

theorem allow_of_consume_alternation
    (h : ((alternation X Y).consume text limit depth position).result = .ok m) :
    allow limit (depth + 1) = .ok () := by
  obtain ⟨r, hr, -⟩ := consume_alternation_eq_ok_iff.1 h
  exact (Grammar.run_eq_ok_iff.1 hr).1

end Component

/-- Of three branches the first one that takes anything makes the one token, whichever two of them
stand in an alternation of their own. So a run never gets past an alternation with nothing. -/
theorem ordered_choice_is_associative (s : Session) (X Y Z : Grammar) (depth position : Int) :
    (∀ m m',
      (s.consume (.component (.alternation X [.alternation Y Z])) depth position).2 = .ok m →
      (s.consume (.component (.alternation [.alternation X Y] Z)) depth position).2 = .ok m' →
      s.consume (.component (.alternation X [.alternation Y Z])) depth position =
        s.consume (.component (.alternation [.alternation X Y] Z)) depth position ∧
      m = match [X, Y, Z].findSome? (s.progress · (depth + 1) position) with
        | some n => ⟨n, [Sequence.between s.text position (position + n)]⟩
        | none => .empty) ∧
    (∀ g left right nested m, Component.alternation left right ∈ g.splice →
      (s.run g depth position nested).2 = .ok (some m) → 0 < m.length) := by
  constructor
  · intro m m' h h'
    by_cases hp : position = s.text.length
    · -- Here the inner alternation is left at once, since it is not nullable. None of its branches
      -- is run, so a choice from all three in a row might meet a fault that neither side meets.
      subst hp
      have hleft := Component.consume_alternation_at_end h
      have hright := Component.consume_alternation_at_end h'
      refine ⟨congrArg s.record (hleft.trans hright.symm), ?_⟩
      have hnone : [X, Y, Z].findSome? (s.progress · (depth + 1) s.text.length) = none := by
        simp only [List.findSome?_cons, List.findSome?_nil, Session.progress_at_end]
      rw [hnone]
      have hm : (s.consume (.component (.alternation X [.alternation Y Z])) depth
        s.text.length).2 = .ok .empty := congrArg Attempt.result hleft
      rw [h] at hm
      exact Except.ok.inj hm
    · have hallow := Component.allow_of_consume_alternation h
      have hright := (Component.consume_alternation_right hallow hp).eq_of_ok h
      have hleft := (Component.consume_alternation_left hallow hp).eq_of_ok h'
      refine ⟨congrArg s.record (hright.symm.trans hleft), ?_⟩
      have h : (Component.consume s.text s.limit _ depth position).result = .ok m := h
      rw [← hright] at h
      obtain ⟨n, hn, hm⟩ := Attempt.result_bind_eq_ok_iff.1 h
      rw [← Session.merged_of_firstTaken hn]
      exact (Except.ok.inj hm).symm
  · intro g left right nested m hmem h
    obtain ⟨hrun, -⟩ := Session.run_eq_some_iff.1 h
    by_contra h0
    have hwalk := (Grammar.run_eq_ok_iff.1 (Grammar.run_splice hrun)).2
    have hbare := Grammar.nullable_of_walk hwalk (Nat.eq_zero_of_not_pos h0)
    cases Grammar.nullable_of_mem hbare hmem

theorem ordered_choice_is_associative_bb :
    ((Session.start "bb".toList (some 4)).consume (.component (.alternation
        [.zeroOrOne [.literal ⟨'a', []⟩]]
        [.alternation [.literal ⟨'a', []⟩] [.oneOrMore [.literal ⟨'b', []⟩]]])) 0 0).2 =
      .ok ⟨2, ["bb".toList]⟩ ∧
    (Session.start "bb".toList (some 4)).consume (.component (.alternation
        [.zeroOrOne [.literal ⟨'a', []⟩]]
        [.alternation [.literal ⟨'a', []⟩] [.oneOrMore [.literal ⟨'b', []⟩]]])) 0 0 =
      (Session.start "bb".toList (some 4)).consume (.component (.alternation
        [.alternation [.zeroOrOne [.literal ⟨'a', []⟩]] [.literal ⟨'a', []⟩]]
        [.oneOrMore [.literal ⟨'b', []⟩]])) 0 0 ∧
    ((Session.start "bb".toList (some 4)).run [.group [.alternation
        [.zeroOrOne [.literal ⟨'a', []⟩]] [.zeroOrOne [.literal ⟨'b', []⟩]]]] 0 0 true).2 =
      .ok (some ⟨1, ["b".toList]⟩) ∧
    0 < (⟨1, ["b".toList]⟩ : Match).length := by
  obtain ⟨hchoice, hpast⟩ := ordered_choice_is_associative (Session.start "bb".toList (some 4))
    [.zeroOrOne [.literal ⟨'a', []⟩]] [.literal ⟨'a', []⟩] [.oneOrMore [.literal ⟨'b', []⟩]] 0 0
  have hright : ((Session.start "bb".toList (some 4)).consume (.component (.alternation
        [.zeroOrOne [.literal ⟨'a', []⟩]]
        [.alternation [.literal ⟨'a', []⟩] [.oneOrMore [.literal ⟨'b', []⟩]]])) 0 0).2 =
      .ok ⟨2, ["bb".toList]⟩ := by cbv
  have hleft : ((Session.start "bb".toList (some 4)).consume (.component (.alternation
        [.alternation [.zeroOrOne [.literal ⟨'a', []⟩]] [.literal ⟨'a', []⟩]]
        [.oneOrMore [.literal ⟨'b', []⟩]])) 0 0).2 = .ok ⟨2, ["bb".toList]⟩ := by cbv
  have hgroup : ((Session.start "bb".toList (some 4)).run [.group [.alternation
        [.zeroOrOne [.literal ⟨'a', []⟩]] [.zeroOrOne [.literal ⟨'b', []⟩]]]] 0 0 true).2 =
      .ok (some ⟨1, ["b".toList]⟩) := by cbv
  have hmem : Component.alternation [.zeroOrOne [.literal ⟨'a', []⟩]]
      [.zeroOrOne [.literal ⟨'b', []⟩]] ∈ Grammar.splice [.group [.alternation
        [.zeroOrOne [.literal ⟨'a', []⟩]] [.zeroOrOne [.literal ⟨'b', []⟩]]]] := .head _
  exact ⟨hright, (hchoice _ _ hright hleft).1, hgroup, hpast _ _ _ _ _ hmem hgroup⟩

end GreedyMatch
