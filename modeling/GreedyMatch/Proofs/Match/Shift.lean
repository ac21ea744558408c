import GreedyMatch.Proofs.Grammar.Shape
import GreedyMatch.Proofs.Match.Concat
import Mathlib.Tactic

/-!
# What lies before a position

A run never looks at what lies before the position where it starts. With other text in front
it comes to the same outcome; only the positions it tells of are counted from elsewhere.
-/
namespace GreedyMatch
variable {limit : Option Int} {depth position : Int}

/-- The fault as it is met with `k` more characters in front of the text. -/
def Fault.shift (k : Nat) : Fault → Fault
  | .tooDeep depth limit => .tooDeep depth limit
  | .noLimit => .noLimit
  | .unsupported value position => .unsupported value (position.map (k + ·))

namespace Attempt
variable {α β : Type}

/-- The attempt as it goes with `k` more characters in front of the text. One that reaches
nothing reaches nothing there either. -/
def shift (k : Nat) (x : Attempt α) : Attempt α :=
  ⟨if x.reached = 0 then 0 else k + x.reached, x.result.mapError (Fault.shift k)⟩

theorem shift_pure (k : Nat) (a : α) : (pure a : Attempt α).shift k = pure a := rfl

theorem result_shift {k : Nat} {x : Attempt α} {a : α} (h : x.result = .ok a) :
    (x.shift k).result = .ok a := by
  simp only [shift, h, Except.mapError]

theorem shift_mark (k : Nat) (h : 0 < position) :
    (mark position).shift k = mark (k + position) := by
  have hreached : (mark position).reached ≠ 0 := by
    change position.toNat ≠ 0
    omega
  rw [shift, if_neg hreached]
  refine congrArg (Attempt.mk · _) ?_
  change k + position.toNat = (k + position).toNat
  omega

theorem shift_bind (k : Nat) (x : Attempt α) (f : α → Attempt β) :
    (x >>= f).shift k = x.shift k >>= fun a => (f a).shift k := by
  rcases x with ⟨r, fault | a⟩
  · rfl
  · refine congrArg (Attempt.mk · _) ?_
    change (if max r (f a).reached = 0 then 0 else k + max r (f a).reached) =
      max (if r = 0 then 0 else k + r) (if (f a).reached = 0 then 0 else k + (f a).reached)
    split_ifs <;> omega

theorem shift_ofExcept_map {k : Nat} {e : Except Fault α} (he : e.mapError (Fault.shift k) = e)
    (f : α → β) : (ofExcept (e.map f)).shift k = ofExcept (e.map f) := by
  cases e with
  | error fault => exact congrArg (fun e : Except Fault α => ofExcept (e.map f)) he
  | ok a => rfl

theorem shift_guarded {run run' : Int → Attempt α} {k : Nat}
    (h : allow limit depth = .ok () → run' (k + position) = (run position).shift k) :
    guarded limit depth run' (k + position) = (guarded limit depth run position).shift k := by
  unfold guarded
  cases limit with
  | none => rfl
  | some n =>
    by_cases hn : n < depth
    · rw [allow_of_lt hn]
      rfl
    · have hallow : allow (some n) depth = .ok () := allow_of_le (by omega)
      rw [hallow]
      exact h hallow

theorem shift_followedBy {x : Attempt (Option Match)} {next next' : Int → Attempt (Option Match)}
    {k : Nat} (hpos : 0 ≤ position) (hnext : ∀ p, 0 ≤ p → next' (k + p) = (next p).shift k) :
    (x.shift k).followedBy next' (k + position) = (x.followedBy next position).shift k := by
  rw [followedBy, followedBy, shift_bind]
  refine bind_congr fun r => ?_
  cases r with
  | none => rfl
  | some m =>
    simp only [Int.add_assoc, hnext _ (show 0 ≤ position + m.length by omega), shift_bind,
      shift_pure]

end Attempt

/-- Nullability is asked of no text, so its faults tell of no position. -/
theorem Inherited.nullable_shift (k : Nat) (limit : Option Int) :
    Inherited
      (fun c => ∀ depth, (c.nullable limit depth).mapError (Fault.shift k) =
        c.nullable limit depth)
      (fun g => ∀ depth, (Grammar.nullable limit g depth).mapError (Fault.shift k) =
        Grammar.nullable limit g depth) where
  literal _ _ := rfl
  classified _ _ _ := rfl
  zeroOrMore _ _ := rfl
  oneOrMore _ _ := rfl
  zeroOrOne _ _ := rfl
  group hg depth := by
    rw [Component.nullable]
    cases limit with
    | none => rfl
    | some n =>
      by_cases hn : n < depth + 1
      · rw [allow_of_lt hn]
        rfl
      · rw [allow_of_le (by omega)]
        exact hg (depth + 1)
  alternation _ _ _ := rfl
  unknown _ _ _ := rfl
  nil _ := rfl
  cons {c g} hc hg depth := by
    have hc := hc depth
    rw [Grammar.nullable]
    rcases hn : c.nullable limit depth with fault | _ | _ <;> rw [hn] at hc
    · exact hc
    · rfl
    · exact hg depth

theorem Sequence.between_append_shift (u t : Text) (hpos : 0 ≤ position) (k : Nat) :
    between (u ++ t) (u.length + position) (u.length + position + k) =
      between t position (position + k) := by
  obtain ⟨p, rfl⟩ := Int.eq_ofNat_of_zero_le hpos
  have hcast : (u.length : Int) + p = (u.length + p : Nat) := by omega
  rw [hcast, between_add, between_add, List.drop_length_add_append]

namespace Match
variable (u t : Text)

theorem merged_append_shift (hpos : 0 ≤ position) (k : Nat) :
    merged (u ++ t) (u.length + position) k = merged t position k := by
  rw [merged, merged, Sequence.between_append_shift u t hpos]

theorem word_append_shift (hpos : 0 ≤ position) (w : Word) :
    word (u ++ t) w (u.length + position) = word t w position := by
  have hclamp : Sequence.clamp (u ++ t).length (u.length + position) =
      u.length + Sequence.clamp t.length position := by
    rw [Sequence.clamp_of_nonneg hpos, Sequence.clamp_of_nonneg (by omega), List.length_append]
    omega
  rw [word, word, hclamp, List.drop_length_add_append]

end Match

theorem passes_shift (size k : Nat) {pass pass' : Int → Attempt (Option Match)}
    (h : ∀ p, 0 ≤ p → pass' (k + p) = (pass p).shift k) (cursor : Int) (h0 : 0 ≤ cursor) :
    passes (k + size) pass' (k + cursor) = (passes size pass cursor).shift k := by
  rw [passes, passes]
  by_cases hc : cursor < size
  · rw [if_pos hc, if_pos (by omega), h cursor h0, Attempt.shift_bind]
    refine bind_congr fun r => ?_
    by_cases hr : 0 < Match.extent r
    · have hrest := passes_shift size k h (cursor + Match.extent r) (by omega)
      rw [if_pos hr, if_pos hr, Int.add_assoc, hrest, Attempt.shift_bind]
      rfl
    · rw [if_neg hr, if_neg hr, Attempt.shift_pure]
  · rw [if_neg hc, if_neg (by omega), Attempt.shift_pure]
termination_by (size - cursor).toNat

/-- With the text `u` in front of `t` the component is matched as it is in `t` alone. -/
def Component.Shifts (u t : Text) (limit : Option Int) (c : Component) : Prop :=
  ∀ depth position, 0 ≤ position →
    c.consume (u ++ t) limit depth (u.length + position) =
      (c.consume t limit depth position).shift u.length

def Grammar.Shifts (u t : Text) (limit : Option Int) (g : Grammar) : Prop :=
  ∀ depth position, 0 ≤ position →
    g.run (u ++ t) limit depth (u.length + position) =
      (g.run t limit depth position).shift u.length

namespace Grammar.Shifts
variable {u t : Text} {c : Component} {g h : Grammar}

theorem zeroOrMore (hg : g.Shifts u t limit) : (Component.zeroOrMore g).Shifts u t limit := by
  intro depth position hpos
  rw [Component.consume_zeroOrMore, Component.consume_zeroOrMore, List.length_append,
    passes_shift t.length u.length (hg (depth + 1)) position hpos, Attempt.shift_bind]
  simp only [Match.merged_append_shift u t hpos, Attempt.shift_pure]

theorem zeroOrOne (hg : g.Shifts u t limit) : (Component.zeroOrOne g).Shifts u t limit := by
  intro depth position hpos
  rw [Component.consume_zeroOrOne, Component.consume_zeroOrOne, hg (depth + 1) position hpos,
    Attempt.shift_bind]
  simp only [Match.merged_append_shift u t hpos, Attempt.shift_pure]

theorem group (hg : g.Shifts u t limit) : (Component.group g).Shifts u t limit := by
  intro depth position hpos
  rw [Component.consume_group, Component.consume_group, hg (depth + 1) position hpos,
    Attempt.shift_bind]
  simp only [Attempt.shift_pure]

theorem alternation (hg : g.Shifts u t limit) (hh : h.Shifts u t limit) :
    (Component.alternation g h).Shifts u t limit := by
  intro depth position hpos
  rw [Component.consume_alternation, Component.consume_alternation, hg (depth + 1) position hpos,
    hh (depth + 1) position hpos, Attempt.shift_bind]
  refine bind_congr fun r => ?_
  by_cases h0 : 0 < Match.extent r
  · rw [if_pos h0, if_pos h0, Match.merged_append_shift u t hpos, Attempt.shift_pure]
  · rw [if_neg h0, if_neg h0, Attempt.shift_bind]
    simp only [Match.merged_append_shift u t hpos, Attempt.shift_pure]

theorem nil : Grammar.Shifts u t limit [] := by
  intro depth position _
  apply Attempt.shift_guarded
  intro _
  rw [walk_nil, walk_nil, Attempt.shift_pure]

theorem step (hc : c.Shifts u t limit) (hpos : 0 ≤ position) :
    c.step (u ++ t) limit depth (u.length + position) =
      (c.step t limit depth position).shift u.length := by
  have hnullable : (Attempt.ofExcept (c.nullable limit depth)).shift u.length =
      .ofExcept (c.nullable limit depth) :=
    congrArg (Attempt.mk 0) ((Inherited.nullable_shift u.length limit).component c depth)
  rw [Component.step, Component.step, hc depth position hpos, Attempt.shift_bind]
  refine bind_congr fun m => ?_
  by_cases h0 : 0 < m.length
  · rw [if_pos h0, if_pos h0, Attempt.shift_bind, Int.add_assoc,
      Attempt.shift_mark u.length (by omega)]
    rfl
  · rw [if_neg h0, if_neg h0, Attempt.shift_bind, hnullable]
    rfl

theorem walk (hg : g.Shifts u t limit) (hallow : allow limit depth = .ok ()) (hpos : 0 ≤ position) :
    Grammar.walk (u ++ t) limit g depth (u.length + position) =
      (Grammar.walk t limit g depth position).shift u.length := by
  have hrun := hg depth position hpos
  rwa [run, run, guarded, guarded, hallow] at hrun

theorem cons (hc : c.Shifts u t limit) (hg : g.Shifts u t limit) :
    Grammar.Shifts u t limit (c :: g) := by
  intro depth position hpos
  apply Attempt.shift_guarded
  intro hallow
  by_cases hp : position = t.length
  · have hend : (u.length : Int) + position = (u ++ t).length := by
      rw [hp, List.length_append, Int.natCast_add]
    rw [hend, hp, walk_length, walk_length, Attempt.shift_ofExcept_map]
    exact (Inherited.nullable_shift u.length limit).grammar (c :: g) depth
  · have hend : (u.length : Int) + position ≠ (u ++ t).length := by
      rw [List.length_append]
      omega
    rw [walk_cons hp, walk_cons hend, step hc hpos]
    exact Attempt.shift_followedBy hpos fun p hp => hg.walk hallow hp

end Grammar.Shifts

theorem Component.Shifts.literal (u t : Text) (limit : Option Int) (w : Word) :
    (Component.literal w).Shifts u t limit := by
  intro depth position hpos
  rw [consume_literal, consume_literal, Match.word_append_shift u t hpos, Attempt.shift_pure]

theorem Inherited.shifts (u t : Text) (limit : Option Int) :
    Inherited (Component.Shifts u t limit) (Grammar.Shifts u t limit) where
  literal w := .literal u t limit w
  classified w _ := Component.Shifts.literal u t limit w
  zeroOrMore hg := hg.zeroOrMore
  oneOrMore hg := hg.zeroOrMore
  zeroOrOne hg := hg.zeroOrOne
  group hg := hg.group
  alternation hg hh := hg.alternation hh
  unknown cls payload depth position _ := by
    rw [Component.consume_unknown, Component.consume_unknown]
    rfl
  nil := .nil
  cons hc hg := hg.cons hc

/-- A run over the text behind `u`, counted from there, is the run over that text alone. -/
theorem Grammar.run_append_shift (u t : Text) (limit : Option Int) (g : Grammar) (depth : Int)
    {position : Int} (hpos : 0 ≤ position) :
    g.run (u ++ t) limit depth (u.length + position) =
      (g.run t limit depth position).shift u.length :=
  (Inherited.shifts u t limit).grammar g depth position hpos

theorem Grammar.runWhole_append_shift (u t : Text) (limit : Option Int) (g : Grammar) (depth : Int)
    {position : Int} (hpos : 0 ≤ position) :
    g.runWhole (u ++ t) limit depth (u.length + position) =
      (g.runWhole t limit depth position).shift u.length := by
  have hend (m : Match) : (u.length : Int) + position + m.length = ((u ++ t).length : Nat) ↔
      position + m.length = t.length := by
    rw [List.length_append]
    omega
  rw [runWhole, runWhole, run_append_shift u t limit g depth hpos, Attempt.shift_bind]
  simp only [hend, Attempt.shift_pure]

theorem Session.record_shift (text rest : Text) (limit : Option Int) (k : Nat) {α : Type}
    (x : Attempt α) :
    ((start text limit).record (x.shift k)).2 =
      ((start rest limit).record x).2.mapError (Fault.shift k) ∧
    ((start text limit).record (x.shift k)).1.furthest =
      if ((start rest limit).record x).1.furthest = 0 then 0
      else k + ((start rest limit).record x).1.furthest := by
  simp only [record, start, Attempt.shift, Nat.zero_max, true_and]

theorem Session.start_run_append_shift (u t : Text) (limit : Option Int) (g : Grammar)
    (depth : Int) {position : Int} (hpos : 0 ≤ position) (nested : Bool) :
    ((start (u ++ t) limit).run g depth (u.length + position) nested).2 =
      ((start t limit).run g depth position nested).2.mapError (Fault.shift u.length) ∧
    ((start (u ++ t) limit).run g depth (u.length + position) nested).1.furthest =
      if ((start t limit).run g depth position nested).1.furthest = 0 then 0
      else u.length + ((start t limit).run g depth position nested).1.furthest := by
  cases nested with
  | true =>
    have hrun : (start (u ++ t) limit).run g depth (u.length + position) true =
        (start (u ++ t) limit).record ((g.run t limit depth position).shift u.length) :=
      congrArg (record _) (g.run_append_shift u t limit depth hpos)
    rw [hrun]
    exact record_shift (u ++ t) t limit u.length _
  | false =>
    have hrun : (start (u ++ t) limit).run g depth (u.length + position) false =
        (start (u ++ t) limit).record ((g.runWhole t limit depth position).shift u.length) :=
      congrArg (record _) (g.runWhole_append_shift u t limit depth hpos)
    rw [hrun]
    exact record_shift (u ++ t) t limit u.length _

/-- A run from an offset on is the run over the rest of the text alone, with positions counted from
the offset. So texts that agree from there on are not told apart. -/
theorem runs_look_only_ahead {text : Text} {p : Nat} (hp : p ≤ text.length) {position : Int}
    (hpos : 0 ≤ position) (limit : Option Int) (g : Grammar) (depth : Int) (nested : Bool) :
    ((Session.start text limit).run g depth (p + position) nested).2 =
      ((Session.start (text.drop p) limit).run g depth position nested).2.mapError
        (Fault.shift p) ∧
    ((Session.start text limit).run g depth (p + position) nested).1.furthest =
      (if ((Session.start (text.drop p) limit).run g depth position nested).1.furthest = 0 then 0
      else p + ((Session.start (text.drop p) limit).run g depth position nested).1.furthest) ∧
    (∀ text' : Text, p ≤ text'.length → text'.drop p = text.drop p →
      ((Session.start text' limit).run g depth (p + position) nested).2 =
        ((Session.start text limit).run g depth (p + position) nested).2 ∧
      ((Session.start text' limit).run g depth (p + position) nested).1.furthest =
        ((Session.start text limit).run g depth (p + position) nested).1.furthest) := by
  have hshift {t : Text} (ht : p ≤ t.length) :=
    Session.start_run_append_shift (t.take p) (t.drop p) limit g depth hpos nested
  simp only [List.take_append_drop, List.length_take] at hshift
  obtain ⟨hresult, hfurthest⟩ := hshift hp
  rw [Nat.min_eq_left hp] at hresult hfurthest
  refine ⟨hresult, hfurthest, ?_⟩
  intro text' hp' hsame
  obtain ⟨hresult', hfurthest'⟩ := hshift hp'
  rw [Nat.min_eq_left hp', hsame] at hresult' hfurthest'
  exact ⟨hresult'.trans hresult.symm, hfurthest'.trans hfurthest.symm⟩

theorem runs_look_only_ahead_yxab :
    1 ≤ "yxab".toList.length ∧ (0 : Int) ≤ 1 ∧
    (Session.start "xab".toList (some 2)).run
        [.literal ⟨'a', []⟩, .group [.wildcard []]] 0 1 false =
      (⟨"xab".toList, some 2, 2⟩, .error (.unsupported (.component (.wildcard [])) (some 2))) ∧
    ((Session.start "yxab".toList (some 2)).run
        [.literal ⟨'a', []⟩, .group [.wildcard []]] 0 2 false).2 =
      .error (.unsupported (.component (.wildcard [])) (some 3)) ∧
    ((Session.start "yxab".toList (some 2)).run
        [.literal ⟨'a', []⟩, .group [.wildcard []]] 0 2 false).1.furthest = 3 := by
  have hp : 1 ≤ "yxab".toList.length := by decide
  have hrest : (Session.start "xab".toList (some 2)).run
        [.literal ⟨'a', []⟩, .group [.wildcard []]] 0 1 false =
      (⟨"xab".toList, some 2, 2⟩, .error (.unsupported (.component (.wildcard [])) (some 2))) := by
    cbv
  have hpos : (0 : Int) ≤ 1 := by decide
  obtain ⟨hresult, hfurthest, -⟩ := runs_look_only_ahead hp hpos (some 2)
    [.literal ⟨'a', []⟩, .group [.wildcard []]] 0 false
  have hdrop : "yxab".toList.drop 1 = "xab".toList := rfl
  rw [hdrop, hrest] at hresult hfurthest
  exact ⟨hp, hpos, hrest, hresult, hfurthest⟩

end GreedyMatch
