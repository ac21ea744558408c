import GreedyMatch.Match.Session

/-!
# Outcomes of a run

What a walk, a repetition or a component may come to, read off from one step of each. A
walk gets past a component in one of two ways: the component takes something, or it
takes nothing and is nullable. Where it does neither the walk is stuck, and at the end of
the text nullability alone decides.
-/
namespace GreedyMatch
variable {text : Text} {limit : Option Int} {depth position : Int}

/-- A walk gets past a component with the match `m`. -/
inductive Component.Advances (text : Text) (limit : Option Int) (c : Component)
    (depth position : Int) : Match → Prop
  | taking {m : Match} (h : (c.consume text limit depth position).result = .ok m)
      (hm : 0 < m.length) : Advances text limit c depth position m
  | skipping {m : Match} (h : (c.consume text limit depth position).result = .ok m)
      (hm : m.length = 0) (hn : c.nullable limit depth = .ok true) :
      Advances text limit c depth position .empty

/-- A walk does not get past a component: it takes nothing and must not be left out. -/
def Component.Stuck (text : Text) (limit : Option Int) (c : Component)
    (depth position : Int) : Prop :=
  (∃ m, (c.consume text limit depth position).result = .ok m ∧ m.length = 0) ∧
    c.nullable limit depth = .ok false

/-- Passes from `cursor` take `n` characters in all: they go on until the text is used up,
or one of them takes nothing. -/
inductive Chain (size : Nat) (pass : Int → Attempt (Option Match)) : Int → Nat → Prop
  | used {cursor : Int} (h : size ≤ cursor) : Chain size pass cursor 0
  | stalled {cursor : Int} {r : Option Match} (h : cursor < size)
      (hr : (pass cursor).result = .ok r) (h0 : Match.extent r = 0) : Chain size pass cursor 0
  | onward {cursor : Int} {m : Match} {n : Nat} (h : cursor < size)
      (hr : (pass cursor).result = .ok (some m)) (hm : 0 < m.length)
      (rest : Chain size pass (cursor + m.length) n) : Chain size pass cursor (m.length + n)

namespace Grammar
variable {c : Component} {cs g : Grammar} {r : Option Match}

theorem run_eq_ok_iff :
    (run text limit g depth position).result = .ok r ↔
      allow limit depth = .ok () ∧ (walk text limit g depth position).result = .ok r := by
  unfold run guarded
  cases h : allow limit depth with
  | error fault => simp
  | ok u => simp

theorem runWhole_eq_some_iff {m : Match} :
    (runWhole text limit g depth position).result = .ok (some m) ↔
      (run text limit g depth position).result = .ok (some m) ∧
        position + m.length = text.length := by
  rw [runWhole, Attempt.result_bind_eq_ok_iff]
  constructor
  · rintro ⟨r, hr, h⟩
    obtain ⟨rfl, hm⟩ := Option.filter_eq_some_iff.1 (Except.ok.inj h)
    exact ⟨hr, of_decide_eq_true hm⟩
  · rintro ⟨hr, hm⟩
    refine ⟨_, hr, congrArg Except.ok (Option.filter_eq_some_iff.2 ⟨rfl, ?_⟩)⟩
    exact decide_eq_true hm

theorem walk_nil : walk text limit [] depth position = pure (some .empty) := by rw [walk]

theorem walk_length (g : Grammar) :
    walk text limit g depth text.length =
      .ofExcept ((nullable limit g depth).map fun bare => if bare then some .empty else none) := by
  cases g with
  | nil => rw [walk_nil]; rfl
  | cons c cs =>
    rw [walk, if_pos rfl]
    cases nullable limit (c :: cs) depth with
    | error fault => rfl
    | ok bare => rfl

/-- At the end of the text a walk answers as nullability does, faults included. -/
theorem walk_at_end (g : Grammar) :
    (walk text limit g depth text.length).result =
      (nullable limit g depth).map fun bare => if bare then some .empty else none := by
  rw [walk_length]
  rfl

theorem walk_at_end_eq_ok_iff :
    (walk text limit g depth text.length).result = .ok r ↔
      ∃ bare, nullable limit g depth = .ok bare ∧ r = if bare then some .empty else none := by
  rw [walk_at_end]
  cases nullable limit g depth with
  | error fault => simp [Except.map]
  | ok bare => simp [Except.map, @eq_comm _ r]

theorem walk_cons_eq_ok_iff (hp : position ≠ text.length) :
    (walk text limit (c :: cs) depth position).result = .ok r ↔
      (c.Stuck text limit depth position ∧ r = none) ∨
        ∃ m rest, c.Advances text limit depth position m ∧
          (walk text limit cs depth (position + m.length)).result = .ok rest ∧
            r = rest.map (m ++ ·) := by
  have hskip (rest : Option Match) : rest.map (Match.empty ++ ·) = rest := by
    cases rest <;> simp [Match.empty_append]
  have hstay : position + ((Match.empty.length : Nat) : Int) = position := Int.add_zero position
  rw [walk, if_neg hp, Attempt.result_bind_eq_ok_iff]
  constructor
  · rintro ⟨m, hm, h⟩
    by_cases h0 : 0 < m.length
    · rw [if_pos h0] at h
      obtain ⟨_, -, h⟩ := Attempt.result_bind_eq_ok_iff.1 h
      obtain ⟨rest, hrest, h⟩ := Attempt.result_bind_eq_ok_iff.1 h
      exact .inr ⟨m, rest, .taking hm h0, hrest, (Except.ok.inj h).symm⟩
    · rw [if_neg h0] at h
      obtain ⟨bare, hbare, h⟩ := Attempt.result_bind_eq_ok_iff.1 h
      cases bare with
      | true =>
        rw [if_pos rfl] at h
        refine .inr ⟨.empty, r, .skipping hm (by omega) hbare, ?_, (hskip r).symm⟩
        rwa [hstay]
      | false =>
        rw [if_neg Bool.false_ne_true] at h
        exact .inl ⟨⟨⟨m, hm, by omega⟩, hbare⟩, (Except.ok.inj h).symm⟩
  · intro hcases
    rcases hcases with ⟨⟨⟨m, hm, h0⟩, hbare⟩, rfl⟩ | ⟨m, rest, hadv, hrest, rfl⟩
    · refine ⟨m, hm, ?_⟩
      rw [if_neg (by omega), Attempt.result_bind_of_ok _ hbare]
      rfl
    · cases hadv with
      | taking hm h0 =>
        refine ⟨m, hm, ?_⟩
        rw [if_pos h0, Attempt.result_bind_of_ok _ rfl, Attempt.result_bind_of_ok _ hrest]
        rfl
      | @skipping n hm h0 hbare =>
        refine ⟨n, hm, ?_⟩
        rw [if_neg (by omega), Attempt.result_bind_of_ok _ hbare, hskip]
        rwa [hstay] at hrest

/-- A walk succeeds in one of two ways: at the end of the text all that is left may be left
out, or it gets past the first component and succeeds from there. -/
theorem walk_cons_eq_some_iff {m : Match} :
    (walk text limit (c :: cs) depth position).result = .ok (some m) ↔
      (position = text.length ∧ nullable limit (c :: cs) depth = .ok true ∧ m = .empty) ∨
        (position ≠ text.length ∧ ∃ k l, c.Advances text limit depth position k ∧
          (walk text limit cs depth (position + k.length)).result = .ok (some l) ∧ m = k ++ l) := by
  by_cases hp : position = text.length
  · subst hp
    rw [walk_at_end_eq_ok_iff]
    simp
  · rw [walk_cons_eq_ok_iff hp]
    constructor
    · rintro (⟨-, hnone⟩ | ⟨k, rest, hk, hrest, hm⟩)
      · cases hnone
      · obtain ⟨l, rfl, hl⟩ := Option.map_eq_some_iff.1 hm.symm
        exact .inr ⟨hp, k, l, hk, hrest, hl.symm⟩
    · rintro (⟨hend, -⟩ | ⟨-, k, l, hk, hl, rfl⟩)
      · exact absurd hend hp
      · exact .inr ⟨k, some l, hk, hl, rfl⟩

end Grammar

theorem passes_eq_ok_iff {size : Nat} {pass : Int → Attempt (Option Match)} {cursor : Int}
    {n : Nat} : (passes size pass cursor).result = .ok n ↔ Chain size pass cursor n := by
  constructor
  · intro h
    fun_induction passes size pass cursor generalizing n with
    | case1 cursor hc ih =>
      obtain ⟨r, hr, h⟩ := Attempt.result_bind_eq_ok_iff.1 h
      by_cases h0 : 0 < Match.extent r
      · rw [if_pos h0] at h
        obtain ⟨k, hk, h⟩ := Attempt.result_bind_eq_ok_iff.1 h
        cases r with
        | none => cases h0
        | some m =>
          cases Except.ok.inj h
          exact .onward hc hr h0 (ih _ h0 hk)
      · rw [if_neg h0] at h
        cases Except.ok.inj h
        exact .stalled hc hr (by omega)
    | case2 cursor hc =>
      cases Except.ok.inj h
      exact .used (by omega)
  · intro h
    induction h with
    | used h => rw [passes_of_le _ h]; rfl
    | stalled h hr h0 =>
      rw [passes, if_pos h, Attempt.result_bind_of_ok _ hr, if_neg (by omega)]
      rfl
    | @onward cursor m n h hr hm rest ih =>
      have hm' : 0 < Match.extent (some m) := hm
      rw [passes, if_pos h, Attempt.result_bind_of_ok _ hr, if_pos hm']
      exact Attempt.result_bind_of_ok _ ih

namespace Component
variable {inner left right : Grammar} {m : Match}

theorem consume_literal (w : Word) :
    (literal w).consume text limit depth position = pure (.word text w position) := by rw [consume]

theorem consume_classified (w : Word) (kind : Value) :
    (classified w kind).consume text limit depth position = pure (.word text w position) := by
  rw [consume]

theorem consume_unknown (cls : UnknownClass) (payload : List Value) :
    (unknown cls payload).consume text limit depth position =
      .fail (.unsupported (.component (.unknown cls payload)) (some position)) := by rw [consume]

theorem consume_zeroOrMore_eq_ok_iff :
    ((zeroOrMore inner).consume text limit depth position).result = .ok m ↔
      ∃ n, Chain text.length (inner.run text limit (depth + 1)) position n ∧
        m = .merged text position n := by
  rw [consume_zeroOrMore, Attempt.result_bind_eq_ok_iff]
  simp only [passes_eq_ok_iff, Attempt.result_pure, Except.ok.injEq, @eq_comm _ _ m]

theorem consume_zeroOrOne_eq_ok_iff :
    ((zeroOrOne inner).consume text limit depth position).result = .ok m ↔
      ∃ r, (inner.run text limit (depth + 1) position).result = .ok r ∧
        m = .merged text position (Match.extent r) := by
  rw [consume_zeroOrOne, Attempt.result_bind_eq_ok_iff]
  simp only [Attempt.result_pure, Except.ok.injEq, eq_comm]

theorem consume_group_eq_ok_iff :
    ((group inner).consume text limit depth position).result = .ok m ↔
      ∃ r, (inner.run text limit (depth + 1) position).result = .ok r ∧ m = r.getD .empty := by
  rw [consume_group, Attempt.result_bind_eq_ok_iff]
  simp only [Attempt.result_pure, Except.ok.injEq, eq_comm]

theorem consume_alternation_eq_ok_iff :
    ((alternation left right).consume text limit depth position).result = .ok m ↔
      ∃ r, (left.run text limit (depth + 1) position).result = .ok r ∧
        ((0 < Match.extent r ∧ m = .merged text position (Match.extent r)) ∨
          (Match.extent r = 0 ∧
            ∃ r', (right.run text limit (depth + 1) position).result = .ok r' ∧
              m = .merged text position (Match.extent r'))) := by
  rw [consume_alternation, Attempt.result_bind_eq_ok_iff]
  refine exists_congr fun r => and_congr_right fun _ => ?_
  by_cases h0 : 0 < Match.extent r
  · rw [if_pos h0]
    simp [h0, Nat.ne_of_gt h0, eq_comm]
  · rw [if_neg h0, Attempt.result_bind_eq_ok_iff]
    simp [Nat.eq_zero_of_not_pos h0, eq_comm]

end Component

theorem Session.run_eq_some_iff {s : Session} {g : Grammar} {nested : Bool} {m : Match} :
    (s.run g depth position nested).2 = .ok (some m) ↔
      (g.run s.text s.limit depth position).result = .ok (some m) ∧
        (nested = true ∨ position + m.length = s.text.length) := by
  cases nested with
  | true => simp [run, record]
  | false =>
    simp only [run, record, Bool.false_eq_true, false_or]
    exact Grammar.runWhole_eq_some_iff

theorem Session.start_run_eq_some_iff {g : Grammar} {m : Match} :
    ((Session.start text limit).run g 0 0 false).2 = .ok (some m) ↔
      (g.run text limit 0 0).result = .ok (some m) ∧ m.length = text.length := by
  have hend : (0 : Int) + m.length = text.length ↔ m.length = text.length := by omega
  simp only [run_eq_some_iff, start, Bool.false_eq_true, false_or, hend]

end GreedyMatch
