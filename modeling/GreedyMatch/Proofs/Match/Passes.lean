import GreedyMatch.Proofs.Match.Reach
import Mathlib.Data.PFun
import Mathlib.Tactic

/-!
# The passes of a repetition

A repetition makes one pass after the other. The cursors between which its passes take something
make up a course, which rises from where the repetition begins and ends where the text is used up
or where one more pass takes nothing. There is only one such course. Nothing in the loop itself
sees to it that it is ever left; that it is, and after how many passes, follows from a pass never
going back.
-/
namespace GreedyMatch
variable {text : Text} {limit : Option Int} {depth : Int}

/-- The loop of a repetition, at a cursor and with the passes counted that it has made. It comes to
the cursor at which it is left or to the fault that ends it, with the number of all its passes. -/
def passLoop (size : Nat) (pass : Int → Except Fault (Option Match)) :
    Int × Nat →. Except Fault Int × Nat :=
  PFun.fix fun (cursor, made) =>
    if cursor < size then
      match pass cursor with
      | .ok r =>
        if 0 < Match.extent r then .some (.inr (cursor + Match.extent r, made + 1))
        else .some (.inl (.ok cursor, made + 1))
      | .error fault => .some (.inl (.error fault, made + 1))
    else .some (.inl (.ok cursor, made))

/-- A pass at one cursor, before the end of the text, ends at the other, which lies behind it. -/
def PassLeads (size : Nat) (pass : Int → Except Fault (Option Match)) (c c' : Int) : Prop :=
  c < c' ∧ c < size ∧ ∃ m, pass c = .ok (some m) ∧ c + m.length = c'

/-- There is no text left at the cursor, or a pass there fails or ends where it begins. -/
def PassHalts (size : Nat) (pass : Int → Except Fault (Option Match)) (c : Int) : Prop :=
  size ≤ c ∨ pass c = .ok none ∨ ∃ m, pass c = .ok (some m) ∧ c + m.length = c

/-- The cursors from `position` on, each of which a pass leads to from the one before it, up to one
that no pass leads on from. -/
structure IsCourse (size : Nat) (pass : Int → Except Fault (Option Match)) (position : Int)
    (cs : List Int) : Prop where
  head : cs.head? = some position
  onward : cs.IsChain (PassLeads size pass)
  stop : ∀ c ∈ cs.getLast?, PassHalts size pass c

/-! ### The loop -/

namespace passLoop
variable {size : Nat} {pass : Int → Except Fault (Option Match)} {cursor : Int} {made : Nat}

theorem of_le (h : (size : Int) ≤ cursor) :
    passLoop size pass (cursor, made) = Part.some (.ok cursor, made) := by
  refine Part.eq_some_iff.2 (PFun.fix_stop ?_)
  simp [Int.not_lt.2 h]

theorem of_stalled {r : Option Match} (h : cursor < size) (hr : pass cursor = .ok r)
    (h0 : Match.extent r = 0) :
    passLoop size pass (cursor, made) = Part.some (.ok cursor, made + 1) := by
  refine Part.eq_some_iff.2 (PFun.fix_stop ?_)
  simp [h, hr, h0]

theorem of_error {fault : Fault} (h : cursor < size) (hr : pass cursor = .error fault) :
    passLoop size pass (cursor, made) = Part.some (.error fault, made + 1) := by
  refine Part.eq_some_iff.2 (PFun.fix_stop ?_)
  simp [h, hr]

theorem of_onward {r : Option Match} (h : cursor < size) (hr : pass cursor = .ok r)
    (h0 : 0 < Match.extent r) :
    passLoop size pass (cursor, made) = passLoop size pass (cursor + Match.extent r, made + 1) := by
  apply PFun.fix_fwd_eq
  simp [h, hr, h0]

end passLoop

/-- The loop is left in any case, since each pass but the last one leaves less text. -/
theorem passLoop_eq_some (size : Nat) (pass : Int → Attempt (Option Match)) (cursor : Int)
    (made : Nat) :
    ∃ k ≤ (size - cursor).toNat, passLoop size (fun c => (pass c).result) (cursor, made) =
      Part.some ((passes size pass cursor).result.map fun (n : Nat) => cursor + n, made + k) := by
  fun_induction passes size pass cursor generalizing made with
  | case1 cursor hc ih =>
    cases hr : (pass cursor).result with
    | error fault =>
      refine ⟨1, by omega, ?_⟩
      rw [passLoop.of_error hc hr, Attempt.result_bind_of_error _ hr]
      rfl
    | ok r =>
      rw [Attempt.result_bind_of_ok _ hr]
      by_cases h0 : 0 < Match.extent r
      · obtain ⟨k, hk, hloop⟩ := ih r h0 (made + 1)
        refine ⟨k + 1, by omega, ?_⟩
        rw [passLoop.of_onward hc hr h0, hloop, if_pos h0]
        have hmade : made + 1 + k = made + (k + 1) := by omega
        rw [hmade]
        cases hn : (passes size pass (cursor + Match.extent r)).result with
        | error fault => rw [Attempt.result_bind_of_error _ hn, Except.map, Except.map]
        | ok n =>
          rw [Attempt.result_bind_of_ok _ hn]
          simp [Except.map, Int.add_assoc]
      · refine ⟨1, by omega, ?_⟩
        rw [passLoop.of_stalled hc hr (Nat.eq_zero_of_not_pos h0), if_neg h0]
        simp [Except.map]
  | case2 cursor hc =>
    refine ⟨0, Nat.zero_le _, ?_⟩
    rw [passLoop.of_le (Int.not_lt.1 hc)]
    simp [Except.map]

/-! ### Where passes stop -/

namespace Chain
variable {size : Nat} {pass : Int → Attempt (Option Match)} {cursor : Int} {n n' : Nat}

theorem unique (h : Chain size pass cursor n) (h' : Chain size pass cursor n') : n = n' := by
  have hsame := (passes_eq_ok_iff.2 h).symm.trans (passes_eq_ok_iff.2 h')
  exact Except.ok.inj hsame

theorem at_stop (h : Chain size pass cursor n) : Chain size pass (cursor + n) 0 := by
  induction h with
  | used h => exact .used (by omega)
  | stalled h hr h0 => exact .stalled (by simpa using h) (by simpa using hr) h0
  | onward h hr hm rest ih => rwa [Nat.cast_add, ← Int.add_assoc]

theorem exists_of_passAt (h : ∀ p fault, PassAt size pass cursor p → (pass p).result ≠ .error fault) :
    ∃ n, Chain size pass cursor n := by
  cases hn : (passes size pass cursor).result with
  | ok n => exact ⟨n, passes_eq_ok_iff.1 hn⟩
  | error fault =>
    obtain ⟨p, hp, hfault⟩ := passes_eq_error_iff.1 hn
    exact absurd hfault (h p fault hp)

end Chain

/-! ### Courses -/

namespace IsCourse
variable {size : Nat} {pass : Int → Except Fault (Option Match)} {cursor : Int} {cs cs' : List Int}

theorem singleton (h : PassHalts size pass cursor) : IsCourse size pass cursor [cursor] where
  head := rfl
  onward := .singleton cursor
  stop := by simpa using h

theorem cons {m : Match} (h : cursor < size) (hr : pass cursor = .ok (some m)) (hm : 0 < m.length)
    (rest : IsCourse size pass (cursor + m.length) cs) :
    IsCourse size pass cursor (cursor :: cs) := by
  obtain ⟨hhead, honward, hstop⟩ := rest
  cases cs with
  | nil => simp at hhead
  | cons c cs =>
    obtain rfl : c = cursor + m.length := by simpa using hhead
    refine ⟨rfl, .cons_cons ⟨by omega, h, m, hr, rfl⟩ honward, ?_⟩
    rwa [List.getLast?_cons_cons]

theorem cases (h : IsCourse size pass cursor cs) :
    (cs = [cursor] ∧ PassHalts size pass cursor) ∨
      ∃ m rest, cs = cursor :: rest ∧ cursor < size ∧ pass cursor = .ok (some m) ∧ 0 < m.length ∧
        IsCourse size pass (cursor + m.length) rest := by
  obtain ⟨hhead, honward, hstop⟩ := h
  rcases cs with _ | ⟨c, _ | ⟨c', rest⟩⟩
  · simp at hhead
  · obtain rfl : c = cursor := by simpa using hhead
    exact .inl ⟨rfl, by simpa using hstop⟩
  · obtain rfl : c = cursor := by simpa using hhead
    obtain ⟨⟨hlt, hc, m, hr, rfl⟩, honward⟩ := List.isChain_cons_cons.1 honward
    rw [List.getLast?_cons_cons] at hstop
    exact .inr ⟨m, _, rfl, hc, hr, by omega, rfl, honward, hstop⟩

theorem not_halts {m : Match} (h : cursor < size) (hr : pass cursor = .ok (some m))
    (hm : 0 < m.length) : ¬ PassHalts size pass cursor := by
  rintro (hend | hnone | ⟨k, hk, hstay⟩)
  · omega
  · rw [hr] at hnone
    cases hnone
  · rw [hr] at hk
    cases hk
    omega

theorem unique (h : IsCourse size pass cursor cs) (h' : IsCourse size pass cursor cs') :
    cs = cs' := by
  induction cs generalizing cursor cs' with
  | nil => exact absurd h.head (by simp)
  | cons c cs ih =>
    rcases h.cases with ⟨hcs, hstop⟩ | ⟨m, rest, hcs, hc, hr, hm, hrest⟩
    · rcases h'.cases with ⟨rfl, -⟩ | ⟨m, rest, -, hc, hr, hm, -⟩
      · exact hcs
      · exact absurd hstop (not_halts hc hr hm)
    · rcases h'.cases with ⟨-, hstop⟩ | ⟨m', rest', rfl, -, hr', -, hrest'⟩
      · exact absurd hstop (not_halts hc hr hm)
      · rw [hr] at hr'
        cases hr'
        cases hcs
        rw [ih hrest hrest']

end IsCourse

/-- What passes take in all is what lies between the ends of their course, and the loop makes a
pass at each of its cursors that lies before the end of the text. -/
theorem Chain.exists_course {size : Nat} {pass : Int → Attempt (Option Match)} {cursor : Int}
    {n : Nat} (h : Chain size pass cursor n) :
    ∃ cs, IsCourse size (fun c => (pass c).result) cursor cs ∧ cs.getLast? = some (cursor + n) ∧
      ∀ made, passLoop size (fun c => (pass c).result) (cursor, made) =
        Part.some (.ok (cursor + n), made + cs.countP fun (c : Int) => decide (c < size)) := by
  induction h with
  | @used cursor h =>
    refine ⟨[cursor], .singleton (.inl h), by simp, fun made => ?_⟩
    rw [passLoop.of_le h]
    simp [h]
  | @stalled cursor r h hr h0 =>
    refine ⟨[cursor], .singleton (.inr ?_), by simp, fun made => ?_⟩
    · cases r with
      | none => exact .inl hr
      | some m => exact .inr ⟨m, hr, by simpa [Match.extent] using h0⟩
    · rw [passLoop.of_stalled h hr h0]
      simp [h]
  | @onward cursor m n h hr hm rest ih =>
    obtain ⟨cs, hcs, hlast, hloop⟩ := ih
    have hm' : 0 < Match.extent (some m) := hm
    refine ⟨cursor :: cs, .cons h hr hm hcs, ?_, fun made => ?_⟩
    · rw [List.getLast?_cons, hlast]
      simp [Int.add_assoc]
    · have hmade : made + 1 + cs.countP (fun (c : Int) => decide (c < size)) =
          made + (cursor :: cs).countP fun (c : Int) => decide (c < size) := by
        simp only [List.countP_cons, h, decide_true, if_true]
        omega
      rw [passLoop.of_onward h hr hm', ← hmade, Nat.cast_add, ← Int.add_assoc]
      exact hloop (made + 1)

/-- A repetition ends, after no more passes than there are characters left. If none of its passes
meets a fault, there is exactly one course of passes, and it takes what lies between the ends of
that. -/
theorem repetitions_follow_one_course (s : Session) (X : Grammar) (depth position : Int) :
    let pass c := (s.run X (depth + 1) c true).2
    (∃ made ≤ (s.text.length - position).toNat, passLoop s.text.length pass (position, 0) =
      Part.some ((s.consume (.component (.zeroOrMore X)) depth position).2.map
        fun m => position + m.length, made)) ∧
    ((∀ c fault, PassAt s.text.length (X.run s.text s.limit (depth + 1)) position c →
        pass c ≠ .error fault) →
      (∃! cs, IsCourse s.text.length pass position cs) ∧
      ∀ cs, IsCourse s.text.length pass position cs → ∃ m,
        (s.consume (.component (.zeroOrMore X)) depth position).2 = .ok m ∧
        (s.consume (.component (.oneOrMore X)) depth position).2 = .ok m ∧
        cs.getLast? = some (position + m.length) ∧
        passLoop s.text.length pass (position, 0) =
          Part.some (.ok (position + m.length), cs.countP fun (c : Int) => decide (c < s.text.length))) := by
  intro pass
  constructor
  · obtain ⟨made, hmade, hloop⟩ :=
      passLoop_eq_some s.text.length (X.run s.text s.limit (depth + 1)) position 0
    have hconsume : (s.consume (.component (.zeroOrMore X)) depth position).2 =
        ((Component.zeroOrMore X).consume s.text s.limit depth position).result := rfl
    refine ⟨made, hmade, hloop.trans ?_⟩
    rw [hconsume, Component.consume_zeroOrMore, Nat.zero_add]
    cases hn : (passes s.text.length (X.run s.text s.limit (depth + 1)) position).result with
    | error fault => rw [Attempt.result_bind_of_error _ hn, Except.map, Except.map]
    | ok n =>
      rw [Attempt.result_bind_of_ok _ hn]
      simp [Except.map, Match.length_merged]
  · intro hreturns
    obtain ⟨n, hn⟩ := Chain.exists_of_passAt fun c fault => hreturns c fault
    obtain ⟨cs, hcs, hlast, hloop⟩ := hn.exists_course
    refine ⟨⟨cs, hcs, fun cs' hcs' => hcs'.unique hcs⟩, fun cs' hcs' => ?_⟩
    obtain rfl := hcs'.unique hcs
    refine ⟨.merged s.text position n, Component.consume_zeroOrMore_eq_ok_iff.2 ⟨n, hn, rfl⟩,
      Component.consume_zeroOrMore_eq_ok_iff.2 ⟨n, hn, rfl⟩, ?_, ?_⟩
    · rw [Match.length_merged]
      exact hlast
    · have hfresh := hloop 0
      rw [Nat.zero_add] at hfresh
      rw [Match.length_merged]
      exact hfresh

theorem repetitions_follow_one_course_abac :
    (∀ c fault, PassAt 4 (Grammar.run "abac".toList (some 3)
        [.zeroOrOne [.literal ⟨'a', []⟩], .group [.zeroOrOne [.literal ⟨'b', []⟩]]] 1) (-4) c →
      ((Session.start "abac".toList (some 3)).run [.zeroOrOne [.literal ⟨'a', []⟩],
        .group [.zeroOrOne [.literal ⟨'b', []⟩]]] 1 c true).2 ≠ .error fault) ∧
    IsCourse 4 (fun c => ((Session.start "abac".toList (some 3)).run
      [.zeroOrOne [.literal ⟨'a', []⟩], .group [.zeroOrOne [.literal ⟨'b', []⟩]]] 1 c true).2)
        (-4) [-4, -2, -1] ∧
    ∃ m, ((Session.start "abac".toList (some 3)).consume (.component (.zeroOrMore
        [.zeroOrOne [.literal ⟨'a', []⟩], .group [.zeroOrOne [.literal ⟨'b', []⟩]]])) 0 (-4)).2 =
      .ok m ∧ some (-1) = some ((-4 : Int) + m.length) := by
  have hpasses : (passes 4 (Grammar.run "abac".toList (some 3)
      [.zeroOrOne [.literal ⟨'a', []⟩], .group [.zeroOrOne [.literal ⟨'b', []⟩]]] 1) (-4)).result =
      .ok 3 := by cbv
  have hreturns (c : Int) (fault : Fault) (hc : PassAt 4 (Grammar.run "abac".toList (some 3)
        [.zeroOrOne [.literal ⟨'a', []⟩], .group [.zeroOrOne [.literal ⟨'b', []⟩]]] 1) (-4) c) :
      ((Session.start "abac".toList (some 3)).run [.zeroOrOne [.literal ⟨'a', []⟩],
        .group [.zeroOrOne [.literal ⟨'b', []⟩]]] 1 c true).2 ≠ .error fault := by
    intro hfault
    rw [passes_eq_error_iff.2 ⟨c, hc, hfault⟩] at hpasses
    cases hpasses
  have hcourse : IsCourse 4 (fun c => ((Session.start "abac".toList (some 3)).run
      [.zeroOrOne [.literal ⟨'a', []⟩], .group [.zeroOrOne [.literal ⟨'b', []⟩]]] 1 c true).2)
        (-4) [-4, -2, -1] := by
    have hstop : IsCourse 4 (fun c => ((Session.start "abac".toList (some 3)).run
        [.zeroOrOne [.literal ⟨'a', []⟩], .group [.zeroOrOne [.literal ⟨'b', []⟩]]] 1 c true).2)
          (-1) [-1] := .singleton (.inr (.inr ⟨.empty, by cbv, rfl⟩))
    have hlast : IsCourse 4 (fun c => ((Session.start "abac".toList (some 3)).run
        [.zeroOrOne [.literal ⟨'a', []⟩], .group [.zeroOrOne [.literal ⟨'b', []⟩]]] 1 c true).2)
          (-2) [-2, -1] := .cons (m := ⟨1, ["a".toList]⟩) (by decide) (by cbv) (by decide) hstop
    exact .cons (m := ⟨2, ["a".toList, "b".toList]⟩) (by decide) (by cbv) (by decide) hlast
  obtain ⟨-, hall⟩ := (repetitions_follow_one_course
    (Session.start "abac".toList (some 3)) _ 0 (-4)).2 hreturns
  obtain ⟨m, hm, -, hlength, -⟩ := hall _ hcourse
  exact ⟨hreturns, hcourse, m, hm, hlength⟩

end GreedyMatch
