import GreedyMatch.Proofs.Match.Accord
import GreedyMatch.Proofs.Match.Nullability

/-!
# The limit

The limit on how deeply grammars may nest only ever cuts a run off. A run that is not cut off
is the same under any higher limit, and one that is says by how little it went too deep. A
grammar that does not nest more levels than the limit leaves is never cut off. Only the
distance of a depth from the limit counts.
-/
namespace GreedyMatch
variable {text : Text} {n n' depth position : Int}

/-- The fault as it is met when all depths and the limit are greater by `k`. -/
def Fault.deepen (k : Int) : Fault → Fault
  | .tooDeep depth limit => .tooDeep (depth + k) (limit + k)
  | .noLimit => .noLimit
  | .unsupported value position => .unsupported value position

namespace Attempt
variable {α β : Type}

def TooDeep (x : Attempt α) : Prop := ∃ depth limit, x.result = .error (.tooDeep depth limit)

/-- The second attempt is the first one, or goes on where that one is cut off. -/
def CutShort (n : Int) (x y : Attempt α) : Prop :=
  (y = x ∧ ¬ x.TooDeep) ∨ (x.result = .error (.tooDeep (n + 1) n) ∧ x.reached ≤ y.reached)

namespace TooDeep

theorem fail_iff {fault : Fault} :
    (fail fault : Attempt α).TooDeep ↔ ∃ depth limit, fault = .tooDeep depth limit := by
  simp only [TooDeep, result_fail, Except.error.injEq]

theorem not_of_result_eq_ok {x : Attempt α} {a : α} (h : x.result = .ok a) : ¬ x.TooDeep := by
  rintro ⟨depth, limit, hdeep⟩
  rw [h] at hdeep
  cases hdeep

theorem not_bind {x : Attempt α} {f : α → Attempt β} (hx : ¬ x.TooDeep)
    (hf : ∀ a, x.result = .ok a → ¬ (f a).TooDeep) : ¬ (x >>= f).TooDeep := by
  rintro ⟨depth, limit, hdeep⟩
  rcases x with ⟨r, fault | a⟩
  · cases hdeep
    exact hx ⟨depth, limit, rfl⟩
  · exact hf a rfl ⟨depth, limit, hdeep⟩

end TooDeep

namespace CutShort

theorem of_eq {x : Attempt α} (h : ¬ x.TooDeep) : x.CutShort n x := .inl ⟨rfl, h⟩

theorem bind {x y : Attempt α} {f g : α → Attempt β} (hxy : x.CutShort n y)
    (hfg : ∀ a, x.result = .ok a → (f a).CutShort n (g a)) : (x >>= f).CutShort n (y >>= g) := by
  rcases hxy with ⟨rfl, hdeep⟩ | ⟨hdeep, hreached⟩
  · rcases y with ⟨r, fault | a⟩
    · exact .of_eq (TooDeep.not_bind hdeep fun _ h => nomatch h)
    · rw [bind_eq_of_ok, bind_eq_of_ok]
      rcases hfg a rfl with ⟨heq, hdeep⟩ | ⟨hdeep, hreached⟩
      · rw [heq]
        exact .of_eq hdeep
      · exact .inr ⟨hdeep, max_le_max_left r hreached⟩
  · rcases x with ⟨r, e⟩
    subst hdeep
    exact .inr ⟨rfl, hreached.trans (reached_le_reached_bind y g)⟩

end CutShort

def deepen (k : Int) (x : Attempt α) : Attempt α := ⟨x.reached, x.result.mapError (Fault.deepen k)⟩

theorem deepen_bind (k : Int) (x : Attempt α) (f : α → Attempt β) :
    (x >>= f).deepen k = x.deepen k >>= fun a => (f a).deepen k := by
  rcases x with ⟨r, fault | a⟩
  · rfl
  · rfl

end Attempt

namespace Accord

/-- A depth that the limit lets pass is compared with a higher limit too. -/
def cutShort (text : Text) (h : n ≤ n') : Accord text (some n) (some n') where
  Rel x y := x.CutShort n y
  Depths _ d d' := d' = d ∧ d ≤ n
  anti _ hd := hd
  pure _ := .of_eq (Attempt.TooDeep.not_of_result_eq_ok rfl)
  unsupported _ _ := .of_eq (by simp [Attempt.TooDeep.fail_iff])
  mark _ := .of_eq (Attempt.TooDeep.not_of_result_eq_ok rfl)
  bind hxy hfg := hxy.bind hfg
  guarded {α run run' _ d d' position} hd hrun := by
    obtain ⟨rfl, hd⟩ := hd
    rw [GreedyMatch.guarded, GreedyMatch.guarded]
    by_cases hn : d' + 1 ≤ n
    · rw [allow_of_le hn, allow_of_le (hn.trans h)]
      exact hrun ⟨rfl, hn⟩
    · obtain rfl : d' = n := by omega
      rw [allow_of_lt (by omega)]
      exact .inr ⟨rfl, Nat.zero_le _⟩

/-- All depths are as far from the limit as before. -/
def deepen (text : Text) (n k : Int) : Accord text (some n) (some (n + k)) where
  Rel x y := y = x.deepen k
  Depths _ d d' := d' = d + k
  anti _ hd := hd
  pure _ := rfl
  unsupported _ _ := rfl
  mark _ := rfl
  bind {α β x y f g} hxy hfg := by
    subst hxy
    rw [Attempt.deepen_bind]
    rcases x with ⟨r, fault | a⟩
    · rfl
    · refine Attempt.bind_congr_of_ok fun b hb => ?_
      cases hb
      exact hfg a rfl
  guarded {α run run' _ d d' position} hd hrun := by
    have hnext : d' + 1 = d + 1 + k := by omega
    rw [GreedyMatch.guarded, GreedyMatch.guarded, hnext]
    by_cases hn : d + 1 ≤ n
    · rw [allow_of_le hn, allow_of_le (by omega)]
      exact hrun hnext
    · rw [allow_of_lt (by omega), allow_of_lt (by omega)]
      rfl

def within (text : Text) (n : Int) : Accord text (some n) (some n) where
  Rel x _ := ¬ x.TooDeep
  Depths h d _ := d + h ≤ n
  anti _ _ := by omega
  pure _ := Attempt.TooDeep.not_of_result_eq_ok rfl
  unsupported _ _ := by simp [Attempt.TooDeep.fail_iff]
  mark _ := Attempt.TooDeep.not_of_result_eq_ok rfl
  bind hx hf := Attempt.TooDeep.not_bind hx hf
  guarded _ hrun := by
    rw [GreedyMatch.guarded, allow_of_le (by omega)]
    exact hrun (by omega)

end Accord

namespace Session

def within (s : Session) (n : Int) : Session := { s with limit := some n }

variable (position) (s : Session) (g : Grammar) (nested : Bool)

theorem attempt_cutShort (h : n ≤ n') (hd : depth ≤ n) :
    ((s.within n).attempt g depth position nested).CutShort n
      ((s.within n').attempt g depth position nested) := by
  have hrun : (g.run s.text (some n) depth position).CutShort n
      (g.run s.text (some n') depth position) := by
    rw [Grammar.run_of_le hd, Grammar.run_of_le (hd.trans h)]
    exact (g.accords (.cutShort s.text h) depth depth ⟨rfl, hd⟩).2 position
  exact Accord.attempt (s.within n) (s.within n') (.cutShort s.text h) rfl hrun nested

theorem attempt_deepen (k : Int) :
    (s.within (n + k)).attempt g (depth + k) position nested =
      ((s.within n).attempt g depth position nested).deepen k := by
  have hdepths : depth + k - 1 = depth - 1 + k := by omega
  exact Accord.attempt (s.within n) (s.within (n + k)) (.deepen s.text n k) rfl
    (g.run_accords _ hdepths position) nested

theorem attempt_not_tooDeep (hd : depth + g.height ≤ n) :
    ¬ ((s.within n).attempt g depth position nested).TooDeep := by
  have hrun : (Accord.within s.text n).Rel (g.run s.text (some n) depth position)
      (g.run s.text (some n) depth position) := by
    rw [Grammar.run_of_le (by omega)]
    exact (g.accords (.within s.text n) depth depth hd).2 position
  exact Accord.attempt (s.within n) (s.within n) (.within s.text n) rfl hrun nested

theorem attempt_of_lt (hd : n < depth) :
    (s.within n).attempt g depth position nested = .fail (.tooDeep depth n) := by
  have hrun : g.run s.text (some n) depth position = .fail (.tooDeep depth n) := by
    rw [Grammar.run, guarded, allow_of_lt hd]
  cases nested with
  | true => exact hrun
  | false =>
    change g.runWhole s.text (some n) depth position = _
    rw [Grammar.runWhole, hrun]
    rfl

end Session

/-- The limit only cuts runs off: one that does not nest too deeply comes to the same under any
higher limit, and a grammar whose height the limit leaves room for never does. With all depths and
the limit moved only the numbers of the fault are different. -/
theorem limit_only_cuts_off (s : Session) (g : Grammar) (depth position : Int) (nested : Bool)
    {n n' : Int} (h : n ≤ n') :
    ((∀ d l, ((s.within n).run g depth position nested).2 ≠ .error (.tooDeep d l)) →
      ((s.within n').run g depth position nested).2 =
        ((s.within n).run g depth position nested).2 ∧
      ((s.within n').run g depth position nested).1.furthest =
        ((s.within n).run g depth position nested).1.furthest) ∧
    (depth ≤ n → ∀ d l, ((s.within n).run g depth position nested).2 = .error (.tooDeep d l) →
      d = n + 1 ∧ l = n ∧
      ((s.within n).run g depth position nested).1.furthest ≤
        ((s.within n').run g depth position nested).1.furthest) ∧
    (depth ≤ n → ∀ d l, Grammar.nullable (some n) g depth = .error (.tooDeep d l) →
      d = n + 1 ∧ l = n) ∧
    (depth + g.height ≤ n →
      ∀ d l, ((s.within n).run g depth position nested).2 ≠ .error (.tooDeep d l)) ∧
    (∀ k, (s.within (n + k)).run g (depth + k) position nested =
      (((s.within n).run g depth position nested).1.within (n + k),
        ((s.within n).run g depth position nested).2.mapError (Fault.deepen k))) := by
  refine ⟨?_, ?_, ?_, ?_, ?_⟩
  · intro hshallow
    by_cases hd : depth ≤ n
    · rcases s.attempt_cutShort position g nested h hd with
        ⟨heq, -⟩ | ⟨hdeep, -⟩
      · rw [Session.run_eq_record, Session.run_eq_record, heq]
        exact ⟨rfl, rfl⟩
      · exact absurd hdeep (hshallow (n + 1) n)
    · have hcut := s.attempt_of_lt position g nested (Int.not_le.1 hd)
      exact absurd (congrArg Attempt.result hcut) (hshallow depth n)
  · intro hd d l hdeep
    rcases s.attempt_cutShort position g nested h hd with
      ⟨-, hshallow⟩ | ⟨hcut, hreached⟩
    · exact absurd ⟨d, l, hdeep⟩ hshallow
    · obtain ⟨rfl, rfl⟩ : d = n + 1 ∧ l = n := by
        have hsame := hdeep.symm.trans hcut
        cases hsame
        exact ⟨rfl, rfl⟩
      exact ⟨rfl, rfl, max_le_max_left s.furthest hreached⟩
  · intro hd d l hdeep
    rcases (g.accords (.cutShort s.text h) depth depth ⟨rfl, hd⟩).1 with
      ⟨-, hshallow⟩ | ⟨hcut, -⟩
    · exact absurd ⟨d, l, hdeep⟩ hshallow
    · have hsame := hdeep.symm.trans hcut
      cases hsame
      exact ⟨rfl, rfl⟩
  · intro hd d l hdeep
    exact s.attempt_not_tooDeep position g nested hd ⟨d, l, hdeep⟩
  · intro k
    rw [Session.run_eq_record, s.attempt_deepen position g nested k]
    rfl

theorem limit_only_cuts_off_aa :
    (1 : Int) ≤ 3 ∧ (2 : Int) ≤ 3 ∧
    (((Session.start "aa".toList none).within 1).run
        [.literal ⟨'a', []⟩, .group [.zeroOrOne [.literal ⟨'a', []⟩]]] 0 0 false).2 =
      .error (.tooDeep 2 1) ∧
    (((Session.start "aa".toList none).within 1).run
        [.literal ⟨'a', []⟩, .group [.zeroOrOne [.literal ⟨'a', []⟩]]] 0 0 false).1.furthest ≤
      (((Session.start "aa".toList none).within 3).run
        [.literal ⟨'a', []⟩, .group [.zeroOrOne [.literal ⟨'a', []⟩]]] 0 0 false).1.furthest ∧
    (((Session.start "aa".toList none).within 6).run
        [.literal ⟨'a', []⟩, .group [.zeroOrOne [.literal ⟨'a', []⟩]]] 5 0 false).2 =
      .error (.tooDeep 7 6) ∧
    (((Session.start "aa".toList none).within 3).run
        [.literal ⟨'a', []⟩, .group [.zeroOrOne [.literal ⟨'a', []⟩]]] 0 0 false).2 =
      .ok (some ⟨2, ["a".toList, "a".toList]⟩) ∧
    (∀ d l, Grammar.nullable (some 0) [.group [.zeroOrOne [.literal ⟨'a', []⟩]]] 0 =
      .error (.tooDeep d l) → d = 0 + 1 ∧ l = 0) ∧
    Grammar.nullable (some 0) [.group [.zeroOrOne [.literal ⟨'a', []⟩]]] 0 =
      .error (.tooDeep 1 0) := by
  have hcut : (((Session.start "aa".toList none).within 1).run
      [.literal ⟨'a', []⟩, .group [.zeroOrOne [.literal ⟨'a', []⟩]]] 0 0 false).2 =
    .error (.tooDeep 2 1) := by cbv
  have htwo : (((Session.start "aa".toList none).within 2).run
      [.literal ⟨'a', []⟩, .group [.zeroOrOne [.literal ⟨'a', []⟩]]] 0 0 false).2 =
    .ok (some ⟨2, ["a".toList, "a".toList]⟩) := by cbv
  have hlow := limit_only_cuts_off (Session.start "aa".toList none)
    [.literal ⟨'a', []⟩, .group [.zeroOrOne [.literal ⟨'a', []⟩]]] 0 0 false
    (show (1 : Int) ≤ 3 by decide)
  have hhigh := limit_only_cuts_off (Session.start "aa".toList none)
    [.literal ⟨'a', []⟩, .group [.zeroOrOne [.literal ⟨'a', []⟩]]] 0 0 false
    (show (2 : Int) ≤ 3 by decide)
  have hroom : (0 : Int) +
      (Grammar.height [.literal ⟨'a', []⟩, .group [.zeroOrOne [.literal ⟨'a', []⟩]]] : Nat) ≤ 2 := by
    decide
  have hsame := (hhigh.1 (hhigh.2.2.2.1 hroom)).1
  have hdeeper := hlow.2.2.2.2 5
  rw [Int.zero_add, show (1 : Int) + 5 = 6 from rfl] at hdeeper
  refine ⟨by decide, by decide, hcut, (hlow.2.1 (by decide) 2 1 hcut).2.2, ?_, hsame.trans htwo,
    ?_, by cbv⟩
  · rw [hdeeper, hcut]
    rfl
  · exact (limit_only_cuts_off (Session.start "aa".toList none)
      [.group [.zeroOrOne [.literal ⟨'a', []⟩]]] 0 0 false (show (0 : Int) ≤ 3 by decide)).2.2.1
        (by decide)

end GreedyMatch
