import GreedyMatch.Proofs.Match.Concat
import GreedyMatch.Proofs.Match.Cover

/-!
# Runs in accord

One grammar is run twice over a text, under two limits and beginning at two depths. Depths
are told of in one place only, where one is compared with the limit. So whatever relates two
attempts that tell of no depth, is kept where they go on and is kept by the comparison
relates the two runs.
-/
namespace GreedyMatch

/-- What relates an attempt under one limit to the same attempt under another. -/
structure Accord (text : Text) (limit limit' : Option Int) where
  Rel : {α : Type} → Attempt α → Attempt α → Prop
  /-- The depths at which something that nests `height` levels is met in the two runs. -/
  Depths : (height : Nat) → Int → Int → Prop
  anti {h k : Nat} {d d' : Int} : h ≤ k → Depths k d d' → Depths h d d'
  pure {α : Type} (a : α) : Rel (pure a) (pure a)
  unsupported {α : Type} (v : Value) (position : Option Int) :
    Rel (.fail (.unsupported v position) : Attempt α) (.fail (.unsupported v position))
  mark {position : Int} : position ≤ text.length → Rel (.mark position) (.mark position)
  bind {α β : Type} {x y : Attempt α} {f g : α → Attempt β} : Rel x y →
    (∀ a, x.result = .ok a → Rel (f a) (g a)) → Rel (x >>= f) (y >>= g)
  guarded {α : Type} {run run' : Int → Attempt α} {h : Nat} {d d' position : Int} :
    Depths (h + 1) d d' → (Depths h (d + 1) (d' + 1) → Rel (run position) (run' position)) →
      Rel (guarded limit (d + 1) run position) (guarded limit' (d' + 1) run' position)

variable {text : Text} {limit limit' : Option Int} {depth position : Int}

theorem Grammar.ofExcept_nullable_cons (c : Component) (g : Grammar) :
    Attempt.ofExcept (nullable limit (c :: g) depth) = (do
      if ← .ofExcept (c.nullable limit depth) then .ofExcept (nullable limit g depth)
      else return false) := by
  rw [nullable]
  rcases c.nullable limit depth with fault | _ | _
  · rfl
  · rfl
  · exact (pure_bind (m := Attempt) true fun bare =>
      if bare = true then .ofExcept (nullable limit g depth) else pure false).symm

theorem Component.ofExcept_nullable_group (g : Grammar) (position : Int) :
    Attempt.ofExcept ((group g).nullable limit depth) =
      guarded limit (depth + 1) (fun _ => .ofExcept (Grammar.nullable limit g (depth + 1)))
        position := by
  rw [nullable, guarded]
  cases allow limit (depth + 1) with
  | error fault => rfl
  | ok _ => rfl

namespace Accord
variable (A : Accord text limit limit')

theorem followedBy {x y : Attempt (Option Match)} {next next' : Int → Attempt (Option Match)}
    (hxy : A.Rel x y) (hnext : ∀ p, A.Rel (next p) (next' p)) :
    A.Rel (x.followedBy next position) (y.followedBy next' position) := by
  apply A.bind hxy
  intro r _
  cases r with
  | none => exact A.pure none
  | some m => exact A.bind (hnext (position + m.length)) fun _ _ => A.pure _

theorem passes (size : Nat) {pass pass' : Int → Attempt (Option Match)}
    (h : ∀ p, A.Rel (pass p) (pass' p)) (cursor : Int) :
    A.Rel (passes size pass cursor) (passes size pass' cursor) := by
  rw [GreedyMatch.passes, GreedyMatch.passes]
  by_cases hc : cursor < size
  · rw [if_pos hc, if_pos hc]
    apply A.bind (h cursor)
    intro r _
    by_cases h0 : 0 < Match.extent r
    · rw [if_pos h0, if_pos h0]
      exact A.bind (passes size h (cursor + Match.extent r)) fun _ _ => A.pure _
    · rw [if_neg h0, if_neg h0]
      exact A.pure 0
  · rw [if_neg hc, if_neg hc]
    exact A.pure 0
termination_by (size - cursor).toNat

end Accord

/-- Matching the component and asking whether it is nullable are in accord. -/
def Component.Accords (A : Accord text limit limit') (c : Component) : Prop :=
  ∀ d d', A.Depths c.height d d' →
    A.Rel (.ofExcept (c.nullable limit d)) (.ofExcept (c.nullable limit' d')) ∧
    ∀ position, A.Rel (c.consume text limit d position) (c.consume text limit' d' position)

def Grammar.Accords (A : Accord text limit limit') (g : Grammar) : Prop :=
  ∀ d d', A.Depths g.height d d' →
    A.Rel (.ofExcept (nullable limit g d)) (.ofExcept (nullable limit' g d')) ∧
    ∀ position, A.Rel (walk text limit g d position) (walk text limit' g d' position)

namespace Grammar.Accords
variable {A : Accord text limit limit'} {c : Component} {g h : Grammar} {d d' : Int}

theorem run (hg : g.Accords A) {k : Nat} (hk : g.height ≤ k) (hd : A.Depths (k + 1) d d')
    (position : Int) :
    A.Rel (g.run text limit (d + 1) position) (g.run text limit' (d' + 1) position) :=
  A.guarded hd fun hd => (hg _ _ (A.anti hk hd)).2 position

theorem zeroOrMore (hg : g.Accords A) : (Component.zeroOrMore g).Accords A := by
  intro d d' hd
  refine ⟨A.pure true, fun position => ?_⟩
  rw [Component.consume_zeroOrMore, Component.consume_zeroOrMore]
  exact A.bind (A.passes text.length (hg.run le_rfl hd) position) fun _ _ => A.pure _

theorem oneOrMore (hg : g.Accords A) : (Component.oneOrMore g).Accords A := by
  intro d d' hd
  exact ⟨A.pure false, (hg.zeroOrMore d d' hd).2⟩

theorem zeroOrOne (hg : g.Accords A) : (Component.zeroOrOne g).Accords A := by
  intro d d' hd
  refine ⟨A.pure true, fun position => ?_⟩
  rw [Component.consume_zeroOrOne, Component.consume_zeroOrOne]
  exact A.bind (hg.run le_rfl hd position) fun _ _ => A.pure _

theorem group (hg : g.Accords A) : (Component.group g).Accords A := by
  intro d d' hd
  constructor
  · rw [Component.ofExcept_nullable_group g 0, Component.ofExcept_nullable_group g 0]
    exact A.guarded hd fun hd => (hg _ _ hd).1
  · intro position
    rw [Component.consume_group, Component.consume_group]
    exact A.bind (hg.run le_rfl hd position) fun _ _ => A.pure _

theorem alternation (hg : g.Accords A) (hh : h.Accords A) :
    (Component.alternation g h).Accords A := by
  intro d d' hd
  refine ⟨A.pure false, fun position => ?_⟩
  rw [Component.consume_alternation, Component.consume_alternation]
  apply A.bind (hg.run (le_max_left _ _) hd position)
  intro r _
  by_cases h0 : 0 < Match.extent r
  · rw [if_pos h0, if_pos h0]
    exact A.pure _
  · rw [if_neg h0, if_neg h0]
    exact A.bind (hh.run (le_max_right _ _) hd position) fun _ _ => A.pure _

theorem nil (A : Accord text limit limit') : Grammar.Accords A [] := by
  intro d d' _
  refine ⟨A.pure true, fun position => ?_⟩
  rw [walk_nil, walk_nil]
  exact A.pure _

theorem nullable_cons (hc : c.Accords A) (hg : g.Accords A)
    (hd : A.Depths (height (c :: g)) d d') :
    A.Rel (.ofExcept (nullable limit (c :: g) d)) (.ofExcept (nullable limit' (c :: g) d')) := by
  rw [height] at hd
  rw [ofExcept_nullable_cons, ofExcept_nullable_cons]
  apply A.bind (hc d d' (A.anti (le_max_left _ _) hd)).1
  intro bare _
  cases bare with
  | false => exact A.pure false
  | true => exact (hg d d' (A.anti (le_max_right _ _) hd)).1

/-- The positions marked lie in the text, since what is taken ends there. -/
theorem step (hc : c.Accords A) (hd : A.Depths c.height d d') (position : Int) :
    A.Rel (c.step text limit d position) (c.step text limit' d' position) := by
  obtain ⟨hnullable, hconsume⟩ := hc d d' hd
  apply A.bind (hconsume position)
  intro m hm
  have hstop := (c.covering text limit d position m hm).stop_le
  by_cases h0 : 0 < m.length
  · rw [if_pos h0, if_pos h0]
    exact A.bind (A.mark (by omega)) fun _ _ => A.pure _
  · rw [if_neg h0, if_neg h0]
    exact A.bind hnullable fun _ _ => A.pure _

theorem cons (hc : c.Accords A) (hg : g.Accords A) : Grammar.Accords A (c :: g) := by
  intro d d' hd
  refine ⟨nullable_cons hc hg hd, fun position => ?_⟩
  by_cases hp : position = text.length
  · rw [walk, walk, if_pos hp, if_pos hp]
    exact A.bind (nullable_cons hc hg hd) fun _ _ => A.pure _
  · rw [height] at hd
    rw [walk_cons hp, walk_cons hp]
    exact A.followedBy (step hc (A.anti (le_max_left _ _) hd) position)
      (hg d d' (A.anti (le_max_right _ _) hd)).2

end Grammar.Accords

theorem Inherited.accords (A : Accord text limit limit') :
    Inherited (Component.Accords A) (Grammar.Accords A) where
  literal w d d' _ := ⟨A.pure false, fun position => by
    rw [Component.consume_literal, Component.consume_literal]
    exact A.pure _⟩
  classified w kind d d' _ := ⟨A.pure false, fun position => by
    rw [Component.consume_classified, Component.consume_classified]
    exact A.pure _⟩
  zeroOrMore hg := hg.zeroOrMore
  oneOrMore hg := hg.oneOrMore
  zeroOrOne hg := hg.zeroOrOne
  group hg := hg.group
  alternation hg hh := hg.alternation hh
  unknown cls payload d d' _ := ⟨A.unsupported _ none, fun position => by
    rw [Component.consume_unknown, Component.consume_unknown]
    exact A.unsupported _ _⟩
  nil := .nil A
  cons hc hg := .cons hc hg

theorem Grammar.accords (A : Accord text limit limit') (g : Grammar) : g.Accords A :=
  (Inherited.accords A).grammar g

theorem Grammar.run_accords (A : Accord text limit limit') (g : Grammar) {d d' : Int}
    (hd : A.Depths (g.height + 1) (d - 1) (d' - 1)) (position : Int) :
    A.Rel (g.run text limit d position) (g.run text limit' d' position) := by
  have hrun := (g.accords A).run le_rfl hd position
  rwa [Int.sub_add_cancel, Int.sub_add_cancel] at hrun

/-- The attempt that a run of a session makes. -/
def Session.attempt (s : Session) (g : Grammar) (depth position : Int) (nested : Bool) :
    Attempt (Option Match) :=
  if nested then g.run s.text s.limit depth position
  else g.runWhole s.text s.limit depth position

theorem Session.run_eq_record (s : Session) (g : Grammar) (nested : Bool) :
    s.run g depth position nested = s.record (s.attempt g depth position nested) := rfl

theorem Accord.attempt (s s' : Session) (A : Accord s.text s.limit s'.limit)
    (htext : s'.text = s.text) {g : Grammar} {d d' : Int}
    (hrun : A.Rel (g.run s.text s.limit d position) (g.run s.text s'.limit d' position))
    (nested : Bool) :
    A.Rel (s.attempt g d position nested) (s'.attempt g d' position nested) := by
  rw [Session.attempt, Session.attempt, htext]
  cases nested with
  | true => exact hrun
  | false => exact A.bind hrun fun _ _ => A.pure _

/-- No attempt reaches beyond the end of the text. -/
def Accord.inside (text : Text) (limit : Option Int) : Accord text limit limit where
  Rel x _ := x.reached ≤ text.length
  Depths _ d d' := d' = d
  anti _ hd := hd
  pure _ := Nat.zero_le _
  unsupported _ _ := Nat.zero_le _
  mark h := Int.toNat_le.2 h
  bind {α β x y f g} hx hf := by
    rcases x with ⟨r, fault | a⟩
    · exact hx
    · exact Nat.max_le.2 ⟨hx, hf a rfl⟩
  guarded {α run run' _ d d' position} hd hrun := by
    subst hd
    rw [GreedyMatch.guarded]
    cases allow limit (d' + 1) with
    | error fault => exact Nat.zero_le _
    | ok _ => exact hrun rfl

theorem Session.reached_attempt_le (s : Session) (g : Grammar) (nested : Bool) :
    (s.attempt g depth position nested).reached ≤ s.text.length :=
  Accord.attempt s s (.inside s.text s.limit) rfl (g.run_accords _ rfl position) nested

end GreedyMatch
