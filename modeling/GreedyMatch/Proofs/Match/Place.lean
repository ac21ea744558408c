import GreedyMatch.Proofs.Match.Group
import Mathlib.Logic.Relation

/-!
# Where faults are raised

A run goes from place to place: past a component, or into a grammar inside of one. It is
ended by a fault exactly if that fault is raised at one of the places it comes to. Since
nullability is settled wherever a component has been matched, only two things raise a fault
beside the limit: matching a component that is not known, and asking at the end of the text
what may be left out.
-/
namespace GreedyMatch
variable {text : Text} {limit : Option Int} {depth cursor : Int} {fault : Fault}

/-- Passes that begin at a cursor make one at another place: that is where they begin, or
the first one takes something and those after it make one there. -/
inductive PassAt (size : Nat) (pass : Int → Attempt (Option Match)) : Int → Int → Prop
  | here {cursor : Int} (h : cursor < size) : PassAt size pass cursor cursor
  | onward {cursor p : Int} {m : Match} (h : cursor < size)
      (hr : (pass cursor).result = .ok (some m)) (hm : 0 < m.length)
      (rest : PassAt size pass (cursor + m.length) p) : PassAt size pass cursor p

/-- Matching the component at the cursor takes a run of an inner grammar at a position. -/
inductive Component.Enters (text : Text) (limit : Option Int) (depth cursor : Int) :
    Component → Grammar → Int → Prop
  | zeroOrMore {g : Grammar} {p : Int}
      (h : PassAt text.length (g.run text limit (depth + 1)) cursor p) :
      Enters text limit depth cursor (.zeroOrMore g) g p
  | oneOrMore {g : Grammar} {p : Int}
      (h : PassAt text.length (g.run text limit (depth + 1)) cursor p) :
      Enters text limit depth cursor (.oneOrMore g) g p
  | zeroOrOne {g : Grammar} : Enters text limit depth cursor (.zeroOrOne g) g cursor
  | group {g : Grammar} : Enters text limit depth cursor (.group g) g cursor
  | left {g h : Grammar} : Enters text limit depth cursor (.alternation g h) g cursor
  /-- The right branch is tried only where the left one takes nothing. -/
  | right {g h : Grammar} {r : Option Match}
      (hr : (g.run text limit (depth + 1) cursor).result = .ok r) (h0 : Match.extent r = 0) :
      Enters text limit depth cursor (.alternation g h) h cursor

/-- A property of grammars that goes from the ones that matching a component runs to those that
begin with the component holds of all grammars. -/
theorem Inherited.ofEnters {G : Grammar → Prop} (nil : G [])
    (cons : ∀ {c : Component} {g : Grammar},
      (∀ depth cursor h p, c.Enters text limit depth cursor h p → G h) → G g → G (c :: g)) :
    Inherited (fun c => ∀ depth cursor h p, c.Enters text limit depth cursor h p → G h) G where
  literal _ _ _ _ _ h := nomatch h
  classified _ _ _ _ _ _ h := nomatch h
  zeroOrMore hg _ _ _ _ h := by cases h; exact hg
  oneOrMore hg _ _ _ _ h := by cases h; exact hg
  zeroOrOne hg _ _ _ _ h := by cases h; exact hg
  group hg _ _ _ _ h := by cases h; exact hg
  alternation hg hh _ _ _ _ h := by
    cases h with
    | left => exact hg
    | right => exact hh
  unknown _ _ _ _ _ _ h := nomatch h
  nil := nil
  cons hc hg := cons hc hg

/-- Where a run stands: what it has still to walk, at which depth, and how far it has come. -/
structure Place where
  rest : Grammar
  depth : Int
  cursor : Int

namespace Place

def walk (text : Text) (limit : Option Int) (P : Place) : Attempt (Option Match) :=
  Grammar.walk text limit P.rest P.depth P.cursor

inductive Step (text : Text) (limit : Option Int) : Place → Place → Prop
  | past {c : Component} {cs : Grammar} {depth cursor : Int} {m : Match}
      (hp : cursor ≠ text.length) (h : c.Advances text limit depth cursor m) :
      Step text limit ⟨c :: cs, depth, cursor⟩ ⟨cs, depth, cursor + m.length⟩
  | enter {c : Component} {cs g : Grammar} {depth cursor p : Int} (hp : cursor ≠ text.length)
      (h : c.Enters text limit depth cursor g p) (hallow : allow limit (depth + 1) = .ok ()) :
      Step text limit ⟨c :: cs, depth, cursor⟩ ⟨g, depth + 1, p⟩

inductive Raises (text : Text) (limit : Option Int) : Place → Fault → Prop
  | atEnd {g : Grammar} {depth : Int} {fault : Fault}
      (h : Grammar.nullable limit g depth = .error fault) :
      Raises text limit ⟨g, depth, text.length⟩ fault
  | unknown {cls : UnknownClass} {payload : List Value} {cs : Grammar} {depth cursor : Int}
      (hp : cursor ≠ text.length) :
      Raises text limit ⟨.unknown cls payload :: cs, depth, cursor⟩
        (.unsupported (.component (.unknown cls payload)) (some cursor))
  | barred {c : Component} {cs g : Grammar} {depth cursor p : Int} {fault : Fault}
      (hp : cursor ≠ text.length) (h : c.Enters text limit depth cursor g p)
      (hallow : allow limit (depth + 1) = .error fault) :
      Raises text limit ⟨c :: cs, depth, cursor⟩ fault

end Place

theorem passes_eq_error_iff {size : Nat} {pass : Int → Attempt (Option Match)} :
    (passes size pass cursor).result = .error fault ↔
      ∃ p, PassAt size pass cursor p ∧ (pass p).result = .error fault := by
  constructor
  · intro h
    fun_induction passes size pass cursor with
    | case1 cursor hc ih =>
      rcases Attempt.result_bind_eq_error_iff.1 h with h | ⟨r, hr, h⟩
      · exact ⟨cursor, .here hc, h⟩
      · by_cases h0 : 0 < Match.extent r
        · rw [if_pos h0, Attempt.result_bind_pure_eq_error_iff] at h
          obtain ⟨p, hpass, hfault⟩ := ih _ h0 h
          cases r with
          | none => cases h0
          | some m => exact ⟨p, .onward hc hr h0 hpass, hfault⟩
        · rw [if_neg h0] at h
          cases h
    | case2 cursor hc => cases h
  · rintro ⟨p, hpass, hfault⟩
    induction hpass with
    | here h =>
      rw [passes, if_pos h]
      exact Attempt.result_bind_of_error _ hfault
    | @onward cursor p m h hr hm rest ih =>
      have hm' : 0 < Match.extent (some m) := hm
      rw [passes, if_pos h, Attempt.result_bind_of_ok _ hr, if_pos hm']
      exact Attempt.result_bind_of_error _ (ih hfault)

namespace Grammar
variable {g : Grammar}

theorem run_eq_error_iff :
    (run text limit g depth cursor).result = .error fault ↔
      allow limit depth = .error fault ∨
        allow limit depth = .ok () ∧ (walk text limit g depth cursor).result = .error fault := by
  unfold run guarded
  cases allow limit depth with
  | error e => simp
  | ok u => simp

theorem runWhole_eq_error_iff :
    (runWhole text limit g depth cursor).result = .error fault ↔
      (run text limit g depth cursor).result = .error fault :=
  Attempt.result_bind_pure_eq_error_iff

end Grammar

namespace Component
variable {inner left right : Grammar}

theorem consume_zeroOrMore_eq_error_iff :
    ((zeroOrMore inner).consume text limit depth cursor).result = .error fault ↔
      ∃ p, PassAt text.length (inner.run text limit (depth + 1)) cursor p ∧
        (inner.run text limit (depth + 1) p).result = .error fault := by
  rw [consume_zeroOrMore, Attempt.result_bind_pure_eq_error_iff, passes_eq_error_iff]

theorem consume_zeroOrOne_eq_error_iff :
    ((zeroOrOne inner).consume text limit depth cursor).result = .error fault ↔
      (inner.run text limit (depth + 1) cursor).result = .error fault :=
  Attempt.result_bind_pure_eq_error_iff

theorem consume_group_eq_error_iff :
    ((group inner).consume text limit depth cursor).result = .error fault ↔
      (inner.run text limit (depth + 1) cursor).result = .error fault :=
  Attempt.result_bind_pure_eq_error_iff

theorem consume_alternation_eq_error_iff :
    ((alternation left right).consume text limit depth cursor).result = .error fault ↔
      (left.run text limit (depth + 1) cursor).result = .error fault ∨
        ∃ r, (left.run text limit (depth + 1) cursor).result = .ok r ∧ Match.extent r = 0 ∧
          (right.run text limit (depth + 1) cursor).result = .error fault := by
  rw [consume_alternation, Attempt.result_bind_eq_error_iff]
  refine or_congr_right (exists_congr fun r => and_congr_right fun _ => ?_)
  by_cases h0 : 0 < Match.extent r
  · simp [h0, Nat.ne_of_gt h0]
  · rw [if_neg h0, Attempt.result_bind_pure_eq_error_iff]
    simp [Nat.eq_zero_of_not_pos h0]

end Component

theorem Component.consume_eq_error_iff {c : Component} :
    (c.consume text limit depth cursor).result = .error fault ↔
      (∃ cls payload, c = .unknown cls payload ∧
        fault = .unsupported (.component (.unknown cls payload)) (some cursor)) ∨
      ∃ g p, c.Enters text limit depth cursor g p ∧
        (g.run text limit (depth + 1) p).result = .error fault := by
  constructor
  · intro h
    cases c with
    | literal w =>
      rw [consume_literal] at h
      cases h
    | classified w kind =>
      rw [consume_classified] at h
      cases h
    | zeroOrMore inner =>
      obtain ⟨p, hpass, hfault⟩ := consume_zeroOrMore_eq_error_iff.1 h
      exact .inr ⟨inner, p, .zeroOrMore hpass, hfault⟩
    | oneOrMore inner =>
      obtain ⟨p, hpass, hfault⟩ := consume_zeroOrMore_eq_error_iff.1 h
      exact .inr ⟨inner, p, .oneOrMore hpass, hfault⟩
    | zeroOrOne inner =>
      exact .inr ⟨inner, cursor, .zeroOrOne, consume_zeroOrOne_eq_error_iff.1 h⟩
    | group inner => exact .inr ⟨inner, cursor, .group, consume_group_eq_error_iff.1 h⟩
    | alternation left right =>
      rcases consume_alternation_eq_error_iff.1 h with hfault | ⟨r, hr, h0, hfault⟩
      · exact .inr ⟨left, cursor, .left, hfault⟩
      · exact .inr ⟨right, cursor, .right hr h0, hfault⟩
    | unknown cls payload =>
      rw [consume_unknown] at h
      cases h
      exact .inl ⟨cls, payload, rfl, rfl⟩
  · rintro (⟨cls, payload, rfl, rfl⟩ | ⟨g, p, h, hfault⟩)
    · rw [consume_unknown]
      rfl
    · cases h with
      | zeroOrMore hpass => exact consume_zeroOrMore_eq_error_iff.2 ⟨p, hpass, hfault⟩
      | oneOrMore hpass => exact consume_zeroOrMore_eq_error_iff.2 ⟨p, hpass, hfault⟩
      | zeroOrOne => exact consume_zeroOrOne_eq_error_iff.2 hfault
      | group => exact consume_group_eq_error_iff.2 hfault
      | left => exact consume_alternation_eq_error_iff.2 (.inl hfault)
      | right hr h0 => exact consume_alternation_eq_error_iff.2 (.inr ⟨_, hr, h0, hfault⟩)

namespace Grammar
variable {c : Component} {cs : Grammar}

/-- Asking whether a component that took nothing may be left out never raises a fault. -/
theorem walk_cons_eq_error_iff (hp : cursor ≠ text.length) :
    (walk text limit (c :: cs) depth cursor).result = .error fault ↔
      (c.consume text limit depth cursor).result = .error fault ∨
        ∃ m, c.Advances text limit depth cursor m ∧
          (walk text limit cs depth (cursor + m.length)).result = .error fault := by
  have hstay : cursor + ((Match.empty.length : Nat) : Int) = cursor := Int.add_zero cursor
  rw [walk, if_neg hp, Attempt.result_bind_eq_error_iff]
  refine or_congr_right ?_
  constructor
  · rintro ⟨m, hm, h⟩
    by_cases h0 : 0 < m.length
    · rw [if_pos h0, Attempt.result_bind_of_ok _ rfl, Attempt.result_bind_pure_eq_error_iff] at h
      exact ⟨m, .taking hm h0, h⟩
    · rw [if_neg h0] at h
      obtain ⟨bare, hbare⟩ := (Inherited.settles text limit).component c depth cursor m hm
      rw [Attempt.result_bind_of_ok _ hbare] at h
      cases bare with
      | false => cases h
      | true =>
        refine ⟨.empty, .skipping hm (by omega) hbare, ?_⟩
        rwa [hstay]
  · rintro ⟨m, hm, h⟩
    cases hm with
    | taking hm h0 =>
      refine ⟨m, hm, ?_⟩
      rw [if_pos h0, Attempt.result_bind_of_ok _ rfl]
      exact Attempt.result_bind_of_error _ h
    | @skipping n hn h0 hbare =>
      refine ⟨n, hn, ?_⟩
      rw [hstay] at h
      rw [if_neg (by omega), Attempt.result_bind_of_ok _ hbare]
      exact h

end Grammar

namespace Place
variable {P Q : Place}

theorem Raises.result_walk (h : P.Raises text limit fault) :
    (P.walk text limit).result = .error fault := by
  cases h with
  | atEnd h =>
    rw [walk, Grammar.walk_at_end, h]
    rfl
  | unknown hp =>
    exact (Grammar.walk_cons_eq_error_iff hp).2
      (.inl (Component.consume_eq_error_iff.2 (.inl ⟨_, _, rfl, rfl⟩)))
  | barred hp h hallow =>
    exact (Grammar.walk_cons_eq_error_iff hp).2 (.inl (Component.consume_eq_error_iff.2
      (.inr ⟨_, _, h, Grammar.run_eq_error_iff.2 (.inl hallow)⟩)))

theorem Step.result_walk (h : P.Step text limit Q) (hQ : (Q.walk text limit).result = .error fault) :
    (P.walk text limit).result = .error fault := by
  cases h with
  | past hp h => exact (Grammar.walk_cons_eq_error_iff hp).2 (.inr ⟨_, h, hQ⟩)
  | enter hp h hallow =>
    exact (Grammar.walk_cons_eq_error_iff hp).2 (.inl (Component.consume_eq_error_iff.2
      (.inr ⟨_, _, h, Grammar.run_eq_error_iff.2 (.inr ⟨hallow, hQ⟩)⟩)))

end Place

/-- A fault that ends a walk of the grammar is raised at a place that the walk comes to. -/
def Grammar.Locates (text : Text) (limit : Option Int) (g : Grammar) : Prop :=
  ∀ depth cursor fault, (walk text limit g depth cursor).result = .error fault →
    ∃ P : Place, Relation.ReflTransGen (Place.Step text limit) ⟨g, depth, cursor⟩ P ∧
      P.Raises text limit fault

def Component.Locates (text : Text) (limit : Option Int) (c : Component) : Prop :=
  ∀ depth cursor g p, c.Enters text limit depth cursor g p → g.Locates text limit

theorem Grammar.Locates.cons {c : Component} {g : Grammar} (hc : c.Locates text limit)
    (hg : g.Locates text limit) : Grammar.Locates text limit (c :: g) := by
  intro depth cursor fault h
  by_cases hp : cursor = text.length
  · subst hp
    rw [walk_at_end] at h
    cases hn : nullable limit (c :: g) depth with
    | ok bare =>
      rw [hn] at h
      cases h
    | error e =>
      rw [hn] at h
      cases h
      exact ⟨_, .refl, .atEnd hn⟩
  · rcases (walk_cons_eq_error_iff hp).1 h with h | ⟨m, hm, hrest⟩
    · rcases Component.consume_eq_error_iff.1 h with ⟨_, _, rfl, rfl⟩ | ⟨g', p, henter, hrun⟩
      · exact ⟨_, .refl, .unknown hp⟩
      · rcases run_eq_error_iff.1 hrun with hallow | ⟨hallow, hwalk⟩
        · exact ⟨_, .refl, .barred hp henter hallow⟩
        · obtain ⟨P, hP, hraises⟩ := hc depth cursor g' p henter (depth + 1) p fault hwalk
          exact ⟨P, .head (.enter hp henter hallow) hP, hraises⟩
    · obtain ⟨P, hP, hraises⟩ := hg depth (cursor + m.length) fault hrest
      exact ⟨P, .head (.past hp hm) hP, hraises⟩

theorem Inherited.locates (text : Text) (limit : Option Int) :
    Inherited (Component.Locates text limit) (Grammar.Locates text limit) := by
  refine .ofEnters ?_ fun hc hg => Grammar.Locates.cons hc hg
  intro depth cursor fault h
  rw [Grammar.walk_nil] at h
  cases h

namespace Place
variable {P Q : Place}

/-- A fault ends a run exactly if it is raised at a place that the run comes to. -/
theorem walk_eq_error_iff : (P.walk text limit).result = .error fault ↔
    ∃ Q, Relation.ReflTransGen (Step text limit) P Q ∧ Q.Raises text limit fault := by
  constructor
  · exact (Inherited.locates text limit).grammar P.rest P.depth P.cursor fault
  · rintro ⟨Q, hQ, hraises⟩
    induction hQ using Relation.ReflTransGen.head_induction_on with
    | refl => exact hraises.result_walk
    | head hstep _ ih => exact hstep.result_walk ih

def Inside (text : Text) (P : Place) : Prop := 0 ≤ P.cursor ∧ P.cursor ≤ text.length

end Place

theorem PassAt.le {pass : Int → Attempt (Option Match)} {size : Nat} {p : Int}
    (h : PassAt size pass cursor p) : cursor ≤ p ∧ p < size := by
  induction h with
  | here h => exact ⟨Int.le_refl _, h⟩
  | onward h hr hm rest ih => exact ⟨by omega, ih.2⟩

theorem Component.Enters.le {c : Component} {g : Grammar} {p : Int}
    (h : c.Enters text limit depth cursor g p) (hc : cursor ≤ text.length) :
    cursor ≤ p ∧ p ≤ text.length := by
  cases h with
  | zeroOrMore h => exact ⟨h.le.1, Int.le_of_lt h.le.2⟩
  | oneOrMore h => exact ⟨h.le.1, Int.le_of_lt h.le.2⟩
  | zeroOrOne => exact ⟨Int.le_refl _, hc⟩
  | group => exact ⟨Int.le_refl _, hc⟩
  | left => exact ⟨Int.le_refl _, hc⟩
  | right => exact ⟨Int.le_refl _, hc⟩

namespace Place
variable {P Q : Place}

theorem Step.inside (h : P.Step text limit Q) (hP : P.Inside text) : Q.Inside text := by
  obtain ⟨h0, hstop⟩ := hP
  cases h with
  | @past c cs depth cursor m hp h =>
    have hm := (Grammar.Covering.advances (c.covering text limit) h).stop_le
    exact ⟨by dsimp only at h0 ⊢; omega, by dsimp only at hstop ⊢; omega⟩
  | enter hp h hallow =>
    have hp := h.le hstop
    exact ⟨by dsimp only at h0 ⊢; omega, hp.2⟩

theorem inside_of_steps (h : Relation.ReflTransGen (Step text limit) P Q) (hP : P.Inside text) :
    Q.Inside text := by
  induction h with
  | refl => exact hP
  | tail _ hstep ih => exact hstep.inside ih

end Place
end GreedyMatch
