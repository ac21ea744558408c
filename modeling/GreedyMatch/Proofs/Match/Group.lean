import GreedyMatch.Proofs.Match.Concat
import GreedyMatch.Proofs.Match.Cover
import GreedyMatch.Proofs.Match.Nullability

/-!
# Groups

A group does not tell a run that failed from one that took nothing; nullability tells the
two apart afterwards. It always can, since a run that returns has settled whether its
grammar is nullable, and it does so rightly. So a group on its own comes to just what a run
of its grammar comes to, one level deeper.
-/
namespace GreedyMatch
variable {text : Text} {limit : Option Int} {depth position : Int}

/-- Where the component has been matched its nullability is decided. -/
def Component.Settles (text : Text) (limit : Option Int) (c : Component) : Prop :=
  ∀ depth position m, (c.consume text limit depth position).result = .ok m →
    ∃ bare, c.nullable limit depth = .ok bare

def Grammar.Settles (text : Text) (limit : Option Int) (g : Grammar) : Prop :=
  ∀ depth position r, (g.run text limit depth position).result = .ok r →
    ∃ bare, Grammar.nullable limit g depth = .ok bare

namespace Grammar.Settles
variable {c : Component} {g : Grammar}

theorem group (hg : g.Settles text limit) : (Component.group g).Settles text limit := by
  intro depth position m h
  obtain ⟨r, hr, -⟩ := Component.consume_group_eq_ok_iff.1 h
  obtain ⟨hallow, -⟩ := run_eq_ok_iff.1 hr
  obtain ⟨bare, hbare⟩ := hg (depth + 1) position r hr
  refine ⟨bare, ?_⟩
  rw [Component.nullable, hallow]
  exact hbare

theorem advances (hc : c.Settles text limit) {m : Match}
    (hm : c.Advances text limit depth position m) : ∃ bare, c.nullable limit depth = .ok bare := by
  cases hm with
  | taking hm _ => exact hc depth position m hm
  | skipping _ _ hn => exact ⟨true, hn⟩

theorem cons (hc : c.Settles text limit) (hg : g.Settles text limit) :
    Grammar.Settles text limit (c :: g) := by
  intro depth position r h
  obtain ⟨hallow, hw⟩ := run_eq_ok_iff.1 h
  by_cases hp : position = text.length
  · subst hp
    obtain ⟨bare, hbare, -⟩ := walk_at_end_eq_ok_iff.1 hw
    exact ⟨bare, hbare⟩
  · rcases (walk_cons_eq_ok_iff hp).1 hw with ⟨⟨-, hstuck⟩, -⟩ | ⟨m, rest, hm, hrest, -⟩
    · exact ⟨false, by rw [nullable, hstuck]⟩
    · obtain ⟨bare, hbare⟩ := advances hc hm
      rw [nullable, hbare]
      cases bare with
      | false => exact ⟨false, rfl⟩
      | true => exact hg depth _ rest (run_eq_ok_iff.2 ⟨hallow, hrest⟩)

end Grammar.Settles

theorem Inherited.settles (text : Text) (limit : Option Int) :
    Inherited (Component.Settles text limit) (Grammar.Settles text limit) where
  literal _ _ _ _ _ := ⟨false, rfl⟩
  classified _ _ _ _ _ _ := ⟨false, rfl⟩
  zeroOrMore _ _ _ _ _ := ⟨true, rfl⟩
  oneOrMore _ _ _ _ _ := ⟨false, rfl⟩
  zeroOrOne _ _ _ _ _ := ⟨true, rfl⟩
  group hg := hg.group
  alternation _ _ _ _ _ _ := ⟨false, rfl⟩
  unknown cls payload depth position m h := by
    rw [Component.consume_unknown] at h
    cases h
  nil _ _ _ _ := ⟨true, rfl⟩
  cons hc hg := hg.cons hc

theorem Grammar.settles (text : Text) (limit : Option Int) (g : Grammar) : g.Settles text limit :=
  (Inherited.settles text limit).grammar g

/-- An attempt at a position that takes something reaches the end of what it takes. -/
def Attempt.ReachesStop (x : Attempt (Option Match)) (position : Int) : Prop :=
  ∀ m, x.result = .ok (some m) → 0 < m.length → (position + m.length).toNat ≤ x.reached

theorem Attempt.ReachesStop.followedBy {x : Attempt (Option Match)}
    {next : Int → Attempt (Option Match)} (hx : x.ReachesStop position)
    (hnext : ∀ p, (next p).ReachesStop p) : (x.followedBy next position).ReachesStop position := by
  intro m h h0
  rcases x with ⟨r, fault | _ | k⟩
  · cases h
  · cases h
  · rw [followedBy_eq_of_some] at h ⊢
    have hk := hx k rfl
    have hl := hnext (position + k.length)
    rcases hy : next (position + k.length) with ⟨r', fault | _ | l⟩ <;> rw [hy] at h hl
    · cases h
    · cases h
    · cases h
      have hl := hl l rfl
      rw [Match.length_append] at h0 ⊢
      dsimp only at hk hl ⊢
      by_cases hl0 : 0 < l.length
      · have hle := hl hl0
        push_cast
        omega
      · have hle := hk (by omega)
        push_cast
        omega

namespace Component
variable {c : Component} {r : Nat} {m : Match}

theorem step_of_taking (h : c.consume text limit depth position = ⟨r, .ok m⟩) (h0 : 0 < m.length) :
    c.step text limit depth position = ⟨max r (position + m.length).toNat, .ok (some m)⟩ := by
  have hmark : (Attempt.mark (position + m.length) >>= fun _ => pure (some m)) =
      ⟨(position + m.length).toNat, .ok (some m)⟩ :=
    congrArg (Attempt.mk · _) (Nat.max_zero _)
  rw [step, h, Attempt.bind_eq_of_ok, if_pos h0, hmark]

theorem step_of_not_taking (h : c.consume text limit depth position = ⟨r, .ok m⟩)
    (h0 : m.length = 0) :
    c.step text limit depth position =
      ⟨r, (c.nullable limit depth).map fun bare => if bare then some .empty else none⟩ := by
  rw [step, h, Attempt.bind_eq_of_ok, if_neg (by omega)]
  cases c.nullable limit depth with
  | error fault => exact congrArg (Attempt.mk · _) (Nat.max_zero r)
  | ok bare => exact congrArg (Attempt.mk · _) (Nat.max_zero r)

theorem reachesStop_step (c : Component) :
    (c.step text limit depth position).ReachesStop position := by
  intro k h h0
  rcases hc : c.consume text limit depth position with ⟨r, fault | m⟩
  · rw [step, hc] at h
    cases h
  · by_cases hm : 0 < m.length
    · rw [step_of_taking hc hm] at h ⊢
      cases h
      exact Nat.le_max_right r _
    · rw [step_of_not_taking hc (by omega)] at h
      rcases hn : c.nullable limit depth with fault | _ | _ <;> rw [hn] at h <;> cases h
      cases h0

end Component

theorem Grammar.reachesStop_walk (g : Grammar) :
    (walk text limit g depth position).ReachesStop position := by
  induction g generalizing position with
  | nil =>
    intro m h h0
    rw [walk_nil] at h
    cases h
    cases h0
  | cons c cs ih =>
    by_cases hp : position = text.length
    · subst hp
      intro m h h0
      obtain ⟨bare, -, hm⟩ := walk_at_end_eq_ok_iff.1 h
      cases bare with
      | false => cases hm
      | true =>
        cases hm
        cases h0
    · rw [walk_cons hp]
      exact c.reachesStop_step.followedBy fun p => ih

theorem Grammar.reachesStop_run (g : Grammar) :
    (g.run text limit depth position).ReachesStop position := by
  intro m h h0
  obtain ⟨hallow, hw⟩ := run_eq_ok_iff.1 h
  rw [run, guarded, hallow]
  exact g.reachesStop_walk m hw h0

theorem Match.Covers.eq_empty {m : Match} (h : m.Covers text position) (h0 : m.length = 0) :
    m = .empty := by
  have htokens : m.tokens = [] := h.tokens_eq_nil_iff.2 (by omega)
  cases m
  simp_all [Match.empty]

namespace Grammar
variable {c : Component} {g : Grammar}

theorem nullable_singleton (c : Component) : nullable limit [c] depth = c.nullable limit depth := by
  rw [nullable]
  rcases c.nullable limit depth with fault | _ | _ <;> rfl

theorem nullable_of_run_eq_none (h : (g.run text limit depth position).result = .ok none) :
    nullable limit g depth = .ok false := by
  obtain ⟨bare, hbare⟩ := g.settles text limit depth position none h
  cases bare with
  | false => exact hbare
  | true => exact absurd (run_eq_ok_iff.1 h).2 (walk_ne_none hbare)

theorem nullable_group_of_run {r : Option Match}
    (h : (g.run text limit (depth + 1) position).result = .ok r) :
    (Component.group g).nullable limit depth = nullable limit g (depth + 1) := by
  rw [Component.nullable, (run_eq_ok_iff.1 h).1]

theorem consume_group_of_run {r : Nat} {o : Option Match}
    (h : g.run text limit (depth + 1) position = ⟨r, .ok o⟩) :
    (Component.group g).consume text limit depth position = ⟨r, .ok (o.getD .empty)⟩ := by
  rw [Component.consume_group, h, Attempt.bind_eq_of_ok]
  exact congrArg (Attempt.mk · _) (Nat.max_zero r)

/-- A group on its own is a run of its grammar one level deeper. -/
theorem walk_group (g : Grammar) :
    walk text limit [.group g] depth position = g.run text limit (depth + 1) position := by
  by_cases hp : position = text.length
  · subst hp
    rw [walk_length, nullable_singleton, Component.nullable, run, guarded]
    cases allow limit (depth + 1) with
    | error fault => rfl
    | ok _ => exact (walk_length g).symm
  rw [walk_singleton hp]
  rcases hr : g.run text limit (depth + 1) position with ⟨r, fault | _ | m⟩
  · rw [Component.step, Component.consume_group, hr]
    rfl
  · have hnone : (g.run text limit (depth + 1) position).result = .ok none := by rw [hr]
    rw [Component.step_of_not_taking (consume_group_of_run hr) rfl, nullable_group_of_run hnone,
      nullable_of_run_eq_none hnone]
    rfl
  · have hsome : (g.run text limit (depth + 1) position).result = .ok (some m) := by rw [hr]
    have hwalk := (run_eq_ok_iff.1 hsome).2
    by_cases h0 : 0 < m.length
    · have hreach : (position + m.length).toNat ≤ r := by
        have hstop := g.reachesStop_run m hsome h0
        rwa [hr] at hstop
      rw [Component.step_of_taking (consume_group_of_run hr) h0]
      exact congrArg (Attempt.mk · _) (Nat.max_eq_left hreach)
    · have h0 : m.length = 0 := by omega
      obtain rfl : m = .empty := (g.covering text limit _ position m hsome).eq_empty h0
      rw [Component.step_of_not_taking (consume_group_of_run hr) h0, nullable_group_of_run hsome,
        nullable_of_walk hwalk h0]
      rfl

end Grammar
end GreedyMatch
