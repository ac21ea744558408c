import GreedyMatch.Proofs.Match.Rewording
import GreedyMatch.Proofs.Value.Canonical

/-!
# Classified words and equal grammars

Whether its words are classified, and how, does not matter to a run of a grammar: the same
grammar with no word classified comes to the very same. Nor does it matter which one of several
equal grammars is run, although equal values need not be one and the same. Where a run meets a
component that is not supported, a run of the other grammar meets one that is equal to it.
-/
namespace GreedyMatch
variable {depth position : Int}

namespace Rewording

/-- No word is classified any more. -/
def unclassified : Rewording := ⟨id, fun _ => none, id⟩

/-- Integers stand for the booleans in kinds and in what components of unknown classes carry. -/
def canonical : Rewording := ⟨id, fun kind => some kind.canonical, Value.canonical⟩

end Rewording

namespace Fault

/-- One and the same fault, or one that names an equal value at the same position. -/
def Same (fault fault' : Fault) : Prop :=
  fault = fault' ∨
    ∃ v w p, fault = .unsupported v p ∧ fault' = .unsupported w p ∧ v.same w = true

theorem reword_unclassified (fault : Fault) : fault.reword .unclassified = fault := by
  rcases reword_cases .unclassified fault with ⟨cls, payload, p, rfl, hreword⟩ | ⟨-, hreword⟩
  · rw [hreword, Rewording.unclassified, List.map_id]
  · exact hreword

theorem same_of_reword_eq {fault fault' : Fault}
    (h : fault.reword .canonical = fault'.reword .canonical) : fault.Same fault' := by
  rcases reword_cases .canonical fault with ⟨cls, payload, p, rfl, hreword⟩ | ⟨hne, hreword⟩ <;>
    rcases reword_cases .canonical fault' with
      ⟨cls', payload', p', rfl, hreword'⟩ | ⟨hne', hreword'⟩ <;>
    rw [hreword, hreword'] at h
  · rw [unsupported.injEq, Value.component.injEq, Component.unknown.injEq] at h
    obtain ⟨⟨rfl, hpayload⟩, rfl⟩ := h
    change payload.map Value.canonical = payload'.map Value.canonical at hpayload
    refine .inr ⟨_, _, p, rfl, rfl, ?_⟩
    rw [Value.same, Component.same, beq_self_eq_true, Bool.true_and, Value.sameAll_iff,
      Value.canonicalAll_eq_map, Value.canonicalAll_eq_map, hpayload]
  · exact absurd h.symm (hne' _ _ _)
  · exact absurd h (hne _ _ _)
  · exact .inl h

end Fault

/-- Both come to the same answer, or both meet the same fault. -/
def SameOutcome {α : Type} (e e' : Except Fault α) : Prop :=
  (∃ a, e = .ok a ∧ e' = .ok a) ∨
    ∃ fault fault', e = .error fault ∧ e' = .error fault' ∧ fault.Same fault'

theorem SameOutcome.of_mapError {α : Type} {e e' : Except Fault α}
    (h : e.mapError (Fault.reword .canonical) = e'.mapError (Fault.reword .canonical)) :
    SameOutcome e e' := by
  cases e with
  | ok a =>
    cases e' with
    | ok a' =>
      cases h
      exact .inl ⟨a, rfl, rfl⟩
    | error fault' => cases h
  | error fault =>
    cases e' with
    | ok a' => cases h
    | error fault' =>
      exact .inr ⟨fault, fault', rfl, rfl, Fault.same_of_reword_eq (Except.error.inj h)⟩

theorem Inherited.reword_canonical :
    Inherited (fun c => c.reword .canonical = c.canonical)
      (fun g => g.reword .canonical = Component.canonicalAll g) where
  literal w := congrArg Component.literal w.map_id
  classified w kind := congrArg (Component.classified · kind.canonical) w.map_id
  zeroOrMore hg := by rw [Component.reword, Component.canonical, hg]
  oneOrMore hg := by rw [Component.reword, Component.canonical, hg]
  zeroOrOne hg := by rw [Component.reword, Component.canonical, hg]
  group hg := by rw [Component.reword, Component.canonical, hg]
  alternation hg hh := by rw [Component.reword, Component.canonical, hg, hh]
  unknown cls payload := by
    rw [Component.reword, Component.canonical, Value.canonicalAll_eq_map]
    rfl
  nil := rfl
  cons hc hg := by rw [Grammar.reword, Component.canonicalAll, hc, hg]

theorem Grammar.reword_canonical_eq {g h : Grammar} (hsame : Component.sameAll g h = true) :
    g.reword .canonical = h.reword .canonical := by
  rw [Inherited.reword_canonical.grammar g, Inherited.reword_canonical.grammar h,
    (Component.sameAll_iff g h).1 hsame]

namespace Session
variable (s : Session) (g : Grammar) (nested : Bool)

theorem run_reword_of_id {R : Rewording} (hR : R.char = id) :
    s.run (g.reword R) depth position nested =
      ((s.run g depth position nested).1,
        (s.run g depth position nested).2.mapError (Fault.reword R)) := by
  have hrun := run_reword (R := R) (hR ▸ Function.injective_id) s g depth position nested
  have hsession (s : Session) : s.reword R = s := by rw [reword, hR, List.map_id]
  rw [hsession, hsession, hR, Match.map_id, Option.map_id, Except.map_id] at hrun
  exact hrun

theorem run_unclassified :
    s.run (g.reword .unclassified) depth position nested = s.run g depth position nested := by
  have hid : Fault.reword .unclassified = id := funext Fault.reword_unclassified
  rw [run_reword_of_id s g nested rfl, hid]
  rcases s.run g depth position nested with ⟨s', fault | r⟩ <;> rfl

end Session

theorem Grammar.nullable_unclassified (limit : Option Int) (g : Grammar) (depth : Int) :
    nullable limit (g.reword .unclassified) depth = nullable limit g depth := by
  have hid : Fault.reword .unclassified = id := funext Fault.reword_unclassified
  rw [nullable_reword Function.injective_id, hid]
  cases nullable limit g depth <;> rfl

/-- How words are classified never matters, and equal grammars are as good as each other, but that
each tells of its own value where one is not supported. -/
theorem classification_never_matters (s : Session) (g h : Grammar) (depth position : Int)
    (nested : Bool) :
    (g.reword .unclassified = h.reword .unclassified →
      s.run g depth position nested = s.run h depth position nested ∧
      ∀ limit, Grammar.nullable limit g depth = Grammar.nullable limit h depth) ∧
    (Component.sameAll g h = true →
      (s.run g depth position nested).1 = (s.run h depth position nested).1 ∧
      SameOutcome (s.run g depth position nested).2 (s.run h depth position nested).2 ∧
      ∀ limit, SameOutcome (Grammar.nullable limit g depth) (Grammar.nullable limit h depth)) := by
  constructor
  · intro hsame
    constructor
    · rw [← s.run_unclassified g, hsame, s.run_unclassified h]
    · intro limit
      rw [← Grammar.nullable_unclassified limit g, hsame, Grammar.nullable_unclassified limit h]
  · intro hsame
    have hreword := Grammar.reword_canonical_eq hsame
    have hrun : ((s.run g depth position nested).1,
          (s.run g depth position nested).2.mapError (Fault.reword .canonical)) =
        ((s.run h depth position nested).1,
          (s.run h depth position nested).2.mapError (Fault.reword .canonical)) := by
      rw [← s.run_reword_of_id g nested rfl, hreword, s.run_reword_of_id h nested rfl]
    obtain ⟨hsession, houtcome⟩ := Prod.mk.inj hrun
    refine ⟨hsession, .of_mapError houtcome, fun limit => .of_mapError ?_⟩
    rw [← Grammar.nullable_reword Function.injective_id, hreword,
      Grammar.nullable_reword Function.injective_id]

theorem classification_never_matters_keyword :
    ((Session.start "a".toList (some 2)).run [.zeroOrMore [.literal ⟨'a', []⟩]] 0 0 false).2 =
      .ok (some ⟨1, ["a".toList]⟩) ∧
    Component.sameAll [.classified ⟨'a', []⟩ (.int 1), .wildcard [.int 1]]
      [.classified ⟨'a', []⟩ (.bool true), .wildcard [.bool true]] = true ∧
    ((Session.start "ab".toList (some 2)).run
        [.classified ⟨'a', []⟩ (.int 1), .wildcard [.int 1]] 0 0 true).2 =
      .error (.unsupported (.component (.wildcard [.int 1])) (some 1)) ∧
    SameOutcome
      ((Session.start "ab".toList (some 2)).run
        [.classified ⟨'a', []⟩ (.int 1), .wildcard [.int 1]] 0 0 true).2
      ((Session.start "ab".toList (some 2)).run
        [.classified ⟨'a', []⟩ (.bool true), .wildcard [.bool true]] 0 0 true).2 := by
  have hsame : Component.sameAll [.classified ⟨'a', []⟩ (.int 1), .wildcard [.int 1]]
      [.classified ⟨'a', []⟩ (.bool true), .wildcard [.bool true]] = true := by cbv
  have hkeyword : ((Session.start "a".toList (some 2)).run
      [.zeroOrMore [.classified ⟨'a', []⟩ (.text "keyword".toList)]] 0 0 false).2 =
    .ok (some ⟨1, ["a".toList]⟩) := by cbv
  obtain ⟨hrun, -⟩ := (classification_never_matters (.start "a".toList (some 2))
    [.zeroOrMore [.literal ⟨'a', []⟩]]
    [.zeroOrMore [.classified ⟨'a', []⟩ (.text "keyword".toList)]] 0 0 false).1 rfl
  obtain ⟨-, houtcome, -⟩ :=
    (classification_never_matters (.start "ab".toList (some 2)) _ _ 0 0 true).2 hsame
  exact ⟨hrun ▸ hkeyword, hsame, by cbv, houtcome⟩

end GreedyMatch
