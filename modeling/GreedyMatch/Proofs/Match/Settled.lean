import GreedyMatch.Proofs.Match.Place

/-!
# Nullability is settled by a run

A run and nullability do not look at the same parts of a grammar, and they do not stop for the
same reasons. But whatever nullability looks at a run that returns has been past, or has itself
asked about at the end of the text. So nullability raises no fault where a run returns, and where
it raises one no run returns, wherever the text ends. Asking whether a component that took
nothing may be left out is therefore safe.
-/
namespace GreedyMatch
variable {s : Session} {g : Grammar} {v : Value} {nested : Bool} {depth position : Int}
  {fault : Fault}

theorem Session.run_eq_error_iff :
    (s.run g depth position nested).2 = .error fault ↔
      (g.run s.text s.limit depth position).result = .error fault := by
  cases nested with
  | true => exact Iff.rfl
  | false => exact Grammar.runWhole_eq_error_iff

theorem Session.nullable_of_run_eq_ok {r : Option Match}
    (h : (s.run g depth position nested).2 = .ok r) :
    ∃ bare, Grammar.nullable s.limit g depth = .ok bare := by
  cases hrun : (g.run s.text s.limit depth position).result with
  | error fault =>
    rw [Session.run_eq_error_iff.2 hrun] at h
    cases h
  | ok r' => exact g.settles s.text s.limit depth position r' hrun

theorem Session.nullable_of_consume_eq_ok {m : Match}
    (h : (s.consume v depth position).2 = .ok m) :
    ∃ bare, v.nullable s.limit depth = .ok bare := by
  cases v with
  | component c => exact (Inherited.settles s.text s.limit).component c depth position m h
  | nothing | bool | int | text | list | tuple | grammar => cases h

/-- Of two answers one is given only where the other is; so a fault in place of the other one is a
fault in place of both. -/
theorem exists_fault_of_imp {α β : Type} {x : Except Fault α} {y : Except Fault β}
    (h : ∀ a, x = .ok a → ∃ b, y = .ok b) (hy : y = .error fault) : ∃ fault', x = .error fault' := by
  cases x with
  | error fault' => exact ⟨fault', rfl⟩
  | ok a =>
    obtain ⟨b, hb⟩ := h a rfl
    rw [hy] at hb
    cases hb

/-- Where a run or the matching of a single value returns, nullability is decided; and what ends a
run is raised at a place that the run comes to. -/
theorem runs_settle_nullability (s : Session) (depth position : Int) :
    (∀ g nested r, (s.run g depth position nested).2 = .ok r →
      ∃ bare, Grammar.nullable s.limit g depth = .ok bare) ∧
    (∀ v m, (s.consume v depth position).2 = .ok m →
      ∃ bare, v.nullable s.limit depth = .ok bare) ∧
    (∀ g nested fault, Grammar.nullable s.limit g depth = .error fault →
      ∃ fault', (s.run g depth position nested).2 = .error fault') ∧
    (∀ v fault, v.nullable s.limit depth = .error fault →
      ∃ fault', (s.consume v depth position).2 = .error fault') ∧
    (∀ g nested fault, (s.run g depth position nested).2 = .error fault ↔
      allow s.limit depth = .error fault ∨ allow s.limit depth = .ok () ∧
        ∃ P : Place, Relation.ReflTransGen (Place.Step s.text s.limit) ⟨g, depth, position⟩ P ∧
          P.Raises s.text s.limit fault) := by
  refine ⟨?_, ?_, ?_, ?_, ?_⟩
  · intro g nested r h
    exact Session.nullable_of_run_eq_ok h
  · intro v m h
    exact Session.nullable_of_consume_eq_ok h
  · intro g nested fault h
    exact exists_fault_of_imp (fun _ => Session.nullable_of_run_eq_ok) h
  · intro v fault h
    exact exists_fault_of_imp (fun _ => Session.nullable_of_consume_eq_ok) h
  · intro g nested fault
    have hplaces : (Place.walk s.text s.limit ⟨g, depth, position⟩).result = .error fault ↔ _ :=
      Place.walk_eq_error_iff
    rw [Session.run_eq_error_iff, Grammar.run_eq_error_iff, ← hplaces]
    rfl

theorem runs_settle_nullability_aa :
    ((Session.start "b".toList (some 2)).run [.literal ⟨'a', []⟩, .group [.wildcard []]] 0 0 true).2 =
      .ok none ∧
    (∃ bare, Grammar.nullable (some 2) [.literal ⟨'a', []⟩, .group [.wildcard []]] 0 = .ok bare) ∧
    ((Session.start "b".toList (some 2)).consume
      (.component (.group [.literal ⟨'a', []⟩, .wildcard []])) 0 0).2 = .ok .empty ∧
    (∃ bare, Value.nullable (some 2) (.component (.group [.literal ⟨'a', []⟩, .wildcard []])) 0 =
      .ok bare) ∧
    Grammar.nullable (some 2) [.zeroOrMore [.literal ⟨'a', []⟩], .group [.wildcard []]] 0 =
      .error (.unsupported (.component (.wildcard [])) none) ∧
    (∃ fault, ((Session.start "aa".toList (some 2)).run
      [.zeroOrMore [.literal ⟨'a', []⟩], .group [.wildcard []]] 0 0 false).2 = .error fault) ∧
    Value.nullable (some 2) (.component (.group [.wildcard []])) 0 =
      .error (.unsupported (.component (.wildcard [])) none) ∧
    (∃ fault, ((Session.start "aa".toList (some 2)).consume (.component (.group [.wildcard []])) 0 0).2 =
      .error fault) := by
  obtain ⟨hrun, hconsume, -⟩ := runs_settle_nullability (Session.start "b".toList (some 2)) 0 0
  obtain ⟨-, -, hrun', hconsume', -⟩ :=
    runs_settle_nullability (Session.start "aa".toList (some 2)) 0 0
  have hnone : ((Session.start "b".toList (some 2)).run
      [.literal ⟨'a', []⟩, .group [.wildcard []]] 0 0 true).2 = .ok none := by cbv
  have hempty : ((Session.start "b".toList (some 2)).consume
      (.component (.group [.literal ⟨'a', []⟩, .wildcard []])) 0 0).2 = .ok .empty := by cbv
  exact ⟨hnone, hrun _ _ _ hnone, hempty, hconsume _ _ hempty, rfl, hrun' _ _ _ rfl, rfl,
    hconsume' _ _ rfl⟩

end GreedyMatch
