import GreedyMatch.Proofs.Value.Canonical
import GreedyMatch.Proofs.Value.Parts
import Mathlib.Tactic

/-!
# Classes of values

Each value is of one class, and a component is what its class and its payload say. So equal
components are those of one class whose payloads are equal item by item, and neither they nor
grammars are equal to values of other classes.
-/
namespace GreedyMatch

namespace Component
variable {c d : Component}

theorem eq_iff_payload : c = d ↔ c.cls = d.cls ∧ c.payload = d.payload := by
  constructor
  · rintro rfl
    exact ⟨rfl, rfl⟩
  · rintro ⟨hclass, hpayload⟩
    cases c <;> cases d <;> simp_all [cls, payload, Word.text_inj]

theorem cls_canonical (c : Component) : c.canonical.cls = c.cls := by
  cases c <;> rfl

theorem payload_canonical (c : Component) :
    c.canonical.payload = c.payload.map Value.canonical := by
  cases c <;> simp [canonical, payload, Value.canonical, Value.canonicalAll_eq_map]

/-- Components are equal if they are of one class and their payloads are equal as sequences. -/
theorem same_iff_payload :
    c.same d = true ↔ c.cls = d.cls ∧ Value.sameAll c.payload d.payload = true := by
  rw [same_iff, eq_iff_payload, cls_canonical, cls_canonical, payload_canonical,
    payload_canonical, Value.sameAll_iff, Value.canonicalAll_eq_map, Value.canonicalAll_eq_map]

end Component

namespace Value
variable {u v w : Value}

theorem same_refl (v : Value) : v.same v = true := (same_iff v v).2 rfl

theorem same_comm (v w : Value) : v.same w = w.same v := by
  rw [Bool.eq_iff_iff, same_iff, same_iff, eq_comm]

theorem same_trans (h : u.same v = true) (h' : v.same w = true) : u.same w = true := by
  rw [same_iff] at *
  exact h.trans h'

theorem same_congr_right (h : v.same w = true) (u : Value) : u.same v = u.same w := by
  rw [Bool.eq_iff_iff, same_iff, same_iff, (same_iff v w).1 h]

theorem anyDiffers_eq (vs ws : List Value) : anyDiffers vs ws = !sameAll vs ws := by
  induction vs generalizing ws with
  | nil => cases ws <;> simp [anyDiffers, sameAll]
  | cons v vs ih =>
    cases ws with
    | nil => simp [anyDiffers, sameAll]
    | cons w ws => rw [anyDiffers, sameAll, ih, Bool.not_and]

theorem differs_eq (v w : Value) : v.differs w = !v.same w := by
  fun_cases differs v w with
  | case1 vs ws => rw [same, anyDiffers_eq]
  | case2 vs ws => rw [same, anyDiffers_eq]
  | case9 => rfl
  | _ =>
    rw [same]
    rfl

theorem same_component_iff {c : Component} : (component c).same w = true ↔
    ∃ d, w = .component d ∧ c.cls = d.cls ∧ sameAll c.payload d.payload = true := by
  cases w with
  | component d => simp [same, Component.same_iff_payload]
  | _ => simp [same]

theorem same_grammar_iff {g : Grammar} : (grammar g).same w = true ↔
    ∃ h : Grammar, w = .grammar h ∧ sameAll (g.map .component) (h.map .component) = true := by
  have hcanonical (g : Grammar) :
      canonicalAll (g.map .component) = (Component.canonicalAll g).map component := by
    simp [canonicalAll_eq_map, Component.canonicalAll_eq_map, canonical, Function.comp_def]
  cases w with
  | grammar h =>
    simp [same, Component.sameAll_iff, sameAll_iff, hcanonical,
      component_injective.list_map.eq_iff]
  | _ => simp [same]

/-- Only a boolean and an integer may be equal and of two classes. -/
theorem cls_of_same (h : v.same w = true) : v.cls = w.cls ∨
    v.cls ∈ [.bool, .int] ∧ w.cls ∈ [.bool, .int] := by
  cases v with
  | component c =>
    obtain ⟨d, rfl, hclass, -⟩ := same_component_iff.1 h
    exact .inl (congrArg ValueClass.component hclass)
  | grammar g =>
    obtain ⟨g', rfl, -⟩ := same_grammar_iff.1 h
    exact .inl rfl
  | _ => cases w <;> simp_all [same, cls]

end Value

end GreedyMatch
