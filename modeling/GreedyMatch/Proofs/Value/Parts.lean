import GreedyMatch.Value.Equal
import Mathlib.Logic.Relation

/-!
# Parts of values

The parts of a sequence are its items, those of a component are its payload, and those of a
grammar its components. Whatever passes from the parts of a value to the value holds of all
values, and a value is inside of another one if it is a part of a part, and so on.
-/
namespace GreedyMatch

def Value.parts : Value → List Value
  | .list items => items
  | .tuple items => items
  | .component c => c.payload
  | .grammar g => g.map .component
  | .nothing | .bool _ | .int _ | .text _ => []

theorem Value.component_injective : Function.Injective Value.component := fun _ _ => component.inj

section
variable {P : Value → Prop}

-- One theorem for each sort of sequence that a value may have its parts in.
mutual

theorem Component.forall_payload (h : ∀ v : Value, (∀ u ∈ v.parts, P u) → P v) :
    ∀ c : Component, ∀ u ∈ c.payload, P u
  | .literal w => List.forall_mem_singleton.2 (h (.text w.text) (List.forall_mem_nil _))
  | .classified w kind =>
    List.forall_mem_cons.2 ⟨h (.text w.text) (List.forall_mem_nil _),
      List.forall_mem_singleton.2 (Value.forall_of_parts h kind)⟩
  | .zeroOrMore g => List.forall_mem_singleton.2 (h _ (Grammar.forall_components h g))
  | .oneOrMore g => List.forall_mem_singleton.2 (h _ (Grammar.forall_components h g))
  | .zeroOrOne g => List.forall_mem_singleton.2 (h _ (Grammar.forall_components h g))
  | .group g => List.forall_mem_singleton.2 (h _ (Grammar.forall_components h g))
  | .alternation g g' =>
    List.forall_mem_cons.2 ⟨h _ (Grammar.forall_components h g),
      List.forall_mem_singleton.2 (h _ (Grammar.forall_components h g'))⟩
  | .unknown _ payload => Value.forall_items h payload

theorem Grammar.forall_components (h : ∀ v : Value, (∀ u ∈ v.parts, P u) → P v) :
    ∀ g : Grammar, ∀ u ∈ g.map Value.component, P u
  | [] => List.forall_mem_nil _
  | c :: g =>
    List.forall_mem_cons.2 ⟨h _ (Component.forall_payload h c), Grammar.forall_components h g⟩

theorem Value.forall_of_parts (h : ∀ v : Value, (∀ u ∈ v.parts, P u) → P v) : ∀ v : Value, P v
  | .nothing => h _ (List.forall_mem_nil _)
  | .bool _ => h _ (List.forall_mem_nil _)
  | .int _ => h _ (List.forall_mem_nil _)
  | .text _ => h _ (List.forall_mem_nil _)
  | .list items => h _ (Value.forall_items h items)
  | .tuple items => h _ (Value.forall_items h items)
  | .component c => h _ (Component.forall_payload h c)
  | .grammar g => h _ (Grammar.forall_components h g)

theorem Value.forall_items (h : ∀ v : Value, (∀ u ∈ v.parts, P u) → P v) :
    ∀ vs : List Value, ∀ u ∈ vs, P u
  | [] => List.forall_mem_nil _
  | v :: vs => List.forall_mem_cons.2 ⟨Value.forall_of_parts h v, Value.forall_items h vs⟩

end

end

namespace Value
variable {u v : Value}

/-- The value itself, its parts, their parts, and so on. -/
def Holds (v u : Value) : Prop := Relation.ReflTransGen (fun v u => u ∈ v.parts) v u

theorem Holds.refl (v : Value) : v.Holds v := Relation.ReflTransGen.refl

theorem Holds.trans {t : Value} (h : v.Holds u) (h' : u.Holds t) : v.Holds t :=
  Relation.ReflTransGen.trans h h'

theorem holds_of_mem_parts (h : u ∈ v.parts) : v.Holds u := Relation.ReflTransGen.single h

/-- What holds of all that is inside holds of the value and of all that is inside its parts. -/
theorem forall_holds_iff {P : Value → Prop} :
    (∀ u, v.Holds u → P u) ↔ P v ∧ ∀ w ∈ v.parts, ∀ u, w.Holds u → P u := by
  constructor
  · intro h
    exact ⟨h v (.refl v), fun w hw u hu => h u ((holds_of_mem_parts hw).trans hu)⟩
  · rintro ⟨hv, hparts⟩ u hu
    rcases Relation.ReflTransGen.cases_head hu with rfl | ⟨w, hw, hu⟩
    · exact hv
    · exact hparts w hw u hu

end Value
end GreedyMatch
