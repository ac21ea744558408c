import GreedyMatch.Proofs.Value.Made
import GreedyMatch.Value.Copy

/-!
# What can be built

A value can be built, by however many steps, exactly if the kind of each classified word inside
of it serves as a key. All components inside such a value are well-formed, and to build the value
anew from what it is made of gives the same value.
-/
namespace GreedyMatch

/-- The values that there are: what can be written down, sequences of such values, and what is
built from them in any number of steps. -/
inductive Value.Buildable : Value → Prop
  | nothing : Buildable .nothing
  | bool (b : Bool) : Buildable (.bool b)
  | int (n : Int) : Buildable (.int n)
  | text (t : Text) : Buildable (.text t)
  | list {items : List Value} : (∀ v ∈ items, Buildable v) → Buildable (.list items)
  | tuple {items : List Value} : (∀ v ∈ items, Buildable v) → Buildable (.tuple items)
  | unknown (cls : UnknownClass) {payload : List Value} : (∀ v ∈ payload, Buildable v) →
      Buildable (.component (.unknown cls payload))
  | component {tag : Value} {payload : List Value} {c : Component} : Buildable tag →
      (∀ v ∈ payload, Buildable v) → Component.build tag payload = .ok c → Buildable (.component c)
  | grammar {v : Value} {g : Grammar} : Buildable v → v.toGrammar = .ok g → Buildable (.grammar g)
  | of {vs : List Value} {g : Grammar} : (∀ v ∈ vs, Buildable v) → Value.components vs = .ok g →
      Buildable (.grammar g)
  | concat {v w : Value} {g : Grammar} : Buildable v → Buildable w → v.concat w = .ok g →
      Buildable (.grammar g)
  | join {g h : Grammar} {v : Value} : Buildable (.grammar g) → Buildable v →
      Value.join? g v = some h → Buildable (.grammar h)

/-- The kind of each classified word inside, however deep, serves as a key. -/
def Value.Sound (v : Value) : Prop :=
  ∀ (w : Word) (kind : Value), v.Holds (.component (.classified w kind)) → kind.isHashable = true

namespace Value
variable {v : Value}

theorem sound_iff : v.Sound ↔
    (∀ w kind, v = .component (.classified w kind) → kind.isHashable = true) ∧
      ∀ u ∈ v.parts, u.Sound := by
  have hsound (u : Value) : u.Sound ↔ ∀ t, u.Holds t →
      ∀ w kind, t = .component (.classified w kind) → kind.isHashable = true := by
    constructor
    · rintro h t ht w kind rfl
      exact h w kind ht
    · intro h w kind ht
      exact h _ ht w kind rfl
  simp only [hsound]
  exact forall_holds_iff

theorem sound_component_iff {c : Component} : (Value.component c).Sound ↔
    (∀ w kind, c = .classified w kind → kind.isHashable = true) ∧ ∀ u ∈ c.payload, u.Sound := by
  simp [sound_iff (v := .component c), parts]

theorem sound_grammar_iff {g : Grammar} :
    (Value.grammar g).Sound ↔ ∀ c ∈ g, (Value.component c).Sound := by
  simp [sound_iff (v := .grammar g), parts]

theorem Sound.items (h : v.Sound) {g : Grammar} (hitems : v.items? = some (g.map .component)) :
    (Value.grammar g).Sound := by
  have hparts := (sound_iff.1 h).2
  rw [sound_grammar_iff]
  cases v with
  | list items =>
    cases hitems
    simpa [parts] using hparts
  | tuple items =>
    cases hitems
    simpa [parts] using hparts
  | grammar g' =>
    have hg : g'.map Value.component = g.map .component := Option.some_inj.1 hitems
    rw [parts, hg] at hparts
    simpa using hparts
  | _ => cases hitems

end Value

/-- What is made of sound values is sound: a kind was looked at, all else was there before. -/
theorem Component.Made.sound {tag : Tag} {payload : List Value} {c : Component}
    (h : Made tag payload c) (hpayload : ∀ v ∈ payload, v.Sound) : (Value.component c).Sound := by
  rw [Value.sound_component_iff]
  cases h with
  | literal w => exact ⟨by rintro _ _ ⟨⟩, hpayload⟩
  | classified w hkind =>
    refine ⟨?_, hpayload⟩
    rintro _ _ ⟨⟩
    exact hkind
  | keyword w =>
    have hkind : (Value.text Tag.keyword.name).Sound := Value.sound_iff.2 ⟨nofun, nofun⟩
    refine ⟨?_, List.forall_mem_cons.2 ⟨List.forall_mem_singleton.1 hpayload, ?_⟩⟩
    · rintro _ _ ⟨⟩
      rfl
    · exact List.forall_mem_singleton.2 hkind
  | zeroOrMore hv =>
    exact ⟨nofun, List.forall_mem_singleton.2 ((List.forall_mem_singleton.1 hpayload).items hv)⟩
  | oneOrMore hv =>
    exact ⟨nofun, List.forall_mem_singleton.2 ((List.forall_mem_singleton.1 hpayload).items hv)⟩
  | zeroOrOne hv =>
    exact ⟨nofun, List.forall_mem_singleton.2 ((List.forall_mem_singleton.1 hpayload).items hv)⟩
  | group hv =>
    exact ⟨nofun, List.forall_mem_singleton.2 ((List.forall_mem_singleton.1 hpayload).items hv)⟩
  | alternation hv hw =>
    obtain ⟨hleft, hright⟩ := List.forall_mem_cons.1 hpayload
    exact ⟨nofun, List.forall_mem_cons.2 ⟨hleft.items hv, List.forall_mem_singleton.2
      ((List.forall_mem_singleton.1 hright).items hw)⟩⟩

namespace Value
variable {v : Value}

theorem Buildable.sound (h : v.Buildable) : v.Sound := by
  induction h with
  | nothing => exact sound_iff.2 ⟨nofun, nofun⟩
  | bool b => exact sound_iff.2 ⟨nofun, nofun⟩
  | int n => exact sound_iff.2 ⟨nofun, nofun⟩
  | text t => exact sound_iff.2 ⟨nofun, nofun⟩
  | list _ ih => exact sound_iff.2 ⟨nofun, ih⟩
  | tuple _ ih => exact sound_iff.2 ⟨nofun, ih⟩
  | unknown _ _ ih => exact sound_iff.2 ⟨nofun, ih⟩
  | component _ _ hbuild _ ih =>
    obtain ⟨tag, -, hmade⟩ := Component.build_eq_ok_iff.1 hbuild
    exact hmade.sound ih
  | grammar _ hv ih => exact ih.items (toGrammar_eq_ok_iff.1 hv)
  | of _ hvs ih =>
    obtain rfl := components_eq_ok_iff.1 hvs
    simpa [sound_grammar_iff] using ih
  | concat _ _ hconcat ihv ihw =>
    obtain ⟨g, h, hv, hw, rfl⟩ := concat_eq_ok_iff.1 hconcat
    rw [sound_grammar_iff, List.forall_mem_append, ← sound_grammar_iff, ← sound_grammar_iff]
    exact ⟨ihv.items hv, ihw.items hw⟩
  | join _ _ hjoin ihg ihv =>
    obtain ⟨h, rfl, rfl⟩ := join?_eq_some_iff.1 hjoin
    rw [sound_grammar_iff, List.forall_mem_append, ← sound_grammar_iff, ← sound_grammar_iff]
    exact ⟨ihg, ihv⟩

end Value

end GreedyMatch
