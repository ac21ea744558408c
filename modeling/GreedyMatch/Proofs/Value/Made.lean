import GreedyMatch.Proofs.Value.Parts
import GreedyMatch.Value.Build
import Mathlib.Tactic

/-!
# What building makes

Each way to build a component or a grammar succeeds on some arguments and not on others, and
what it makes holds the items it was given, in order. For each of them this is said once, as a
condition on the arguments and the result.
-/
namespace GreedyMatch

section
variable {ε α β : Type} {x : Except ε α} {b : β}

theorem Except.bind_eq_ok_iff {f : α → Except ε β} :
    x >>= f = .ok b ↔ ∃ a, x = .ok a ∧ f a = .ok b := by
  cases x with
  | error e => simp [bind, Except.bind]
  | ok a => simp [bind, Except.bind]

theorem Except.map_eq_ok_iff {f : α → β} : x.map f = .ok b ↔ ∃ a, x = .ok a ∧ f a = b := by
  cases x with
  | error e => simp [Except.map]
  | ok a => simp [Except.map]

end

namespace Value

theorem word?_eq_some_iff {v : Value} {w : Word} : v.word? = some w ↔ v = .text w.text := by
  cases v with
  | text t => rw [word?, Word.ofText?_eq_some_iff, text.injEq]
  | _ => simp [word?]

theorem same_text_iff {t : Text} {v : Value} : (Value.text t).same v = true ↔ v = .text t := by
  cases v with
  | text u => rw [same, beq_iff_eq, text.injEq, eq_comm]
  | _ => simp [same]

/-- The items of a value that a grammar may be built from. -/
def items? : Value → Option (List Value)
  | .list items | .tuple items => some items
  | .grammar g => some (g.map .component)
  | _ => none

theorem components_eq_ok_iff {vs : List Value} {g : Grammar} :
    components vs = .ok g ↔ vs = g.map .component := by
  constructor
  · intro h
    fun_induction components vs generalizing g with
    | case1 =>
      cases h
      rfl
    | case2 c vs ih =>
      obtain ⟨g', hvs, rfl⟩ := Except.map_eq_ok_iff.1 h
      rw [ih hvs, List.map_cons]
    | case3 v vs hv => cases h
  · rintro rfl
    exact components_map_component g

theorem toGrammar_eq_ok_iff {v : Value} {g : Grammar} :
    v.toGrammar = .ok g ↔ v.items? = some (g.map .component) := by
  cases v with
  | list items => rw [toGrammar, components_eq_ok_iff, items?, Option.some_inj]
  | tuple items => rw [toGrammar, components_eq_ok_iff, items?, Option.some_inj]
  | grammar h =>
    rw [toGrammar, items?, Except.ok.injEq, Option.some_inj, component_injective.list_map.eq_iff]
  | _ => simp [toGrammar, items?]

theorem concat_eq_ok_iff {v w : Value} {g : Grammar} :
    v.concat w = .ok g ↔
      ∃ g' h' : Grammar, v.items? = some (g'.map .component) ∧
        w.items? = some (h'.map .component) ∧ g = g' ++ h' := by
  simp only [concat, Except.bind_eq_ok_iff, toGrammar_eq_ok_iff]
  constructor
  · rintro ⟨g', hv, h', hw, ⟨⟩⟩
    exact ⟨g', h', hv, hw, rfl⟩
  · rintro ⟨g', h', hv, hw, rfl⟩
    exact ⟨g', hv, h', hw, rfl⟩

theorem join?_eq_some_iff {g h : Grammar} {v : Value} :
    join? g v = some h ↔ ∃ h', v = .grammar h' ∧ h = g ++ h' := by
  cases v with
  | grammar h' => simp [join?, eq_comm]
  | _ => simp [join?]

end Value

/-- What a tag makes of a payload. A keyword is a classified word with a kind of its own. -/
inductive Component.Made : Tag → List Value → Component → Prop
  | literal (w : Word) : Made .literal [.text w.text] (.literal w)
  | classified (w : Word) {kind : Value} : kind.isHashable = true →
      Made .classified [.text w.text, kind] (.classified w kind)
  | keyword (w : Word) : Made .keyword [.text w.text] (.classified w (.text Tag.keyword.name))
  | zeroOrMore {v : Value} {g : Grammar} : v.items? = some (g.map .component) →
      Made .zeroOrMore [v] (.zeroOrMore g)
  | oneOrMore {v : Value} {g : Grammar} : v.items? = some (g.map .component) →
      Made .oneOrMore [v] (.oneOrMore g)
  | zeroOrOne {v : Value} {g : Grammar} : v.items? = some (g.map .component) →
      Made .zeroOrOne [v] (.zeroOrOne g)
  | group {v : Value} {g : Grammar} : v.items? = some (g.map .component) →
      Made .group [v] (.group g)
  | alternation {v w : Value} {g h : Grammar} : v.items? = some (g.map .component) →
      w.items? = some (h.map .component) → Made .alternation [v, w] (.alternation g h)

namespace Component
variable {c : Component} {tag : Tag} {payload : List Value}

theorem classify_eq_ok_iff {text kind : Value} :
    classify text kind = .ok c ↔
      ∃ w : Word, text = .text w.text ∧ kind.isHashable = true ∧ c = .classified w kind := by
  simp only [← Value.word?_eq_some_iff, classify]
  cases text.word? with
  | none => simp
  | some w =>
    by_cases hkind : kind.isHashable = true
    · simp [hkind, eq_comm]
    · simp [hkind]

theorem ofTag_eq_ok_iff : ofTag tag payload = .ok c ↔ Made tag payload c := by
  constructor
  · intro h
    unfold ofTag at h
    split at h
    · split at h
      · cases h
      · next v w hword =>
        cases h
        obtain rfl := Value.word?_eq_some_iff.1 hword
        exact .literal w
    · obtain ⟨w, rfl, hkind, rfl⟩ := classify_eq_ok_iff.1 h
      exact .classified w hkind
    · obtain ⟨w, rfl, -, rfl⟩ := classify_eq_ok_iff.1 h
      exact .keyword w
    · obtain ⟨g, hv, rfl⟩ := Except.map_eq_ok_iff.1 h
      exact .zeroOrMore (Value.toGrammar_eq_ok_iff.1 hv)
    · obtain ⟨g, hv, rfl⟩ := Except.map_eq_ok_iff.1 h
      exact .oneOrMore (Value.toGrammar_eq_ok_iff.1 hv)
    · obtain ⟨g, hv, rfl⟩ := Except.map_eq_ok_iff.1 h
      exact .zeroOrOne (Value.toGrammar_eq_ok_iff.1 hv)
    · obtain ⟨g, hv, rfl⟩ := Except.map_eq_ok_iff.1 h
      exact .group (Value.toGrammar_eq_ok_iff.1 hv)
    · obtain ⟨g, hv, h⟩ := Except.bind_eq_ok_iff.1 h
      obtain ⟨g', hw, ⟨⟩⟩ := Except.bind_eq_ok_iff.1 h
      exact .alternation (Value.toGrammar_eq_ok_iff.1 hv) (Value.toGrammar_eq_ok_iff.1 hw)
    · cases h
  · intro h
    cases h with
    | literal w => rfl
    | classified w hkind => exact classify_eq_ok_iff.2 ⟨w, rfl, hkind, rfl⟩
    | keyword w => rfl
    | zeroOrMore hv => exact Except.map_eq_ok_iff.2 ⟨_, Value.toGrammar_eq_ok_iff.2 hv, rfl⟩
    | oneOrMore hv => exact Except.map_eq_ok_iff.2 ⟨_, Value.toGrammar_eq_ok_iff.2 hv, rfl⟩
    | zeroOrOne hv => exact Except.map_eq_ok_iff.2 ⟨_, Value.toGrammar_eq_ok_iff.2 hv, rfl⟩
    | group hv => exact Except.map_eq_ok_iff.2 ⟨_, Value.toGrammar_eq_ok_iff.2 hv, rfl⟩
    | alternation hv hw =>
      exact Except.bind_eq_ok_iff.2 ⟨_, Value.toGrammar_eq_ok_iff.2 hv,
        Except.bind_eq_ok_iff.2 ⟨_, Value.toGrammar_eq_ok_iff.2 hw, rfl⟩⟩

end Component

/-- In a table without two entries of one name a value is found if it is a name. -/
theorem lookup_eq_ok_iff {α : Type} {table : List (Text × α)} (h : (table.map Prod.fst).Nodup)
    {key : Value} {a : α} : lookup table key = .ok a ↔ ∃ t, key = .text t ∧ (t, a) ∈ table := by
  constructor
  · intro hlookup
    rw [lookup] at hlookup
    split at hlookup
    · split at hlookup
      · next entry hfind =>
        cases hlookup
        have hsame := List.find?_some hfind
        exact ⟨entry.1, Value.same_text_iff.1 hsame, List.mem_of_find?_eq_some hfind⟩
      · cases hlookup
    · cases hlookup
  · rintro ⟨t, rfl, hmem⟩
    have hkey : (Value.text t).isHashable = true := rfl
    rw [lookup, if_pos hkey]
    cases hfind : table.find? fun entry => (Value.text entry.1).same (.text t) with
    | none =>
      have hnone := List.find?_eq_none.1 hfind (t, a) hmem
      exact absurd (Value.same_text_iff.2 rfl) hnone
    | some entry =>
      have hsame := List.find?_some hfind
      injection Value.same_text_iff.1 hsame with hname
      have hentry : entry = (t, a) :=
        List.inj_on_of_nodup_map h (List.mem_of_find?_eq_some hfind) hmem hname.symm
      rw [hentry]

theorem Tag.mem_table_iff {t : Text} {tag : Tag} : (t, tag) ∈ Tag.table ↔ t = tag.name := by
  cases tag <;> simp [table, all]

namespace Component
variable {c : Component} {tag : Tag} {payload : List Value}

theorem build_eq_ok_iff {key : Value} :
    build key payload = .ok c ↔ ∃ tag : Tag, key = .text tag.name ∧ Made tag payload c := by
  have hnames : (Tag.table.map Prod.fst).Nodup := by decide
  have hkey (tag : Tag) : lookup Tag.table key = .ok tag ↔ key = .text tag.name := by
    simp [lookup_eq_ok_iff hnames, Tag.mem_table_iff]
  simp only [← hkey, ← ofTag_eq_ok_iff, build]
  cases lookup Tag.table key with
  | error e => cases e <;> simp
  | ok tag => simp

end Component
end GreedyMatch
