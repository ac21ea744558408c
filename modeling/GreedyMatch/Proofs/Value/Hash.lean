import GreedyMatch.Proofs.Grammar.Shape
import GreedyMatch.Proofs.Value.Buildable
import GreedyMatch.Proofs.Value.Classes

/-!
# Hashes of values

The hash of a component is that of a tuple made of its tag and its payload, and the one of a
grammar has a tag of its own. Whatever hashes simple values and tuples, so long as booleans have
the hashes of their integers, a value has a hash exactly if no list occurs inside of it, and equal
values have one hash.
-/
namespace GreedyMatch

namespace Value

theorem allHashable_eq_true_iff {vs : List Value} :
    allHashable vs = true ↔ ∀ v ∈ vs, v.isHashable = true := by
  induction vs with
  | nil => simp [allHashable]
  | cons v vs ih => rw [allHashable, Bool.and_eq_true, ih, List.forall_mem_cons]

end Value

theorem Component.allHashable_eq_true_iff {g : Grammar} :
    allHashable g = true ↔ ∀ v ∈ g.map Value.component, v.isHashable = true := by
  induction g with
  | nil => simp [allHashable]
  | cons c g ih =>
    rw [allHashable, Bool.and_eq_true, ih, List.map_cons, List.forall_mem_cons, Value.isHashable]

theorem Component.isHashable_eq_true_iff {c : Component} :
    c.isHashable = true ↔ ∀ v ∈ c.payload, v.isHashable = true := by
  cases c <;> simp [isHashable, payload, Value.isHashable, Value.allHashable_eq_true_iff]

namespace Value
variable {v : Value}

theorem isHashable_eq_true_iff :
    v.isHashable = true ↔ (∀ items, v ≠ .list items) ∧ ∀ u ∈ v.parts, u.isHashable = true := by
  cases v with
  | list items => simp [isHashable]
  | tuple items => simp [isHashable, parts, allHashable_eq_true_iff]
  | component c => simp [isHashable, parts, Component.isHashable_eq_true_iff]
  | grammar g =>
    rw [isHashable, Component.allHashable_eq_true_iff]
    simp [parts]
  | _ => simp [isHashable, parts]

/-- A value serves as a key exactly if it is no list and there is none inside of it. -/
theorem isHashable_iff_holds (v : Value) :
    v.isHashable = true ↔ ∀ items, ¬ v.Holds (.list items) := by
  have hlist (v : Value) :
      (∀ items, ¬ v.Holds (.list items)) ↔ ∀ u, v.Holds u → ∀ items, u ≠ .list items := by
    constructor
    · rintro h _ hu items rfl
      exact h items hu
    · intro h items hitems
      exact h _ hitems items rfl
  induction v using forall_of_parts with
  | h v ih =>
    rw [isHashable_eq_true_iff, hlist, forall_holds_iff]
    refine and_congr_right fun _ => forall₂_congr fun u hu => ?_
    exact (ih u hu).trans (hlist u)

end Value

theorem Inherited.isHashable : Inherited
    (fun c => c.isKnown = true → (Value.component c).Sound → c.isHashable = true)
    (fun g => g.isKnown = true → (Value.grammar g).Sound → Component.allHashable g = true) where
  literal w _ _ := rfl
  classified w kind _ hs := (Value.sound_component_iff.1 hs).1 w kind rfl
  zeroOrMore hg hk hs := hg hk ((Value.sound_component_iff.1 hs).2 _ List.mem_cons_self)
  oneOrMore hg hk hs := hg hk ((Value.sound_component_iff.1 hs).2 _ List.mem_cons_self)
  zeroOrOne hg hk hs := hg hk ((Value.sound_component_iff.1 hs).2 _ List.mem_cons_self)
  group hg hk hs := hg hk ((Value.sound_component_iff.1 hs).2 _ List.mem_cons_self)
  alternation hg hh hk hs := by
    obtain ⟨hkg, hkh⟩ := Component.isKnown_alternation_iff.1 hk
    obtain ⟨hsg, hsh⟩ := List.forall_mem_cons.1 (Value.sound_component_iff.1 hs).2
    rw [Component.isHashable, Bool.and_eq_true]
    exact ⟨hg hkg hsg, hh hkh (List.forall_mem_singleton.1 hsh)⟩
  unknown cls payload hk := nomatch hk
  nil _ _ := rfl
  cons hc hg hk hs := by
    obtain ⟨hkc, hkg⟩ := Grammar.isKnown_cons_iff.1 hk
    obtain ⟨hsc, hsg⟩ := List.forall_mem_cons.1 (Value.sound_grammar_iff.1 hs)
    rw [Component.allHashable, Bool.and_eq_true]
    exact ⟨hc hkc hsc, hg hkg (Value.sound_grammar_iff.2 hsg)⟩

/-- The hashes of simple values, and the one of a tuple from those of its items. -/
structure Hashing where
  nothing : Int
  bool : Bool → Int
  int : Int → Int
  text : Text → Int
  tuple : List Int → Int
  bool_eq : ∀ b, bool b = int b.toInt

def Hashing.tag (h : Hashing) : Option Text → Int
  | some t => h.text t
  | none => h.nothing

def Hashing.tagged (h : Hashing) (tag : Option Text) (items : List Int) : Int :=
  h.tuple [h.tag tag, h.tuple items]

def Hashing.grammar (h : Hashing) (items : List Int) : Int := h.tagged (some "grammar".toList) items

mutual

/-- The hash of a component, if no list occurs inside of it. -/
def Component.hash? (h : Hashing) : Component → Option Int
  | .literal w => some (h.tagged (some Tag.literal.name) [h.text w.text])
  | .classified w kind => do
    let k ← kind.hash? h
    some (h.tagged (some Tag.classified.name) [h.text w.text, k])
  | .zeroOrMore inner => do
    let ks ← Component.hashAll? h inner
    some (h.tagged (some Tag.zeroOrMore.name) [h.grammar ks])
  | .oneOrMore inner => do
    let ks ← Component.hashAll? h inner
    some (h.tagged (some Tag.oneOrMore.name) [h.grammar ks])
  | .zeroOrOne inner => do
    let ks ← Component.hashAll? h inner
    some (h.tagged (some Tag.zeroOrOne.name) [h.grammar ks])
  | .group inner => do
    let ks ← Component.hashAll? h inner
    some (h.tagged (some Tag.group.name) [h.grammar ks])
  | .alternation left right => do
    let ks ← Component.hashAll? h left
    let ls ← Component.hashAll? h right
    some (h.tagged (some Tag.alternation.name) [h.grammar ks, h.grammar ls])
  | .unknown cls payload => do
    let ks ← Value.hashAll? h payload
    some (h.tagged cls.tag ks)

def Component.hashAll? (h : Hashing) : List Component → Option (List Int)
  | [] => some []
  | c :: cs => do
    let k ← c.hash? h
    let ks ← Component.hashAll? h cs
    some (k :: ks)

def Value.hash? (h : Hashing) : Value → Option Int
  | .nothing => some h.nothing
  | .bool b => some (h.bool b)
  | .int n => some (h.int n)
  | .text t => some (h.text t)
  | .list _ => none
  | .tuple items => (Value.hashAll? h items).map h.tuple
  | .component c => c.hash? h
  | .grammar components => (Component.hashAll? h components).map h.grammar

def Value.hashAll? (h : Hashing) : List Value → Option (List Int)
  | [] => some []
  | v :: vs => do
    let k ← v.hash? h
    let ks ← Value.hashAll? h vs
    some (k :: ks)

end

variable {h : Hashing}

theorem Component.hashAll?_eq (cs : List Component) :
    Component.hashAll? h cs = Value.hashAll? h (cs.map .component) := by
  induction cs with
  | nil => rfl
  | cons c cs ih => rw [hashAll?, ih, List.map_cons, Value.hashAll?, Value.hash?]

theorem Component.hash?_eq (c : Component) :
    c.hash? h = (Value.hashAll? h c.payload).map (h.tagged c.shownTag?) := by
  cases c <;> simp [hash?, payload, shownTag?, tag?, Value.hashAll?, Value.hash?,
    Option.map_eq_bind, Option.bind_assoc, Component.hashAll?_eq]

theorem Component.shownTag?_canonical (c : Component) : c.canonical.shownTag? = c.shownTag? := by
  cases c <;> rfl

theorem Value.hash?_grammar (g : Grammar) : (Value.grammar g).hash? h =
    (Value.hashAll? h (g.map .component)).map h.grammar := by
  rw [hash?, Component.hashAll?_eq]

namespace Value
variable {v w : Value} {vs : List Value}

theorem isSome_hashAll? (hvs : ∀ v ∈ vs, (v.hash? h).isSome = v.isHashable) :
    (hashAll? h vs).isSome = allHashable vs := by
  induction vs with
  | nil => rfl
  | cons v vs ih =>
    obtain ⟨hv, hvs⟩ := List.forall_mem_cons.1 hvs
    rw [allHashable, ← hv, ← ih hvs, hashAll?]
    cases v.hash? h <;> cases hashAll? h vs <;> rfl

theorem isSome_hash? (h : Hashing) (v : Value) : (v.hash? h).isSome = v.isHashable := by
  induction v using forall_of_parts with
  | h v ih =>
    cases v with
    | list items => rfl
    | tuple items =>
      have hitems : (hashAll? h items).isSome = allHashable items := isSome_hashAll? ih
      rw [hash?, Option.isSome_map, hitems, isHashable]
    | component c =>
      have hpayload : (hashAll? h c.payload).isSome = allHashable c.payload := isSome_hashAll? ih
      rw [hash?, c.hash?_eq, Option.isSome_map, hpayload, isHashable, Bool.eq_iff_iff,
        allHashable_eq_true_iff, Component.isHashable_eq_true_iff]
    | grammar g =>
      have hitems : (hashAll? h (g.map component)).isSome = allHashable (g.map component) :=
        isSome_hashAll? ih
      rw [hash?_grammar, Option.isSome_map, hitems, isHashable, Bool.eq_iff_iff,
        allHashable_eq_true_iff, Component.allHashable_eq_true_iff]
    | _ => rfl

theorem hashAll?_canonical (hvs : ∀ v ∈ vs, v.canonical.hash? h = v.hash? h) :
    hashAll? h (vs.map canonical) = hashAll? h vs := by
  induction vs with
  | nil => rfl
  | cons v vs ih =>
    obtain ⟨hv, hvs⟩ := List.forall_mem_cons.1 hvs
    rw [List.map_cons, hashAll?, hashAll?, hv, ih hvs]

theorem hash?_canonical (h : Hashing) (v : Value) : v.canonical.hash? h = v.hash? h := by
  induction v using forall_of_parts with
  | h v ih =>
    cases v with
    | bool b => rw [canonical, hash?, hash?, h.bool_eq]
    | tuple items =>
      have hitems : hashAll? h (items.map canonical) = hashAll? h items := hashAll?_canonical ih
      rw [canonical, canonicalAll_eq_map, hash?, hash?, hitems]
    | component c =>
      have hpayload : hashAll? h (c.payload.map canonical) = hashAll? h c.payload :=
        hashAll?_canonical ih
      rw [canonical, hash?, hash?, c.canonical.hash?_eq, c.hash?_eq, c.payload_canonical, hpayload,
        c.shownTag?_canonical]
    | grammar g =>
      have hmap : (g.map Component.canonical).map component = (g.map component).map canonical := by
        simp [canonical]
      have hitems : hashAll? h ((g.map component).map canonical) = hashAll? h (g.map component) :=
        hashAll?_canonical ih
      rw [canonical, Component.canonicalAll_eq_map, hash?_grammar, hash?_grammar, hmap, hitems]
    | _ => rfl

theorem hash?_eq_of_same (hs : v.same w = true) : v.hash? h = w.hash? h := by
  rw [← hash?_canonical, (same_iff v w).1 hs, hash?_canonical]

end Value

end GreedyMatch
