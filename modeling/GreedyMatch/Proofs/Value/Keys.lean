import GreedyMatch.Proofs.Value.Hash

/-!
# Values as keys

A dict looks a key up by its hash first and only then by equality, and keeps the first of equal
keys. As equal values have one hash, what it finds is the first equal value, so that two of the
values looked up share their place exactly if they are equal.
-/
namespace GreedyMatch

/-- A key, with the hash under which it was entered and the place it was found first. -/
structure Dict.Entry where
  hash : Int
  key : Value
  place : Nat

/-- Entries in the order in which their keys were entered. -/
abbrev Dict := List Dict.Entry

namespace Dict

def lookup? (d : Dict) (hash : Int) (key : Value) : Option Nat :=
  (d.find? fun e => e.hash == hash && e.key.same key).map Entry.place

/-- The place of the key, which is entered with a new place if it is not there. -/
def setDefault? (h : Hashing) (d : Dict) (key : Value) (place : Nat) : Option (Nat × Dict) := do
  let hash ← key.hash? h
  match d.lookup? hash key with
  | some found => some (found, d)
  | none => some (place, d ++ [⟨hash, key, place⟩])

def places? (h : Hashing) : Dict → Nat → List Value → Option (List Nat)
  | _, _, [] => some []
  | d, place, v :: vs => do
    let (found, d') ← d.setDefault? h v place
    let others ← places? h d' (place + 1) vs
    some (found :: others)

/-- What is entered are the values `us`, each at its first place. -/
def Records (h : Hashing) (d : Dict) (us : List Value) : Prop :=
  ∀ (v : Value) (hash : Int), v.hash? h = some hash → d.lookup? hash v = us.findIdx? (·.same v)

variable {h : Hashing} {d : Dict} {us : List Value} {v : Value}

theorem records_nil : Records h [] [] := fun _ _ _ => rfl

theorem lookup?_append (d d' : Dict) (hash : Int) (key : Value) :
    lookup? (d ++ d') hash key = (d.lookup? hash key).or (d'.lookup? hash key) := by
  rw [lookup?, List.find?_append, Option.map_or]
  rfl

theorem Records.of_mem (hd : d.Records h us) (hv : us.findIdx? (·.same v) ≠ none) :
    d.Records h (us ++ [v]) := by
  intro w hash hw
  rw [hd w hash hw, List.findIdx?_append]
  cases hfind : us.findIdx? (·.same w) with
  | some i => rfl
  | none =>
    have hvw : v.same w = false := by
      by_contra hvw
      rw [Bool.not_eq_false] at hvw
      simp only [v.same_congr_right hvw] at hv
      exact hv hfind
    simp [hvw]

theorem Records.append (hd : d.Records h us) {hash : Int} (hv : v.hash? h = some hash) :
    Records h (d ++ [⟨hash, v, us.length⟩]) (us ++ [v]) := by
  intro w hash' hw
  rw [lookup?_append, hd w hash' hw, List.findIdx?_append]
  congr 1
  by_cases hvw : v.same w = true
  · have hhash : hash = hash' := by
      rw [Value.hash?_eq_of_same hvw, hw, Option.some_inj] at hv
      exact hv.symm
    simp [lookup?, hvw, hhash]
  · simp [lookup?, hvw]

theorem findIdx_append_of_same (us vs : List Value) (v : Value) :
    (us ++ v :: vs).findIdx (·.same v) = (us.findIdx? (·.same v)).getD us.length := by
  rw [List.findIdx_eq_getD_findIdx?, List.findIdx?_append, List.findIdx?_cons,
    if_pos v.same_refl]
  cases us.findIdx? (·.same v) <;> simp

theorem Records.setDefault? (hd : d.Records h us) (hv : v.isHashable = true) (vs : List Value) :
    ∃ d', d.setDefault? h v us.length = some ((us ++ v :: vs).findIdx (·.same v), d') ∧
      Records h d' (us ++ [v]) := by
  rw [← Value.isSome_hash? h, Option.isSome_iff_exists] at hv
  obtain ⟨hash, hhash⟩ := hv
  rw [Dict.setDefault?, hhash, Option.bind_eq_bind, Option.bind_some, hd v hash hhash,
    findIdx_append_of_same]
  cases hfind : us.findIdx? (·.same v) with
  | some i => exact ⟨d, rfl, hd.of_mem (by simp [hfind])⟩
  | none => exact ⟨_, rfl, hd.append hhash⟩

theorem Records.places?_eq {vs : List Value} (hd : d.Records h us)
    (hvs : ∀ v ∈ vs, v.isHashable = true) :
    d.places? h us.length vs = some (vs.map fun v => (us ++ vs).findIdx (·.same v)) := by
  induction vs generalizing d us with
  | nil => rfl
  | cons v vs ih =>
    obtain ⟨hv, hvs⟩ := List.forall_mem_cons.1 hvs
    obtain ⟨d', hset, hd'⟩ := hd.setDefault? hv vs
    have hrest := ih hd' hvs
    rw [List.length_append, List.length_singleton, List.append_assoc, List.singleton_append] at hrest
    simp only [places?, hset, hrest, Option.bind_eq_bind, Option.bind_some, List.map_cons]

end Dict

namespace Value

theorem places?_eq_firstIndices (h : Hashing) {vs : List Value}
    (hvs : ∀ v ∈ vs, v.isHashable = true) :
    Dict.places? h [] 0 vs = some (firstIndices vs) :=
  Dict.records_nil.places?_eq hvs

theorem getElem?_firstIndices {vs : List Value} {i : Nat} {v : Value} (hv : vs[i]? = some v) :
    (firstIndices vs)[i]? = some (vs.findIdx (·.same v)) := by
  rw [firstIndices, List.getElem?_map, hv, Option.map_some]

theorem findIdx_same_eq_iff {vs : List Value} {v w : Value} (hv : v ∈ vs) :
    vs.findIdx (·.same v) = vs.findIdx (·.same w) ↔ v.same w = true := by
  constructor
  · intro h
    have hlt : vs.findIdx (·.same v) < vs.length :=
      List.findIdx_lt_length_of_exists ⟨v, hv, v.same_refl⟩
    have hfound : (vs[vs.findIdx (·.same v)]).same v = true :=
      List.findIdx_getElem (p := fun u : Value => u.same v)
    have hfound' : (vs[vs.findIdx (·.same v)]).same w = true := by
      simp only [h]
      exact List.findIdx_getElem (p := fun u : Value => u.same w)
    rw [same_comm] at hfound
    exact same_trans hfound hfound'
  · intro h
    simp only [same_congr_right h]

end Value

/-- Integers are taken modulo a prime, texts and tuples mixed in 64 bits. -/
def Hashing.mixing : Hashing where
  nothing := 0xfca86420
  bool b := b.toInt
  int n :=
    let k := n.sign * (n.natAbs % (2 ^ 61 - 1))
    if k = -1 then -2 else k
  text t :=
    let mixed := t.foldl (fun k c => (1000003 * k) ^^^ UInt64.ofNat c.toNat) 0
    (mixed ^^^ UInt64.ofNat t.length).toInt64.toInt
  tuple hashes :=
    let mix (k : UInt64) (n : Int) : UInt64 :=
      let k := k + UInt64.ofInt n * 14029467366897019727
      (k <<< 31 ||| k >>> 33) * 11400714785074694791
    let mixed := hashes.foldl mix 2870177450012600261 +
      (UInt64.ofNat hashes.length ^^^ (2870177450012600261 ^^^ 3527539))
    if mixed = -1 then 1546275796 else mixed.toInt64.toInt
  bool_eq := by decide

/-- Equality is an equivalence, it is that of class and payload, and equal values have one hash, if
any. So a dict gives two of the values looked up one place exactly if they are equal. -/
theorem equality_serves_keys :
    (∀ v : Value, v.same v = true) ∧
    (∀ v w : Value, v.same w = w.same v) ∧
    (∀ u v w : Value, u.same v = true → v.same w = true → u.same w = true) ∧
    (∀ v w : Value, v.differs w = !v.same w) ∧
    (∀ (c : Component) (w : Value), (Value.component c).same w = true ↔
      ∃ d, w = .component d ∧ c.cls = d.cls ∧
        Value.sameAll c.payload d.payload = true) ∧
    (∀ (g : Grammar) (w : Value), (Value.grammar g).same w = true ↔
      ∃ g' : Grammar, w = .grammar g' ∧
        Value.sameAll (g.map .component) (g'.map .component) = true) ∧
    (∀ v w : Value, v.same w = true → v.cls = w.cls ∨
      v.cls ∈ [ValueClass.bool, .int] ∧ w.cls ∈ [ValueClass.bool, .int]) ∧
    (∀ (items : List Value) (c : Component) (g : Grammar),
      (Value.component c).same (.tuple items) = false ∧
      (Value.component c).same (.list items) = false ∧
      (Value.grammar g).same (.tuple items) = false ∧
      (Value.grammar g).same (.list items) = false) ∧
    (∀ v : Value, v.isHashable = true ↔ ∀ items, ¬ v.Holds (.list items)) ∧
    (∀ c : Component, (Value.component c).Buildable → c.isKnown = true → c.isHashable = true) ∧
    (∀ g : Grammar, (Value.grammar g).Buildable → g.isKnown = true →
      (Value.grammar g).isHashable = true) ∧
    ∀ h : Hashing,
      (∀ v : Value, (v.hash? h).isSome = v.isHashable) ∧
      (∀ v w : Value, v.same w = true → v.hash? h = w.hash? h) ∧
      ∀ vs : List Value, (∀ v ∈ vs, v.isHashable = true) →
        ∃ places, Dict.places? h [] 0 vs = some places ∧ places = Value.firstIndices vs ∧
          ∀ (i j : Nat) (v w : Value), vs[i]? = some v → vs[j]? = some w →
            (places[i]? = places[j]? ↔ v.same w = true) := by
  refine ⟨Value.same_refl, Value.same_comm, fun _ _ _ => Value.same_trans, Value.differs_eq,
    fun _ _ => Value.same_component_iff, fun _ _ => Value.same_grammar_iff,
    fun _ _ => Value.cls_of_same, ?_, Value.isHashable_iff_holds, ?_, ?_, ?_⟩
  · intro items c g
    simp [Value.same]
  · intro c hc hk
    exact Inherited.isHashable.component c hk hc.sound
  · intro g hg hk
    exact Inherited.isHashable.grammar g hk hg.sound
  · intro h
    refine ⟨Value.isSome_hash? h, fun _ _ => Value.hash?_eq_of_same, ?_⟩
    intro vs hvs
    refine ⟨_, Value.places?_eq_firstIndices h hvs, rfl, ?_⟩
    intro i j v w hv hw
    rw [Value.getElem?_firstIndices hv, Value.getElem?_firstIndices hw, Option.some_inj]
    exact Value.findIdx_same_eq_iff (List.mem_of_getElem? hv)

theorem equality_serves_keys_mixing :
    let one : Value := .int 1
    let group : Value := .component (.group [])
    let vs : List Value := [one, .bool true, .tuple [], .grammar [], group]
    Dict.places? .mixing [] 0 vs = some [0, 0, 2, 3, 4] ∧
    one.same one = true ∧
    one.cls ∈ [ValueClass.bool, .int] ∧
    one.hash? .mixing = (Value.bool true).hash? .mixing ∧
    group.Buildable ∧
    Component.isHashable (.group []) = true ∧
    (Value.grammar []).Buildable ∧
    (Value.grammar []).isHashable = true ∧
    vs[0]? = some one ∧
    vs[1]? = some (.bool true) ∧
    one.same (.bool true) = true := by
  intro one group vs
  obtain ⟨-, hcomm, htrans, -, -, -, hclass, -, -, hcomponent, hgrammar, hhash⟩ :=
    equality_serves_keys
  obtain ⟨-, heq, hplaces⟩ := hhash .mixing
  have hnil : (Value.grammar []).Buildable := .of (List.forall_mem_nil _) rfl
  have hgroup : group.Buildable :=
    .component (.text Tag.group.name) (List.forall_mem_singleton.2 hnil)
      (Component.build_eq_ok_iff.2 ⟨.group, rfl, .group rfl⟩)
  have hfirst : Value.firstIndices vs = [0, 0, 2, 3, 4] := by
    simp [Value.firstIndices, vs, one, group, Value.same, Value.sameAll, Component.same,
      Component.sameAll, List.findIdx_cons]
  obtain ⟨places, hvs, rfl, hsame⟩ := hplaces vs (Value.allHashable_eq_true_iff.1 rfl)
  have htrue : one.same (.bool true) = true :=
    (hsame 0 1 one (.bool true) rfl rfl).1 (by rw [hfirst]; rfl)
  refine ⟨hvs.trans (congrArg some hfirst), htrans one (.bool true) one htrue (hcomm _ _ ▸ htrue),
    ?_, heq _ _ htrue, hgroup, hcomponent _ hgroup rfl, hnil, hgrammar _ hnil rfl, rfl, rfl, htrue⟩
  rcases hclass one (.bool true) htrue with h | h
  · exact absurd h (by decide)
  · exact h.1

end GreedyMatch
