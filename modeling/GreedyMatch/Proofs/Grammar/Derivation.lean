import GreedyMatch.Grammar.Nullable
import GreedyMatch.Proofs.Grammar.Shape

/-!
# Derivations

Which texts a grammar stands for, and with which tokens, said without any text to be
walked: a sequence stands for its parts in a row, a fixed word for itself, a repetition
for a number of texts in a row none of which is empty, an alternation for a text of
either branch that is not empty. Repetitions and alternations make one token of their
text, a group keeps the tokens of what is in it.
-/
namespace GreedyMatch

namespace Text

/-- `k` texts in a row make up `t`, and each of them is not empty and has the property `p`. -/
def Repeats (p : Text → Prop) (k : Nat) (t : Text) : Prop :=
  ∃ parts : List Text, parts.length = k ∧ parts.flatten = t ∧ ∀ u ∈ parts, u ≠ [] ∧ p u

/-- All of the text as one token, and none where there is no text. -/
def lump (t : Text) : List Text := if t = [] then [] else [t]

variable {p : Text → Prop} {k : Nat} {t u : Text}

theorem lump_of_ne_nil (h : t ≠ []) : t.lump = [t] := if_neg h

theorem repeats_zero : Repeats p 0 [] := ⟨[], rfl, rfl, by simp⟩

theorem Repeats.cons (ht : t ≠ []) (hp : p t) (hu : Repeats p k u) :
    Repeats p (k + 1) (t ++ u) := by
  obtain ⟨parts, rfl, rfl, hparts⟩ := hu
  refine ⟨t :: parts, rfl, rfl, ?_⟩
  intro v hv
  rcases List.mem_cons.1 hv with rfl | hv
  · exact ⟨ht, hp⟩
  · exact hparts v hv

theorem repeats_one_iff : Repeats p 1 t ↔ t ≠ [] ∧ p t := by
  constructor
  · rintro ⟨parts, hlen, rfl, hparts⟩
    obtain ⟨u, rfl⟩ := List.length_eq_one_iff.1 hlen
    simpa using hparts
  · rintro ⟨ht, hp⟩
    simpa using repeats_zero.cons ht hp

theorem Repeats.eq_nil_iff (h : Repeats p k t) : t = [] ↔ k = 0 := by
  obtain ⟨parts, rfl, rfl, hparts⟩ := h
  cases parts with
  | nil => simp
  | cons u parts =>
    have hu := (hparts u List.mem_cons_self).1
    simp [hu]

end Text

mutual

/-- A component stands for a text, with these tokens. -/
def Component.Derives : Component → Text → List Text → Prop
  | .literal w, t, ts => t = w.text ∧ ts = [w.text]
  | .classified w _, t, ts => t = w.text ∧ ts = [w.text]
  | .zeroOrMore inner, t, ts =>
    (∃ k, Text.Repeats (fun u => ∃ us, Grammar.Derives inner u us) k t) ∧ ts = t.lump
  | .oneOrMore inner, t, ts =>
    (∃ k, 1 ≤ k ∧ Text.Repeats (fun u => ∃ us, Grammar.Derives inner u us) k t) ∧ ts = t.lump
  | .zeroOrOne inner, t, ts =>
    (∃ k, k ≤ 1 ∧ Text.Repeats (fun u => ∃ us, Grammar.Derives inner u us) k t) ∧ ts = t.lump
  | .group inner, t, ts => Grammar.Derives inner t ts
  | .alternation left right, t, ts =>
    t ≠ [] ∧ ((∃ us, Grammar.Derives left t us) ∨ ∃ us, Grammar.Derives right t us) ∧ ts = [t]
  | .unknown _ _, _, _ => False

/-- A grammar stands for the texts of its components in a row, with all their tokens. -/
def Grammar.Derives : Grammar → Text → List Text → Prop
  | [], t, ts => t = [] ∧ ts = []
  | c :: cs, t, ts => ∃ t₁ t₂ ts₁ ts₂,
    t = t₁ ++ t₂ ∧ ts = ts₁ ++ ts₂ ∧ c.Derives t₁ ts₁ ∧ Grammar.Derives cs t₂ ts₂

end

def Component.StandsFor (c : Component) (t : Text) : Prop := ∃ ts, c.Derives t ts

def Grammar.StandsFor (g : Grammar) (t : Text) : Prop := ∃ ts, g.Derives t ts

section
variable {c : Component} {g h : Grammar} {t : Text}

theorem Component.standsFor_zeroOrMore_iff :
    (zeroOrMore g).StandsFor t ↔ ∃ k, Text.Repeats g.StandsFor k t := by
  constructor
  · intro hd
    obtain ⟨ts, hrep, -⟩ := hd
    exact hrep
  · intro hrep
    exact ⟨t.lump, hrep, rfl⟩

theorem Component.standsFor_oneOrMore_iff :
    (oneOrMore g).StandsFor t ↔ t ≠ [] ∧ ∃ k, Text.Repeats g.StandsFor k t := by
  constructor
  · intro hd
    obtain ⟨ts, ⟨k, hk, hrep⟩, -⟩ := hd
    refine ⟨?_, k, hrep⟩
    intro hnil
    have := hrep.eq_nil_iff.1 hnil
    omega
  · rintro ⟨hne, k, hrep⟩
    have hk : k ≠ 0 := fun h0 => hne (hrep.eq_nil_iff.2 h0)
    exact ⟨t.lump, ⟨k, by omega, hrep⟩, rfl⟩

theorem Component.standsFor_zeroOrOne_iff :
    (zeroOrOne g).StandsFor t ↔ t = [] ∨ g.StandsFor t := by
  constructor
  · intro hd
    obtain ⟨ts, ⟨k, hk, hrep⟩, -⟩ := hd
    by_cases h0 : k = 0
    · exact .inl (hrep.eq_nil_iff.2 h0)
    · obtain rfl : k = 1 := by omega
      exact .inr (Text.repeats_one_iff.1 hrep).2
  · intro ht
    by_cases hnil : t = []
    · rw [hnil]
      exact ⟨[], ⟨0, Nat.zero_le 1, Text.repeats_zero⟩, rfl⟩
    · have hd := ht.resolve_left hnil
      exact ⟨t.lump, ⟨1, Nat.le_refl 1, Text.repeats_one_iff.2 ⟨hnil, hd⟩⟩, rfl⟩

theorem Component.standsFor_alternation_iff :
    (alternation g h).StandsFor t ↔ t ≠ [] ∧ (g.StandsFor t ∨ h.StandsFor t) := by
  constructor
  · intro hd
    obtain ⟨ts, hne, hd, -⟩ := hd
    exact ⟨hne, hd⟩
  · rintro ⟨hne, hd⟩
    exact ⟨[t], hne, hd, rfl⟩

theorem Grammar.standsFor_nil_iff : Grammar.StandsFor [] t ↔ t = [] := by
  constructor
  · intro hd
    obtain ⟨ts, hnil, -⟩ := hd
    exact hnil
  · rintro rfl
    exact ⟨[], rfl, rfl⟩

theorem Grammar.standsFor_cons_iff :
    Grammar.StandsFor (c :: g) t ↔ ∃ t₁ t₂, t = t₁ ++ t₂ ∧ c.StandsFor t₁ ∧ g.StandsFor t₂ := by
  constructor
  · rintro ⟨ts, t₁, t₂, ts₁, ts₂, ht, -, hc, hg⟩
    exact ⟨t₁, t₂, ht, ⟨ts₁, hc⟩, ⟨ts₂, hg⟩⟩
  · rintro ⟨t₁, t₂, ht, ⟨ts₁, hc⟩, ⟨ts₂, hg⟩⟩
    exact ⟨ts₁ ++ ts₂, t₁, t₂, ts₁, ts₂, ht, rfl, hc, hg⟩

end

/-- Nullability tells whether the component stands for the empty text, which has no tokens. -/
def Component.NullableExact (c : Component) : Prop :=
  ∀ limit depth bare, c.nullable limit depth = .ok bare →
    if bare then c.Derives [] [] else ¬ ∃ ts, c.Derives [] ts

def Grammar.NullableExact (g : Grammar) : Prop :=
  ∀ limit depth bare, Grammar.nullable limit g depth = .ok bare →
    if bare then Grammar.Derives g [] [] else ¬ ∃ ts, Grammar.Derives g [] ts

namespace Grammar.NullableExact
variable {c : Component} {g : Grammar}

theorem group (hg : g.NullableExact) : (Component.group g).NullableExact := by
  intro limit depth bare h
  rw [Component.nullable] at h
  cases ha : allow limit (depth + 1) with
  | error fault => simp [ha] at h
  | ok u =>
    rw [ha] at h
    exact hg limit (depth + 1) bare h

theorem cons (hc : c.NullableExact) (hg : g.NullableExact) :
    Grammar.NullableExact (c :: g) := by
  intro limit depth bare h
  rw [Grammar.nullable] at h
  rcases hbare : c.nullable limit depth with fault | _ | _
  · simp [hbare] at h
  · rw [hbare] at h
    cases h
    intro hd
    obtain ⟨ts, t₁, t₂, ts₁, ts₂, hnil, -, hd, -⟩ := hd
    rw [(List.append_eq_nil_iff.1 hnil.symm).1] at hd
    exact hc limit depth false hbare ⟨ts₁, hd⟩
  · rw [hbare] at h
    have hfirst := hc limit depth true hbare
    have hrest := hg limit depth bare h
    cases bare with
    | true => exact ⟨[], [], [], [], rfl, rfl, hfirst, hrest⟩
    | false =>
      intro hd
      obtain ⟨ts, t₁, t₂, ts₁, ts₂, hnil, -, -, hd⟩ := hd
      rw [(List.append_eq_nil_iff.1 hnil.symm).2] at hd
      exact hrest ⟨ts₂, hd⟩

end Grammar.NullableExact

theorem Component.NullableExact.literal (w : Word) : (Component.literal w).NullableExact := by
  intro limit depth bare h
  cases h
  intro hd
  obtain ⟨ts, hnil, -⟩ := hd
  exact w.text_ne_nil hnil.symm

theorem Inherited.nullableExact :
    Inherited Component.NullableExact Grammar.NullableExact where
  literal w := .literal w
  classified w _ := Component.NullableExact.literal w
  zeroOrMore _ limit depth bare h := by
    cases h
    exact ⟨⟨0, Text.repeats_zero⟩, rfl⟩
  oneOrMore _ limit depth bare h := by
    cases h
    intro hd
    obtain ⟨ts, ⟨k, hk, hrep⟩, -⟩ := hd
    have := hrep.eq_nil_iff.1 rfl
    omega
  zeroOrOne _ limit depth bare h := by
    cases h
    exact ⟨⟨0, Nat.zero_le 1, Text.repeats_zero⟩, rfl⟩
  group hg := hg.group
  alternation _ _ limit depth bare h := by
    cases h
    intro hd
    obtain ⟨ts, hnil, -⟩ := hd
    exact hnil rfl
  unknown cls payload limit depth bare h := by cases h
  nil limit depth bare h := by
    cases h
    exact ⟨rfl, rfl⟩
  cons hc hg := hg.cons hc

end GreedyMatch
