import GreedyMatch.Proofs.Grammar.Spelling

/-!
# Deterministic grammars

In a deterministic grammar no two fixed words begin alike, so one character of a text
tells which of them can stand there. A longer text of a component then goes on with one
of the component's own words, which no later component begins with. So texts are split
in one way only, and a longest text may be taken off a row of texts of a grammar.
-/
namespace GreedyMatch
open scoped Computability

/-- A text that is empty or begins as one of the words does. -/
def Text.Begins (s : List Word) (t : Text) : Prop := ∀ a u, t = a :: u → a ∈ s.map Word.first

namespace Text
variable {s s' : List Word} {t t' u : Text}

theorem begins_ofWords {ws : List Word} (h : ∀ w ∈ ws, w ∈ s) : (ofWords ws).Begins s := by
  intro a u ht
  cases ws with
  | nil => cases ht
  | cons w ws =>
    obtain rfl : w.first = a := (List.cons.inj ht).1
    exact List.mem_map_of_mem (h w List.mem_cons_self)

theorem nodup_first_append (h : ((s ++ s').map Word.first).Nodup) :
    (s.map Word.first).Nodup ∧ (s'.map Word.first).Nodup ∧
      (s.map Word.first).Disjoint (s'.map Word.first) := by
  rw [List.map_append] at h
  exact List.nodup_append'.1 h

/-- Words that all begin differently do not begin one text in two ways. -/
theorem Begins.eq_nil_or_eq_nil (ht : t.Begins s) (ht' : t'.Begins s')
    (hs : ((s ++ s').map Word.first).Nodup) (h : t <+: u) (h' : t' <+: u) : t = [] ∨ t' = [] := by
  have hdisjoint := (nodup_first_append hs).2.2
  cases t with
  | nil => exact .inl rfl
  | cons a t =>
    cases t' with
    | nil => exact .inr rfl
    | cons b t' =>
      obtain ⟨v, rfl⟩ := h
      obtain ⟨v', hv⟩ := h'
      obtain rfl : b = a := (List.cons.inj hv).1
      exact absurd (ht' b t' rfl) (hdisjoint (ht b t rfl))

end Text

/-- No two of the fixed words begin with the same character. -/
def Component.Deterministic (c : Component) : Prop := (c.words.map Word.first).Nodup

def Grammar.Deterministic (g : Grammar) : Prop := (g.words.map Word.first).Nodup

namespace Component
variable {c : Component} {g h : Grammar} {t u : Text}

theorem Deterministic.left (hd : (alternation g h).Deterministic) : g.Deterministic :=
  (Text.nodup_first_append hd).1

theorem Deterministic.right (hd : (alternation g h).Deterministic) : h.Deterministic :=
  (Text.nodup_first_append hd).2.1

theorem Deterministic.begins (hd : c.Deterministic) (ht : c.StandsFor t)
    (htu : c.StandsFor (t ++ u)) : u.Begins c.words := by
  have hspelled := Inherited.spelled.component c
  have hover := Inherited.spellings_over.component c
  obtain ⟨us, hus, rfl⟩ := (hspelled t).1 ht
  obtain ⟨vs, hvs, hv⟩ := (hspelled _).1 htu
  obtain ⟨ws, rfl, rfl⟩ := Text.exists_of_ofWords_append hd (hover us hus) (hover vs hvs) hv.symm
  apply Text.begins_ofWords
  intro w hw
  exact hover _ hvs w (List.mem_append_right us hw)

end Component

namespace Grammar
variable {c : Component} {g h : Grammar} {t u : Text}

theorem Deterministic.head (hd : Deterministic (c :: g)) : c.Deterministic :=
  (Text.nodup_first_append hd).1

theorem Deterministic.tail (hd : Deterministic (c :: g)) : g.Deterministic :=
  (Text.nodup_first_append hd).2.1

theorem StandsFor.begins (ht : g.StandsFor t) : t.Begins g.words := by
  obtain ⟨ws, hws, rfl⟩ := (Inherited.spelled.grammar g t).1 ht
  apply Text.begins_ofWords
  exact Inherited.spellings_over.grammar g ws hws

/-- After a longest text of the grammar a row of its texts goes on with a row of them,
wherever the parts of the first row may have ended. -/
theorem Deterministic.repeats_of_longest (hd : g.Deterministic) {k : Nat} (ht : g.StandsFor t)
    (htu : Text.Repeats g.StandsFor k (t ++ u))
    (hmax : ∀ v, v <+: u → g.StandsFor (t ++ v) → v = []) :
    ∃ k, Text.Repeats g.StandsFor k u := by
  have hspelled := Inherited.spelled.grammar g
  have hover := Inherited.spellings_over.grammar g
  have hnodup : g.words.Nodup := List.Nodup.of_map _ hd
  have hlocal := Inherited.spellings_isLocal.grammar g hnodup
  obtain ⟨us, hus, rfl⟩ := (hspelled t).1 ht
  obtain ⟨vs, hvs, hv⟩ := hspelled.repeats_iff.1 ⟨k, htu⟩
  obtain ⟨ws, rfl, rfl⟩ :=
    Text.exists_of_ofWords_append hd (hover us hus) (hover.kstar vs hvs) hv.symm
  apply hspelled.repeats_iff.2
  refine ⟨ws, hlocal.mem_kstar_of_longest hus hvs ?_, rfl⟩
  rintro ys ⟨zs, rfl⟩ hys
  have hprefix : Text.ofWords ys <+: Text.ofWords (ys ++ zs) :=
    ⟨Text.ofWords zs, (Text.ofWords_append ys zs).symm⟩
  have hlong : g.StandsFor (Text.ofWords us ++ Text.ofWords ys) :=
    (hspelled _).2 ⟨us ++ ys, hys, Text.ofWords_append us ys⟩
  exact Text.ofWords_eq_nil_iff.1 (hmax _ hprefix hlong)

/-- Where a text of a sequence is split is told by the text: the first component cannot
go on where the others begin. -/
theorem Deterministic.eq_nil_of_split (hd : Deterministic (c :: g)) (ht : c.StandsFor t)
    (htu : c.StandsFor (t ++ u)) {v : Text} (huv : g.StandsFor (u ++ v)) : u = [] := by
  have hu := hd.head.begins ht htu
  rcases hu.eq_nil_or_eq_nil huv.begins hd (List.prefix_append u v) List.prefix_rfl with h | h
  · exact h
  · exact (List.append_eq_nil_iff.1 h).1

end Grammar

def Component.Unambiguous (c : Component) : Prop :=
  c.Deterministic → ∀ t ts us, c.Derives t ts → c.Derives t us → ts = us

def Grammar.Unambiguous (g : Grammar) : Prop :=
  g.Deterministic → ∀ t ts us, g.Derives t ts → g.Derives t us → ts = us

theorem Grammar.Unambiguous.cons {c : Component} {g : Grammar} (hc : c.Unambiguous)
    (hg : g.Unambiguous) : Grammar.Unambiguous (c :: g) := by
  rintro hd t ts us ⟨t₁, t₂, ts₁, ts₂, rfl, rfl, ht₁, ht₂⟩ ⟨u₁, u₂, us₁, us₂, h, rfl, hu₁, hu₂⟩
  have hsame : t₁ = u₁ ∧ t₂ = u₂ := by
    rcases List.append_eq_append_iff.1 h with ⟨v, rfl, rfl⟩ | ⟨v, rfl, rfl⟩
    · obtain rfl : v = [] := hd.eq_nil_of_split ⟨ts₁, ht₁⟩ ⟨us₁, hu₁⟩ ⟨ts₂, ht₂⟩
      exact ⟨(List.append_nil t₁).symm, rfl⟩
    · obtain rfl : v = [] := hd.eq_nil_of_split ⟨us₁, hu₁⟩ ⟨ts₁, ht₁⟩ ⟨us₂, hu₂⟩
      exact ⟨List.append_nil u₁, rfl⟩
  obtain ⟨rfl, rfl⟩ := hsame
  rw [hc hd.head t₁ ts₁ us₁ ht₁ hu₁, hg hd.tail t₂ ts₂ us₂ ht₂ hu₂]

theorem Inherited.unambiguous : Inherited Component.Unambiguous Grammar.Unambiguous where
  literal _ _ _ _ _ hts hus := hts.2.trans hus.2.symm
  classified _ _ _ _ _ _ hts hus := hts.2.trans hus.2.symm
  zeroOrMore _ _ _ _ _ hts hus := hts.2.trans hus.2.symm
  oneOrMore _ _ _ _ _ hts hus := hts.2.trans hus.2.symm
  zeroOrOne _ _ _ _ _ hts hus := hts.2.trans hus.2.symm
  group hg := hg
  alternation _ _ _ _ _ _ hts hus := hts.2.2.trans hus.2.2.symm
  unknown _ _ _ _ _ _ hts _ := hts.elim
  nil _ _ _ _ hts hus := hts.2.trans hus.2.symm
  cons hc hg := Grammar.Unambiguous.cons hc hg

end GreedyMatch
