import GreedyMatch.Proofs.Grammar.Derivation
import GreedyMatch.Proofs.Grammar.Local

/-!
# Spellings

A spelling of a text is a row of fixed words that makes it up. The spellings of the
texts of a grammar are the language of a regular expression over its words, a local one
when no word occurs twice. Words that all differ in their first character make up a text
in one way only, so then what a grammar stands for is as good as its spellings.
-/
namespace GreedyMatch
open scoped Computability

def Text.ofWords (ws : List Word) : Text := ws.flatMap Word.text

namespace Text

theorem ofWords_nil : ofWords [] = [] := rfl

theorem ofWords_cons (w : Word) (ws : List Word) : ofWords (w :: ws) = w.text ++ ofWords ws := rfl

theorem ofWords_append (us vs : List Word) : ofWords (us ++ vs) = ofWords us ++ ofWords vs :=
  List.flatMap_append

theorem ofWords_flatten (uss : List (List Word)) :
    ofWords uss.flatten = (uss.map ofWords).flatten := by
  induction uss with
  | nil => rfl
  | cons us uss ih => rw [List.flatten_cons, ofWords_append, ih]; rfl

theorem ofWords_eq_nil_iff {ws : List Word} : ofWords ws = [] ↔ ws = [] := by
  cases ws with
  | nil => exact iff_of_true rfl rfl
  | cons w ws => exact iff_of_false (by simp [ofWords_cons, w.text_ne_nil]) (List.cons_ne_nil w ws)

/-- Words from a list whose first characters differ are read off from the front of a text
one by one, so words at its front are all the same words. -/
theorem exists_of_ofWords_append {s : List Word} (hs : (s.map Word.first).Nodup) {us vs : List Word}
    (hu : ∀ w ∈ us, w ∈ s) (hv : ∀ w ∈ vs, w ∈ s) {t : Text} (h : ofWords us ++ t = ofWords vs) :
    ∃ ws, vs = us ++ ws ∧ t = ofWords ws := by
  induction us generalizing vs with
  | nil => exact ⟨vs, rfl, h⟩
  | cons u us ih =>
    cases vs with
    | nil => simp [ofWords_cons, ofWords_nil, u.text_ne_nil] at h
    | cons v vs =>
      rw [ofWords_cons, ofWords_cons, List.append_assoc] at h
      have hfirst : u.first = v.first := (List.cons.inj h).1
      have hus := hu u List.mem_cons_self
      have hvs := hv v List.mem_cons_self
      obtain rfl : u = v := List.inj_on_of_nodup_map hs hus hvs hfirst
      obtain ⟨ws, rfl, rfl⟩ := ih (fun w hw => hu w (List.mem_cons_of_mem _ hw))
        (fun w hw => hv w (List.mem_cons_of_mem _ hw)) (List.append_cancel_left h)
      exact ⟨ws, rfl, rfl⟩

end Text

mutual

/-- The rows of fixed words that a component stands for. -/
def Component.spellings : Component → Language Word
  | .literal w => {[w]}
  | .classified w _ => {[w]}
  | .zeroOrMore inner => (Grammar.spellings inner)∗
  | .oneOrMore inner => (Grammar.spellings inner)∗ - 1
  | .zeroOrOne inner => 1 + Grammar.spellings inner
  | .group inner => Grammar.spellings inner
  | .alternation left right => Grammar.spellings left + Grammar.spellings right - 1
  | .unknown _ _ => 0

def Grammar.spellings : Grammar → Language Word
  | [] => 1
  | c :: cs => c.spellings * Grammar.spellings cs

end

theorem Inherited.spellings_over :
    Inherited (fun c => Over c.words c.spellings) (fun g => Over g.words g.spellings) where
  literal w u hu a ha := by rwa [show u = [w] from hu] at ha
  classified w kind u hu a ha := by rwa [show u = [w] from hu] at ha
  zeroOrMore hg := hg.kstar
  oneOrMore hg := hg.kstar.sub
  zeroOrOne hg := Over.one.add hg
  group hg := hg
  alternation hg hh := ((hg.mono (List.subset_append_left _ _)).add
    (hh.mono (List.subset_append_right _ _))).sub
  unknown cls payload u hu := absurd hu (Language.notMem_zero u)
  nil := Over.one
  cons hc hg := hc.mul hg

theorem Inherited.spellings_isLocal :
    Inherited (fun c => c.words.Nodup → IsLocal c.spellings)
      (fun g => g.words.Nodup → IsLocal g.spellings) where
  literal w _ := IsLocal.singleton w
  classified w kind _ := IsLocal.singleton w
  zeroOrMore hg hn := (hg hn).kstar
  oneOrMore hg hn := (hg hn).kstar.sub_one
  zeroOrOne hg hn := (hg hn).one_add
  group hg hn := hg hn
  alternation {g h} hg hh hn := by
    obtain ⟨hng, hnh, hgh⟩ := List.nodup_append'.1 hn
    exact ((hg hng).add (hh hnh) (spellings_over.grammar g) (spellings_over.grammar h) hgh).sub_one
  unknown _ _ _ := IsLocal.zero
  nil _ := IsLocal.one
  cons {c g} hc hg hn := by
    obtain ⟨hnc, hng, hcg⟩ := List.nodup_append'.1 hn
    exact (hc hnc).mul (hg hng) (spellings_over.component c) (spellings_over.grammar g) hcg

def Component.Spelled (c : Component) : Prop :=
  ∀ t, c.StandsFor t ↔ ∃ ws ∈ c.spellings, Text.ofWords ws = t

def Grammar.Spelled (g : Grammar) : Prop :=
  ∀ t, g.StandsFor t ↔ ∃ ws ∈ g.spellings, Text.ofWords ws = t

/-- A language with the empty row of words left out spells the texts that are not empty. -/
theorem Text.exists_mem_sub_one_iff {l : Language Word} {t : Text} :
    (∃ ws ∈ l - 1, Text.ofWords ws = t) ↔ t ≠ [] ∧ ∃ ws ∈ l, Text.ofWords ws = t := by
  constructor
  · rintro ⟨ws, ⟨hws, hne⟩, rfl⟩
    refine ⟨?_, ws, hws, rfl⟩
    intro hnil
    exact hne (Text.ofWords_eq_nil_iff.1 hnil)
  · rintro ⟨hne, ws, hws, rfl⟩
    refine ⟨ws, ⟨hws, ?_⟩, rfl⟩
    intro hnil
    exact hne (Text.ofWords_eq_nil_iff.2 hnil)

namespace Grammar.Spelled
variable {c : Component} {g h : Grammar} {t : Text}

theorem repeats_iff (hg : g.Spelled) :
    (∃ k, Text.Repeats g.StandsFor k t) ↔ ∃ ws ∈ g.spellings∗, Text.ofWords ws = t := by
  constructor
  · rintro ⟨k, parts, -, rfl, hparts⟩
    induction parts with
    | nil => exact ⟨[], Language.nil_mem_kstar _, rfl⟩
    | cons u parts ih =>
      obtain ⟨vs, hvs, hv⟩ := ih fun v hv => hparts v (List.mem_cons_of_mem u hv)
      obtain ⟨us, hus, rfl⟩ := (hg u).1 (hparts u List.mem_cons_self).2
      obtain ⟨uss, rfl, huss⟩ := Language.mem_kstar.1 hvs
      refine ⟨(us :: uss).flatten, Language.join_mem_kstar ?_, ?_⟩
      · intro ws hws
        rcases List.mem_cons.1 hws with rfl | hws
        · exact hus
        · exact huss ws hws
      · rw [List.flatten_cons, Text.ofWords_append, hv]
        rfl
  · rintro ⟨ws, hws, rfl⟩
    obtain ⟨uss, rfl, huss⟩ := Language.mem_kstar_iff_exists_nonempty.1 hws
    refine ⟨_, uss.map Text.ofWords, rfl, (Text.ofWords_flatten uss).symm, ?_⟩
    intro u hu
    obtain ⟨us, hus, rfl⟩ := List.mem_map.1 hu
    have hne := (huss us hus).2
    exact ⟨fun hnil => hne (Text.ofWords_eq_nil_iff.1 hnil), (hg _).2 ⟨us, (huss us hus).1, rfl⟩⟩

theorem zeroOrOne (hg : g.Spelled) : (Component.zeroOrOne g).Spelled := by
  intro t
  rw [Component.standsFor_zeroOrOne_iff, hg t]
  constructor
  · intro ht
    rcases ht with rfl | ⟨ws, hws, rfl⟩
    · exact ⟨[], .inl rfl, rfl⟩
    · exact ⟨ws, .inr hws, rfl⟩
  · rintro ⟨ws, hws, rfl⟩
    rcases hws with hnil | hws
    · exact .inl (Text.ofWords_eq_nil_iff.2 hnil)
    · exact .inr ⟨ws, hws, rfl⟩

theorem alternation (hg : g.Spelled) (hh : h.Spelled) : (Component.alternation g h).Spelled := by
  intro t
  rw [Component.standsFor_alternation_iff, Component.spellings, Text.exists_mem_sub_one_iff,
    hg t, hh t]
  refine and_congr_right fun _ => ?_
  constructor
  · intro ht
    rcases ht with ⟨ws, hws, rfl⟩ | ⟨ws, hws, rfl⟩
    · exact ⟨ws, .inl hws, rfl⟩
    · exact ⟨ws, .inr hws, rfl⟩
  · rintro ⟨ws, hws, rfl⟩
    rcases hws with hws | hws
    · exact .inl ⟨ws, hws, rfl⟩
    · exact .inr ⟨ws, hws, rfl⟩

theorem cons (hc : c.Spelled) (hg : g.Spelled) : Grammar.Spelled (c :: g) := by
  intro t
  rw [standsFor_cons_iff]
  constructor
  · rintro ⟨t₁, t₂, rfl, hd₁, hd₂⟩
    obtain ⟨us, hus, rfl⟩ := (hc t₁).1 hd₁
    obtain ⟨vs, hvs, rfl⟩ := (hg t₂).1 hd₂
    exact ⟨us ++ vs, Language.append_mem_mul hus hvs, Text.ofWords_append us vs⟩
  · rintro ⟨ws, hws, rfl⟩
    obtain ⟨us, hus, vs, hvs, rfl⟩ := Language.mem_mul.1 hws
    exact ⟨Text.ofWords us, Text.ofWords vs, Text.ofWords_append us vs,
      (hc _).2 ⟨us, hus, rfl⟩, (hg _).2 ⟨vs, hvs, rfl⟩⟩

end Grammar.Spelled

theorem Component.Spelled.literal (w : Word) : (Component.literal w).Spelled := by
  intro t
  constructor
  · rintro ⟨ts, rfl, -⟩
    exact ⟨[w], rfl, List.append_nil _⟩
  · rintro ⟨ws, hws, rfl⟩
    obtain rfl : ws = [w] := hws
    exact ⟨[w.text], List.append_nil _, rfl⟩

theorem Inherited.spelled : Inherited Component.Spelled Grammar.Spelled where
  literal w := .literal w
  classified w _ := Component.Spelled.literal w
  zeroOrMore hg t := Component.standsFor_zeroOrMore_iff.trans hg.repeats_iff
  oneOrMore hg t := by
    rw [Component.standsFor_oneOrMore_iff, Component.spellings, Text.exists_mem_sub_one_iff,
      hg.repeats_iff]
  zeroOrOne hg := hg.zeroOrOne
  group hg := hg
  alternation hg hh := hg.alternation hh
  unknown cls payload t := by
    constructor
    · rintro ⟨ts, hfalse⟩
      exact hfalse.elim
    · rintro ⟨ws, hws, -⟩
      exact absurd hws (Language.notMem_zero ws)
  nil t := by
    rw [Grammar.standsFor_nil_iff]
    constructor
    · rintro rfl
      exact ⟨[], rfl, rfl⟩
    · rintro ⟨ws, hws, rfl⟩
      exact Text.ofWords_eq_nil_iff.2 hws
  cons hc hg := Grammar.Spelled.cons hc hg

end GreedyMatch
