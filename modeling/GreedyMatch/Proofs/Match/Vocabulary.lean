import GreedyMatch.Proofs.Match.Barren
import GreedyMatch.Proofs.Match.Cover
import GreedyMatch.Proofs.Match.Shift

/-!
# Texts beyond a vocabulary

Text that begins with a character of none of the words of a grammar is beyond them: no word
runs into it, and nothing is taken where it begins. So within the limit the grammar is run
over a text that goes on in such a way as it is run over the text alone, and two grammars
joined match what they match one after the other.
-/
namespace GreedyMatch
variable {s t : Text} {n depth position : Int}

/-- The text is empty or begins with a character that occurs in none of the words. -/
def Text.Beyond (ws : List Word) (t : Text) : Prop := ∀ a ∈ t.head?, ∀ w ∈ ws, a ∉ w.text

instance (ws : List Word) : (t : Text) → Decidable (t.Beyond ws)
  | [] => isTrue fun _ ha => nomatch ha
  | a :: _ => decidable_of_iff (∀ w ∈ ws, a ∉ w.text)
      ⟨fun h _ ha => Option.some.inj ha ▸ h, fun h => h a rfl⟩

namespace Text.Beyond
variable {ws vs : List Word} {w : Word}

theorem left (h : t.Beyond (ws ++ vs)) : t.Beyond ws :=
  fun a ha w hw => h a ha w (List.mem_append_left vs hw)

theorem right (h : t.Beyond (ws ++ vs)) : t.Beyond vs :=
  fun a ha w hw => h a ha w (List.mem_append_right ws hw)

theorem prefix_append_iff (h : t.Beyond ws) (hw : w ∈ ws) :
    w.text <+: s ++ t ↔ w.text <+: s := by
  constructor
  · intro hpre
    rcases List.prefix_or_prefix_of_prefix hpre (List.prefix_append s t) with hs | ⟨v, hv⟩
    · exact hs
    · rw [← hv, List.prefix_append_right_inj] at hpre
      cases v with
      | nil => rw [← hv, List.append_nil]
      | cons a v =>
        obtain ⟨u, rfl⟩ := hpre
        have ha : a ∈ w.text := by simp [← hv]
        exact absurd ha (h a rfl w hw)
  · intro hpre
    exact hpre.trans (List.prefix_append s t)

theorem word_append (h : t.Beyond ws) (hw : w ∈ ws) (hpos : 0 ≤ position)
    (hle : position ≤ s.length) : Match.word (s ++ t) w position = Match.word s w position := by
  have hclamp : Sequence.clamp (s ++ t).length position = Sequence.clamp s.length position := by
    rw [Sequence.clamp_of_nonneg hpos, Sequence.clamp_of_nonneg hpos, List.length_append]
    omega
  have hdrop : (s ++ t).drop (Sequence.clamp s.length position) =
      s.drop (Sequence.clamp s.length position) ++ t :=
    List.drop_append_of_le_length (Sequence.clamp_le _ _)
  have hiff : w.text.isPrefixOf (s.drop (Sequence.clamp s.length position) ++ t) =
      w.text.isPrefixOf (s.drop (Sequence.clamp s.length position)) := by
    rw [Bool.eq_iff_iff, List.isPrefixOf_iff_prefix, List.isPrefixOf_iff_prefix]
    exact h.prefix_append_iff hw
  rw [Match.word, Match.word, hclamp, hdrop, hiff]

theorem barren (h : t.Beyond ws) : (s ++ t).Barren ws s.length := by
  intro w hw
  rw [h.word_append hw (by omega) (Int.le_refl _)]
  exact Match.word_of_length_le w (Int.le_refl _)

end Text.Beyond

theorem Match.merged_append (s t : Text) {k : Nat} (hpos : 0 ≤ position)
    (hle : position + k ≤ s.length) : merged (s ++ t) position k = merged s position k := by
  obtain ⟨p, rfl⟩ := Int.eq_ofNat_of_zero_le hpos
  have hslice : Sequence.between (s ++ t) p (p + k) = Sequence.between s p (p + k) := by
    rw [Sequence.between_add, Sequence.between_add, List.drop_append_of_le_length (by omega),
      List.take_append_of_le_length (by rw [List.length_drop]; omega)]
  rw [merged, merged, hslice]

/-- Over `s ++ t` a component within `s` is matched as it is over `s`, if `t` is beyond it. -/
def Component.Ignores (s t : Text) (n : Int) (c : Component) : Prop :=
  c.isKnown = true → t.Beyond c.words → ∀ depth : Int, depth + c.height ≤ n →
    ∀ position : Int, 0 ≤ position → position ≤ s.length →
      c.consume (s ++ t) (some n) depth position = c.consume s (some n) depth position

def Grammar.Ignores (s t : Text) (n : Int) (g : Grammar) : Prop :=
  g.isKnown = true → t.Beyond g.words → ∀ depth : Int, depth + g.height ≤ n →
    ∀ position : Int, 0 ≤ position → position ≤ s.length →
      g.run (s ++ t) (some n) depth position = g.run s (some n) depth position

namespace Grammar.Ignores
variable {c : Component} {g h : Grammar}

theorem stop_le (hle : position ≤ s.length) {limit : Option Int} {r : Option Match}
    (hr : (g.run s limit depth position).result = .ok r) :
    position + Match.extent r ≤ s.length := by
  have hstop := (g.covering s limit).stop_extent_le hr
  omega

/-- Passes over `s ++ t` end where `s` does at the latest, since the pass from there takes
nothing. -/
theorem passes (hg : g.Ignores s t n) (hk : g.isKnown = true) (hb : t.Beyond g.words)
    (hd : depth + g.height ≤ n) (cursor : Int) (hpos : 0 ≤ cursor) (hle : cursor ≤ s.length) :
    passes (s ++ t).length (g.run (s ++ t) (some n) depth) cursor =
      passes s.length (g.run s (some n) depth) cursor := by
  by_cases hc : cursor < s.length
  · have hc' : cursor < (s ++ t).length := by rw [List.length_append]; omega
    rw [GreedyMatch.passes, GreedyMatch.passes, if_pos hc, if_pos hc',
      hg hk hb depth hd cursor hpos hle]
    apply Attempt.bind_congr_of_ok
    intro r hr
    by_cases h0 : 0 < Match.extent r
    · have hstop := stop_le hle hr
      rw [if_pos h0, if_pos h0, passes hg hk hb hd (cursor + Match.extent r) (by omega) hstop]
    · rw [if_neg h0, if_neg h0]
  · obtain rfl : cursor = s.length := by omega
    obtain ⟨r, hr, h0⟩ := (g.abstains (s ++ t) n).exists_eq_pure hk hd hb.barren
    rw [passes_of_extent_eq_zero _ hr h0, passes_of_le _ (Int.le_refl _)]
termination_by (s.length - cursor).toNat

theorem zeroOrMore (hg : g.Ignores s t n) : (Component.zeroOrMore g).Ignores s t n := by
  intro hk hb depth hd position hpos hle
  rw [Component.height] at hd
  rw [Component.consume_zeroOrMore, Component.consume_zeroOrMore,
    hg.passes hk hb (by omega) position hpos hle]
  apply Attempt.bind_congr_of_ok
  intro k hk
  have hstop := (passes_eq_ok_iff.1 hk).add_le fun p m hm =>
    (g.covering s (some n) _ p m hm).stop_le
  rw [Match.merged_append s t hpos (by omega)]

theorem zeroOrOne (hg : g.Ignores s t n) : (Component.zeroOrOne g).Ignores s t n := by
  intro hk hb depth hd position hpos hle
  rw [Component.height] at hd
  rw [Component.consume_zeroOrOne, Component.consume_zeroOrOne,
    hg hk hb (depth + 1) (by omega) position hpos hle]
  apply Attempt.bind_congr_of_ok
  intro r hr
  rw [Match.merged_append s t hpos (stop_le hle hr)]

theorem group (hg : g.Ignores s t n) : (Component.group g).Ignores s t n := by
  intro hk hb depth hd position hpos hle
  rw [Component.height] at hd
  rw [Component.consume_group, Component.consume_group,
    hg hk hb (depth + 1) (by omega) position hpos hle]

theorem alternation (hg : g.Ignores s t n) (hh : h.Ignores s t n) :
    (Component.alternation g h).Ignores s t n := by
  intro hk hb depth hd position hpos hle
  rw [Component.isKnown_alternation_iff] at hk
  rw [Component.height] at hd
  rw [Component.words] at hb
  rw [Component.consume_alternation, Component.consume_alternation,
    hg hk.1 hb.left (depth + 1) (by omega) position hpos hle,
    hh hk.2 hb.right (depth + 1) (by omega) position hpos hle]
  apply Attempt.bind_congr_of_ok
  intro r hr
  by_cases h0 : 0 < Match.extent r
  · rw [if_pos h0, if_pos h0, Match.merged_append s t hpos (stop_le hle hr)]
  · rw [if_neg h0, if_neg h0]
    apply Attempt.bind_congr_of_ok
    intro r' hr'
    rw [Match.merged_append s t hpos (stop_le hle hr')]

theorem nil : Grammar.Ignores s t n [] := by
  intro _ _ depth hd position _ _
  rw [height] at hd
  rw [run_of_le (by omega), run_of_le (by omega), walk_nil, walk_nil]

theorem step_stop_le {limit : Option Int} (hallow : allow limit depth = .ok ())
    (hp : position ≠ s.length) (hle : position ≤ s.length) {m : Match}
    (hm : (c.step s limit depth position).result = .ok (some m)) :
    position + m.length ≤ s.length := by
  rw [← walk_singleton hp] at hm
  exact stop_le hle (run_eq_ok_iff.2 ⟨hallow, hm⟩)

theorem step (hc : c.Ignores s t n) (hk : c.isKnown = true) (hb : t.Beyond c.words)
    (hd : depth + c.height ≤ n) (hpos : 0 ≤ position) (hle : position ≤ s.length) :
    c.step (s ++ t) (some n) depth position = c.step s (some n) depth position := by
  rw [Component.step, Component.step, hc hk hb depth hd position hpos hle]

/-- At the end of `s` neither text has a word for the walk, be there more text or not. -/
theorem cons (hc : c.Ignores s t n) (hg : g.Ignores s t n) : Grammar.Ignores s t n (c :: g) := by
  intro hk hb depth hd position hpos hle
  by_cases hp : position = s.length
  · subst hp
    rw [abstains (s ++ t) n (c :: g) hk depth hd s.length hb.barren,
      abstains s n (c :: g) hk depth hd s.length (.of_length_le (Int.le_refl _))]
  · have hp' : position ≠ (s ++ t).length := by
      rw [List.length_append]
      omega
    obtain ⟨hkc, hkg⟩ := isKnown_cons_iff.1 hk
    rw [height] at hd
    rw [words] at hb
    have hdepth : depth ≤ n := by omega
    rw [run_of_le hdepth, run_of_le hdepth, walk_cons hp, walk_cons hp',
      step hc hkc hb.left (by omega) hpos hle]
    apply Attempt.followedBy_congr
    intro m hm
    have hstop := step_stop_le (allow_of_le hdepth) hp hle hm
    rw [← run_of_le hdepth, ← run_of_le hdepth]
    exact hg hkg hb.right depth (by omega) _ (by omega) hstop

end Grammar.Ignores

theorem Component.Ignores.literal (s t : Text) (n : Int) (w : Word) :
    (Component.literal w).Ignores s t n := by
  intro _ hb depth _ position hpos hle
  rw [consume_literal, consume_literal, hb.word_append (List.mem_singleton_self w) hpos hle]

theorem Inherited.ignores (s t : Text) (n : Int) :
    Inherited (Component.Ignores s t n) (Grammar.Ignores s t n) where
  literal w := .literal s t n w
  classified w _ := Component.Ignores.literal s t n w
  zeroOrMore hg := hg.zeroOrMore
  oneOrMore hg := hg.zeroOrMore
  zeroOrOne hg := hg.zeroOrOne
  group hg := hg.group
  alternation hg hh := hg.alternation hh
  unknown _ _ hk := by cases hk
  nil := .nil
  cons hc hg := .cons hc hg

theorem Grammar.run_append_of_beyond {g : Grammar} (hk : g.isKnown = true)
    (hb : t.Beyond g.words) (hd : depth + g.height ≤ n) (hpos : 0 ≤ position)
    (hle : position ≤ s.length) :
    g.run (s ++ t) (some n) depth position = g.run s (some n) depth position :=
  (Inherited.ignores s t n).grammar g hk hb depth hd position hpos hle

/-- Two grammars joined match two texts joined, and the tokens are joined as well, if the
second text does not begin with a character of the first grammar's words. -/
theorem disjoint_vocabularies_concat {n : Int} {g h : Grammar} {s t : Text} {m m' : Match}
    (hk : g.isKnown = true) (hd : g.height ≤ n) (hb : t.Beyond g.words)
    (hm : ((Session.start s (some n)).run g 0 0 false).2 = .ok (some m))
    (hm' : ((Session.start t (some n)).run h 0 0 false).2 = .ok (some m')) :
    ((Session.start (s ++ t) (some n)).run (g ++ h) 0 0 false).2 =
      .ok (some ⟨s.length + t.length, m.tokens ++ m'.tokens⟩) := by
  obtain ⟨hg, hlen⟩ := Session.start_run_eq_some_iff.1 hm
  obtain ⟨hh, hlen'⟩ := Session.start_run_eq_some_iff.1 hm'
  have hfirst : (g.run (s ++ t) (some n) 0 0).result = .ok (some m) := by
    rw [Grammar.run_append_of_beyond hk hb (by omega) (Int.le_refl 0) (by omega), hg]
  have hsecond : (h.run (s ++ t) (some n) 0 (0 + m.length)).result = .ok (some m') := by
    rw [hlen, Int.add_comm, Grammar.run_append_shift s t (some n) h 0 (Int.le_refl 0)]
    exact Attempt.result_shift hh
  have hboth : ((g ++ h).run (s ++ t) (some n) 0 0).result = .ok (some (m ++ m')) := by
    rw [Grammar.run_append]
    exact Attempt.result_followedBy hfirst hsecond
  have hjoined : m ++ m' = ⟨s.length + t.length, m.tokens ++ m'.tokens⟩ := by
    rw [← hlen, ← hlen']
    rfl
  rw [← hjoined, Session.start_run_eq_some_iff]
  refine ⟨hboth, ?_⟩
  rw [Match.length_append, hlen, hlen', List.length_append]

theorem disjoint_vocabularies_concat_abbce :
    Grammar.isKnown [.literal ⟨'a', []⟩, .zeroOrMore [.literal ⟨'b', []⟩],
        .group [.zeroOrOne [.literal ⟨'a', ['d']⟩]]] = true ∧
    (Grammar.height [.literal ⟨'a', []⟩, .zeroOrMore [.literal ⟨'b', []⟩],
        .group [.zeroOrOne [.literal ⟨'a', ['d']⟩]]] : Int) ≤ 2 ∧
    Text.Beyond (Grammar.words [.literal ⟨'a', []⟩, .zeroOrMore [.literal ⟨'b', []⟩],
        .group [.zeroOrOne [.literal ⟨'a', ['d']⟩]]]) "ce".toList ∧
    ((Session.start "abb".toList (some 2)).run [.literal ⟨'a', []⟩,
        .zeroOrMore [.literal ⟨'b', []⟩], .group [.zeroOrOne [.literal ⟨'a', ['d']⟩]]]
        0 0 false).2 = .ok (some ⟨3, ["a".toList, "bb".toList]⟩) ∧
    ((Session.start "ce".toList (some 2)).run [.literal ⟨'c', []⟩,
        .alternation [.literal ⟨'d', []⟩] [.literal ⟨'e', []⟩]] 0 0 false).2 =
      .ok (some ⟨2, ["c".toList, "e".toList]⟩) ∧
    ((Session.start ("abb".toList ++ "ce".toList) (some 2)).run
        ([.literal ⟨'a', []⟩, .zeroOrMore [.literal ⟨'b', []⟩],
          .group [.zeroOrOne [.literal ⟨'a', ['d']⟩]]] ++
        [.literal ⟨'c', []⟩, .alternation [.literal ⟨'d', []⟩] [.literal ⟨'e', []⟩]])
        0 0 false).2 =
      .ok (some ⟨"abb".toList.length + "ce".toList.length,
        ["a".toList, "bb".toList] ++ ["c".toList, "e".toList]⟩) := by
  have hk : Grammar.isKnown [.literal ⟨'a', []⟩, .zeroOrMore [.literal ⟨'b', []⟩],
      .group [.zeroOrOne [.literal ⟨'a', ['d']⟩]]] = true := by decide
  have hd : (Grammar.height [.literal ⟨'a', []⟩, .zeroOrMore [.literal ⟨'b', []⟩],
      .group [.zeroOrOne [.literal ⟨'a', ['d']⟩]]] : Int) ≤ 2 := by decide
  have hb : Text.Beyond (Grammar.words [.literal ⟨'a', []⟩, .zeroOrMore [.literal ⟨'b', []⟩],
      .group [.zeroOrOne [.literal ⟨'a', ['d']⟩]]]) "ce".toList := by decide
  have hm : ((Session.start "abb".toList (some 2)).run [.literal ⟨'a', []⟩,
      .zeroOrMore [.literal ⟨'b', []⟩], .group [.zeroOrOne [.literal ⟨'a', ['d']⟩]]]
      0 0 false).2 = .ok (some ⟨3, ["a".toList, "bb".toList]⟩) := by cbv
  have hm' : ((Session.start "ce".toList (some 2)).run [.literal ⟨'c', []⟩,
      .alternation [.literal ⟨'d', []⟩] [.literal ⟨'e', []⟩]] 0 0 false).2 =
      .ok (some ⟨2, ["c".toList, "e".toList]⟩) := by cbv
  exact ⟨hk, hd, hb, hm, hm', disjoint_vocabularies_concat hk hd hb hm hm'⟩

end GreedyMatch
