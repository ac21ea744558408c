import GreedyMatch.Proofs.Grammar.Derivation
import GreedyMatch.Proofs.Match.Cover
import GreedyMatch.Proofs.Match.Total

/-!
# What a run takes is derived

Whatever a run takes from a text, its grammar stands for, with the tokens the run makes
of it. A component that takes nothing says nothing about itself; that it may be left out
is for nullability to say, which is exact about the empty text.
-/
namespace GreedyMatch
variable {text : Text} {limit : Option Int} {depth position : Int}

/-- A non-empty match of the component is one of the texts it stands for. -/
def Component.Sound (text : Text) (limit : Option Int) (c : Component) : Prop :=
  ∀ depth position m, 0 ≤ position → (c.consume text limit depth position).result = .ok m →
    0 < m.length → c.Derives (Sequence.between text position (position + m.length)) m.tokens

def Grammar.Sound (text : Text) (limit : Option Int) (g : Grammar) : Prop :=
  ∀ depth position m, 0 ≤ position →
    (g.run text limit depth position).result = .ok (some m) →
      g.Derives (Sequence.between text position (position + m.length)) m.tokens

/-- Passes that each take a text with the property `p` take such texts in a row. -/
theorem Chain.repeats {pass : Int → Attempt (Option Match)} {p : Text → Prop} {cursor : Int}
    {n : Nat} (h : Chain text.length pass cursor n) (h0 : 0 ≤ cursor)
    (hpass : ∀ i m, 0 ≤ i → (pass i).result = .ok (some m) →
      m.Covers text i ∧ p (Sequence.between text i (i + m.length))) :
    ∃ k, Text.Repeats p k (Sequence.between text cursor (cursor + n)) := by
  induction h with
  | used => exact ⟨0, by rw [Sequence.between_add_zero]; exact Text.repeats_zero⟩
  | stalled => exact ⟨0, by rw [Sequence.between_add_zero]; exact Text.repeats_zero⟩
  | @onward cursor m n _ hr hm rest ih =>
    obtain ⟨hcov, hp⟩ := hpass cursor m h0 hr
    obtain ⟨k, hk⟩ := ih (by omega)
    have hcons := hk.cons (hcov.slice_ne_nil h0 hm) hp
    rw [Sequence.between_append_between text h0] at hcons
    exact ⟨k + 1, hcons⟩

theorem Match.tokens_word {w : Word} (h : 0 < (Match.word text w position).length) :
    (Match.word text w position).tokens = [w.text] := by
  unfold Match.word at h ⊢
  by_cases hw : w.text.isPrefixOf (text.drop (Sequence.clamp text.length position)) = true
  · rw [if_pos hw]
  · rw [if_neg hw] at h
    cases h

theorem Component.Sound.literal (text : Text) (limit : Option Int) (w : Word) :
    (Component.literal w).Sound text limit := by
  intro depth position m hpos hm h0
  have hcov := (Component.literal w).covering text limit depth position m hm
  rw [← hcov.flatten_tokens hpos]
  rw [consume_literal] at hm
  cases hm
  have htokens := Match.tokens_word h0
  rw [htokens]
  exact ⟨List.append_nil w.text, rfl⟩

namespace Grammar.Sound
variable {c : Component} {g h : Grammar}

theorem merged (hpos : 0 ≤ position) {k : Nat} (hk : position + k ≤ max position text.length)
    (h0 : 0 < k) :
    Sequence.between text position (position + k) ≠ [] ∧
      (Match.merged text position k).tokens =
        Text.lump (Sequence.between text position (position + k)) := by
  have hcov := Match.Covers.merged hk
  have hne := hcov.slice_ne_nil hpos (by rwa [Match.length_merged])
  rw [Match.length_merged] at hne
  rw [Match.merged_of_pos text position h0, Text.lump_of_ne_nil hne]
  exact ⟨hne, rfl⟩

theorem repetition (hg : g.Sound text limit) {n : Nat} (hpos : 0 ≤ position)
    (hn : Chain text.length (g.run text limit depth) position n) (h0 : 0 < n) :
    (∃ k, 1 ≤ k ∧ Text.Repeats g.StandsFor k (Sequence.between text position (position + n))) ∧
      (Match.merged text position n).tokens =
        Text.lump (Sequence.between text position (position + n)) := by
  have hcov := g.covering text limit
  have hle := hn.add_le fun p m hm => (hcov _ p m hm).stop_le
  obtain ⟨hne, htokens⟩ := merged hpos hle h0
  have hpass (i : Int) (m : Match) (hi : 0 ≤ i)
      (hm : (g.run text limit depth i).result = .ok (some m)) :
      m.Covers text i ∧ g.StandsFor (Sequence.between text i (i + m.length)) :=
    ⟨hcov _ i m hm, m.tokens, hg _ i m hi hm⟩
  obtain ⟨k, hk⟩ := hn.repeats hpos hpass
  have hk0 : k ≠ 0 := fun hk0 => hne (hk.eq_nil_iff.2 hk0)
  exact ⟨⟨k, by omega, hk⟩, htokens⟩

theorem zeroOrMore (hg : g.Sound text limit) : (Component.zeroOrMore g).Sound text limit := by
  intro depth position m hpos hm h0
  obtain ⟨n, hn, rfl⟩ := Component.consume_zeroOrMore_eq_ok_iff.1 hm
  rw [Match.length_merged] at h0 ⊢
  obtain ⟨⟨k, -, hk⟩, htokens⟩ := hg.repetition hpos hn h0
  exact ⟨⟨k, hk⟩, htokens⟩

theorem oneOrMore (hg : g.Sound text limit) : (Component.oneOrMore g).Sound text limit := by
  intro depth position m hpos hm h0
  rw [Component.consume_oneOrMore] at hm
  obtain ⟨n, hn, rfl⟩ := Component.consume_zeroOrMore_eq_ok_iff.1 hm
  rw [Match.length_merged] at h0 ⊢
  exact hg.repetition hpos hn h0

theorem pass (hg : g.Sound text limit) {r : Option Match} (hpos : 0 ≤ position)
    (hr : (g.run text limit depth position).result = .ok r) (h0 : 0 < Match.extent r) :
    Sequence.between text position (position + Match.extent r) ≠ [] ∧
      g.StandsFor (Sequence.between text position (position + Match.extent r)) ∧
      (Match.merged text position (Match.extent r)).tokens =
        Text.lump (Sequence.between text position (position + Match.extent r)) := by
  have hle := (g.covering text limit).stop_extent_le hr
  obtain ⟨hne, htokens⟩ := merged hpos hle h0
  cases r with
  | none => cases h0
  | some m => exact ⟨hne, ⟨m.tokens, hg _ position m hpos hr⟩, htokens⟩

theorem zeroOrOne (hg : g.Sound text limit) : (Component.zeroOrOne g).Sound text limit := by
  intro depth position m hpos hm h0
  obtain ⟨r, hr, rfl⟩ := Component.consume_zeroOrOne_eq_ok_iff.1 hm
  rw [Match.length_merged] at h0 ⊢
  obtain ⟨hne, hd, htokens⟩ := hg.pass hpos hr h0
  exact ⟨⟨1, Nat.le_refl 1, Text.repeats_one_iff.2 ⟨hne, hd⟩⟩, htokens⟩

theorem group (hg : g.Sound text limit) : (Component.group g).Sound text limit := by
  intro depth position m hpos hm h0
  obtain ⟨r, hr, rfl⟩ := Component.consume_group_eq_ok_iff.1 hm
  cases r with
  | none => cases h0
  | some k => exact hg _ position k hpos hr

theorem alternation (hg : g.Sound text limit) (hh : h.Sound text limit) :
    (Component.alternation g h).Sound text limit := by
  intro depth position m hpos hm h0
  obtain ⟨r, hr, hcases⟩ := Component.consume_alternation_eq_ok_iff.1 hm
  rcases hcases with ⟨-, rfl⟩ | ⟨-, r', hr', rfl⟩
  · rw [Match.length_merged] at h0 ⊢
    obtain ⟨hne, hd, htokens⟩ := hg.pass hpos hr h0
    exact ⟨hne, .inl hd, htokens.trans (Text.lump_of_ne_nil hne)⟩
  · rw [Match.length_merged] at h0 ⊢
    obtain ⟨hne, hd, htokens⟩ := hh.pass hpos hr' h0
    exact ⟨hne, .inr hd, htokens.trans (Text.lump_of_ne_nil hne)⟩

theorem nil : Grammar.Sound text limit [] := by
  intro depth position m hpos h
  obtain ⟨-, hw⟩ := run_eq_ok_iff.1 h
  rw [walk_nil] at hw
  cases hw
  exact ⟨Sequence.between_add_zero text position, rfl⟩

theorem advances (hc : c.Sound text limit) (hpos : 0 ≤ position) {m : Match}
    (hm : c.Advances text limit depth position m) :
    c.Derives (Sequence.between text position (position + m.length)) m.tokens := by
  cases hm with
  | taking hm h0 => exact hc depth position m hpos hm h0
  | skipping _ _ hn =>
    have hnil := Inherited.nullableExact.component c limit depth true hn
    have hslice : Sequence.between text position (position + Match.empty.length) = [] :=
      Sequence.between_add_zero text position
    rw [hslice]
    exact hnil

theorem cons (hc : c.Sound text limit) (hg : g.Sound text limit) :
    Grammar.Sound text limit (c :: g) := by
  intro depth position m hpos h
  obtain ⟨hd, hw⟩ := run_eq_ok_iff.1 h
  rcases walk_cons_eq_some_iff.1 hw with ⟨-, hbare, rfl⟩ | ⟨-, k, l, hk, hrest, rfl⟩
  · have hnil := Inherited.nullableExact.grammar (c :: g) limit depth true hbare
    have hslice : Sequence.between text position (position + Match.empty.length) = [] :=
      Sequence.between_add_zero text position
    rw [hslice]
    exact hnil
  · have hl := hg depth _ l (by omega) (run_eq_ok_iff.2 ⟨hd, hrest⟩)
    refine ⟨_, _, k.tokens, l.tokens, ?_, rfl, advances hc hpos hk, hl⟩
    rw [Match.length_append, Sequence.between_append_between text hpos]

end Grammar.Sound

theorem Inherited.sound (text : Text) (limit : Option Int) :
    Inherited (Component.Sound text limit) (Grammar.Sound text limit) where
  literal w := .literal text limit w
  classified w _ := Component.Sound.literal text limit w
  zeroOrMore hg := hg.zeroOrMore
  oneOrMore hg := hg.oneOrMore
  zeroOrOne hg := hg.zeroOrOne
  group hg := hg.group
  alternation hg hh := hg.alternation hh
  unknown cls payload depth position m hpos hm h0 := by
    rw [Component.consume_unknown] at hm
    cases hm
  nil := .nil
  cons hc hg := hg.cons hc

theorem Grammar.sound (text : Text) (limit : Option Int) (g : Grammar) : g.Sound text limit :=
  (Inherited.sound text limit).grammar g

/-- A run takes only what its grammar stands for, and nullability, where it is decided, tells
whether the grammar stands for the empty text. -/
theorem runs_derive :
    (∀ (s : Session) (g : Grammar) (depth : Int) (position : Nat) (nested : Bool) (m : Match),
      (s.run g depth position nested).2 = .ok (some m) →
        g.Derives (Sequence.between s.text position (position + m.length)) m.tokens) ∧
    (∀ (limit : Option Int) (g : Grammar) (depth : Int) (bare : Bool),
      Grammar.nullable limit g depth = .ok bare → (bare = true ↔ ∃ ts, g.Derives [] ts)) ∧
    (∀ (n : Int) (g : Grammar) (depth : Int), g.isKnown = true → depth + g.height ≤ n →
      ∃ bare, Grammar.nullable (some n) g depth = .ok bare) := by
  refine ⟨?_, ?_, ?_⟩
  · intro s g depth position nested m h
    obtain ⟨hrun, -⟩ := Session.run_eq_some_iff.1 h
    exact g.sound s.text s.limit depth position m (Int.natCast_nonneg position) hrun
  · intro limit g depth bare h
    have hexact := Inherited.nullableExact.grammar g limit depth bare h
    cases bare with
    | true => exact iff_of_true rfl ⟨[], hexact⟩
    | false => exact iff_of_false Bool.false_ne_true hexact
  · intro n g depth hk hd
    exact Grammar.exists_nullable hk hd

theorem runs_derive_xaab :
    ((Session.start "xaab".toList (some 1)).run
        [.literal ⟨'x', []⟩, .zeroOrMore [.literal ⟨'a', []⟩],
          .alternation [.literal ⟨'c', []⟩] [.literal ⟨'b', []⟩]] 0 (0 : Nat) false).2 =
      .ok (some ⟨4, ["x".toList, "aa".toList, "b".toList]⟩) ∧
    Grammar.Derives [.literal ⟨'x', []⟩, .zeroOrMore [.literal ⟨'a', []⟩],
        .alternation [.literal ⟨'c', []⟩] [.literal ⟨'b', []⟩]] "xaab".toList
      ["x".toList, "aa".toList, "b".toList] ∧
    Grammar.nullable (some 1) [.group [.zeroOrOne [.literal ⟨'a', []⟩]]] 0 = .ok true ∧
    (∃ ts, Grammar.Derives [.group [.zeroOrOne [.literal ⟨'a', []⟩]]] [] ts) ∧
    (0 : Int) + Grammar.height [.group [.zeroOrOne [.literal ⟨'a', []⟩]]] ≤ 2 ∧
    ∃ bare, Grammar.nullable (some 2) [.group [.zeroOrOne [.literal ⟨'a', []⟩]]] 0 = .ok bare := by
  have hrun : ((Session.start "xaab".toList (some 1)).run
        [.literal ⟨'x', []⟩, .zeroOrMore [.literal ⟨'a', []⟩],
          .alternation [.literal ⟨'c', []⟩] [.literal ⟨'b', []⟩]] 0 (0 : Nat) false).2 =
      .ok (some ⟨4, ["x".toList, "aa".toList, "b".toList]⟩) := by cbv
  have hderives := runs_derive.1 _ _ _ _ _ _ hrun
  have hslice : Sequence.between "xaab".toList 0 4 = "xaab".toList := by cbv
  have hheight : (0 : Int) + Grammar.height [.group [.zeroOrOne [.literal ⟨'a', []⟩]]] ≤ 2 := by
    decide
  refine ⟨hrun, hslice ▸ hderives, rfl, ?_, hheight, ?_⟩
  · exact (runs_derive.2.1 (some 1) _ 0 true rfl).1 rfl
  · exact runs_derive.2.2 2 _ 0 rfl hheight

end GreedyMatch
