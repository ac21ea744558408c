import GreedyMatch.Proofs.Catalog.Survey
import GreedyMatch.Proofs.Grammar.Shape
import Mathlib.Tactic

/-!
# Tokens cover what is consumed

What a match consumes lies within the text, and its tokens are a partition of it: they
stand side by side in order, none of them is empty, and there is one wherever anything
is consumed. Below position zero, where slices count back from the end, only the extent
of a match is certain.
-/
namespace GreedyMatch

/-- From `position` on, the tokens of the match make up what it consumes of the text. -/
structure Match.Covers (m : Match) (text : Text) (position : Int) : Prop where
  le_stop : position ≤ position + m.length
  stop_le : position + m.length ≤ max position text.length
  tokens_eq_nil_iff : m.tokens = [] ↔ position + m.length = position
  token_ne_nil : 0 ≤ position → ∀ t ∈ m.tokens, t ≠ []
  flatten_tokens :
    0 ≤ position → m.tokens.flatten = Sequence.between text position (position + m.length)

namespace Match.Covers
variable {text : Text} {position : Int} {m n : Match}

theorem length_slice (hm : m.Covers text position) (h : 0 ≤ position) :
    (Sequence.between text position (position + m.length)).length = m.length :=
  Sequence.length_between_add text h hm.stop_le

theorem slice_ne_nil (hm : m.Covers text position) (h : 0 ≤ position) (h0 : 0 < m.length) :
    Sequence.between text position (position + m.length) ≠ [] := by
  have hlen := hm.length_slice h
  apply List.ne_nil_of_length_pos
  omega

theorem empty : Match.empty.Covers text position where
  le_stop := by omega
  stop_le := by change position + ((0 : Nat) : Int) ≤ _; omega
  tokens_eq_nil_iff := iff_of_true rfl (Int.add_zero position)
  token_ne_nil _ t ht := by cases ht
  flatten_tokens _ := (Sequence.between_add_zero text position).symm

theorem append (hm : m.Covers text position) (hn : n.Covers text (position + m.length)) :
    (m ++ n).Covers text position where
  le_stop := by omega
  stop_le := by
    have h₁ := hm.stop_le
    have h₂ := hn.stop_le
    rw [length_append]
    omega
  tokens_eq_nil_iff := by
    have h₁ := hm.tokens_eq_nil_iff
    have h₂ := hn.tokens_eq_nil_iff
    rw [tokens_append, length_append, List.append_eq_nil_iff, h₁, h₂]
    omega
  token_ne_nil h t ht := by
    rw [tokens_append, List.mem_append] at ht
    rcases ht with ht | ht
    · exact hm.token_ne_nil h t ht
    · exact hn.token_ne_nil (by omega) t ht
  flatten_tokens h := by
    rw [tokens_append, List.flatten_append, hm.flatten_tokens h, hn.flatten_tokens (by omega),
      length_append]
    exact Sequence.between_append_between text h m.length n.length

theorem merged {k : Nat} (h : position + k ≤ max position text.length) :
    (Match.merged text position k).Covers text position := by
  by_cases hk : k = 0
  · rw [Match.merged, if_pos hk]
    exact empty
  · rw [Match.merged, if_neg hk]
    refine ⟨by omega, h, iff_of_false (List.cons_ne_nil _ _) (by dsimp only; omega), ?_, ?_⟩
    · intro h0 t ht
      have hl := Sequence.length_between_add text h0 h
      rw [List.mem_singleton.1 ht]
      exact List.ne_nil_of_length_pos (by omega)
    · intro h0
      exact List.append_nil _

theorem word (w : Word) : (Match.word text w position).Covers text position := by
  unfold Match.word
  by_cases hw : w.text.isPrefixOf (text.drop (Sequence.clamp text.length position)) = true
  · rw [if_pos hw]
    have hpre := List.isPrefixOf_iff_prefix.1 hw
    have hpos := w.length_text_pos
    have hlen := hpre.length_le
    rw [List.length_drop] at hlen
    refine ⟨by omega, ?_, iff_of_false (List.cons_ne_nil _ _) (by dsimp only; omega), ?_, ?_⟩
    · by_cases h0 : 0 ≤ position
      · rw [Sequence.clamp_of_nonneg h0] at hlen
        dsimp only
        omega
      · dsimp only
        omega
    · intro _ t ht
      rw [List.mem_singleton.1 ht]
      exact w.text_ne_nil
    · intro h0
      obtain ⟨p, rfl⟩ := Int.eq_ofNat_of_zero_le h0
      rw [Sequence.clamp_of_nonneg h0, Int.toNat_natCast] at hpre hlen
      have hp : min p text.length = p := by omega
      rw [hp] at hpre
      rw [Sequence.between_add, ← List.prefix_iff_eq_take.1 hpre]
      exact List.append_nil _
  · rw [if_neg hw]
    exact empty

end Match.Covers

theorem Chain.add_le {size : Nat} {pass : Int → Attempt (Option Match)} {cursor : Int} {n : Nat}
    (h : Chain size pass cursor n)
    (hpass : ∀ p m, (pass p).result = .ok (some m) → p + m.length ≤ max p size) :
    cursor + n ≤ max cursor size := by
  induction h with
  | used h => omega
  | stalled h hr h0 => omega
  | onward h hr hm rest ih =>
    have hstep := hpass _ _ hr
    push_cast
    omega

/-- Whatever the component takes from the text, its tokens cover. -/
def Component.Covering (text : Text) (limit : Option Int) (c : Component) : Prop :=
  ∀ depth position m, (c.consume text limit depth position).result = .ok m → m.Covers text position

def Grammar.Covering (text : Text) (limit : Option Int) (g : Grammar) : Prop :=
  ∀ depth position m, (g.run text limit depth position).result = .ok (some m) →
    m.Covers text position

namespace Grammar.Covering
variable {text : Text} {limit : Option Int} {g : Grammar} {depth position : Int}

theorem stop_extent_le (hg : g.Covering text limit) {r : Option Match}
    (hr : (g.run text limit depth position).result = .ok r) :
    position + Match.extent r ≤ max position text.length := by
  cases r with
  | none => change position + ((0 : Nat) : Int) ≤ _; omega
  | some m => exact (hg depth position m hr).stop_le

theorem zeroOrMore (hg : g.Covering text limit) : (Component.zeroOrMore g).Covering text limit := by
  intro depth position m h
  obtain ⟨n, hn, rfl⟩ := Component.consume_zeroOrMore_eq_ok_iff.1 h
  exact .merged (hn.add_le fun p k hk => (hg _ p k hk).stop_le)

theorem zeroOrOne (hg : g.Covering text limit) : (Component.zeroOrOne g).Covering text limit := by
  intro depth position m h
  obtain ⟨r, hr, rfl⟩ := Component.consume_zeroOrOne_eq_ok_iff.1 h
  exact .merged (hg.stop_extent_le hr)

theorem group (hg : g.Covering text limit) : (Component.group g).Covering text limit := by
  intro depth position m h
  obtain ⟨r, hr, rfl⟩ := Component.consume_group_eq_ok_iff.1 h
  cases r with
  | none => exact .empty
  | some k => exact hg _ position k hr

theorem alternation {g' : Grammar} (hg : g.Covering text limit) (hg' : g'.Covering text limit) :
    (Component.alternation g g').Covering text limit := by
  intro depth position m h
  obtain ⟨r, hr, ⟨-, rfl⟩ | ⟨-, r', hr', rfl⟩⟩ := Component.consume_alternation_eq_ok_iff.1 h
  · exact .merged (hg.stop_extent_le hr)
  · exact .merged (hg'.stop_extent_le hr')

theorem nil : Grammar.Covering text limit [] := by
  intro depth position m h
  obtain ⟨-, hw⟩ := run_eq_ok_iff.1 h
  rw [walk_nil] at hw
  cases hw
  exact .empty

theorem advances {c : Component} (hc : c.Covering text limit) {m : Match}
    (hm : c.Advances text limit depth position m) : m.Covers text position := by
  cases hm with
  | taking hm _ => exact hc depth position m hm
  | skipping => exact .empty

theorem cons {c : Component} (hc : c.Covering text limit) (hg : g.Covering text limit) :
    Grammar.Covering text limit (c :: g) := by
  intro depth position m h
  obtain ⟨hd, hw⟩ := run_eq_ok_iff.1 h
  rcases walk_cons_eq_some_iff.1 hw with ⟨-, -, rfl⟩ | ⟨-, k, l, hk, hrest, rfl⟩
  · exact .empty
  · have hl : l.Covers text (position + k.length) :=
      hg depth _ l (run_eq_ok_iff.2 ⟨hd, hrest⟩)
    exact (advances hc hk).append hl

end Grammar.Covering

theorem Component.Covering.literal (text : Text) (limit : Option Int) (w : Word) :
    (Component.literal w).Covering text limit := by
  intro depth position m h
  rw [consume_literal] at h
  cases h
  exact .word w

theorem Inherited.covering (text : Text) (limit : Option Int) :
    Inherited (Component.Covering text limit) (Grammar.Covering text limit) where
  literal w := .literal text limit w
  classified w _ := Component.Covering.literal text limit w
  zeroOrMore hg := hg.zeroOrMore
  oneOrMore hg := hg.zeroOrMore
  zeroOrOne hg := hg.zeroOrOne
  group hg := hg.group
  alternation hg hg' := hg.alternation hg'
  unknown cls payload depth position m h := by
    rw [Component.consume_unknown] at h
    cases h
  nil := .nil
  cons hc hg := hg.cons hc

theorem Component.covering (text : Text) (limit : Option Int) (c : Component) :
    c.Covering text limit := (Inherited.covering text limit).component c

theorem Grammar.covering (text : Text) (limit : Option Int) (g : Grammar) :
    g.Covering text limit := (Inherited.covering text limit).grammar g

/-- Every match that a run or a single component makes is covered by its tokens, and the
tokens a catalog answers with make up the trimmed text. -/
theorem tokens_cover_consumed :
    (∀ (s : Session) (g : Grammar) (depth position : Int) (nested : Bool) (m : Match),
      (s.run g depth position nested).2 = .ok (some m) → m.Covers s.text position) ∧
    (∀ (s : Session) (c : Component) (depth position : Int) (m : Match),
      (s.consume (.component c) depth position).2 = .ok m → m.Covers s.text position) ∧
    (∀ (c : Catalog) (text : Text) (tokens : List Text),
      c.tokens text = .ok tokens → tokens.flatten = text.trim ∧ ∀ t ∈ tokens, t ≠ []) := by
  refine ⟨?_, ?_, ?_⟩
  · intro s g depth position nested m h
    obtain ⟨hrun, -⟩ := Session.run_eq_some_iff.1 h
    exact g.covering s.text s.limit depth position m hrun
  · intro s c depth position m h
    exact c.covering s.text s.limit depth position m h
  · intro c text tokens h
    obtain ⟨g, -, m, hrun, rfl⟩ := Survey.exists_run_of_tokens h
    obtain ⟨hrun, hstop⟩ := Grammar.runWhole_eq_some_iff.1 hrun
    have hm := g.covering text.trim c.limit 0 0 m hrun
    refine ⟨?_, hm.token_ne_nil (Int.le_refl 0)⟩
    rw [hm.flatten_tokens (Int.le_refl 0), hstop,
      Sequence.between_of_nonneg _ (Int.le_refl 0) (Int.natCast_nonneg _)]
    simp

theorem tokens_cover_xaba :
    ((Session.start "xaba".toList (some 3)).run [.literal ⟨'x', []⟩,
        .zeroOrMore [.literal ⟨'a', []⟩, .zeroOrOne [.literal ⟨'b', []⟩]]] 0 0 false).2 =
      .ok (some ⟨4, ["x".toList, "aba".toList]⟩) ∧
    Match.Covers ⟨4, ["x".toList, "aba".toList]⟩ "xaba".toList 0 ∧
    ((Session.start "xaba".toList (some 3)).consume (.component (.group
        [.zeroOrMore [.literal ⟨'a', []⟩, .zeroOrOne [.literal ⟨'b', []⟩]]])) 0 1).2 =
      .ok ⟨3, ["aba".toList]⟩ ∧
    Match.Covers ⟨3, ["aba".toList]⟩ "xaba".toList 1 ∧
    Catalog.tokens ⟨.greedy, some 3, [[.literal ⟨'x', []⟩], [.literal ⟨'x', []⟩,
        .zeroOrMore [.literal ⟨'a', []⟩, .zeroOrOne [.literal ⟨'b', []⟩]]]]⟩ " xaba\n".toList =
      .ok ["x".toList, "aba".toList] ∧
    ["x".toList, "aba".toList].flatten = Text.trim " xaba\n".toList ∧
      ∀ t ∈ ["x".toList, "aba".toList], t ≠ [] := by
  have hrun : ((Session.start "xaba".toList (some 3)).run [.literal ⟨'x', []⟩,
        .zeroOrMore [.literal ⟨'a', []⟩, .zeroOrOne [.literal ⟨'b', []⟩]]] 0 0 false).2 =
      .ok (some ⟨4, ["x".toList, "aba".toList]⟩) := by cbv
  have hconsume : ((Session.start "xaba".toList (some 3)).consume (.component (.group
        [.zeroOrMore [.literal ⟨'a', []⟩, .zeroOrOne [.literal ⟨'b', []⟩]]])) 0 1).2 =
      .ok ⟨3, ["aba".toList]⟩ := by cbv
  have htokens : Catalog.tokens ⟨.greedy, some 3, [[.literal ⟨'x', []⟩], [.literal ⟨'x', []⟩,
        .zeroOrMore [.literal ⟨'a', []⟩, .zeroOrOne [.literal ⟨'b', []⟩]]]]⟩ " xaba\n".toList =
      .ok ["x".toList, "aba".toList] := by cbv
  exact ⟨hrun, tokens_cover_consumed.1 _ _ _ _ _ _ hrun, hconsume,
    tokens_cover_consumed.2.1 _ _ _ _ _ hconsume, htokens,
    tokens_cover_consumed.2.2 _ _ _ htokens⟩

end GreedyMatch
