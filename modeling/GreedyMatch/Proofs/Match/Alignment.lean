import GreedyMatch.Proofs.Match.Accord
import GreedyMatch.Proofs.Match.Soundness
import GreedyMatch.Proofs.Match.Ungroup

/-!
# Tokens and the components they come from

With the groups of a sequence spliced in, each component that takes something makes one token of
it. So the tokens of a run go to components of that sequence from left to right, and the
components that get none may be left out.
-/
namespace GreedyMatch
variable {text : Text} {limit : Option Int} {n depth depth' position : Int}

mutual

/-- The component, or what the splicing of a group puts in its place. -/
def Component.splice : Component → Grammar
  | .group inner => Grammar.splice inner
  | c => [c]

/-- The grammar with the components of its groups in place of the groups, but for what repetitions
and alternations hold. -/
def Grammar.splice : Grammar → Grammar
  | [] => []
  | c :: cs => c.splice ++ Grammar.splice cs

end

def Component.isGroup : Component → Bool
  | .group _ => true
  | _ => false

/-- The component may not be left out. -/
def Component.isRequired (limit : Option Int) (depth : Int) (c : Component) : Bool :=
  match c.nullable limit depth with
  | .ok true => false
  | _ => true

theorem Inherited.isGroup_splice :
    Inherited (fun c => ∀ c' ∈ c.splice, c'.isGroup = false)
      (fun g => ∀ c' ∈ g.splice, c'.isGroup = false) where
  literal _ := List.forall_mem_singleton.2 rfl
  classified _ _ := List.forall_mem_singleton.2 rfl
  zeroOrMore _ := List.forall_mem_singleton.2 rfl
  oneOrMore _ := List.forall_mem_singleton.2 rfl
  zeroOrOne _ := List.forall_mem_singleton.2 rfl
  group hg := hg
  alternation _ _ := List.forall_mem_singleton.2 rfl
  unknown _ _ := List.forall_mem_singleton.2 rfl
  nil := List.forall_mem_nil _
  cons hc hg := List.forall_mem_append.2 ⟨hc, hg⟩

/-- A smaller depth makes a difference only to what nests too deeply. -/
def Accord.shallower (text : Text) (n : Int) : Accord text (some n) (some n) where
  Rel x y := x.SameUnlessTooDeep y
  Depths _ d d' := d' ≤ d
  anti _ hd := hd
  pure _ := .refl _
  unsupported _ _ := .refl _
  mark _ := .refl _
  bind hxy hfg := hxy.bind_of_ok hfg
  guarded hd hrun := .guarded (by omega) (hrun (by omega))

theorem Grammar.run_shallower (g : Grammar) (hd : depth' ≤ depth) (position : Int) :
    (g.run text limit depth position).SameUnlessTooDeep (g.run text limit depth' position) := by
  cases limit with
  | none => exact .refl _
  | some n => exact .guarded hd ((g.accords (.shallower text n) depth depth' hd).2 position)

/-- Alone in a grammar a component does as what is spliced in its place, also where that is asked
at a smaller depth. -/
def Component.SplicesAlike (text : Text) (n : Int) (c : Component) : Prop :=
  ∀ depth depth' position, depth' ≤ depth →
    (Grammar.walk text (some n) [c] depth position).SameUnlessTooDeep
      (Grammar.walk text (some n) c.splice depth' position)

def Grammar.SplicesAlike (text : Text) (n : Int) (g : Grammar) : Prop :=
  ∀ depth depth' position, depth' ≤ depth →
    (walk text (some n) g depth position).SameUnlessTooDeep
      (walk text (some n) g.splice depth' position)

theorem Component.SplicesAlike.unspliced {c : Component} (h : c.splice = [c]) :
    c.SplicesAlike text n := by
  intro depth depth' position hd
  rw [h]
  exact (Grammar.accords (.shallower text n) [c] depth depth' hd).2 position

namespace Grammar.SplicesAlike
variable {c : Component} {g : Grammar}

theorem group (hg : g.SplicesAlike text n) : (Component.group g).SplicesAlike text n := by
  intro depth depth' position hd
  rw [walk_group]
  exact .guarded_left (hg (depth + 1) depth' position (by omega))

theorem nil : Grammar.SplicesAlike text n [] := by
  intro depth depth' position _
  rw [splice, walk_nil, walk_nil]
  exact .refl _

theorem cons (hc : c.SplicesAlike text n) (hg : g.SplicesAlike text n) :
    Grammar.SplicesAlike text n (c :: g) := by
  intro depth depth' position hd
  rw [splice]
  exact .walk_cons (fun p => hc depth depth' p hd) (fun p => hg depth depth' p hd) position

end Grammar.SplicesAlike

theorem Inherited.splicesAlike (text : Text) (n : Int) :
    Inherited (Component.SplicesAlike text n) (Grammar.SplicesAlike text n) where
  literal _ := .unspliced rfl
  classified _ _ := .unspliced rfl
  zeroOrMore _ := .unspliced rfl
  oneOrMore _ := .unspliced rfl
  zeroOrOne _ := .unspliced rfl
  group hg := hg.group
  alternation _ _ := .unspliced rfl
  unknown _ _ := .unspliced rfl
  nil := .nil
  cons hc hg := .cons hc hg

theorem Grammar.run_splice {g : Grammar} {r : Option Match}
    (h : (g.run text limit depth position).result = .ok r) :
    (g.splice.run text limit depth position).result = .ok r := by
  obtain ⟨hallow, -⟩ := run_eq_ok_iff.1 h
  obtain ⟨n, rfl, -⟩ := allow_eq_ok_iff.1 hallow
  have hsame : (g.run text (some n) depth position).SameUnlessTooDeep
      (g.splice.run text (some n) depth position) :=
    .guarded le_rfl ((Inherited.splicesAlike text n).grammar g depth depth position le_rfl)
  rw [hsame.eq_of_ok h, h]

/-- Where the token with number `k` begins, if each begins where the one before it ended. -/
def tokenStart (position : Int) (ts : List Text) (k : Nat) : Int :=
  position + (ts.take k).flatten.length

theorem tokenStart_cons_succ (t : Text) (ts : List Text) (k : Nat) :
    tokenStart position (t :: ts) (k + 1) = tokenStart (position + t.length) ts k := by
  rw [tokenStart, tokenStart, List.take_succ_cons, List.flatten_cons, List.length_append]
  push_cast
  omega

namespace Match
variable {m : Match}

theorem length_tokens_word_le (text : Text) (w : Word) (position : Int) :
    (word text w position).tokens.length ≤ 1 := by
  unfold word
  split
  · exact Nat.le_refl 1
  · exact Nat.zero_le 1

theorem length_tokens_merged_le (text : Text) (position : Int) (k : Nat) :
    (merged text position k).tokens.length ≤ 1 := by
  unfold merged
  split
  · exact Nat.zero_le 1
  · exact Nat.le_refl 1

theorem Covers.exists_token (h : m.Covers text position) (hpos : 0 ≤ position) (h0 : 0 < m.length)
    (hone : m.tokens.length ≤ 1) : ∃ t : Text, m = ⟨t.length, [t]⟩ := by
  have hne : m.tokens ≠ [] := fun hnil => by
    have hstop := h.tokens_eq_nil_iff.1 hnil
    omega
  obtain ⟨t, ht⟩ := List.length_eq_one_iff.1
    (Nat.le_antisymm hone (List.length_pos_of_ne_nil hne))
  have hlen := h.length_slice hpos
  rw [← h.flatten_tokens hpos, ht, List.flatten_singleton] at hlen
  refine ⟨t, ?_⟩
  rw [hlen, ← ht]

end Match

theorem Component.length_tokens_consume_le {c : Component} {m : Match} (hc : c.isGroup = false)
    (hm : (c.consume text limit depth position).result = .ok m) : m.tokens.length ≤ 1 := by
  cases c with
  | literal w =>
    rw [consume_literal] at hm
    cases hm
    exact Match.length_tokens_word_le text w position
  | classified w kind =>
    rw [consume_classified] at hm
    cases hm
    exact Match.length_tokens_word_le text w position
  | zeroOrMore g | oneOrMore g =>
    obtain ⟨k, -, rfl⟩ := consume_zeroOrMore_eq_ok_iff.1 hm
    exact Match.length_tokens_merged_le text position k
  | zeroOrOne g =>
    obtain ⟨r, -, rfl⟩ := consume_zeroOrOne_eq_ok_iff.1 hm
    exact Match.length_tokens_merged_le text position _
  | group g => cases hc
  | alternation g h =>
    obtain ⟨r, -, ⟨-, rfl⟩ | ⟨-, r', -, rfl⟩⟩ := consume_alternation_eq_ok_iff.1 hm
    · exact Match.length_tokens_merged_le text position _
    · exact Match.length_tokens_merged_le text position _
  | unknown cls payload =>
    rw [consume_unknown] at hm
    cases hm

theorem Component.eq_text_of_consume {c : Component} {w : Word} {t : Text}
    (hc : c = .literal w ∨ ∃ kind, c = .classified w kind) (ht : t ≠ [])
    (h : (c.consume text limit depth position).result = .ok ⟨t.length, [t]⟩) : t = w.text := by
  have hword : Match.word text w position = ⟨t.length, [t]⟩ := by
    rcases hc with rfl | ⟨kind, rfl⟩
    · rw [consume_literal] at h
      exact Except.ok.inj h
    · rw [consume_classified] at h
      exact Except.ok.inj h
  have htokens : (Match.word text w position).tokens = [w.text] := by
    apply Match.tokens_word
    rw [hword]
    exact List.length_pos_of_ne_nil ht
  rw [hword] at htokens
  exact List.singleton_inj.1 htokens

/-- The tokens go to the components from left to right, each where the one before it ended; a
component that gets none may be left out. -/
inductive Grammar.Assigns (text : Text) (limit : Option Int) (depth : Int) :
    Grammar → Int → List Text → Prop
  | nil {position : Int} : Assigns text limit depth [] position []
  | skip {c : Component} {g : Grammar} {position : Int} {ts : List Text}
      (hn : c.nullable limit depth = .ok true) (rest : Assigns text limit depth g position ts) :
      Assigns text limit depth (c :: g) position ts
  | take {c : Component} {g : Grammar} {position : Int} {t : Text} {ts : List Text}
      (h : (c.consume text limit depth position).result = .ok ⟨t.length, [t]⟩) (ht : t ≠ [])
      (rest : Assigns text limit depth g (position + t.length) ts) :
      Assigns text limit depth (c :: g) position (t :: ts)

namespace Grammar
variable {c : Component} {g : Grammar} {m : Match} {ts : List Text}

theorem assigns_nil_of_nullable (h : nullable limit g depth = .ok true) :
    Assigns text limit depth g position [] := by
  induction g with
  | nil => exact .nil
  | cons c g ih =>
    obtain ⟨hc, hg⟩ := nullable_cons_eq_true_iff.1 h
    exact .skip hc (ih hg)

theorem assigns_of_walk (hg : ∀ c ∈ g, c.isGroup = false) (hpos : 0 ≤ position)
    (h : (walk text limit g depth position).result = .ok (some m)) :
    Assigns text limit depth g position m.tokens := by
  induction g generalizing position m with
  | nil =>
    rw [walk_nil] at h
    cases h
    exact .nil
  | cons c g ih =>
    obtain ⟨hc, hg⟩ := List.forall_mem_cons.1 hg
    rcases walk_cons_eq_some_iff.1 h with ⟨-, hbare, rfl⟩ | ⟨-, k, l, hk, hrest, rfl⟩
    -- at the end of the text all the components that are left go without a token
    · exact assigns_nil_of_nullable hbare
    · have hl := ih hg (by omega) hrest
      cases hk with
      | taking hk h0 =>
        obtain ⟨t, rfl⟩ := (c.covering text limit depth position k hk).exists_token hpos h0
          (Component.length_tokens_consume_le hc hk)
        exact .take hk (List.ne_nil_of_length_pos h0) hl
      | skipping hk h0 hn =>
        refine .skip hn ?_
        have hstay : position + ((Match.empty.length : Nat) : Int) = position :=
          Int.add_zero position
        rwa [hstay] at hl

namespace Assigns

theorem countP_isRequired_le (h : Assigns text limit depth g position ts) :
    g.countP (Component.isRequired limit depth) ≤ ts.length := by
  induction h with
  | nil => exact Nat.le_refl 0
  | skip hn rest ih =>
    rwa [List.countP_cons_of_neg (by simp [Component.isRequired, hn])]
  | take h ht rest ih =>
    rw [List.countP_cons, List.length_cons]
    split
    · exact Nat.succ_le_succ ih
    · exact Nat.le_succ_of_le ih

theorem exists_strictMono (h : Assigns text limit depth g position ts) :
    ∃ f : Fin ts.length → Fin g.length, StrictMono f ∧
      (∀ k, ts.get k ≠ [] ∧
        ((g.get (f k)).consume text limit depth (tokenStart position ts k)).result =
          .ok ⟨(ts.get k).length, [ts.get k]⟩) ∧
      ∀ j, j ∉ Set.range f → (g.get j).nullable limit depth = .ok true := by
  induction h with
  | nil => exact ⟨id, strictMono_id, fun k => k.elim0, fun j => j.elim0⟩
  | skip hn rest ih =>
    obtain ⟨f, hf, htake, hskip⟩ := ih
    refine ⟨fun k => (f k).succ, Fin.strictMono_succ.comp hf, htake, ?_⟩
    intro j hj
    cases j using Fin.cases with
    | zero => exact hn
    | succ j => exact hskip j fun ⟨k, hk⟩ => hj ⟨k, congrArg Fin.succ hk⟩
  | @take c g position t ts h ht rest ih =>
    obtain ⟨f, hf, htake, hskip⟩ := ih
    -- the first token goes to the first component, the others as before
    refine ⟨Fin.cases 0 fun k => (f k).succ, ?_, ?_, ?_⟩
    · intro i k hik
      cases k using Fin.cases with
      | zero => exact absurd hik (Nat.not_lt_zero _)
      | succ k =>
        cases i using Fin.cases with
        | zero => exact Fin.succ_pos (f k)
        | succ i => exact Fin.succ_lt_succ_iff.2 (hf (Fin.succ_lt_succ_iff.1 hik))
    · intro k
      cases k using Fin.cases with
      | zero => exact ⟨ht, by simpa [tokenStart] using h⟩
      | succ k =>
        obtain ⟨hne, hk⟩ := htake k
        rw [← tokenStart_cons_succ] at hk
        exact ⟨hne, hk⟩
    · intro j hj
      cases j using Fin.cases with
      | zero => exact absurd ⟨0, rfl⟩ hj
      | succ j => exact hskip j fun ⟨k, hk⟩ => hj ⟨k.succ, congrArg Fin.succ hk⟩

end Assigns
end Grammar

/-- Each token of a run comes from a component of its own, in the order of the grammar with its
groups spliced in, and a component that no token comes from may be left out. -/
theorem tokens_come_from_components (s : Session) (g : Grammar) (depth : Int) (position : Nat)
    (nested : Bool) {m : Match} (h : (s.run g depth position nested).2 = .ok (some m)) :
    (∃ f : Fin m.tokens.length → Fin g.splice.length, StrictMono f ∧
      (∀ k, m.tokens.get k ≠ [] ∧
        m.tokens.get k = Sequence.between s.text (tokenStart position m.tokens k)
          (tokenStart position m.tokens k + (m.tokens.get k).length) ∧
        (s.consume (.component (g.splice.get (f k))) depth (tokenStart position m.tokens k)).2 =
          .ok ⟨(m.tokens.get k).length, [m.tokens.get k]⟩) ∧
      (∀ k w, (g.splice.get (f k) = .literal w ∨ ∃ kind, g.splice.get (f k) = .classified w kind) →
        m.tokens.get k = w.text) ∧
      ∀ j, j ∉ Set.range f → (g.splice.get j).nullable s.limit depth = .ok true) ∧
    m.length = m.tokens.flatten.length ∧
    g.splice.countP (Component.isRequired s.limit depth) ≤ m.tokens.length ∧
    m.tokens.length ≤ g.splice.length := by
  obtain ⟨hrun, -⟩ := Session.run_eq_some_iff.1 h
  have hpos : (0 : Int) ≤ position := Int.natCast_nonneg position
  have hcov := g.covering s.text s.limit depth position m hrun
  have hassigns := Grammar.assigns_of_walk (Inherited.isGroup_splice.grammar g) hpos
    (Grammar.run_eq_ok_iff.1 (Grammar.run_splice hrun)).2
  obtain ⟨f, hf, htake, hskip⟩ := hassigns.exists_strictMono
  refine ⟨⟨f, hf, ?_, ?_, hskip⟩, ?_, hassigns.countP_isRequired_le, ?_⟩
  · intro k
    obtain ⟨hne, hk⟩ := htake k
    have hstart : 0 ≤ tokenStart position m.tokens k := by
      unfold tokenStart
      omega
    have hflat := ((g.splice.get (f k)).covering _ _ _ _ _ hk).flatten_tokens hstart
    rw [List.flatten_singleton] at hflat
    exact ⟨hne, hflat, hk⟩
  · intro k w hc
    obtain ⟨hne, hk⟩ := htake k
    exact Component.eq_text_of_consume hc hne hk
  · rw [hcov.flatten_tokens hpos, hcov.length_slice hpos]
  · simpa using Fintype.card_le_of_injective f hf.injective

theorem tokens_come_from_components_xaab :
    ((Session.start "xaab".toList (some 3)).run [.literal ⟨'x', []⟩,
        .group [.zeroOrMore [.literal ⟨'a', []⟩],
          .group [.zeroOrOne [.literal ⟨'c', []⟩], .literal ⟨'b', []⟩]]] 0 (0 : Nat) false).2 =
      .ok (some ⟨4, ["x".toList, "aa".toList, "b".toList]⟩) ∧
    Grammar.splice [.literal ⟨'x', []⟩, .group [.zeroOrMore [.literal ⟨'a', []⟩],
        .group [.zeroOrOne [.literal ⟨'c', []⟩], .literal ⟨'b', []⟩]]] =
      [.literal ⟨'x', []⟩, .zeroOrMore [.literal ⟨'a', []⟩], .zeroOrOne [.literal ⟨'c', []⟩],
        .literal ⟨'b', []⟩] ∧
    (∃ f : Fin 3 → Fin 4, StrictMono f ∧ ∀ j, j ∉ Set.range f →
      Component.nullable (some 3) (List.get [.literal ⟨'x', []⟩, .zeroOrMore [.literal ⟨'a', []⟩],
        .zeroOrOne [.literal ⟨'c', []⟩], .literal ⟨'b', []⟩] j) 0 = .ok true) ∧
    List.countP (Component.isRequired (some 3) 0) [.literal ⟨'x', []⟩,
      .zeroOrMore [.literal ⟨'a', []⟩], .zeroOrOne [.literal ⟨'c', []⟩], .literal ⟨'b', []⟩] ≤ 3 := by
  have hrun : ((Session.start "xaab".toList (some 3)).run [.literal ⟨'x', []⟩,
        .group [.zeroOrMore [.literal ⟨'a', []⟩],
          .group [.zeroOrOne [.literal ⟨'c', []⟩], .literal ⟨'b', []⟩]]] 0 (0 : Nat) false).2 =
      .ok (some ⟨4, ["x".toList, "aa".toList, "b".toList]⟩) := by cbv
  obtain ⟨⟨f, hf, -, -, hskip⟩, -, hcount, -⟩ := tokens_come_from_components _ _ _ _ _ hrun
  exact ⟨hrun, rfl, ⟨f, hf, hskip⟩, hcount⟩

end GreedyMatch
