import GreedyMatch.Proofs.Grammar.Deterministic
import GreedyMatch.Proofs.Match.Soundness

/-!
# Runs of deterministic grammars

A run gives nothing back, so in general it may miss a text that its grammar stands for.
Where the grammar is deterministic it misses none: each component takes the longest text
it can, and what comes after a shorter one could not have begun there. A repetition may
cut a text into other parts than a derivation does, yet what it has left to take is a
row of texts of the same grammar.
-/
namespace GreedyMatch
variable {text : Text} {limit : Option Int} {depth position : Int}

/-- No text of the component that lies at the position is longer than what is taken there. -/
def Component.Exhaustive (text : Text) (limit : Option Int) (c : Component) : Prop :=
  c.Deterministic → ∀ depth position m, 0 ≤ position →
    (c.consume text limit depth position).result = .ok m →
      ∀ t, t <+: text.drop position.toNat → c.StandsFor t → t.length ≤ m.length

def Grammar.Exhaustive (text : Text) (limit : Option Int) (g : Grammar) : Prop :=
  g.Deterministic → ∀ depth position r, 0 ≤ position →
    (g.run text limit depth position).result = .ok r →
      ∀ t, t <+: text.drop position.toNat → g.StandsFor t → ∃ m, r = some m ∧ t.length ≤ m.length

theorem Match.length_word_eq (w : Word) (hpos : 0 ≤ position)
    (h : w.text <+: text.drop position.toNat) :
    (Match.word text w position).length = w.text.length := by
  have hdrop : text.drop (min position.toNat text.length) = text.drop position.toNat := by
    rcases Nat.le_total position.toNat text.length with hle | hle
    · rw [Nat.min_eq_left hle]
    · rw [Nat.min_eq_right hle, List.drop_length, List.drop_of_length_le hle]
  unfold Match.word
  rw [Sequence.clamp_of_nonneg hpos, hdrop, if_pos (List.isPrefixOf_iff_prefix.2 h)]

namespace Grammar.Exhaustive
variable {c : Component} {g h : Grammar} {t : Text}

theorem le_extent (hg : g.Exhaustive text limit) (hdet : g.Deterministic) {r : Option Match}
    (hpos : 0 ≤ position) (hr : (g.run text limit depth position).result = .ok r)
    (ht : t <+: text.drop position.toNat) (hd : g.StandsFor t) : t.length ≤ Match.extent r := by
  obtain ⟨m, rfl, hle⟩ := hg hdet depth position r hpos hr t ht hd
  exact hle

/-- No text of the grammar goes on beyond what a run of it has taken. -/
theorem eq_nil_of_longer (hg : g.Exhaustive text limit) (hdet : g.Deterministic) {m : Match}
    (hpos : 0 ≤ position) (hr : (g.run text limit depth position).result = .ok (some m)) {v : Text}
    (hv : v <+: text.drop (position + m.length).toNat)
    (hd : g.StandsFor (Sequence.between text position (position + m.length) ++ v)) : v = [] := by
  have hslice := (g.covering text limit depth position m hr).length_slice hpos
  have hlong : Sequence.between text position (position + m.length) ++ v <+:
      text.drop position.toNat := by
    rw [← Sequence.between_append_drop text hpos m.length, List.prefix_append_right_inj]
    exact hv
  have hle : _ ≤ m.length := hg.le_extent hdet hpos hr hlong hd
  rw [List.length_append] at hle
  exact List.length_eq_zero_iff.1 (by omega)

theorem chain (hg : g.Exhaustive text limit) (hdet : g.Deterministic) {n k : Nat}
    (hn : Chain text.length (g.run text limit depth) position n) (hpos : 0 ≤ position)
    (ht : t <+: text.drop position.toNat) (hrep : Text.Repeats g.StandsFor k t) :
    t.length ≤ n := by
  induction hn generalizing k t with
  | used hend =>
    have hle := ht.length_le
    rw [List.length_drop] at hle
    omega
  | @stalled position r _ hr h0 =>
    obtain ⟨parts, -, rfl, hparts⟩ := hrep
    cases parts with
    | nil => exact Nat.le_refl 0
    | cons u parts =>
      obtain ⟨hne, hd⟩ := hparts u List.mem_cons_self
      have hu : u <+: text.drop position.toNat := (List.prefix_append u _).trans ht
      have hle := hg.le_extent hdet hpos hr hu hd
      have hlen := List.length_pos_of_ne_nil hne
      omega
  | @onward position m n _ hr hm rest ih =>
    by_cases hlen : t.length ≤ m.length
    · omega
    have hslice := (g.covering text limit depth position m hr).length_slice hpos
    have htaken : g.StandsFor (Sequence.between text position (position + m.length)) :=
      ⟨m.tokens, g.sound text limit depth position m hpos hr⟩
    rw [← Sequence.between_append_drop text hpos m.length] at ht
    obtain ⟨u, rfl⟩ := List.prefix_of_prefix_length_le (List.prefix_append _ _) ht (by omega)
    have hu := (List.prefix_append_right_inj _).1 ht
    obtain ⟨j, hj⟩ := hdet.repeats_of_longest htaken hrep fun v hv hd =>
      hg.eq_nil_of_longer hdet hpos hr (hv.trans hu) hd
    have hrest := ih (by omega) hu hj
    rw [List.length_append]
    omega

theorem zeroOrMore (hg : g.Exhaustive text limit) :
    (Component.zeroOrMore g).Exhaustive text limit := by
  intro hdet depth position m hpos hm t ht hd
  obtain ⟨n, hn, rfl⟩ := Component.consume_zeroOrMore_eq_ok_iff.1 hm
  obtain ⟨k, hrep⟩ := Component.standsFor_zeroOrMore_iff.1 hd
  rw [Match.length_merged]
  exact hg.chain hdet hn hpos ht hrep

theorem oneOrMore (hg : g.Exhaustive text limit) :
    (Component.oneOrMore g).Exhaustive text limit := by
  intro hdet depth position m hpos hm t ht hd
  obtain ⟨-, hrep⟩ := Component.standsFor_oneOrMore_iff.1 hd
  exact hg.zeroOrMore hdet depth position m hpos hm t ht (Component.standsFor_zeroOrMore_iff.2 hrep)

theorem zeroOrOne (hg : g.Exhaustive text limit) :
    (Component.zeroOrOne g).Exhaustive text limit := by
  intro hdet depth position m hpos hm t ht hd
  obtain ⟨r, hr, rfl⟩ := Component.consume_zeroOrOne_eq_ok_iff.1 hm
  rw [Match.length_merged]
  rcases Component.standsFor_zeroOrOne_iff.1 hd with rfl | hd
  · exact Nat.zero_le _
  · exact hg.le_extent hdet hpos hr ht hd

theorem group (hg : g.Exhaustive text limit) : (Component.group g).Exhaustive text limit := by
  intro hdet depth position m hpos hm t ht hd
  obtain ⟨r, hr, rfl⟩ := Component.consume_group_eq_ok_iff.1 hm
  obtain ⟨k, rfl, hle⟩ := hg hdet _ position r hpos hr t ht hd
  exact hle

theorem alternation (hg : g.Exhaustive text limit) (hh : h.Exhaustive text limit) :
    (Component.alternation g h).Exhaustive text limit := by
  intro hdet depth position m hpos hm t ht hd
  obtain ⟨hne, hd⟩ := Component.standsFor_alternation_iff.1 hd
  obtain ⟨r, hr, hcases⟩ := Component.consume_alternation_eq_ok_iff.1 hm
  have hlen := List.length_pos_of_ne_nil hne
  rcases hcases with ⟨h0, rfl⟩ | ⟨h0, r', hr', rfl⟩
  · rw [Match.length_merged]
    rcases hd with hd | hd
    · exact hg.le_extent hdet.left hpos hr ht hd
    · -- Both branches would begin with the same character.
      obtain ⟨htaken, hl, -⟩ := (g.sound text limit).pass hpos hr h0
      have hprefix : Sequence.between text position (position + Match.extent r) <+:
          text.drop position.toNat := ⟨_, Sequence.between_append_drop text hpos (Match.extent r)⟩
      rcases hl.begins.eq_nil_or_eq_nil hd.begins hdet hprefix ht with hnil | hnil
      · exact absurd hnil htaken
      · exact absurd hnil hne
  · rw [Match.length_merged]
    rcases hd with hd | hd
    · have hle := hg.le_extent hdet.left hpos hr ht hd
      omega
    · exact hh.le_extent hdet.right hpos hr' ht hd

theorem nil : Grammar.Exhaustive text limit [] := by
  intro _ depth position r hpos hr t ht hd
  obtain ⟨-, hw⟩ := run_eq_ok_iff.1 hr
  rw [walk_nil] at hw
  cases hw
  rw [standsFor_nil_iff.1 hd]
  exact ⟨.empty, rfl, Nat.le_refl 0⟩

theorem advances (hc : c.Exhaustive text limit) (hdet : c.Deterministic) {m : Match}
    (hpos : 0 ≤ position) (hm : c.Advances text limit depth position m)
    (ht : t <+: text.drop position.toNat) (hd : c.StandsFor t) : t.length ≤ m.length := by
  cases hm with
  | taking hm _ => exact hc hdet depth position m hpos hm t ht hd
  | @skipping k hk h0 _ =>
    have hle := hc hdet depth position k hpos hk t ht hd
    rwa [h0] at hle

theorem not_stuck (hc : c.Exhaustive text limit) (hdet : c.Deterministic) (hpos : 0 ≤ position)
    (hs : c.Stuck text limit depth position) (ht : t <+: text.drop position.toNat) :
    ¬ c.StandsFor t := by
  intro hd
  obtain ⟨⟨m, hm, h0⟩, hn⟩ := hs
  have hle := hc hdet depth position m hpos hm t ht hd
  obtain rfl : t = [] := List.length_eq_zero_iff.1 (by omega)
  exact Inherited.nullableExact.component c limit depth false hn hd

/-- What follows a component in a text of a sequence lies at the end of what was taken for
the component, unless nothing follows it. -/
theorem prefix_rest (hc : c.Exhaustive text limit) (hdet : Grammar.Deterministic (c :: g))
    {m : Match} (hpos : 0 ≤ position) (hm : c.Advances text limit depth position m) {t₁ t₂ : Text}
    (ht : t₁ ++ t₂ <+: text.drop position.toNat) (hd₁ : c.StandsFor t₁) (hd₂ : g.StandsFor t₂) :
    t₂ <+: text.drop (position + m.length).toNat := by
  have hslice := (Covering.advances (c.covering text limit) hm).length_slice hpos
  have htaken : c.StandsFor (Sequence.between text position (position + m.length)) :=
    ⟨m.tokens, Sound.advances ((Inherited.sound text limit).component c) hpos hm⟩
  have ht₁ : t₁ <+: text.drop position.toNat := (List.prefix_append t₁ t₂).trans ht
  have hle := advances hc hdet.head hpos hm ht₁ hd₁
  rw [← Sequence.between_append_drop text hpos m.length] at ht ht₁
  obtain ⟨v, hv⟩ := List.prefix_of_prefix_length_le ht₁ (List.prefix_append _ _) (by omega)
  rw [← hv] at ht htaken
  rw [List.append_assoc, List.prefix_append_right_inj] at ht
  have hbegins := hdet.head.begins hd₁ htaken
  rcases hbegins.eq_nil_or_eq_nil hd₂.begins hdet (List.prefix_append v _) ht with rfl | rfl
  · exact ht
  · exact List.nil_prefix

theorem cons (hc : c.Exhaustive text limit) (hg : g.Exhaustive text limit) :
    Grammar.Exhaustive text limit (c :: g) := by
  intro hdet depth position r hpos hr t ht hd
  obtain ⟨hallow, hw⟩ := run_eq_ok_iff.1 hr
  by_cases hp : position = text.length
  · subst hp
    rw [Int.toNat_natCast, List.drop_length] at ht
    obtain rfl := List.prefix_nil.1 ht
    obtain ⟨bare, hbare, rfl⟩ := walk_at_end_eq_ok_iff.1 hw
    cases bare with
    | false => exact absurd hd (Inherited.nullableExact.grammar (c :: g) limit depth false hbare)
    | true => exact ⟨.empty, rfl, Nat.le_refl 0⟩
  · obtain ⟨t₁, t₂, rfl, hd₁, hd₂⟩ := standsFor_cons_iff.1 hd
    have ht₁ : t₁ <+: text.drop position.toNat := (List.prefix_append t₁ t₂).trans ht
    rcases (walk_cons_eq_ok_iff hp).1 hw with ⟨hstuck, -⟩ | ⟨m, rest, hm, hrest, rfl⟩
    · exact absurd hd₁ (not_stuck hc hdet.head hpos hstuck ht₁)
    · have hle := advances hc hdet.head hpos hm ht₁ hd₁
      have ht₂ := prefix_rest hc hdet hpos hm ht hd₁ hd₂
      obtain ⟨l, rfl, hl⟩ := hg hdet.tail depth _ rest (by omega)
        (run_eq_ok_iff.2 ⟨hallow, hrest⟩) t₂ ht₂ hd₂
      refine ⟨m ++ l, rfl, ?_⟩
      rw [List.length_append, Match.length_append]
      omega

end Grammar.Exhaustive

theorem Component.Exhaustive.literal (text : Text) (limit : Option Int) (w : Word) :
    (Component.literal w).Exhaustive text limit := by
  intro _ depth position m hpos hm t ht hd
  rw [consume_literal] at hm
  cases hm
  obtain ⟨ts, rfl, -⟩ := hd
  exact (Match.length_word_eq w hpos ht).ge

theorem Inherited.exhaustive (text : Text) (limit : Option Int) :
    Inherited (Component.Exhaustive text limit) (Grammar.Exhaustive text limit) where
  literal w := .literal text limit w
  classified w _ := Component.Exhaustive.literal text limit w
  zeroOrMore hg := hg.zeroOrMore
  oneOrMore hg := hg.oneOrMore
  zeroOrOne hg := hg.zeroOrOne
  group hg := hg.group
  alternation hg hh := hg.alternation hh
  unknown cls payload _ depth position m hpos hm t ht hd := by
    obtain ⟨ts, hfalse⟩ := hd
    exact hfalse.elim
  nil := .nil
  cons hc hg := Grammar.Exhaustive.cons hc hg

/-- The match is of the longest text that the grammar stands for at the front of `rest`, and
no derivation of that text has other tokens. -/
structure Grammar.Longest (g : Grammar) (rest : Text) (m : Match) : Prop where
  length_le : m.length ≤ rest.length
  derives : g.Derives (rest.take m.length) m.tokens
  tokens_eq : ∀ ts, g.Derives (rest.take m.length) ts → ts = m.tokens
  longest : ∀ t, t <+: rest → g.StandsFor t → t.length ≤ m.length

namespace Grammar
variable {g : Grammar} {p : Nat} {m : Match} {r : Option Match}

theorem longest_of_run (hdet : g.Deterministic) (hp : p ≤ text.length)
    (hr : (g.run text limit depth p).result = .ok (some m)) : g.Longest (text.drop p) m := by
  have hpos : (0 : Int) ≤ p := Int.natCast_nonneg p
  have hderives := g.sound text limit depth p m hpos hr
  have hstop := (g.covering text limit depth p m hr).stop_le
  rw [Sequence.between_add] at hderives
  refine ⟨?_, hderives, ?_, ?_⟩
  · rw [List.length_drop]
    omega
  · intro ts hts
    exact Inherited.unambiguous.grammar g hdet _ ts m.tokens hts hderives
  · intro t ht hd
    exact ((Inherited.exhaustive text limit).grammar g).le_extent hdet hpos hr ht hd

theorem run_eq_none_iff (hdet : g.Deterministic) (hp : p ≤ text.length)
    (hr : (g.run text limit depth p).result = .ok r) :
    r = none ↔ ∀ t, t <+: text.drop p → ¬ g.StandsFor t := by
  constructor
  · rintro rfl t ht hd
    obtain ⟨m, hm, -⟩ := (Inherited.exhaustive text limit).grammar g hdet depth p none
      (Int.natCast_nonneg p) hr t ht hd
    cases hm
  · intro hnone
    cases r with
    | none => rfl
    | some m =>
      have hm := longest_of_run hdet hp hr
      exact absurd ⟨m.tokens, hm.derives⟩ (hnone _ (List.take_prefix m.length _))

theorem Longest.standsFor_iff {rest : Text} (h : g.Longest rest m) :
    g.StandsFor rest ↔ m.length = rest.length := by
  constructor
  · intro hd
    exact Nat.le_antisymm h.length_le (h.longest rest List.prefix_rfl hd)
  · intro hlen
    have hderives := h.derives
    rw [hlen, List.take_length] at hderives
    exact ⟨m.tokens, hderives⟩

end Grammar

/-- On a deterministic grammar within the limit a run comes to the longest text that the grammar
stands for, with the tokens of that text, and fails only where there is none. -/
theorem deterministic_runs_longest (s : Session) (g : Grammar) {n depth : Int} {p : Nat}
    (hn : s.limit = some n) (hk : g.isKnown = true) (hdet : g.Deterministic)
    (hd : depth + g.height ≤ n) (hp : p ≤ s.text.length) :
    (∃ r, (s.run g depth p true).2 = .ok r ∧
      (∀ m, r = some m → g.Longest (s.text.drop p) m) ∧
      (r = none ↔ ∀ t, t <+: s.text.drop p → ¬ g.StandsFor t)) ∧
    ∃ r, (s.run g depth p false).2 = .ok r ∧
      (∀ m, r = some m → g.Longest (s.text.drop p) m ∧ m.length = (s.text.drop p).length) ∧
      (r.isSome = true ↔ g.StandsFor (s.text.drop p)) := by
  obtain ⟨r, hr⟩ : ∃ r, (g.run s.text s.limit depth p).result = .ok r := by
    rw [hn]
    exact Grammar.exists_run hk hd
  have hlongest (m : Match) (hm : r = some m) : g.Longest (s.text.drop p) m :=
    Grammar.longest_of_run hdet hp (hm ▸ hr)
  have hnone := Grammar.run_eq_none_iff hdet hp hr
  refine ⟨⟨r, hr, hlongest, hnone⟩, _, Attempt.result_bind_of_ok _ hr, ?_, ?_⟩
  · intro m hm
    obtain ⟨hm, hstop⟩ := Option.filter_eq_some_iff.1 hm
    have hstop := of_decide_eq_true hstop
    refine ⟨hlongest m hm, ?_⟩
    rw [List.length_drop]
    omega
  · cases r with
    | none => exact iff_of_false Bool.false_ne_true (hnone.1 rfl _ List.prefix_rfl)
    | some m =>
      have hm := hlongest m rfl
      rw [hm.standsFor_iff, List.length_drop, Option.isSome_filter, Option.any_some,
        decide_eq_true_iff]
      omega

theorem deterministic_runs_longest_xaabay :
    ((Session.start "xaabay".toList (some 3)).run [.literal ⟨'x', []⟩,
        .zeroOrMore [.literal ⟨'a', []⟩, .zeroOrOne [.literal ⟨'b', []⟩]]] 1 (0 : Nat) true).2 =
      .ok (some ⟨5, ["x".toList, "aaba".toList]⟩) ∧
    Grammar.Longest [.literal ⟨'x', []⟩,
        .zeroOrMore [.literal ⟨'a', []⟩, .zeroOrOne [.literal ⟨'b', []⟩]]] "xaabay".toList
      ⟨5, ["x".toList, "aaba".toList]⟩ ∧
    ¬ Grammar.StandsFor [.literal ⟨'x', []⟩,
        .zeroOrMore [.literal ⟨'a', []⟩, .zeroOrOne [.literal ⟨'b', []⟩]]] "xaabay".toList := by
  have hheight : (1 : Int) + Grammar.height [.literal ⟨'x', []⟩,
      .zeroOrMore [.literal ⟨'a', []⟩, .zeroOrOne [.literal ⟨'b', []⟩]]] ≤ 3 := by decide
  have hdet : Grammar.Deterministic [.literal ⟨'x', []⟩,
      .zeroOrMore [.literal ⟨'a', []⟩, .zeroOrOne [.literal ⟨'b', []⟩]]] := by
    unfold Grammar.Deterministic
    decide
  obtain ⟨⟨r, hr, hlongest, -⟩, r', hr', -, hsome⟩ :=
    deterministic_runs_longest (Session.start "xaabay".toList (some 3)) _ rfl rfl hdet hheight
      (Nat.zero_le 6)
  obtain rfl : r = some ⟨5, ["x".toList, "aaba".toList]⟩ := Except.ok.inj (hr.symm.trans (by cbv))
  obtain rfl : r' = none := Except.ok.inj (hr'.symm.trans (by cbv))
  refine ⟨hr, hlongest _ rfl, ?_⟩
  intro hd
  exact Bool.false_ne_true (hsome.2 hd)

end GreedyMatch
