import GreedyMatch.Proofs.Match.Alignment
import GreedyMatch.Proofs.Match.Possessive

/-!
# Nested repetitions

A repetition inside of another one takes at once what several passes would have taken, and leaves
the outer one with a pass that takes nothing. So the outer repetition makes other passes, and fewer
of them, but it stops at the same place. A repetition that must not be left out comes to the same
as one pass as a group with a repetition behind it that may be left out.
-/
namespace GreedyMatch
variable {text : Text} {limit : Option Int} {depth depth' position : Int}

namespace Chain
variable {size : Nat} {inner outer : Int → Attempt (Option Match)} {cursor : Int} {n : Nat}

theorem of_extents (h : Chain size outer cursor n)
    (hpass : ∀ (p : Int) r, p < size → (outer p).result = .ok r →
      ∃ r', (inner p).result = .ok r' ∧ Match.extent r' = Match.extent r) :
    Chain size inner cursor n := by
  induction h with
  | used h => exact .used h
  | stalled h hr h0 =>
    obtain ⟨r', hr', heq⟩ := hpass _ _ h hr
    exact .stalled h hr' (heq.trans h0)
  | @onward cursor m n h hr hm rest ih =>
    obtain ⟨r', hr', heq⟩ := hpass _ _ h hr
    have heq : Match.extent r' = m.length := heq
    cases r' with
    | none => exact absurd heq (Nat.ne_of_lt hm)
    | some m' =>
      have hlength : m'.length = m.length := heq
      rw [← hlength] at hm ih ⊢
      exact .onward h hr' hm ih

/-- If each pass is itself made up of all the passes that can be made there, the first one takes
everything. -/
theorem collapse (h : Chain size outer cursor n)
    (hpass : ∀ p r, (outer p).result = .ok r → Chain size inner p (Match.extent r)) :
    Chain size inner cursor n := by
  induction h with
  | used h => exact .used h
  | stalled h hr h0 =>
    have hinner := hpass _ _ hr
    rwa [h0] at hinner
  | @onward cursor m n h hr hm rest ih =>
    have hinner : Chain size inner cursor m.length := hpass _ _ hr
    rw [ih.unique hinner.at_stop]
    exact hinner

end Chain

namespace Grammar
variable {X g : Grammar} {c : Component} {r : Option Match}

theorem exists_consume_of_run (hp : position ≠ text.length)
    (h : (run text limit [c] depth position).result = .ok r) :
    ∃ m, (c.consume text limit depth position).result = .ok m ∧ Match.extent r = m.length := by
  obtain ⟨-, hw⟩ := run_eq_ok_iff.1 h
  rcases (walk_cons_eq_ok_iff hp).1 hw with ⟨⟨⟨m, hm, h0⟩, -⟩, rfl⟩ | ⟨m, rest, hadv, hrest, rfl⟩
  · exact ⟨m, hm, h0.symm⟩
  · rw [walk_nil] at hrest
    cases hrest
    obtain ⟨k, hk, heq⟩ := hadv.exists_consume
    exact ⟨k, hk, heq.symm⟩

theorem extent_run_at_end (h : (run text limit g depth text.length).result = .ok r) :
    Match.extent r = 0 := by
  obtain ⟨-, hw⟩ := run_eq_ok_iff.1 h
  obtain ⟨bare, -, rfl⟩ := walk_at_end_eq_ok_iff.1 hw
  cases bare <;> rfl

theorem chain_of_run {S : Component} (hS : S ∈ [Component.zeroOrMore X, .oneOrMore X])
    (h : (run text limit [S] depth position).result = .ok r) :
    Chain text.length (X.run text limit (depth + 1)) position (Match.extent r) := by
  by_cases hp : position = text.length
  · subst hp
    rw [extent_run_at_end h]
    exact .used le_rfl
  · obtain ⟨m, hm, heq⟩ := exists_consume_of_run hp h
    rw [Component.consume_of_repetition hS] at hm
    obtain ⟨n, hn, rfl⟩ := Component.consume_zeroOrMore_eq_ok_iff.1 hm
    rwa [heq, Match.length_merged]

/-- Passes over a component that repeats the grammar, or makes one pass over it, take what passes
over the grammar take. -/
theorem chain_of_passes {S : Component} {n : Nat}
    (hS : S ∈ [Component.zeroOrMore X, .oneOrMore X, .zeroOrOne X])
    (h : Chain text.length (run text limit [S] depth) position n) :
    Chain text.length (X.run text limit (depth + 1)) position n := by
  have hcases : S ∈ [Component.zeroOrMore X, .oneOrMore X] ∨ S = .zeroOrOne X := by
    simpa [or_assoc] using hS
  rcases hcases with hS | rfl
  · exact h.collapse fun p r hr => chain_of_run hS hr
  · apply h.of_extents
    intro p r hp hr
    obtain ⟨m, hm, heq⟩ := exists_consume_of_run (by omega) hr
    obtain ⟨r', hr', rfl⟩ := Component.consume_zeroOrOne_eq_ok_iff.1 hm
    exact ⟨r', hr', by rw [heq, Match.length_merged]⟩

theorem chain_of_shallower {n : Nat} (h : Chain text.length (g.run text limit depth) position n)
    (hd : depth' ≤ depth) : Chain text.length (g.run text limit depth') position n := by
  apply h.of_extents
  intro p r hp hr
  rw [(g.run_shallower hd p).eq_of_ok hr]
  exact ⟨r, hr, rfl⟩

theorem chain_of_extent_eq_zero (hr : (X.run text limit depth position).result = .ok r)
    (h0 : Match.extent r = 0) : Chain text.length (X.run text limit depth) position 0 := by
  by_cases hp : position < text.length
  · exact .stalled hp hr h0
  · exact .used (Int.not_lt.1 hp)

theorem run_oneOrMore_of_chain {n : Nat} (hallow : allow limit depth = .ok ())
    (h : Chain text.length (X.run text limit (depth + 1)) position n) :
    (run text limit [.oneOrMore X] depth position).result =
      .ok (if 0 < n then some (.merged text position n) else none) := by
  refine run_eq_ok_iff.2 ⟨hallow, ?_⟩
  by_cases hp : position = text.length
  · subst hp
    obtain rfl := h.unique (.used le_rfl)
    exact walk_at_end_eq_ok_iff.2 ⟨false, rfl, rfl⟩
  · have hm : ((Component.oneOrMore X).consume text limit depth position).result =
        .ok (.merged text position n) := Component.consume_zeroOrMore_eq_ok_iff.2 ⟨n, h, rfl⟩
    have hlength := Match.length_merged text position n
    apply (walk_cons_eq_ok_iff hp).2
    by_cases h0 : 0 < n
    · refine .inr ⟨_, some .empty, .taking hm (by omega), by rw [walk_nil]; rfl, ?_⟩
      rw [if_pos h0, Option.map_some, Match.append_empty]
    · exact .inl ⟨⟨⟨_, hm, by omega⟩, rfl⟩, if_neg h0⟩

theorem chain_of_advances_group {m : Match} {n : Nat}
    (hn : (Component.group X).nullable limit depth ≠ .ok true)
    (h : (Component.group X).Advances text limit depth position m)
    (rest : Chain text.length (X.run text limit (depth + 1)) (position + m.length) n) :
    0 < m.length ∧ Chain text.length (X.run text limit (depth + 1)) position (m.length + n) := by
  cases h with
  | skipping hm h0 hbare => exact absurd hbare hn
  | taking hm h0 =>
    obtain ⟨_ | m, hr, rfl⟩ := Component.consume_group_eq_ok_iff.1 hm
    · cases h0
    · have hm0 : 0 < m.length := h0
      have hstop := (X.covering text limit (depth + 1) position m hr).stop_le
      exact ⟨hm0, .onward (by omega) hr hm0 rest⟩

/-- A group with a repetition of its grammar behind it takes what all passes take, and fails if
that is nothing. -/
theorem exists_chain_of_group {limit' : Option Int} (hX : nullable limit' X depth' = .ok false)
    (h : (run text limit [.group X, .zeroOrMore X] depth position).result = .ok r) :
    ∃ n, Chain text.length (X.run text limit (depth + 1)) position n ∧
      r.map Match.length = if 0 < n then some n else none := by
  have hgroup : (Component.group X).nullable limit depth ≠ .ok true := nullable_group_ne_true hX
  obtain ⟨hallow, hw⟩ := run_eq_ok_iff.1 h
  by_cases hp : position = text.length
  · subst hp
    obtain ⟨bare, hbare, rfl⟩ := walk_at_end_eq_ok_iff.1 hw
    cases bare with
    | true => exact absurd (nullable_cons_eq_true_iff.1 hbare).1 hgroup
    | false => exact ⟨0, .used le_rfl, rfl⟩
  · rcases (walk_cons_eq_ok_iff hp).1 hw with ⟨⟨⟨m, hm, h0⟩, -⟩, rfl⟩ | ⟨m, rest, hadv, hrest, rfl⟩
    · -- The group does not tell a pass that failed from one that took nothing, and passes stop
      -- at either.
      obtain ⟨r', hr', rfl⟩ := Component.consume_group_eq_ok_iff.1 hm
      refine ⟨0, chain_of_extent_eq_zero hr' ?_, rfl⟩
      cases r' with
      | none => rfl
      | some m => exact h0
    · have hchain := chain_of_run (List.mem_cons_self ..) (run_eq_ok_iff.2 ⟨hallow, hrest⟩)
      obtain ⟨h0, hall⟩ := chain_of_advances_group hgroup hadv hchain
      cases rest with
      | none => exact absurd hrest (walk_ne_none rfl)
      | some k =>
        have hpos : 0 < m.length + k.length := by omega
        exact ⟨m.length + k.length, hall, (if_pos hpos).symm⟩

end Grammar

/-- Nested repetitions collapse into a single one, and a repetition that must not be left out does
as a group with a further repetition behind it. -/
theorem nested_repetitions_collapse (s : Session) (X : Grammar) (depth position : Int) :
    (∀ R ∈ [Component.zeroOrMore, .oneOrMore],
      ∀ S ∈ [Component.zeroOrMore, .oneOrMore, .zeroOrOne], ∀ m,
        (s.consume (.component (R [S X])) depth position).2 = .ok m →
          (s.consume (.component (.zeroOrMore X)) depth position).2 = .ok m) ∧
    (∀ S ∈ [Component.zeroOrMore, .oneOrMore], ∀ m,
      (s.consume (.component (.zeroOrOne [S X])) depth position).2 = .ok m →
        (s.consume (.component (.zeroOrMore X)) depth position).2 = .ok m) ∧
    (∀ limit depth', Grammar.nullable limit X depth' = .ok false → ∀ r',
      (s.run [.group X, .zeroOrMore X] depth position true).2 = .ok r' →
        ∃ r, (s.run [.oneOrMore X] depth position true).2 = .ok r ∧
          r.map (fun m => position + m.length) = r'.map fun m => position + m.length) := by
  refine ⟨?_, ?_, ?_⟩
  · intro R hR S hS m h
    have hR : R [S X] ∈ [Component.zeroOrMore [S X], .oneOrMore [S X]] :=
      List.mem_map_of_mem (f := fun R => R [S X]) hR
    have hS : S X ∈ [Component.zeroOrMore X, .oneOrMore X, .zeroOrOne X] :=
      List.mem_map_of_mem (f := fun S => S X) hS
    have h : ((R [S X]).consume s.text s.limit depth position).result = .ok m := h
    rw [Component.consume_of_repetition hR] at h
    obtain ⟨n, hn, rfl⟩ := Component.consume_zeroOrMore_eq_ok_iff.1 h
    have hchain := Grammar.chain_of_shallower (Grammar.chain_of_passes hS hn)
      (show depth + 1 ≤ depth + 1 + 1 by omega)
    exact Component.consume_zeroOrMore_eq_ok_iff.2 ⟨n, hchain, rfl⟩
  · intro S hS m h
    have hS : S X ∈ [Component.zeroOrMore X, .oneOrMore X] :=
      List.mem_map_of_mem (f := fun S => S X) hS
    obtain ⟨r, hr, rfl⟩ := Component.consume_zeroOrOne_eq_ok_iff.1 h
    have hchain := Grammar.chain_of_shallower (Grammar.chain_of_run hS hr)
      (show depth + 1 ≤ depth + 1 + 1 by omega)
    exact Component.consume_zeroOrMore_eq_ok_iff.2 ⟨_, hchain, rfl⟩
  · intro limit depth' hX r' h
    obtain ⟨n, hn, hlength⟩ := Grammar.exists_chain_of_group hX h
    have hallow := (Grammar.run_eq_ok_iff.1 h).1
    refine ⟨_, Grammar.run_oneOrMore_of_chain hallow hn, ?_⟩
    have hend (r : Option Match) : r.map (fun m => position + m.length) =
        (r.map Match.length).map fun (k : Nat) => position + k := by
      cases r <;> rfl
    rw [hend, hend r', hlength]
    by_cases h0 : 0 < n
    · rw [if_pos h0, if_pos h0, Option.map_some, Match.length_merged]
    · rw [if_neg h0, if_neg h0]
      rfl

theorem nested_repetitions_collapse_abac :
    ((Session.start "abac".toList (some 4)).consume (.component (.zeroOrMore
        [.oneOrMore [.literal ⟨'a', []⟩, .zeroOrOne [.literal ⟨'b', []⟩]]])) 0 0).2 =
      .ok ⟨3, ["aba".toList]⟩ ∧
    ((Session.start "abac".toList (some 4)).consume (.component (.zeroOrMore
        [.literal ⟨'a', []⟩, .zeroOrOne [.literal ⟨'b', []⟩]])) 0 0).2 =
      .ok ⟨3, ["aba".toList]⟩ ∧
    ((Session.start "abac".toList (some 4)).consume (.component (.zeroOrOne
        [.zeroOrMore [.literal ⟨'a', []⟩, .zeroOrOne [.literal ⟨'b', []⟩]]])) 0 2).2 =
      .ok ⟨1, ["a".toList]⟩ ∧
    ((Session.start "abac".toList (some 4)).consume (.component (.zeroOrMore
        [.literal ⟨'a', []⟩, .zeroOrOne [.literal ⟨'b', []⟩]])) 0 2).2 =
      .ok ⟨1, ["a".toList]⟩ ∧
    Grammar.nullable (some 4) [.literal ⟨'a', []⟩, .zeroOrOne [.literal ⟨'b', []⟩]] 0 =
      .ok false ∧
    ((Session.start "abac".toList (some 4)).run
      [.group [.literal ⟨'a', []⟩, .zeroOrOne [.literal ⟨'b', []⟩]],
        .zeroOrMore [.literal ⟨'a', []⟩, .zeroOrOne [.literal ⟨'b', []⟩]]] 0 0 true).2 =
      .ok (some ⟨3, ["a".toList, "b".toList, "a".toList]⟩) ∧
    ∃ r, ((Session.start "abac".toList (some 4)).run
        [.oneOrMore [.literal ⟨'a', []⟩, .zeroOrOne [.literal ⟨'b', []⟩]]] 0 0 true).2 = .ok r ∧
      r.map (fun m => (0 : Int) + m.length) = some 3 := by
  have houter : ((Session.start "abac".toList (some 4)).consume (.component (.zeroOrMore
        [.oneOrMore [.literal ⟨'a', []⟩, .zeroOrOne [.literal ⟨'b', []⟩]]])) 0 0).2 =
      .ok ⟨3, ["aba".toList]⟩ := by cbv
  have honce : ((Session.start "abac".toList (some 4)).consume (.component (.zeroOrOne
        [.zeroOrMore [.literal ⟨'a', []⟩, .zeroOrOne [.literal ⟨'b', []⟩]]])) 0 2).2 =
      .ok ⟨1, ["a".toList]⟩ := by cbv
  have hn : Grammar.nullable (some 4) [.literal ⟨'a', []⟩, .zeroOrOne [.literal ⟨'b', []⟩]] 0 =
      .ok false := rfl
  have hgroup : ((Session.start "abac".toList (some 4)).run
      [.group [.literal ⟨'a', []⟩, .zeroOrOne [.literal ⟨'b', []⟩]],
        .zeroOrMore [.literal ⟨'a', []⟩, .zeroOrOne [.literal ⟨'b', []⟩]]] 0 0 true).2 =
      .ok (some ⟨3, ["a".toList, "b".toList, "a".toList]⟩) := by cbv
  obtain ⟨hnested, -, hunroll⟩ := nested_repetitions_collapse
    (Session.start "abac".toList (some 4))
    [.literal ⟨'a', []⟩, .zeroOrOne [.literal ⟨'b', []⟩]] 0 0
  obtain ⟨-, hone, -⟩ := nested_repetitions_collapse (Session.start "abac".toList (some 4))
    [.literal ⟨'a', []⟩, .zeroOrOne [.literal ⟨'b', []⟩]] 0 2
  exact ⟨houter, hnested _ (.head _) _ (.tail _ (.head _)) _ houter, honce,
    hone _ (.head _) _ honce, hn, hgroup, hunroll (some 4) 0 hn _ hgroup⟩

end GreedyMatch
