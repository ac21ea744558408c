import GreedyMatch.Proofs.Match.Group

/-!
# Grammars without groups

A group may be replaced by the components in it, wherever it stands. The grammar that is
left runs at smaller depths, so it may come to an outcome where the other one nests too
deeply; in all other cases the two have the same outcome, the same fault, and reach equally
far.
-/
namespace GreedyMatch
variable {text : Text} {n depth depth' position : Int}

mutual

/-- What stands in place of a component when no group is left anywhere. -/
def Component.ungroup : Component → Grammar
  | .literal w => [.literal w]
  | .classified w kind => [.classified w kind]
  | .zeroOrMore inner => [.zeroOrMore (Grammar.ungroup inner)]
  | .oneOrMore inner => [.oneOrMore (Grammar.ungroup inner)]
  | .zeroOrOne inner => [.zeroOrOne (Grammar.ungroup inner)]
  | .group inner => Grammar.ungroup inner
  | .alternation left right => [.alternation (Grammar.ungroup left) (Grammar.ungroup right)]
  | .unknown cls payload => [.unknown cls payload]

/-- The grammar with the components of every group spliced in place of the group. -/
def Grammar.ungroup : Grammar → Grammar
  | [] => []
  | c :: cs => c.ungroup ++ Grammar.ungroup cs

end

mutual

def Component.isFlat : Component → Bool
  | .literal _ => true
  | .classified _ _ => true
  | .zeroOrMore inner => Grammar.isFlat inner
  | .oneOrMore inner => Grammar.isFlat inner
  | .zeroOrOne inner => Grammar.isFlat inner
  | .group _ => false
  | .alternation left right => Grammar.isFlat left && Grammar.isFlat right
  | .unknown _ _ => true

def Grammar.isFlat : Grammar → Bool
  | [] => true
  | c :: cs => c.isFlat && Grammar.isFlat cs

end

theorem Grammar.isFlat_append (g h : Grammar) :
    isFlat (g ++ h) = (isFlat g && isFlat h) := by
  induction g with
  | nil => rfl
  | cons c cs ih => rw [List.cons_append, isFlat, isFlat, ih, Bool.and_assoc]

theorem Grammar.isFlat_singleton (c : Component) : isFlat [c] = c.isFlat := by
  rw [isFlat, isFlat, Bool.and_true]

theorem Inherited.isFlat_ungroup :
    Inherited (fun c => c.ungroup.isFlat = true) (fun g => g.ungroup.isFlat = true) where
  literal _ := rfl
  classified _ _ := rfl
  zeroOrMore hg := by rwa [Component.ungroup, Grammar.isFlat_singleton]
  oneOrMore hg := by rwa [Component.ungroup, Grammar.isFlat_singleton]
  zeroOrOne hg := by rwa [Component.ungroup, Grammar.isFlat_singleton]
  group hg := hg
  alternation hg hh := by
    rw [Component.ungroup, Grammar.isFlat_singleton, Component.isFlat, hg, hh, Bool.and_true]
  unknown _ _ := rfl
  nil := rfl
  cons hc hg := by rw [Grammar.ungroup, Grammar.isFlat_append, hc, hg, Bool.and_true]

/-- What is nullable stays so without its groups, and so does what is not; there are no
depths left to be checked then. -/
theorem Inherited.nullable_ungroup :
    Inherited
      (fun c => ∀ limit depth bare, c.nullable limit depth = .ok bare →
        ∀ depth', Grammar.nullable limit c.ungroup depth' = .ok bare)
      (fun g => ∀ limit depth bare, Grammar.nullable limit g depth = .ok bare →
        ∀ depth', Grammar.nullable limit g.ungroup depth' = .ok bare) where
  literal _ limit depth bare h depth' := by rwa [Component.ungroup, Grammar.nullable_singleton]
  classified _ _ limit depth bare h depth' := by
    rwa [Component.ungroup, Grammar.nullable_singleton]
  zeroOrMore _ limit depth bare h depth' := by rwa [Component.ungroup, Grammar.nullable_singleton]
  oneOrMore _ limit depth bare h depth' := by rwa [Component.ungroup, Grammar.nullable_singleton]
  zeroOrOne _ limit depth bare h depth' := by rwa [Component.ungroup, Grammar.nullable_singleton]
  group hg limit depth bare h depth' := by
    rw [Component.nullable] at h
    cases ha : allow limit (depth + 1) with
    | error fault => simp [ha] at h
    | ok _ =>
      rw [ha] at h
      exact hg limit (depth + 1) bare h depth'
  alternation _ _ limit depth bare h depth' := by
    rwa [Component.ungroup, Grammar.nullable_singleton]
  unknown _ _ _ _ _ h := by cases h
  nil _ _ _ h _ := h
  cons {c g} hc hg limit depth bare h depth' := by
    rw [Grammar.nullable] at h
    rw [Grammar.ungroup, Grammar.nullable_append]
    rcases hn : c.nullable limit depth with fault | _ | _ <;> rw [hn] at h
    · cases h
    · rw [hc limit depth false hn depth']
      exact h
    · rw [hc limit depth true hn depth']
      exact hg limit depth bare h depth'

namespace Attempt
variable {α β : Type}

/-- The second attempt does as the first, or else the first one nests too deeply. -/
def SameUnlessTooDeep (x y : Attempt α) : Prop :=
  y = x ∨ ∃ depth limit, x.result = .error (.tooDeep depth limit)

namespace SameUnlessTooDeep
variable {x y : Attempt α} {f g : α → Attempt β}

theorem refl (x : Attempt α) : SameUnlessTooDeep x x := .inl rfl

theorem eq_of_ok {a : α} (h : SameUnlessTooDeep x y) (hx : x.result = .ok a) : y = x := by
  rcases h with heq | ⟨d, l, hdeep⟩
  · exact heq
  · rw [hx] at hdeep
    cases hdeep

theorem bind_of_ok (hxy : SameUnlessTooDeep x y)
    (hfg : ∀ a, x.result = .ok a → SameUnlessTooDeep (f a) (g a)) :
    SameUnlessTooDeep (x >>= f) (y >>= g) := by
  rcases hxy with rfl | ⟨d, l, hdeep⟩
  · rcases y with ⟨r, fault | a⟩
    · exact .inl rfl
    · rcases hfg a rfl with heq | ⟨d, l, hdeep⟩
      · left
        rw [bind_eq_of_ok, bind_eq_of_ok, heq]
      · exact .inr ⟨d, l, hdeep⟩
  · exact .inr ⟨d, l, result_bind_of_error f hdeep⟩

theorem bind (hxy : SameUnlessTooDeep x y) (hfg : ∀ a, SameUnlessTooDeep (f a) (g a)) :
    SameUnlessTooDeep (x >>= f) (y >>= g) := hxy.bind_of_ok fun a _ => hfg a

theorem followedBy {x y : Attempt (Option Match)} {next next' : Int → Attempt (Option Match)}
    (hxy : SameUnlessTooDeep x y) (hnext : ∀ p, SameUnlessTooDeep (next p) (next' p)) :
    SameUnlessTooDeep (x.followedBy next position) (y.followedBy next' position) := by
  apply hxy.bind
  intro r
  cases r with
  | none => exact .refl _
  | some m => exact (hnext (position + m.length)).bind fun _ => .refl _

/-- A run one level deeper may be too deep where the other one is not. -/
theorem guarded_left {run : Int → Attempt α} (h : SameUnlessTooDeep (run position) y) :
    SameUnlessTooDeep (guarded (some n) depth run position) y := by
  unfold guarded
  by_cases hn : n < depth
  · rw [allow_of_lt hn]
    exact .inr ⟨depth, n, rfl⟩
  · rwa [allow_of_le (by omega)]

theorem guarded {run run' : Int → Attempt α} (hd : depth' ≤ depth)
    (h : SameUnlessTooDeep (run position) (run' position)) :
    SameUnlessTooDeep (guarded (some n) depth run position)
      (guarded (some n) depth' run' position) := by
  by_cases hn : n < depth
  · right
    refine ⟨depth, n, ?_⟩
    rw [GreedyMatch.guarded, allow_of_lt hn]
    rfl
  · have hle : depth' ≤ n := by omega
    apply guarded_left
    rwa [GreedyMatch.guarded, allow_of_le hle]

theorem passes (size : Nat) {pass pass' : Int → Attempt (Option Match)}
    (h : ∀ p, SameUnlessTooDeep (pass p) (pass' p)) (cursor : Int) :
    SameUnlessTooDeep (passes size pass cursor) (passes size pass' cursor) := by
  rw [GreedyMatch.passes, GreedyMatch.passes]
  by_cases hc : cursor < size
  · rw [if_pos hc, if_pos hc]
    refine (h cursor).bind fun r => ?_
    by_cases h0 : 0 < Match.extent r
    · rw [if_pos h0, if_pos h0]
      exact (passes size h (cursor + Match.extent r)).bind fun k => .refl _
    · rw [if_neg h0, if_neg h0]
      exact .refl _
  · rw [if_neg hc, if_neg hc]
    exact .refl _
termination_by (size - cursor).toNat

theorem walk_cons {c : Component} {g h h' : Grammar}
    (hc : ∀ p, SameUnlessTooDeep (Grammar.walk text (some n) [c] depth p)
      (Grammar.walk text (some n) h depth' p))
    (hg : ∀ p, SameUnlessTooDeep (Grammar.walk text (some n) g depth p)
      (Grammar.walk text (some n) h' depth' p)) (position : Int) :
    SameUnlessTooDeep (Grammar.walk text (some n) (c :: g) depth position)
      (Grammar.walk text (some n) (h ++ h') depth' position) := by
  have hsplit : Grammar.walk text (some n) (c :: g) depth position =
      (Grammar.walk text (some n) [c] depth position).followedBy
        (Grammar.walk text (some n) g depth) position := Grammar.walk_append [c] g
  rw [hsplit, Grammar.walk_append]
  exact (hc position).followedBy hg

end SameUnlessTooDeep
end Attempt

/-- On its own a component does as what stands in its place without groups, also where that
is asked at a smaller depth. -/
def Component.UngroupsAlike (text : Text) (n : Int) (c : Component) : Prop :=
  ∀ depth depth' position, depth' ≤ depth →
    (Grammar.walk text (some n) [c] depth position).SameUnlessTooDeep
      (Grammar.walk text (some n) c.ungroup depth' position)

def Grammar.UngroupsAlike (text : Text) (n : Int) (g : Grammar) : Prop :=
  ∀ depth depth' position, depth' ≤ depth →
    (walk text (some n) g depth position).SameUnlessTooDeep
      (walk text (some n) g.ungroup depth' position)

namespace Grammar.UngroupsAlike
variable {c c' : Component} {g h : Grammar}

theorem run (hg : g.UngroupsAlike text n) (hd : depth' ≤ depth) (position : Int) :
    (g.run text (some n) depth position).SameUnlessTooDeep
      (g.ungroup.run text (some n) depth' position) :=
  .guarded hd (hg depth depth' position hd)

theorem singleton {bare : Except Fault Bool}
    (hn : c.nullable (some n) depth = bare) (hn' : c'.nullable (some n) depth' = bare)
    (hc : (c.consume text (some n) depth position).SameUnlessTooDeep
      (c'.consume text (some n) depth' position)) :
    (walk text (some n) [c] depth position).SameUnlessTooDeep
      (walk text (some n) [c'] depth' position) := by
  by_cases hp : position = text.length
  · subst hp
    rw [walk_length, walk_length, nullable_singleton, nullable_singleton, hn, hn']
    exact .refl _
  · rw [walk_singleton hp, walk_singleton hp, Component.step, Component.step, hn, hn']
    exact hc.bind fun m => .refl _

theorem passes (hg : g.UngroupsAlike text n) (hd : depth' ≤ depth) (position : Int) :
    ((Component.zeroOrMore g).consume text (some n) depth position).SameUnlessTooDeep
      ((Component.zeroOrMore g.ungroup).consume text (some n) depth' position) := by
  rw [Component.consume_zeroOrMore, Component.consume_zeroOrMore]
  apply Attempt.SameUnlessTooDeep.bind
  · exact .passes text.length (hg.run (by omega)) position
  · exact fun _ => .refl _

theorem zeroOrMore (hg : g.UngroupsAlike text n) :
    (Component.zeroOrMore g).UngroupsAlike text n := by
  intro depth depth' position hd
  exact singleton rfl rfl (hg.passes hd position)

theorem oneOrMore (hg : g.UngroupsAlike text n) :
    (Component.oneOrMore g).UngroupsAlike text n := by
  intro depth depth' position hd
  exact singleton rfl rfl (hg.passes hd position)

theorem zeroOrOne (hg : g.UngroupsAlike text n) :
    (Component.zeroOrOne g).UngroupsAlike text n := by
  intro depth depth' position hd
  refine singleton rfl rfl ?_
  rw [Component.consume_zeroOrOne, Component.consume_zeroOrOne]
  exact (hg.run (by omega) position).bind fun _ => .refl _

theorem group (hg : g.UngroupsAlike text n) : (Component.group g).UngroupsAlike text n := by
  intro depth depth' position hd
  rw [walk_group]
  exact .guarded_left (hg (depth + 1) depth' position (by omega))

theorem alternation (hg : g.UngroupsAlike text n) (hh : h.UngroupsAlike text n) :
    (Component.alternation g h).UngroupsAlike text n := by
  intro depth depth' position hd
  refine singleton rfl rfl ?_
  rw [Component.consume_alternation, Component.consume_alternation]
  apply (hg.run (by omega) position).bind
  intro r
  by_cases h0 : 0 < Match.extent r
  · rw [if_pos h0, if_pos h0]
    exact .refl _
  · rw [if_neg h0, if_neg h0]
    exact (hh.run (by omega) position).bind fun _ => .refl _

theorem nil : Grammar.UngroupsAlike text n [] := by
  intro depth depth' position _
  rw [ungroup, walk_nil, walk_nil]
  exact .refl _

theorem cons (hc : c.UngroupsAlike text n) (hg : g.UngroupsAlike text n) :
    Grammar.UngroupsAlike text n (c :: g) := by
  intro depth depth' position hd
  rw [ungroup]
  exact .walk_cons (fun p => hc depth depth' p hd) (fun p => hg depth depth' p hd) position

end Grammar.UngroupsAlike

theorem Inherited.ungroupsAlike (text : Text) (n : Int) :
    Inherited (Component.UngroupsAlike text n) (Grammar.UngroupsAlike text n) where
  literal _ _ _ _ _ := Grammar.UngroupsAlike.singleton rfl rfl (.refl _)
  classified _ _ _ _ _ _ := Grammar.UngroupsAlike.singleton rfl rfl (.refl _)
  zeroOrMore hg := hg.zeroOrMore
  oneOrMore hg := hg.oneOrMore
  zeroOrOne hg := hg.zeroOrOne
  group hg := hg.group
  alternation hg hh := hg.alternation hh
  unknown _ _ _ _ _ _ := Grammar.UngroupsAlike.singleton rfl rfl (.refl _)
  nil := .nil
  cons hc hg := Grammar.UngroupsAlike.cons hc hg

theorem Grammar.run_ungroup (text : Text) (limit : Option Int) (g : Grammar)
    (depth position : Int) :
    (g.run text limit depth position).SameUnlessTooDeep
      (g.ungroup.run text limit depth position) := by
  cases limit with
  | none => exact .refl _
  | some n => exact ((Inherited.ungroupsAlike text n).grammar g).run (Int.le_refl depth) position

/-- A group is transparent: with the components of all groups spliced in place of the groups a run
comes to the same, unless it nests too deeply. -/
theorem groups_are_transparent (g : Grammar) :
    (∀ (s : Session) (depth position : Int) (nested : Bool),
      (∀ d n, (s.run g depth position nested).2 ≠ .error (.tooDeep d n)) →
        s.run g.ungroup depth position nested = s.run g depth position nested) ∧
    (∀ (limit : Option Int) (depth : Int) (bare : Bool),
      Grammar.nullable limit g depth = .ok bare →
        Grammar.nullable limit g.ungroup depth = .ok bare) ∧
    g.ungroup.isFlat = true := by
  refine ⟨?_, ?_, Inherited.isFlat_ungroup.grammar g⟩
  · intro s depth position nested hdeep
    have hrun := g.run_ungroup s.text s.limit depth position
    have hwhole : (g.runWhole s.text s.limit depth position).SameUnlessTooDeep
        (g.ungroup.runWhole s.text s.limit depth position) := hrun.bind fun _ => .refl _
    cases nested with
    | true =>
      rcases hrun with heq | ⟨d, l, hdl⟩
      · exact congrArg s.record heq
      · exact absurd hdl (hdeep d l)
    | false =>
      rcases hwhole with heq | ⟨d, l, hdl⟩
      · exact congrArg s.record heq
      · exact absurd hdl (hdeep d l)
  · intro limit depth bare h
    exact Inherited.nullable_ungroup.grammar g limit depth bare h depth

theorem groups_are_transparent_xabb :
    (∀ d n, ((Session.start "xabb".toList (some 3)).run [.literal ⟨'x', []⟩,
        .group [.zeroOrOne [.literal ⟨'a', []⟩], .oneOrMore [.group [.literal ⟨'b', []⟩]]],
        .group [.wildcard []]] 0 0 false).2 ≠ .error (.tooDeep d n)) ∧
    (Session.start "xabb".toList (some 3)).run [.literal ⟨'x', []⟩,
        .zeroOrOne [.literal ⟨'a', []⟩], .oneOrMore [.literal ⟨'b', []⟩], .wildcard []] 0 0 false =
      (⟨"xabb".toList, some 3, 4⟩, .error (.unsupported (.component (.wildcard [])) none)) ∧
    Grammar.nullable (some 2)
      [.group [.zeroOrMore [.literal ⟨'a', []⟩], .group [.literal ⟨'b', []⟩]]] 0 = .ok false ∧
    Grammar.nullable (some 2) [.zeroOrMore [.literal ⟨'a', []⟩], .literal ⟨'b', []⟩] 0 =
      .ok false := by
  have hrun : (Session.start "xabb".toList (some 3)).run [.literal ⟨'x', []⟩,
        .group [.zeroOrOne [.literal ⟨'a', []⟩], .oneOrMore [.group [.literal ⟨'b', []⟩]]],
        .group [.wildcard []]] 0 0 false =
      (⟨"xabb".toList, some 3, 4⟩, .error (.unsupported (.component (.wildcard [])) none)) := by
    cbv
  have hdeep (d n : Int) : ((Session.start "xabb".toList (some 3)).run [.literal ⟨'x', []⟩,
        .group [.zeroOrOne [.literal ⟨'a', []⟩], .oneOrMore [.group [.literal ⟨'b', []⟩]]],
        .group [.wildcard []]] 0 0 false).2 ≠ .error (.tooDeep d n) := by
    rw [hrun]
    simp
  have hsame := (groups_are_transparent _).1 _ _ _ _ hdeep
  have hnullable : Grammar.nullable (some 2)
      [.group [.zeroOrMore [.literal ⟨'a', []⟩], .group [.literal ⟨'b', []⟩]]] 0 = .ok false := rfl
  exact ⟨hdeep, hsame.trans hrun, hnullable, (groups_are_transparent _).2.1 _ _ _ hnullable⟩

end GreedyMatch
