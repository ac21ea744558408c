import GreedyMatch.Proofs.Grammar.Shape
import GreedyMatch.Proofs.Match.Concat
import Mathlib.Tactic

/-!
# Other characters

A grammar may be written in other characters, with its words classified in another way or not
at all, and with other values in the payloads of
unknown classes. As long as no two characters become one, a
run of it over a text in these characters goes as before. It takes the same tokens in the other
characters, and it reaches as far: no character is treated in a way of its own.
-/
namespace GreedyMatch
variable {text : Text} {limit : Option Int} {depth position : Int}

/-- How a grammar is written anew. -/
structure Rewording where
  char : Char → Char
  /-- The kind of a word that had a kind, or `none` if the word is no longer classified. -/
  kind : Value → Option Value
  /-- What the payload of an unknown class holds in place of a value. -/
  content : Value → Value

def Word.map (f : Char → Char) (w : Word) : Word := ⟨f w.first, w.rest.map f⟩

theorem Word.text_map (f : Char → Char) (w : Word) : (w.map f).text = w.text.map f := rfl

theorem Word.map_id (w : Word) : w.map id = w := by rw [map, List.map_id, id_eq]

mutual

def Component.reword (R : Rewording) : Component → Component
  | .literal w => .literal (w.map R.char)
  | .classified w kind =>
    match R.kind kind with
    | some kind => .classified (w.map R.char) kind
    | none => .literal (w.map R.char)
  | .zeroOrMore inner => .zeroOrMore (Grammar.reword R inner)
  | .oneOrMore inner => .oneOrMore (Grammar.reword R inner)
  | .zeroOrOne inner => .zeroOrOne (Grammar.reword R inner)
  | .group inner => .group (Grammar.reword R inner)
  | .alternation left right => .alternation (Grammar.reword R left) (Grammar.reword R right)
  | .unknown cls payload => .unknown cls (payload.map R.content)

def Grammar.reword (R : Rewording) : Grammar → Grammar
  | [] => []
  | c :: cs => c.reword R :: Grammar.reword R cs

end

def Fault.reword (R : Rewording) : Fault → Fault
  | .unsupported (.component (.unknown cls payload)) position =>
    .unsupported (.component (.unknown cls (payload.map R.content))) position
  | fault => fault

namespace Fault
variable {R : Rewording} {fault : Fault}

theorem reword_cases (R : Rewording) (fault : Fault) :
    (∃ cls payload p, fault = .unsupported (.component (.unknown cls payload)) p ∧
      fault.reword R = .unsupported (.component (.unknown cls (payload.map R.content))) p) ∨
    (∀ cls payload p, fault ≠ .unsupported (.component (.unknown cls payload)) p) ∧
      fault.reword R = fault := by
  unfold reword
  split
  · exact .inl ⟨_, _, _, rfl, rfl⟩
  · rename_i hne
    exact .inr ⟨hne, rfl⟩

theorem reword_of_allow (h : allow limit depth = .error fault) : fault.reword R = fault := by
  unfold allow at h
  split at h
  · split_ifs at h
    cases h
    rfl
  · cases h
    rfl

theorem reword_eq_tooDeep_iff {d l : Int} : fault.reword R = .tooDeep d l ↔ fault = .tooDeep d l := by
  unfold reword
  split <;> simp

theorem reword_eq_noLimit_iff : fault.reword R = .noLimit ↔ fault = .noLimit := by
  unfold reword
  split <;> simp

theorem exists_reword_eq_unsupported_iff {p : Option Int} :
    (∃ v, fault.reword R = .unsupported v p) ↔ ∃ v, fault = .unsupported v p := by
  unfold reword
  split <;> simp

end Fault

def Match.map (f : Char → Char) (m : Match) : Match := ⟨m.length, m.tokens.map (List.map f)⟩

namespace Match
variable (f : Char → Char)

theorem map_id : Match.map id = id := by
  funext m
  simp [Match.map]

theorem map_append (m n : Match) : (m ++ n).map f = m.map f ++ n.map f :=
  congrArg (Match.mk _) List.map_append

theorem extent_map (r : Option Match) : extent (r.map (Match.map f)) = extent r := by
  cases r <;> rfl

theorem getD_map (r : Option Match) : (r.map (Match.map f)).getD .empty = (r.getD .empty).map f := by
  cases r <;> rfl

theorem map_merged (text : Text) (position : Int) (n : Nat) :
    (merged text position n).map f = merged (text.map f) position n := by
  unfold merged
  split_ifs
  · rfl
  · simp [Match.map, Sequence.between, Sequence.upTo, List.map_take, List.map_drop]

/-- A word lies at a position if and only if it does in other characters. -/
theorem map_word (hf : Function.Injective f) (text : Text) (w : Word) (position : Int) :
    (word text w position).map f = word (text.map f) (w.map f) position := by
  have hprefix : (w.map f).text.isPrefixOf
        ((text.map f).drop (Sequence.clamp (text.map f).length position)) =
      w.text.isPrefixOf (text.drop (Sequence.clamp text.length position)) := by
    rw [Bool.eq_iff_iff, List.isPrefixOf_iff_prefix, List.isPrefixOf_iff_prefix, Word.text_map,
      List.length_map, ← List.map_drop, List.prefix_map_iff_of_injective hf]
  rw [word, word, hprefix, Word.text_map, List.length_map]
  split_ifs <;> rfl

end Match

namespace Attempt
variable {α β γ δ : Type} (R : Rewording)

/-- The attempt as it goes in the grammar written anew, with `φ` for what becomes of an answer. -/
def reword (φ : α → β) (x : Attempt α) : Attempt β :=
  ⟨x.reached, (x.result.map φ).mapError (Fault.reword R)⟩

theorem reword_pure (φ : α → β) (a : α) : (pure a : Attempt α).reword R φ = pure (φ a) := rfl

theorem reword_ofExcept (e : Except Fault α) :
    (ofExcept e).reword R id = ofExcept (e.mapError (Fault.reword R)) := by
  cases e <;> rfl

theorem reword_bind {φ : α → β} {ψ : γ → δ} {x : Attempt α} {f : α → Attempt γ}
    {g : β → Attempt δ} (hfg : ∀ a, g (φ a) = (f a).reword R ψ) :
    x.reword R φ >>= g = (x >>= f).reword R ψ := by
  rcases x with ⟨r, fault | a⟩
  · rfl
  · change (⟨max r (g (φ a)).reached, (g (φ a)).result⟩ : Attempt δ) = _
    rw [hfg]
    rfl

variable {R}

theorem reword_guarded {φ : α → β} {run : Int → Attempt α} {run' : Int → Attempt β}
    (h : run' position = (run position).reword R φ) :
    guarded limit depth run' position = (guarded limit depth run position).reword R φ := by
  unfold guarded
  cases hallow : allow limit depth with
  | error fault => exact congrArg Attempt.fail (Fault.reword_of_allow hallow).symm
  | ok _ => exact h

theorem reword_passes (size : Nat) {pass pass' : Int → Attempt (Option Match)}
    (h : ∀ p, pass' p = (pass p).reword R (Option.map (Match.map R.char))) (cursor : Int) :
    passes size pass' cursor = (passes size pass cursor).reword R id := by
  rw [passes, passes]
  by_cases hc : cursor < size
  · rw [if_pos hc, if_pos hc, h cursor]
    refine reword_bind R fun r => ?_
    rw [Match.extent_map]
    by_cases h0 : 0 < Match.extent r
    · rw [if_pos h0, if_pos h0, reword_passes size h (cursor + Match.extent r)]
      exact reword_bind R fun k => rfl
    · rw [if_neg h0, if_neg h0]
      rfl
  · rw [if_neg hc, if_neg hc]
    rfl
termination_by (size - cursor).toNat

theorem reword_followedBy {x : Attempt (Option Match)} {next next' : Int → Attempt (Option Match)}
    (h : ∀ p, next' p = (next p).reword R (Option.map (Match.map R.char))) :
    (x.reword R (Option.map (Match.map R.char))).followedBy next' position =
      (x.followedBy next position).reword R (Option.map (Match.map R.char)) := by
  refine reword_bind R fun r => ?_
  cases r with
  | none => rfl
  | some m =>
    change (next' (position + m.length) >>= fun rest =>
      pure (rest.map (m.map R.char ++ ·))) = _
    rw [h]
    refine reword_bind R fun rest => ?_
    rw [reword_pure, Option.map_map, Option.map_map]
    congr 2
    funext n
    exact (Match.map_append R.char m n).symm

end Attempt

/-- Written anew, the component is nullable as before and takes the same in other characters. -/
def Component.RewordsAlike (R : Rewording) (text : Text) (limit : Option Int) (c : Component) :
    Prop :=
  ∀ depth, (c.reword R).nullable limit depth =
      (c.nullable limit depth).mapError (Fault.reword R) ∧
    ∀ position, (c.reword R).consume (text.map R.char) limit depth position =
      (c.consume text limit depth position).reword R (Match.map R.char)

def Grammar.RewordsAlike (R : Rewording) (text : Text) (limit : Option Int) (g : Grammar) : Prop :=
  ∀ depth, nullable limit (g.reword R) depth =
      (nullable limit g depth).mapError (Fault.reword R) ∧
    ∀ position, walk (text.map R.char) limit (g.reword R) depth position =
      (walk text limit g depth position).reword R (Option.map (Match.map R.char))

namespace Grammar.RewordsAlike
variable {R : Rewording} {c : Component} {g h : Grammar}

theorem run (hg : g.RewordsAlike R text limit) (depth position : Int) :
    (g.reword R).run (text.map R.char) limit depth position =
      (g.run text limit depth position).reword R (Option.map (Match.map R.char)) :=
  Attempt.reword_guarded ((hg depth).2 position)

theorem merged (hg : g.RewordsAlike R text limit) (depth position : Int) :
    ((g.reword R).run (text.map R.char) limit depth position >>= fun r =>
        pure (Match.merged (text.map R.char) position (Match.extent r))) =
      (g.run text limit depth position >>= fun r =>
        pure (Match.merged text position (Match.extent r))).reword R (Match.map R.char) := by
  rw [hg.run depth position]
  refine Attempt.reword_bind R fun r => ?_
  rw [Match.extent_map, Attempt.reword_pure, Match.map_merged]

theorem zeroOrMore (hg : g.RewordsAlike R text limit) :
    (Component.zeroOrMore g).RewordsAlike R text limit := by
  refine fun depth => ⟨rfl, fun position => ?_⟩
  rw [Component.reword, Component.consume_zeroOrMore, Component.consume_zeroOrMore,
    List.length_map, Attempt.reword_passes text.length (hg.run (depth + 1)) position]
  refine Attempt.reword_bind R fun n => ?_
  rw [id_eq, Attempt.reword_pure, Match.map_merged]

theorem oneOrMore (hg : g.RewordsAlike R text limit) :
    (Component.oneOrMore g).RewordsAlike R text limit :=
  fun depth => ⟨rfl, (hg.zeroOrMore depth).2⟩

theorem zeroOrOne (hg : g.RewordsAlike R text limit) :
    (Component.zeroOrOne g).RewordsAlike R text limit := by
  refine fun depth => ⟨rfl, fun position => ?_⟩
  rw [Component.reword, Component.consume_zeroOrOne, Component.consume_zeroOrOne]
  exact hg.merged (depth + 1) position

theorem group (hg : g.RewordsAlike R text limit) :
    (Component.group g).RewordsAlike R text limit := by
  refine fun depth => ⟨?_, fun position => ?_⟩
  · rw [Component.reword, Component.nullable, Component.nullable]
    cases hallow : allow limit (depth + 1) with
    | error fault => exact congrArg Except.error (Fault.reword_of_allow hallow).symm
    | ok _ => exact (hg (depth + 1)).1
  · rw [Component.reword, Component.consume_group, Component.consume_group,
      hg.run (depth + 1) position]
    refine Attempt.reword_bind R fun r => ?_
    rw [Match.getD_map, Attempt.reword_pure]

theorem alternation (hg : g.RewordsAlike R text limit) (hh : h.RewordsAlike R text limit) :
    (Component.alternation g h).RewordsAlike R text limit := by
  refine fun depth => ⟨rfl, fun position => ?_⟩
  rw [Component.reword, Component.consume_alternation, Component.consume_alternation,
    hg.run (depth + 1) position]
  refine Attempt.reword_bind R fun r => ?_
  rw [Match.extent_map]
  by_cases h0 : 0 < Match.extent r
  · rw [if_pos h0, if_pos h0, Attempt.reword_pure, Match.map_merged]
  · rw [if_neg h0, if_neg h0]
    exact hh.merged (depth + 1) position

theorem nil : Grammar.RewordsAlike R text limit [] := by
  refine fun depth => ⟨rfl, fun position => ?_⟩
  rw [reword, walk_nil, walk_nil]
  rfl

theorem nullable_cons (hc : c.RewordsAlike R text limit) (hg : g.RewordsAlike R text limit)
    (depth : Int) : nullable limit (reword R (c :: g)) depth =
      (nullable limit (c :: g) depth).mapError (Fault.reword R) := by
  rw [reword, nullable, nullable, (hc depth).1, (hg depth).1]
  rcases c.nullable limit depth with fault | _ | _ <;> rfl

theorem step (hc : c.RewordsAlike R text limit) (depth position : Int) :
    (c.reword R).step (text.map R.char) limit depth position =
      (c.step text limit depth position).reword R (Option.map (Match.map R.char)) := by
  obtain ⟨hnullable, hconsume⟩ := hc depth
  rw [Component.step, Component.step, hconsume position]
  refine Attempt.reword_bind R fun m => ?_
  change (if 0 < m.length then _ else _) = _
  by_cases h0 : 0 < m.length
  · rw [if_pos h0, if_pos h0]
    rfl
  · rw [if_neg h0, if_neg h0, hnullable, ← Attempt.reword_ofExcept]
    refine Attempt.reword_bind R fun bare => ?_
    cases bare <;> rfl

theorem cons (hc : c.RewordsAlike R text limit) (hg : g.RewordsAlike R text limit) :
    Grammar.RewordsAlike R text limit (c :: g) := by
  refine fun depth => ⟨nullable_cons hc hg depth, fun position => ?_⟩
  by_cases hp : position = text.length
  · have hlength : position = (text.map R.char).length := by rw [hp, List.length_map]
    rw [hlength, walk_length, ← hlength, hp, walk_length, nullable_cons hc hg depth]
    cases nullable limit (c :: g) depth with
    | error fault => rfl
    | ok bare => cases bare <;> rfl
  · have hlength : position ≠ (text.map R.char).length := by rwa [List.length_map]
    rw [reword, walk_cons hp, walk_cons hlength, step hc]
    exact Attempt.reword_followedBy (hg depth).2

end Grammar.RewordsAlike

section
variable {R : Rewording} (hR : Function.Injective R.char)
include hR

theorem Component.RewordsAlike.literal (text : Text) (limit : Option Int) (w : Word) :
    (Component.literal w).RewordsAlike R text limit := by
  refine fun depth => ⟨rfl, fun position => ?_⟩
  rw [reword, consume_literal, consume_literal, Attempt.reword_pure, Match.map_word _ hR]

theorem Component.RewordsAlike.classified (text : Text) (limit : Option Int) (w : Word)
    (kind : Value) : (Component.classified w kind).RewordsAlike R text limit := by
  have hliteral := Component.RewordsAlike.literal hR text limit w
  intro depth
  rw [reword]
  cases R.kind kind with
  | none => exact hliteral depth
  | some kind => exact hliteral depth

theorem Inherited.rewordsAlike (text : Text) (limit : Option Int) :
    Inherited (Component.RewordsAlike R text limit) (Grammar.RewordsAlike R text limit) where
  literal w := .literal hR text limit w
  classified w kind := .classified hR text limit w kind
  zeroOrMore hg := hg.zeroOrMore
  oneOrMore hg := hg.oneOrMore
  zeroOrOne hg := hg.zeroOrOne
  group hg := hg.group
  alternation hg hh := hg.alternation hh
  unknown cls payload depth := ⟨rfl, fun position => by
    rw [Component.reword, Component.consume_unknown, Component.consume_unknown]
    rfl⟩
  nil := .nil
  cons hc hg := .cons hc hg

theorem Grammar.nullable_reword (limit : Option Int) (g : Grammar) (depth : Int) :
    nullable limit (g.reword R) depth = (nullable limit g depth).mapError (Fault.reword R) :=
  ((Inherited.rewordsAlike hR [] limit).grammar g depth).1

theorem Grammar.run_reword (text : Text) (limit : Option Int) (g : Grammar) (depth position : Int) :
    (g.reword R).run (text.map R.char) limit depth position =
      (g.run text limit depth position).reword R (Option.map (Match.map R.char)) :=
  ((Inherited.rewordsAlike hR text limit).grammar g).run depth position

theorem Grammar.runWhole_reword (text : Text) (limit : Option Int) (g : Grammar)
    (depth position : Int) :
    (g.reword R).runWhole (text.map R.char) limit depth position =
      (g.runWhole text limit depth position).reword R (Option.map (Match.map R.char)) := by
  rw [runWhole, runWhole, run_reword hR]
  refine Attempt.reword_bind R fun r => ?_
  rw [Attempt.reword_pure, List.length_map]
  cases r with
  | none => rfl
  | some m =>
    rw [Option.map_some, Option.filter_some, Option.filter_some, apply_ite (Option.map _)]
    rfl

end

def Session.reword (R : Rewording) (s : Session) : Session :=
  { s with text := s.text.map R.char }

theorem Session.run_reword {R : Rewording} (hR : Function.Injective R.char) (s : Session)
    (g : Grammar) (depth position : Int) (nested : Bool) :
    (s.reword R).run (g.reword R) depth position nested =
      ((s.run g depth position nested).1.reword R,
        ((s.run g depth position nested).2.map (Option.map (Match.map R.char))).mapError
          (Fault.reword R)) := by
  cases nested with
  | true => exact congrArg (s.reword R).record (g.run_reword hR s.text s.limit depth position)
  | false =>
    exact congrArg (s.reword R).record (g.runWhole_reword hR s.text s.limit depth position)

/-- No character is special to a run: when the characters of the text and of the fixed words are
replaced one to one, it comes to the same in other characters. -/
theorem no_character_is_special {R : Rewording} (hR : Function.Injective R.char) (s : Session)
    (g : Grammar) (depth position : Int) (nested : Bool) :
    let before := s.run g depth position nested
    let after := (s.reword R).run (g.reword R) depth position nested
    after.1.furthest = before.1.furthest ∧
    (after.2 = .ok none ↔ before.2 = .ok none) ∧
    (∀ n tokens', after.2 = .ok (some ⟨n, tokens'⟩) ↔
      ∃ tokens, before.2 = .ok (some ⟨n, tokens⟩) ∧ tokens' = tokens.map (List.map R.char)) ∧
    (∀ d l, after.2 = .error (.tooDeep d l) ↔ before.2 = .error (.tooDeep d l)) ∧
    (after.2 = .error .noLimit ↔ before.2 = .error .noLimit) ∧
    (∀ p, (∃ v, after.2 = .error (.unsupported v p)) ↔
      ∃ v, before.2 = .error (.unsupported v p)) := by
  intro before after
  have hafter : after = (before.1.reword R,
      (before.2.map (Option.map (Match.map R.char))).mapError (Fault.reword R)) :=
    Session.run_reword hR s g depth position nested
  rw [hafter]
  refine ⟨rfl, ?_⟩
  rcases before.2 with fault | _ | ⟨n, tokens⟩
  · simp [Except.map, Except.mapError, Fault.reword_eq_tooDeep_iff, Fault.reword_eq_noLimit_iff,
      Fault.exists_reword_eq_unsupported_iff]
  · simp [Except.map, Except.mapError]
  · simp [Except.map, Except.mapError, Match.map, eq_comm]

theorem no_character_is_special_aab :
    Function.Injective (Equiv.swap 'a' ' ') ∧
    ((Session.start "  b".toList (some 2)).run
        [.oneOrMore [.literal ⟨' ', []⟩], .classified ⟨'b', []⟩ .nothing] 0 0 false).2 =
      .ok (some ⟨3, ["  ".toList, "b".toList]⟩) ∧
    ∃ v, ((Session.start "  b".toList (some 2)).run
        [.oneOrMore [.literal ⟨' ', []⟩], .wildcard [.text "a".toList]] 0 0 true).2 =
      .error (.unsupported v (some 2)) := by
  have hinj : Function.Injective (Rewording.mk (Equiv.swap 'a' ' ') some id).char :=
    Equiv.injective _
  have hmatch : ((Session.start "aab".toList (some 2)).run
      [.oneOrMore [.literal ⟨'a', []⟩], .classified ⟨'b', []⟩ .nothing] 0 0 false).2 =
    .ok (some ⟨3, ["aa".toList, "b".toList]⟩) := by cbv
  have hfault : ((Session.start "aab".toList (some 2)).run
      [.oneOrMore [.literal ⟨'a', []⟩], .wildcard [.text "a".toList]] 0 0 true).2 =
    .error (.unsupported (.component (.wildcard [.text "a".toList])) (some 2)) := by cbv
  obtain ⟨-, -, hsome, -⟩ := no_character_is_special hinj (.start "aab".toList (some 2))
    [.oneOrMore [.literal ⟨'a', []⟩], .classified ⟨'b', []⟩ .nothing] 0 0 false
  obtain ⟨-, -, -, -, -, hposition⟩ := no_character_is_special hinj
    (.start "aab".toList (some 2))
    [.oneOrMore [.literal ⟨'a', []⟩], .wildcard [.text "a".toList]] 0 0 true
  exact ⟨hinj, (hsome 3 _).2 ⟨_, hmatch, rfl⟩, (hposition (some 2)).2 ⟨_, hfault⟩⟩

end GreedyMatch
