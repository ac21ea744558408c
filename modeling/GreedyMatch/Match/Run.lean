import GreedyMatch.Grammar.Nullable
import GreedyMatch.Match.Attempt
import GreedyMatch.Sequence.Slice

/-!
# Runs of a grammar over a text

A run walks a grammar from left to right. Each component takes as much as it can get
at the cursor and never gives any of it back; one that takes nothing must be nullable.
Once the text is used up the components that are left must all be nullable. A nested
grammar is run one level deeper and may stop anywhere, a whole text must be used up to
its last character.

Positions are integers. A position below zero counts back from the end of the text
wherever the text is looked at, while the cursor itself goes on from it by what is
consumed.
-/
namespace GreedyMatch

/-- What has been taken from a text: how many characters, and the tokens they make. -/
structure Match where
  length : Nat
  tokens : List Text
  deriving DecidableEq

namespace Match

def empty : Match := ⟨0, []⟩

protected def append (m n : Match) : Match := ⟨m.length + n.length, m.tokens ++ n.tokens⟩

instance : Append Match := ⟨Match.append⟩

theorem length_append (m n : Match) : (m ++ n).length = m.length + n.length := rfl

theorem tokens_append (m n : Match) : (m ++ n).tokens = m.tokens ++ n.tokens := rfl

theorem empty_append (m : Match) : empty ++ m = m := by
  change Match.mk (0 + m.length) ([] ++ m.tokens) = m
  rw [Nat.zero_add, List.nil_append]

theorem append_empty (m : Match) : m ++ empty = m := by
  change Match.mk (m.length + 0) (m.tokens ++ []) = m
  rw [Nat.add_zero, List.append_nil]

theorem append_assoc (l m n : Match) : l ++ m ++ n = l ++ (m ++ n) := by
  change Match.mk (l.length + m.length + n.length) (l.tokens ++ m.tokens ++ n.tokens) =
    Match.mk (l.length + (m.length + n.length)) (l.tokens ++ (m.tokens ++ n.tokens))
  rw [Nat.add_assoc, List.append_assoc]

/-- The match of a fixed word, empty where the text does not go on with it. -/
def word (text : Text) (w : Word) (position : Int) : Match :=
  if w.text.isPrefixOf (text.drop (Sequence.clamp text.length position)) then
    ⟨w.text.length, [w.text]⟩
  else empty

def merged (text : Text) (position : Int) (length : Nat) : Match :=
  if length = 0 then empty
  else ⟨length, [Sequence.between text position (position + length)]⟩

theorem merged_of_pos (text : Text) (position : Int) {n : Nat} (h : 0 < n) :
    merged text position n = ⟨n, [Sequence.between text position (position + n)]⟩ :=
  if_neg (Nat.ne_of_gt h)

theorem length_merged (text : Text) (position : Int) (n : Nat) :
    (merged text position n).length = n := by
  cases n <;> rfl

/-- How much a run has consumed, which is nothing if it failed. -/
def extent : Option Match → Nat
  | some m => m.length
  | none => 0

end Match

def guarded {α : Type} (limit : Option Int) (depth : Int) (run : Int → Attempt α)
    (cursor : Int) : Attempt α :=
  match allow limit depth with
  | .ok () => run cursor
  | .error fault => .fail fault

/-- How much is consumed by one pass after the other, as long as there is input left and
the passes consume something. -/
def passes (size : Nat) (pass : Int → Attempt (Option Match)) (cursor : Int) : Attempt Nat :=
  if cursor < size then do
    let n := Match.extent (← pass cursor)
    if 0 < n then return n + (← passes size pass (cursor + n)) else return 0
  else return 0
termination_by (size - cursor).toNat
decreasing_by omega

theorem passes_of_le {size : Nat} (pass : Int → Attempt (Option Match)) {cursor : Int}
    (h : (size : Int) ≤ cursor) : passes size pass cursor = pure 0 := by
  rw [passes, if_neg (by omega)]

mutual

/-- What a component of a grammar at `depth` takes from the text at a position. An empty
match means that it takes nothing; whether it may is for the walk to decide. -/
def Component.consume (text : Text) (limit : Option Int) : Component → Int → Int → Attempt Match
  | .literal w, _, position => return .word text w position
  | .classified w _, _, position => return .word text w position
  | .zeroOrMore inner, depth, position => do
    let n ← passes text.length
      (guarded limit (depth + 1) (Grammar.walk text limit inner (depth + 1))) position
    return .merged text position n
  | .oneOrMore inner, depth, position => do
    let n ← passes text.length
      (guarded limit (depth + 1) (Grammar.walk text limit inner (depth + 1))) position
    return .merged text position n
  | .zeroOrOne inner, depth, position => do
    let m ← guarded limit (depth + 1) (Grammar.walk text limit inner (depth + 1)) position
    return .merged text position (Match.extent m)
  | .group inner, depth, position => do
    let m ← guarded limit (depth + 1) (Grammar.walk text limit inner (depth + 1)) position
    return m.getD .empty
  | .alternation left right, depth, position => do
    let m ← guarded limit (depth + 1) (Grammar.walk text limit left (depth + 1)) position
    if 0 < Match.extent m then
      return .merged text position (Match.extent m)
    else do
      let n ← guarded limit (depth + 1) (Grammar.walk text limit right (depth + 1)) position
      return .merged text position (Match.extent n)
  | .unknown cls payload, _, position =>
    .fail (.unsupported (.component (.unknown cls payload)) (some position))

/-- A walk at `depth`, which it does not check. -/
def Grammar.walk (text : Text) (limit : Option Int) :
    List Component → Int → Int → Attempt (Option Match)
  | [], _, _ => return some .empty
  | c :: cs, depth, cursor =>
    if cursor = text.length then do
      let bare ← .ofExcept (Grammar.nullable limit (c :: cs) depth)
      return if bare then some .empty else none
    else do
      let m ← c.consume text limit depth cursor
      if 0 < m.length then
        .mark (cursor + m.length)
        let rest ← Grammar.walk text limit cs depth (cursor + m.length)
        return rest.map (m ++ ·)
      else if ← .ofExcept (c.nullable limit depth) then
        Grammar.walk text limit cs depth cursor
      else
        return none

end

namespace Grammar

def run (text : Text) (limit : Option Int) (g : Grammar) (depth position : Int) :
    Attempt (Option Match) :=
  guarded limit depth (walk text limit g depth) position

def runWhole (text : Text) (limit : Option Int) (g : Grammar) (depth position : Int) :
    Attempt (Option Match) := do
  let m ← run text limit g depth position
  return m.filter fun m => position + m.length = text.length

def isMatch (text : Text) (g : Grammar) : Except Fault Bool :=
  (runWhole text (some defaultLimit) g 0 0).result.map Option.isSome

end Grammar

namespace Component
variable (text : Text) (limit : Option Int) (inner left right : Grammar) (depth position : Int)

theorem consume_zeroOrMore :
    (zeroOrMore inner).consume text limit depth position = (do
      let n ← passes text.length (inner.run text limit (depth + 1)) position
      return .merged text position n) := rfl

/-- A repetition that may not be left out takes as much as one that may; it differs in
not being nullable. -/
theorem consume_oneOrMore :
    (oneOrMore inner).consume text limit depth position =
      (zeroOrMore inner).consume text limit depth position := rfl

theorem consume_zeroOrOne :
    (zeroOrOne inner).consume text limit depth position = (do
      let m ← inner.run text limit (depth + 1) position
      return .merged text position (Match.extent m)) := rfl

theorem consume_group :
    (group inner).consume text limit depth position = (do
      let m ← inner.run text limit (depth + 1) position
      return m.getD .empty) := rfl

theorem consume_alternation :
    (alternation left right).consume text limit depth position = (do
      let m ← left.run text limit (depth + 1) position
      if 0 < Match.extent m then
        return .merged text position (Match.extent m)
      else do
        let n ← right.run text limit (depth + 1) position
        return .merged text position (Match.extent n)) := rfl

end Component

def Value.consume (text : Text) (limit : Option Int) (v : Value) (depth position : Int) :
    Attempt Match :=
  match v with
  | .component c => c.consume text limit depth position
  | v => .fail (.unsupported v (some position))

end GreedyMatch
