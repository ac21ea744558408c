import GreedyMatch.Value.Lookup

/-!
# Building grammars and components from values

A grammar is built from any sequence whose items are all components, and a component
from its tag and payload. What is built owes nothing to the form of the sequences it
was given: every composite holds grammars. An error names the cause that is found
first: the tag, then the length of the payload, then its items in order.
-/
namespace GreedyMatch

inductive Tag
  | literal
  | classified
  | keyword
  | zeroOrMore
  | oneOrMore
  | zeroOrOne
  | group
  | alternation
  deriving DecidableEq

def Tag.name : Tag → Text
  | .literal => "literal".toList
  | .classified => "classified".toList
  | .keyword => "keyword".toList
  | .zeroOrMore => "zero_or_more".toList
  | .oneOrMore => "one_or_more".toList
  | .zeroOrOne => "zero_or_one".toList
  | .group => "group".toList
  | .alternation => "alternation".toList

def Tag.all : List Tag :=
  [.literal, .classified, .keyword, .zeroOrMore, .oneOrMore, .zeroOrOne, .group, .alternation]

def Tag.table : List (Text × Tag) := Tag.all.map fun tag => (tag.name, tag)

inductive BuildError
  | unknownTag (tag : Value)
  | wrongArity
  | literalText (given : Value)
  | classifiedText (given : Value)
  | unhashable
  | notSequence (given : Value)
  | notIterable
  | notComponent (item : Value)
  | notGrammar (given : Value)

def BuildError.message? : BuildError → Option Text
  | .unknownTag tag => some ("No such component tag as ".toList ++ tag.render ++ ['.'])
  | .literalText given =>
    some ("Literal text must be a non-empty string, not ".toList ++ given.render ++ ['.'])
  | .classifiedText given =>
    some ("Classified text must be a non-empty string, not ".toList ++ given.render ++ ['.'])
  | .notSequence given =>
    some ("A grammar is built from a sequence of components, not ".toList ++ given.render ++ ['.'])
  | .notComponent item => some (item.render ++ " is not a grammar component.".toList)
  | .notGrammar given => some ("Expected a Grammar, got ".toList ++ given.render ++ ['.'])
  | .wrongArity | .unhashable | .notIterable => none

namespace Value

def word? : Value → Option Word
  | .text t => Word.ofText? t
  | _ => none

/-- The items as components; the first that is none is named. -/
def components : List Value → Except BuildError Grammar
  | [] => .ok []
  | .component c :: vs => (components vs).map (c :: ·)
  | v :: _ => .error (.notComponent v)

def toGrammar : Value → Except BuildError Grammar
  | .text t => .error (.notSequence (.text t))
  | .component c => .error (.notSequence (.component c))
  | .list items => components items
  | .tuple items => components items
  | .grammar g => .ok g
  | .nothing | .bool _ | .int _ => .error .notIterable

def concat (a b : Value) : Except BuildError Grammar := do
  let g ← a.toGrammar
  let h ← b.toGrammar
  return g ++ h

/-- A grammar takes on the components of a grammar, and nothing else. -/
def join? (g : Grammar) : Value → Option Grammar
  | .grammar h => some (g ++ h)
  | _ => none

theorem components_map_component (g : Grammar) : components (g.map .component) = .ok g := by
  induction g with
  | nil => rfl
  | cons c g ih => rw [List.map_cons, components, ih]; rfl

end Value

namespace Component

def classify (text kind : Value) : Except BuildError Component :=
  match text.word? with
  | none => .error (.classifiedText text)
  | some word => if kind.isHashable then .ok (.classified word kind) else .error .unhashable

def ofTag : Tag → List Value → Except BuildError Component
  | .literal, [text] =>
    match text.word? with
    | none => .error (.literalText text)
    | some word => .ok (.literal word)
  | .classified, [text, kind] => classify text kind
  | .keyword, [text] => classify text (.text Tag.keyword.name)
  | .zeroOrMore, [inner] => inner.toGrammar.map .zeroOrMore
  | .oneOrMore, [inner] => inner.toGrammar.map .oneOrMore
  | .zeroOrOne, [inner] => inner.toGrammar.map .zeroOrOne
  | .group, [inner] => inner.toGrammar.map .group
  | .alternation, [left, right] => do
    let l ← left.toGrammar
    let r ← right.toGrammar
    return .alternation l r
  | _, _ => .error .wrongArity

def build (tag : Value) (payload : List Value) : Except BuildError Component :=
  match lookup Tag.table tag with
  | .error .unhashable => .error .unhashable
  | .error (.unknown key) => .error (.unknownTag key)
  | .ok t => ofTag t payload

/-- The tag that a component is built from, if it is of a class that is built from one. -/
def tag? : Component → Option Tag
  | .literal _ => some .literal
  | .classified _ _ => some .classified
  | .zeroOrMore _ => some .zeroOrMore
  | .oneOrMore _ => some .oneOrMore
  | .zeroOrOne _ => some .zeroOrOne
  | .group _ => some .group
  | .alternation _ _ => some .alternation
  | .unknown _ _ => none

/-- The tag that a component shows; one of a class unknown here shows that of its class. -/
def shownTag? : Component → Option Text
  | .unknown cls _ => cls.tag
  | c => c.tag?.map Tag.name

def rebuild (c : Component) : Except BuildError Component :=
  match c.tag? with
  | some tag => build (.text tag.name) c.payload
  | none => .ok c

end Component

def Value.rebuild : Value → Except BuildError Value
  | .component c => c.rebuild.map .component
  | .grammar g => (Value.tuple (g.map .component)).toGrammar.map .grammar
  | v => .ok v

end GreedyMatch
