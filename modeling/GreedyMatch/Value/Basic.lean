import GreedyMatch.Text.Word

/-!
# Components, grammars and values

A grammar is a sequence of components, matched from left to right. A value is
whatever may be offered where a component, a grammar or the kind of a classified
word is expected, so the two types refer to each other. Beside the classes that
analyses of grammars know there are others, whose components carry values of any sort.
-/
namespace GreedyMatch

/-- An analysis finds the case of a class by the name of the class. -/
def analysedNames : List String :=
  ["Literal", "Classified", "ZeroOrMore", "OneOrMore", "ZeroOrOne", "Group", "Alternation",
    "Grammar"]

/-- A class for which no analysis has a case. Classes with one name and one tag are still told
apart, by their numbers. -/
structure UnknownClass where
  name : String
  tag : Option Text
  number : Nat
  unanalysed : name ∉ analysedNames
  deriving DecidableEq

mutual

inductive Component
  | literal (word : Word)
  | classified (word : Word) (kind : Value)
  | zeroOrMore (inner : List Component)
  | oneOrMore (inner : List Component)
  | zeroOrOne (inner : List Component)
  | group (inner : List Component)
  | alternation (left right : List Component)
  | unknown (cls : UnknownClass) (payload : List Value)

inductive Value
  | nothing
  | bool (b : Bool)
  | int (n : Int)
  | text (t : Text)
  | list (items : List Value)
  | tuple (items : List Value)
  | component (c : Component)
  | grammar (components : List Component)

end

/-- The components of a grammar in order; `++` joins two grammars. -/
abbrev Grammar := List Component

/-- What a component is made of, in the order in which it is given. -/
def Component.payload : Component → List Value
  | .literal word => [.text word.text]
  | .classified word kind => [.text word.text, kind]
  | .zeroOrMore inner => [.grammar inner]
  | .oneOrMore inner => [.grammar inner]
  | .zeroOrOne inner => [.grammar inner]
  | .group inner => [.grammar inner]
  | .alternation left right => [.grammar left, .grammar right]
  | .unknown _ payload => payload

inductive ComponentClass
  | literal | classified | zeroOrMore | oneOrMore | zeroOrOne | group | alternation
  | unknown (cls : UnknownClass)
  deriving DecidableEq

def ComponentClass.name : ComponentClass → String
  | .literal => "Literal"
  | .classified => "Classified"
  | .zeroOrMore => "ZeroOrMore"
  | .oneOrMore => "OneOrMore"
  | .zeroOrOne => "ZeroOrOne"
  | .group => "Group"
  | .alternation => "Alternation"
  | .unknown cls => cls.name

def Component.cls : Component → ComponentClass
  | .literal _ => .literal
  | .classified _ _ => .classified
  | .zeroOrMore _ => .zeroOrMore
  | .oneOrMore _ => .oneOrMore
  | .zeroOrOne _ => .zeroOrOne
  | .group _ => .group
  | .alternation _ _ => .alternation
  | .unknown cls _ => .unknown cls

inductive ValueClass
  | nothing | bool | int | text | list | tuple | grammar
  | component (cls : ComponentClass)
  deriving DecidableEq

def ValueClass.name : ValueClass → String
  | .nothing => "NoneType"
  | .bool => "bool"
  | .int => "int"
  | .text => "str"
  | .list => "list"
  | .tuple => "tuple"
  | .grammar => "Grammar"
  | .component cls => cls.name

def Value.cls : Value → ValueClass
  | .nothing => .nothing
  | .bool _ => .bool
  | .int _ => .int
  | .text _ => .text
  | .list _ => .list
  | .tuple _ => .tuple
  | .grammar _ => .grammar
  | .component c => .component c.cls

/-- A class of components that can be anything. -/
def UnknownClass.wildcard : UnknownClass := ⟨"Wildcard", some "wildcard".toList, 0, by decide⟩

@[match_pattern]
abbrev Component.wildcard (payload : List Value) : Component := .unknown .wildcard payload

end GreedyMatch
