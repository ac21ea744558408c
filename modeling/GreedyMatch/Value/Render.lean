import GreedyMatch.Text.Quoted
import GreedyMatch.Value.Basic

/-!
# The written form of values

A component is written as the name of its sort and, in parentheses, its payload; a
grammar as the bracketed list of its components. A tuple of one item keeps a comma
after it, which tells it from an item in parentheses.
-/
namespace GreedyMatch

def Text.commaSeparated : List Text → Text
  | [] => []
  | [item] => item
  | item :: items => item ++ ',' :: ' ' :: Text.commaSeparated items

def Text.bracketed (items : List Text) : Text := '[' :: Text.commaSeparated items ++ [']']

def Text.tupled : List Text → Text
  | [item] => '(' :: item ++ ",)".toList
  | items => '(' :: Text.commaSeparated items ++ [')']

def Text.applied (name : String) (items : List Text) : Text :=
  name.toList ++ '(' :: Text.commaSeparated items ++ [')']

def Text.grammarForm (items : List Text) : Text := Text.applied "Grammar" [Text.bracketed items]

mutual

def Component.render : Component → Text
  | .literal word => Text.applied "Literal" [word.text.quoted]
  | .classified word kind => Text.applied "Classified" [word.text.quoted, kind.render]
  | .zeroOrMore inner => Text.applied "ZeroOrMore" [Text.grammarForm (Component.renderAll inner)]
  | .oneOrMore inner => Text.applied "OneOrMore" [Text.grammarForm (Component.renderAll inner)]
  | .zeroOrOne inner => Text.applied "ZeroOrOne" [Text.grammarForm (Component.renderAll inner)]
  | .group inner => Text.applied "Group" [Text.grammarForm (Component.renderAll inner)]
  | .alternation left right =>
    Text.applied "Alternation"
      [Text.grammarForm (Component.renderAll left), Text.grammarForm (Component.renderAll right)]
  | .unknown cls payload => Text.applied cls.name (Value.renderAll payload)

def Component.renderAll : List Component → List Text
  | [] => []
  | c :: cs => c.render :: Component.renderAll cs

def Value.render : Value → Text
  | .nothing => "None".toList
  | .bool true => "True".toList
  | .bool false => "False".toList
  | .int n => Text.ofInt n
  | .text t => t.quoted
  | .list items => Text.bracketed (Value.renderAll items)
  | .tuple items => Text.tupled (Value.renderAll items)
  | .component c => c.render
  | .grammar components => Text.grammarForm (Component.renderAll components)

def Value.renderAll : List Value → List Text
  | [] => []
  | v :: vs => v.render :: Value.renderAll vs

end

namespace Value

/-- A text stands for itself; any other value is written out. -/
def plain : Value → Text
  | .text t => t
  | v => v.render

end Value

def Text.renderTokens (tokens : List Text) : Text := Text.bracketed (tokens.map Text.quoted)

theorem Component.renderAll_eq_map (cs : List Component) :
    Component.renderAll cs = cs.map Component.render := by
  induction cs with
  | nil => rfl
  | cons c cs ih => rw [Component.renderAll, ih, List.map_cons]

theorem Value.renderAll_eq_map (vs : List Value) : Value.renderAll vs = vs.map Value.render := by
  induction vs with
  | nil => rfl
  | cons v vs ih => rw [Value.renderAll, ih, List.map_cons]

example : (Value.tuple [.int 1]).render = "(1,)".toList := by decide

example : (Value.grammar [.group [], .wildcard [.nothing, .bool true]]).render =
    "Grammar([Group(Grammar([])), Wildcard(None, True)])".toList := by decide

end GreedyMatch
