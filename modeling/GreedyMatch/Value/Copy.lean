import GreedyMatch.Value.Build

/-!
# Copies

A copy builds a value anew from the bottom up: first the parts, then the whole from
its tag and the copied parts, with every check that building makes.
-/
namespace GreedyMatch

mutual

def Component.copy : Component → Except BuildError Component
  | .literal word => Component.ofTag .literal [.text word.text]
  | .classified word kind => do
    let k ← kind.copy
    Component.ofTag .classified [.text word.text, k]
  | .zeroOrMore inner => do
    let g ← Component.copyAll inner
    Component.ofTag .zeroOrMore [.tuple g]
  | .oneOrMore inner => do
    let g ← Component.copyAll inner
    Component.ofTag .oneOrMore [.tuple g]
  | .zeroOrOne inner => do
    let g ← Component.copyAll inner
    Component.ofTag .zeroOrOne [.tuple g]
  | .group inner => do
    let g ← Component.copyAll inner
    Component.ofTag .group [.tuple g]
  | .alternation left right => do
    let g ← Component.copyAll left
    let h ← Component.copyAll right
    Component.ofTag .alternation [.tuple g, .tuple h]
  | .unknown cls payload => do
    let vs ← Value.copyAll payload
    return .unknown cls vs

def Component.copyAll : List Component → Except BuildError (List Value)
  | [] => .ok []
  | c :: cs => do
    let d ← c.copy
    let ds ← Component.copyAll cs
    return .component d :: ds

def Value.copy : Value → Except BuildError Value
  | .list items => do
    let vs ← Value.copyAll items
    return .list vs
  | .tuple items => do
    let vs ← Value.copyAll items
    return .tuple vs
  | .component c => do
    let d ← c.copy
    return .component d
  | .grammar components => do
    let vs ← Component.copyAll components
    let g ← (Value.tuple vs).toGrammar
    return .grammar g
  | .nothing => .ok .nothing
  | .bool b => .ok (.bool b)
  | .int n => .ok (.int n)
  | .text t => .ok (.text t)

def Value.copyAll : List Value → Except BuildError (List Value)
  | [] => .ok []
  | v :: vs => do
    let w ← v.copy
    let ws ← Value.copyAll vs
    return w :: ws

end
end GreedyMatch
