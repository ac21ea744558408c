import GreedyMatch.Value.Basic

/-!
# Equality of values

Two values are equal when they are of one sort and their parts are equal in order;
booleans count as the integers zero and one. Sequences of different sorts are never
equal, whatever their items. A value serves as a key unless a list occurs anywhere
inside it.
-/
namespace GreedyMatch

mutual

def Component.same : Component → Component → Bool
  | .literal v, .literal w => v == w
  | .classified v j, .classified w k => v == w && j.same k
  | .zeroOrMore g, .zeroOrMore h => Component.sameAll g h
  | .oneOrMore g, .oneOrMore h => Component.sameAll g h
  | .zeroOrOne g, .zeroOrOne h => Component.sameAll g h
  | .group g, .group h => Component.sameAll g h
  | .alternation g g', .alternation h h' => Component.sameAll g h && Component.sameAll g' h'
  | .unknown c xs, .unknown d ys => c == d && Value.sameAll xs ys
  | _, _ => false

def Component.sameAll : List Component → List Component → Bool
  | [], [] => true
  | c :: cs, d :: ds => c.same d && Component.sameAll cs ds
  | _, _ => false

def Value.same : Value → Value → Bool
  | .nothing, .nothing => true
  | .bool a, .bool b => a == b
  | .bool a, .int n => a.toInt == n
  | .int m, .bool b => m == b.toInt
  | .int m, .int n => m == n
  | .text s, .text t => s == t
  | .list xs, .list ys => Value.sameAll xs ys
  | .tuple xs, .tuple ys => Value.sameAll xs ys
  | .component c, .component d => c.same d
  | .grammar g, .grammar h => Component.sameAll g h
  | _, _ => false

def Value.sameAll : List Value → List Value → Bool
  | [], [] => true
  | x :: xs, y :: ys => x.same y && Value.sameAll xs ys
  | _, _ => false

end

namespace Value

/-- Two items in the same place that are not equal, or one item more on one of the sides. -/
def anyDiffers : List Value → List Value → Bool
  | [], [] => false
  | x :: xs, y :: ys => !x.same y || anyDiffers xs ys
  | _, _ => true

/-- Sequences differ by their items; a component and a grammar, by not being equal. -/
def differs : Value → Value → Bool
  | .list xs, .list ys => anyDiffers xs ys
  | .tuple xs, .tuple ys => anyDiffers xs ys
  | .nothing, .nothing => false
  | .bool a, .bool b => a != b
  | .bool a, .int n => a.toInt != n
  | .int m, .bool b => m != b.toInt
  | .int m, .int n => m != n
  | .text s, .text t => s != t
  | v, w => !v.same w

end Value

mutual

def Component.isHashable : Component → Bool
  | .literal _ => true
  | .classified _ kind => kind.isHashable
  | .zeroOrMore inner => Component.allHashable inner
  | .oneOrMore inner => Component.allHashable inner
  | .zeroOrOne inner => Component.allHashable inner
  | .group inner => Component.allHashable inner
  | .alternation left right => Component.allHashable left && Component.allHashable right
  | .unknown _ payload => Value.allHashable payload

def Component.allHashable : List Component → Bool
  | [] => true
  | c :: cs => c.isHashable && Component.allHashable cs

/-- No list occurs anywhere inside. -/
def Value.isHashable : Value → Bool
  | .list _ => false
  | .tuple items => Value.allHashable items
  | .component c => c.isHashable
  | .grammar components => Component.allHashable components
  | _ => true

def Value.allHashable : List Value → Bool
  | [] => true
  | v :: vs => v.isHashable && Value.allHashable vs

end

namespace Value

/-- For each value the index of the first one equal to it. -/
def firstIndices (vs : List Value) : List Nat := vs.map fun v => vs.findIdx (·.same v)

end Value

end GreedyMatch
