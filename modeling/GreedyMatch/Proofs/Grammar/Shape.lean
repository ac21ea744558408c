import GreedyMatch.Value.Basic

/-!
# The shape of a grammar

Components and grammars are trees of one kind: a component may hold grammars, and a
grammar is a list of components. Whatever passes from the parts of such a tree to the
whole holds of all trees. The kinds of classified words and what components of unknown
classes carry are no parts of the tree.
-/
namespace GreedyMatch

/-- A property of components and one of grammars that pass from the parts to the whole. -/
structure Inherited (C : Component → Prop) (G : Grammar → Prop) : Prop where
  literal (w : Word) : C (.literal w)
  classified (w : Word) (kind : Value) : C (.classified w kind)
  zeroOrMore {g : Grammar} : G g → C (.zeroOrMore g)
  oneOrMore {g : Grammar} : G g → C (.oneOrMore g)
  zeroOrOne {g : Grammar} : G g → C (.zeroOrOne g)
  group {g : Grammar} : G g → C (.group g)
  alternation {g h : Grammar} : G g → G h → C (.alternation g h)
  unknown (cls : UnknownClass) (payload : List Value) : C (.unknown cls payload)
  nil : G []
  cons {c : Component} {g : Grammar} : C c → G g → G (c :: g)

section
variable {C : Component → Prop} {G : Grammar → Prop}

mutual

theorem Inherited.component (h : Inherited C G) : ∀ c : Component, C c
  | .literal w => h.literal w
  | .classified w kind => h.classified w kind
  | .zeroOrMore g => h.zeroOrMore (h.grammar g)
  | .oneOrMore g => h.oneOrMore (h.grammar g)
  | .zeroOrOne g => h.zeroOrOne (h.grammar g)
  | .group g => h.group (h.grammar g)
  | .alternation g g' => h.alternation (h.grammar g) (h.grammar g')
  | .unknown cls payload => h.unknown cls payload

theorem Inherited.grammar (h : Inherited C G) : ∀ g : Grammar, G g
  | [] => h.nil
  | c :: g => h.cons (h.component c) (h.grammar g)

end

end

mutual

/-- Only components that every analysis knows occur anywhere. -/
def Component.isKnown : Component → Bool
  | .literal _ => true
  | .classified _ _ => true
  | .zeroOrMore inner => Grammar.isKnown inner
  | .oneOrMore inner => Grammar.isKnown inner
  | .zeroOrOne inner => Grammar.isKnown inner
  | .group inner => Grammar.isKnown inner
  | .alternation left right => Grammar.isKnown left && Grammar.isKnown right
  | .unknown _ _ => false

def Grammar.isKnown : Grammar → Bool
  | [] => true
  | c :: cs => c.isKnown && Grammar.isKnown cs

end

theorem Component.isKnown_alternation_iff {g h : Grammar} :
    (Component.alternation g h).isKnown = true ↔ g.isKnown = true ∧ h.isKnown = true := by
  rw [isKnown, Bool.and_eq_true]

theorem Grammar.isKnown_cons_iff {c : Component} {g : Grammar} :
    Grammar.isKnown (c :: g) = true ↔ c.isKnown = true ∧ g.isKnown = true := by
  rw [isKnown, Bool.and_eq_true]

mutual

def Component.height : Component → Nat
  | .literal _ => 0
  | .classified _ _ => 0
  | .zeroOrMore inner => Grammar.height inner + 1
  | .oneOrMore inner => Grammar.height inner + 1
  | .zeroOrOne inner => Grammar.height inner + 1
  | .group inner => Grammar.height inner + 1
  | .alternation left right => max (Grammar.height left) (Grammar.height right) + 1
  | .unknown _ _ => 0

def Grammar.height : Grammar → Nat
  | [] => 0
  | c :: cs => max c.height (Grammar.height cs)

end

mutual

/-- The fixed words from left to right, each as often as it occurs. -/
def Component.words : Component → List Word
  | .literal w => [w]
  | .classified w _ => [w]
  | .zeroOrMore inner => Grammar.words inner
  | .oneOrMore inner => Grammar.words inner
  | .zeroOrOne inner => Grammar.words inner
  | .group inner => Grammar.words inner
  | .alternation left right => Grammar.words left ++ Grammar.words right
  | .unknown _ _ => []

def Grammar.words : Grammar → List Word
  | [] => []
  | c :: cs => c.words ++ Grammar.words cs

end

end GreedyMatch
