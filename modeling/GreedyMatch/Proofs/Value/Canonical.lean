import GreedyMatch.Value.Equal

/-!
# Canonical values

Equality of values counts a boolean as the integer zero or one, and goes part by part
otherwise. So once every boolean is replaced by its integer, equal values are one and the same.
-/
namespace GreedyMatch

mutual

/-- The component with integers for the booleans inside of it. -/
def Component.canonical : Component → Component
  | .literal word => .literal word
  | .classified word kind => .classified word kind.canonical
  | .zeroOrMore inner => .zeroOrMore (Component.canonicalAll inner)
  | .oneOrMore inner => .oneOrMore (Component.canonicalAll inner)
  | .zeroOrOne inner => .zeroOrOne (Component.canonicalAll inner)
  | .group inner => .group (Component.canonicalAll inner)
  | .alternation left right =>
    .alternation (Component.canonicalAll left) (Component.canonicalAll right)
  | .unknown cls payload => .unknown cls (Value.canonicalAll payload)

def Component.canonicalAll : List Component → List Component
  | [] => []
  | c :: cs => c.canonical :: Component.canonicalAll cs

def Value.canonical : Value → Value
  | .nothing => .nothing
  | .bool b => .int b.toInt
  | .int n => .int n
  | .text t => .text t
  | .list items => .list (Value.canonicalAll items)
  | .tuple items => .tuple (Value.canonicalAll items)
  | .component c => .component c.canonical
  | .grammar components => .grammar (Component.canonicalAll components)

def Value.canonicalAll : List Value → List Value
  | [] => []
  | v :: vs => v.canonical :: Value.canonicalAll vs

end

theorem Component.canonicalAll_eq_map (cs : List Component) :
    Component.canonicalAll cs = cs.map Component.canonical := by
  induction cs with
  | nil => rfl
  | cons c cs ih => rw [Component.canonicalAll, ih, List.map_cons]

theorem Value.canonicalAll_eq_map (vs : List Value) :
    Value.canonicalAll vs = vs.map Value.canonical := by
  induction vs with
  | nil => rfl
  | cons v vs ih => rw [Value.canonicalAll, ih, List.map_cons]

theorem Bool.toInt_eq_toInt_iff {a b : Bool} : a.toInt = b.toInt ↔ a = b := by
  cases a <;> cases b <;> decide

-- The sort of the first value leaves only the same sort, or an integer beside a boolean, for the
-- second one; all other pairs are told apart by both sides.
mutual

theorem Component.same_iff : ∀ c d : Component, c.same d = true ↔ c.canonical = d.canonical
  | .literal w, d => by cases d <;> simp [Component.same, Component.canonical]
  | .classified w kind, d => by
    have hkind := Value.same_iff kind
    cases d <;> simp [Component.same, Component.canonical, hkind]
  | .zeroOrMore g, d => by
    have hg := Component.sameAll_iff g
    cases d <;> simp [Component.same, Component.canonical, hg]
  | .oneOrMore g, d => by
    have hg := Component.sameAll_iff g
    cases d <;> simp [Component.same, Component.canonical, hg]
  | .zeroOrOne g, d => by
    have hg := Component.sameAll_iff g
    cases d <;> simp [Component.same, Component.canonical, hg]
  | .group g, d => by
    have hg := Component.sameAll_iff g
    cases d <;> simp [Component.same, Component.canonical, hg]
  | .alternation g g', d => by
    have hg := Component.sameAll_iff g
    have hg' := Component.sameAll_iff g'
    cases d <;> simp [Component.same, Component.canonical, hg, hg']
  | .unknown cls payload, d => by
    have hpayload := Value.sameAll_iff payload
    cases d <;> simp [Component.same, Component.canonical, hpayload]

theorem Component.sameAll_iff : ∀ g h : Grammar,
    Component.sameAll g h = true ↔ Component.canonicalAll g = Component.canonicalAll h
  | [], h => by cases h <;> simp [Component.sameAll, Component.canonicalAll]
  | c :: g, h => by
    have hc := Component.same_iff c
    have hg := Component.sameAll_iff g
    cases h <;> simp [Component.sameAll, Component.canonicalAll, hc, hg]

theorem Value.same_iff : ∀ v w : Value, v.same w = true ↔ v.canonical = w.canonical
  | .nothing, w => by cases w <;> simp [Value.same, Value.canonical]
  | .bool b, w => by cases w <;> simp [Value.same, Value.canonical, Bool.toInt_eq_toInt_iff]
  | .int n, w => by cases w <;> simp [Value.same, Value.canonical]
  | .text t, w => by cases w <;> simp [Value.same, Value.canonical]
  | .list items, w => by
    have hitems := Value.sameAll_iff items
    cases w <;> simp [Value.same, Value.canonical, hitems]
  | .tuple items, w => by
    have hitems := Value.sameAll_iff items
    cases w <;> simp [Value.same, Value.canonical, hitems]
  | .component c, w => by
    have hc := Component.same_iff c
    cases w <;> simp [Value.same, Value.canonical, hc]
  | .grammar g, w => by
    have hg := Component.sameAll_iff g
    cases w <;> simp [Value.same, Value.canonical, hg]

theorem Value.sameAll_iff : ∀ vs ws : List Value,
    Value.sameAll vs ws = true ↔ Value.canonicalAll vs = Value.canonicalAll ws
  | [], ws => by cases ws <;> simp [Value.sameAll, Value.canonicalAll]
  | v :: vs, ws => by
    have hv := Value.same_iff v
    have hvs := Value.sameAll_iff vs
    cases ws <;> simp [Value.sameAll, Value.canonicalAll, hv, hvs]

end

end GreedyMatch
