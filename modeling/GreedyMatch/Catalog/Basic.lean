import GreedyMatch.Match.Fault
import GreedyMatch.Sequence.Slice
import GreedyMatch.Value.Build

/-!
# Catalogs

A catalog is an ordered list of candidate grammars with the strategy that is to match
texts against them. When a grammar is removed the later ones move down.
-/
namespace GreedyMatch

/-- The strategies that have a name and cannot match yet. -/
inductive Planned
  | predictive
  | shiftReduce
  deriving DecidableEq

def Planned.message : Planned → Text
  | .predictive =>
    "Predictive (LL1) matching is not implemented. Use the \x22naive\x22 method.".toList
  | .shiftReduce =>
    "Shift-reduce (SLR1) matching is not implemented. Use the \x22naive\x22 method.".toList

inductive Strategy
  | greedy
  | planned (p : Planned)
  deriving DecidableEq

namespace Strategy

def table : List (Text × Strategy) :=
  [("naive".toList, .greedy), ("LL1".toList, .planned .predictive),
    ("SLR1".toList, .planned .shiftReduce)]

def ofKey (key : Value) : Except LookupError Strategy := lookup table key

def takesLimit : Strategy → Bool
  | .greedy => true
  | .planned _ => false

end Strategy

structure Catalog where
  strategy : Strategy
  /-- How deeply the grammars may nest; `none` while what was asked for is no number. -/
  limit : Option Int
  grammars : List Grammar

namespace Catalog

def empty (strategy : Strategy) (limit : Option Int) : Catalog := ⟨strategy, limit, []⟩

def size (c : Catalog) : Nat := c.grammars.length

/-- The catalog with one more grammar at its end, and the index it has there; only
grammars are taken. -/
def add (c : Catalog) : Value → Except BuildError (Catalog × Nat)
  | .grammar g => .ok ({ c with grammars := c.grammars ++ [g] }, c.size)
  | v => .error (.notGrammar v)

def addAll (c : Catalog) : List Value → Except BuildError Catalog
  | [] => .ok c
  | v :: vs => do
    let (next, _) ← c.add v
    next.addAll vs

def withLimit (c : Catalog) (limit : Option Int) : Catalog := { c with limit := limit }

/-- The catalog without the grammar at an index, which may count back from the end. -/
def remove? (c : Catalog) (index : Int) : Option Catalog :=
  (Sequence.slot? c.size index).map fun i => { c with grammars := c.grammars.eraseIdx i }

end Catalog
end GreedyMatch
