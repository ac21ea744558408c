import GreedyMatch.Catalog.Basic
import GreedyMatch.Match.Mismatch
import GreedyMatch.Match.Run

/-!
# Verdicts on a text

Every grammar of a catalog is tried on the whole of the trimmed text, in order and
each afresh. Exactly one of them has to match: there is no rule that would prefer one
match to another. A fault in one trial ends the survey.
-/
namespace GreedyMatch

/-- One grammar's attempt at the whole text. -/
structure Trial where
  index : Nat
  reached : Nat
  outcome : Option Match

def Trial.report (size : Nat) (t : Trial) : Text :=
  let name := "Grammar ".toList ++ Text.ofNat t.index
  match t.outcome with
  | none =>
    name ++ ": no match; reached ".toList ++ Text.ofNat t.reached ++ " of ".toList ++ Text.ofNat size ++
      ['.']
  | some m => name ++ ": matched as ".toList ++ Text.renderTokens m.tokens ++ ['.']

/-- The trials made, and the fault that put an end to them if there was one. -/
structure Survey where
  trials : List Trial
  fault : Option Fault

namespace Survey

def ofGrammars (text : Text) (limit : Option Int) : Nat → List Grammar → Survey
  | _, [] => ⟨[], none⟩
  | index, g :: gs =>
    let attempt := g.runWhole text limit 0 0
    match attempt.result with
    | .error fault => ⟨[], some fault⟩
    | .ok outcome =>
      let rest := ofGrammars text limit (index + 1) gs
      ⟨⟨index, attempt.reached, outcome⟩ :: rest.trials, rest.fault⟩

def winners (s : Survey) : List (Nat × List Text) :=
  s.trials.filterMap fun t => t.outcome.map fun m => (t.index, m.tokens)

def furthest (s : Survey) : Nat := s.trials.foldl (fun n t => max n t.reached) 0

def report (size : Nat) (s : Survey) : List Text := s.trials.map (·.report size)

end Survey

inductive Refusal
  | failure (f : Failure)
  /-- The strategy cannot match yet. -/
  | notImplemented (p : Planned)
  /-- The strategy has no way of listing candidates. -/
  | noCandidates (p : Planned)

namespace Survey

/-- What a survey of the text says if no fault ended it. -/
def conclude {α : Type} (s : Survey) (text : Text) (answer : Except Refusal α) :
    Except Refusal α :=
  match s.fault with
  | some fault => .error (.failure (fault.failure text))
  | none => answer

def verdict (s : Survey) (text : Text) : Except Refusal (List Text) :=
  s.conclude text <|
    match s.winners with
    | [] => .error (.failure (.mismatch (.noMatch text s.furthest)))
    | [winner] => .ok winner.2
    | winners => .error (.failure (.mismatch (.ambiguous text (winners.map fun w => (w.1 : Int)))))

def candidates (s : Survey) (text : Text) : Except Refusal (List Nat) :=
  s.conclude text (.ok (s.winners.map (·.1)))

end Survey

namespace Catalog

def survey (c : Catalog) (text : Text) : Survey := .ofGrammars text c.limit 0 c.grammars

/-- The tokens of the only grammar that matches the trimmed text. -/
def tokens (c : Catalog) (text : Text) : Except Refusal (List Text) :=
  match c.strategy with
  | .greedy => (c.survey text.trim).verdict text.trim
  | .planned p => .error (.notImplemented p)

def candidates (c : Catalog) (text : Text) : Except Refusal (List Nat) :=
  match c.strategy with
  | .greedy => (c.survey text.trim).candidates text.trim
  | .planned p => .error (.noCandidates p)

def trace (c : Catalog) (text : Text) : List Text :=
  match c.strategy with
  | .greedy => (c.survey text.trim).report text.trim.length
  | .planned _ => []

end Catalog
end GreedyMatch
