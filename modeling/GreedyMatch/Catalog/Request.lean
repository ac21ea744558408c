import GreedyMatch.Catalog.Call

/-!
# Requests

A catalog may be asked for anything with any value. Where an index or a text is called for
and the value is none, the request is refused and the catalog stays as it is. A strategy that
cannot match yet does not look at the text.
-/
namespace GreedyMatch

/-- The integer that a value counts as; booleans are zero and one. -/
def Value.int? : Value → Option Int
  | .int n => some n
  | .bool b => some b.toInt
  | _ => none

namespace Catalog

inductive Request
  | add (v : Value)
  | remove (index : Value)
  | withLimit (limit : Value)
  | grammars
  | tokens (text : Value)
  | candidates (text : Value)

inductive RequestError
  | notIndex (given : Value)
  | notText (given : Value)
  | call (e : CallError)

namespace Request

def textOf (strategy : Strategy) (v : Value) : Except RequestError Text :=
  match strategy, v with
  | .planned _, _ => .ok []
  | .greedy, .text t => .ok t
  | .greedy, v => .error (.notText v)

def call (strategy : Strategy) : Request → Except RequestError Call
  | .add v => .ok (.add v)
  | .remove index =>
    match index.int? with
    | some i => .ok (.remove i)
    | none => .error (.notIndex index)
  | .withLimit limit => .ok (.withLimit limit.int?)
  | .grammars => .ok .grammars
  | .tokens text => (textOf strategy text).map .tokens
  | .candidates text => (textOf strategy text).map .candidates

end Request

/-- One request: the catalog that it leaves behind, and what it answers. -/
def request (c : Catalog) (r : Request) : Catalog × Except RequestError Answer :=
  match r.call c.strategy with
  | .ok call =>
    let (next, answer) := c.call call
    (next, answer.mapError .call)
  | .error e => (c, .error e)

def requests (c : Catalog) : List Request → Catalog × List (Except RequestError Answer)
  | [] => (c, [])
  | r :: rs =>
    let (next, answer) := c.request r
    let (last, answers) := next.requests rs
    (last, answer :: answers)

theorem request_of_call {c : Catalog} {r : Request} {k : Call} (h : r.call c.strategy = .ok k) :
    c.request r = ((c.call k).1, (c.call k).2.mapError .call) := by rw [request, h]

theorem request_of_error {c : Catalog} {r : Request} {e : RequestError}
    (h : r.call c.strategy = .error e) : c.request r = (c, .error e) := by rw [request, h]

end Catalog
end GreedyMatch
