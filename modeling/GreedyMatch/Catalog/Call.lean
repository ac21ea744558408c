import GreedyMatch.Catalog.Verdict

/-!
# Calls

A catalog is put to use by one call after the other. Each call leaves a catalog behind for
the next one, and an answer unless it fails.
-/
namespace GreedyMatch.Catalog

inductive Call
  | add (v : Value)
  | remove (index : Int)
  | withLimit (limit : Option Int)
  | grammars
  | tokens (text : Text)
  | candidates (text : Text)

inductive Answer
  | done
  | index (i : Nat)
  | grammars (gs : List Grammar)
  | tokens (tokens : List Text)
  | candidates (indices : List Nat)

inductive CallError
  | build (e : BuildError)
  /-- There is no grammar at that index. -/
  | noGrammar
  | refusal (r : Refusal)

/-- One call: the catalog that it leaves behind, and what it answers. -/
def call (c : Catalog) : Call → Catalog × Except CallError Answer
  | .add v =>
    match c.add v with
    | .ok (next, i) => (next, .ok (.index i))
    | .error e => (c, .error (.build e))
  | .remove index =>
    match c.remove? index with
    | some next => (next, .ok .done)
    | none => (c, .error .noGrammar)
  | .withLimit limit => (c.withLimit limit, .ok .done)
  | .grammars => (c, .ok (.grammars c.grammars))
  | .tokens text => (c, ((c.tokens text).map .tokens).mapError .refusal)
  | .candidates text => (c, ((c.candidates text).map .candidates).mapError .refusal)

end GreedyMatch.Catalog
