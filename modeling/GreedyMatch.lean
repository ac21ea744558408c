import GreedyMatch.Catalog.Request
import GreedyMatch.Match.Session
import GreedyMatch.Proofs.Catalog.Candidates
import GreedyMatch.Proofs.Catalog.Furthest
import GreedyMatch.Proofs.Catalog.Ledger
import GreedyMatch.Proofs.Catalog.Mismatch
import GreedyMatch.Proofs.Catalog.Narration
import GreedyMatch.Proofs.Catalog.Order
import GreedyMatch.Proofs.Catalog.Padding
import GreedyMatch.Proofs.Catalog.Report
import GreedyMatch.Proofs.Catalog.Survey
import GreedyMatch.Proofs.Catalog.Verdict
import GreedyMatch.Proofs.Grammar.Derivation
import GreedyMatch.Proofs.Grammar.Deterministic
import GreedyMatch.Proofs.Grammar.Local
import GreedyMatch.Proofs.Grammar.Shape
import GreedyMatch.Proofs.Grammar.Spelling
import GreedyMatch.Proofs.Match.Accord
import GreedyMatch.Proofs.Match.Alignment
import GreedyMatch.Proofs.Match.Barren
import GreedyMatch.Proofs.Match.Choice
import GreedyMatch.Proofs.Match.Classification
import GreedyMatch.Proofs.Match.Collapse
import GreedyMatch.Proofs.Match.Completeness
import GreedyMatch.Proofs.Match.Concat
import GreedyMatch.Proofs.Match.Cover
import GreedyMatch.Proofs.Match.Group
import GreedyMatch.Proofs.Match.Idle
import GreedyMatch.Proofs.Match.Limit
import GreedyMatch.Proofs.Match.Nullability
import GreedyMatch.Proofs.Match.Outcome
import GreedyMatch.Proofs.Match.Passes
import GreedyMatch.Proofs.Match.Place
import GreedyMatch.Proofs.Match.Plain
import GreedyMatch.Proofs.Match.Possessive
import GreedyMatch.Proofs.Match.Reach
import GreedyMatch.Proofs.Match.Rewording
import GreedyMatch.Proofs.Match.Settled
import GreedyMatch.Proofs.Match.Shift
import GreedyMatch.Proofs.Match.Soundness
import GreedyMatch.Proofs.Match.Total
import GreedyMatch.Proofs.Match.Tracked
import GreedyMatch.Proofs.Match.Ungroup
import GreedyMatch.Proofs.Match.Vocabulary
import GreedyMatch.Proofs.Source.Breaks
import GreedyMatch.Proofs.Source.Complaint
import GreedyMatch.Proofs.Source.Rows
import GreedyMatch.Proofs.Text.Read
import GreedyMatch.Proofs.Value.Buildable
import GreedyMatch.Proofs.Value.Canonical
import GreedyMatch.Proofs.Value.Classes
import GreedyMatch.Proofs.Value.Hash
import GreedyMatch.Proofs.Value.Keys
import GreedyMatch.Proofs.Value.Made
import GreedyMatch.Proofs.Value.Parts
import GreedyMatch.Proofs.Value.Written
import GreedyMatch.Value.Copy
