import Admissibility.Command.Usage
import Admissibility.Main
import Admissibility.Scenario
import Admissibility.Proofs.Adjacency
import Admissibility.Proofs.Metered
import Admissibility.Proofs.Membership.Closure
import Admissibility.Proofs.Membership.Route
import Admissibility.Proofs.Membership.Search
import Admissibility.Proofs.Builder
import Admissibility.Proofs.Membership.Shortest
import Admissibility.Proofs.Membership.Price
import Admissibility.Proofs.Boundary
import Admissibility.Proofs.Inversion
import Admissibility.Proofs.Validation
import Admissibility.Proofs.Verdict
import Admissibility.Proofs.Agreement
import Admissibility.Proofs.Membership.Lockstep
import Admissibility.Proofs.Confluence
import Admissibility.Proofs.Precedence
import Admissibility.Proofs.Description.Spelling
import Admissibility.Proofs.Description.Grammar
import Admissibility.Proofs.Membership.Taken
import Admissibility.Proofs.Cost
import Admissibility.Proofs.Evidence
import Admissibility.Proofs.Description.Words
import Admissibility.Proofs.Description.Scope
import Admissibility.Proofs.Description.Printed
import Admissibility.Proofs.Part
import Admissibility.Proofs.Excerpt
import Admissibility.Proofs.History
import Admissibility.Proofs.Description.Layout
import Admissibility.Proofs.Description.Places
import Admissibility.Proofs.Description.Tiling
import Admissibility.Proofs.Description.Message
import Admissibility.Proofs.Command
import Admissibility.Proofs.Report
import Admissibility.Proofs.Description.Viability
import Admissibility.Proofs.Description.Rereading
import Admissibility.Proofs.Description.Decoding
import Admissibility.Proofs.Choice
import Admissibility.Proofs.Membership.Index
import Admissibility.Proofs.Report.Json
import Admissibility.Proofs.Scenario.Fixture
import Admissibility.Proofs.Scenario.Assertion
import Admissibility.Proofs.Budget
import Admissibility.Proofs.NodeSet.Refinement
import Admissibility.Proofs.Inversion.Participation
import Admissibility.Proofs.Signature
