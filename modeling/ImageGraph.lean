import ImageGraph.Main
import ImageGraph.Proofs.Effect
import ImageGraph.Proofs.Settling
import ImageGraph.Proofs.Form
import ImageGraph.Proofs.Frame
import ImageGraph.Image.Survey
import ImageGraph.Proofs.Grouping
import ImageGraph.Proofs.Echo
import ImageGraph.Proofs.Routing
import ImageGraph.Proofs.Combining
import ImageGraph.Proofs.Deletion
import ImageGraph.Proofs.Naming
import ImageGraph.Proofs.Scopes
import ImageGraph.Proofs.Fitting
import ImageGraph.Proofs.Independence
import ImageGraph.Proofs.Freshness
import ImageGraph.Proofs.Colors
import ImageGraph.Proofs.Rules
import ImageGraph.Proofs.Progress
import ImageGraph.Proofs.Derivation
import ImageGraph.Proofs.Matching
import ImageGraph.Proofs.Agreement
import ImageGraph.Proofs.Choosing
import ImageGraph.Proofs.Acceptance
import ImageGraph.Proofs.Built
import ImageGraph.Proofs.Rejection
import ImageGraph.Proofs.Completion
import ImageGraph.Proofs.Outlines
import ImageGraph.Proofs.Reports
import ImageGraph.Proofs.Finiteness
import ImageGraph.Proofs.Extents
import ImageGraph.Proofs.Overflow
import ImageGraph.Proofs.Permanence
import ImageGraph.Proofs.Addressing
import ImageGraph.Proofs.Listings
import ImageGraph.Proofs.Usage
import ImageGraph.Proofs.Sides
import ImageGraph.Proofs.Suggestions
import ImageGraph.Proofs.Blanks
import ImageGraph.Proofs.Detection
