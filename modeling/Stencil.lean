import Stencil.Engine
import Stencil.Value.Read
import Stencil.Proofs.Leniency
import Stencil.Proofs.Transparency
import Stencil.Proofs.Meaning
import Stencil.Proofs.Balance
import Stencil.Proofs.Injection
import Stencil.Proofs.Escaping
import Stencil.Proofs.Layout
import Stencil.Proofs.Printing
import Stencil.Proofs.Closing
import Stencil.Proofs.Cycles
import Stencil.Proofs.History
import Stencil.Proofs.Arguments
import Stencil.Proofs.Concatenation
import Stencil.Proofs.Fallibility
import Stencil.Proofs.Sandbox
import Stencil.Proofs.Spelling
import Stencil.Proofs.Slashed
import Stencil.Proofs.Binding
import Stencil.Proofs.Capture
import Stencil.Proofs.Frame
import Stencil.Proofs.NodeSpans
import Stencil.Proofs.Faults
import Stencil.Proofs.FilterTag
import Stencil.Proofs.Visits
import Stencil.Proofs.Recall
import Stencil.Proofs.Sums
import Stencil.Proofs.Squeezing
import Stencil.Proofs.Unwrapping
import Stencil.Proofs.Entities
import Stencil.Proofs.Grouping
import Stencil.Proofs.Numerals
import Stencil.Proofs.Resolution
