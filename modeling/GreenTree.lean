import GreenTree.Datum
import GreenTree.Element.Equivalence
import GreenTree.Element.Outline
import GreenTree.Element.Path
import GreenTree.Element.Sharing
import GreenTree.Element.Shown
import GreenTree.Placed.Search
import GreenTree.Stream.Trace
import GreenTree.Proofs.Blueprint
import GreenTree.Proofs.Making
import GreenTree.Proofs.Interning
import GreenTree.Proofs.Stream.Steps
import GreenTree.Proofs.Stream.Grammar
import GreenTree.Proofs.Stream.Parsing
import GreenTree.Proofs.Stream.Acceptance
import GreenTree.Proofs.FullText
import GreenTree.Proofs.Obtained
import GreenTree.Proofs.Inventory
import GreenTree.Proofs.Stream.Ledger
import GreenTree.Proofs.Stream.Cells
import GreenTree.Proofs.Store
import GreenTree.Proofs.Equivalence
import GreenTree.Proofs.SummaryBits
import GreenTree.Proofs.TrimmedText
import GreenTree.Proofs.Placed.Positions
import GreenTree.Proofs.Placed.Search
import GreenTree.Proofs.Stream.Written
import GreenTree.Proofs.Stream.Shortest
import GreenTree.Proofs.Stream.Reading
import GreenTree.Proofs.Stream.Faultless
import GreenTree.Proofs.Stream.Extension
import GreenTree.Proofs.Marks
import GreenTree.Proofs.Stream.Refusals
import GreenTree.Proofs.Stream.Writable
import GreenTree.Proofs.Stream.Lockstep
import GreenTree.Proofs.Stream.Loosening
import GreenTree.Proofs.Stream.Sessions
import GreenTree.Proofs.ErasedText
import GreenTree.Proofs.Replacing
import GreenTree.Proofs.Placed.Annotated
import GreenTree.Proofs.Placed.Attaching
import GreenTree.Proofs.Missing
import GreenTree.Proofs.Cutting
import GreenTree.Proofs.Splicing
import GreenTree.Proofs.IndependentEdits
import GreenTree.Proofs.Assembly
import GreenTree.Proofs.Stream.Overflow
import GreenTree.Proofs.Equality
import GreenTree.Proofs.OverlayLens
import GreenTree.Proofs.Stream.Scripts
import GreenTree.Proofs.Stream.Misplaced
import GreenTree.Proofs.Occurrences
import GreenTree.Proofs.Stream.Sharing
import GreenTree.Proofs.Stream.Moving
import GreenTree.Proofs.Stream.Levels
import GreenTree.Proofs.Stream.Openings
import GreenTree.Proofs.Stream.Moments
import GreenTree.Proofs.Stream.Twins
import GreenTree.Proofs.Stream.Reuse
import GreenTree.Proofs.Stream.Bounds
import GreenTree.Proofs.Stream.Counts
import GreenTree.Proofs.Walking
import GreenTree.Proofs.Writing
import GreenTree.Proofs.Quoting
import GreenTree.Proofs.Outlining
import GreenTree.Proofs.Terminals
import GreenTree.Proofs.KindSet
import GreenTree.Proofs.Placed.Paths
