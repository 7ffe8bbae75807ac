import FactGraph.CommandLine.Disk
import FactGraph.Main
import FactGraph.Proofs.Region.History
import FactGraph.Store.Edit
import FactGraph.Proofs.Literal.Closing
import FactGraph.Proofs.Literal.DateForm
import FactGraph.Proofs.Literal.Decoding
import FactGraph.Proofs.Literal.Splitting
import FactGraph.Proofs.Literal.Value
import FactGraph.Proofs.Metadata.Canonical
import FactGraph.Proofs.Qualifier.Identifier
import FactGraph.Proofs.Query.Binding
import FactGraph.Proofs.Query.Deletion
import FactGraph.Proofs.Query.Extension
import FactGraph.Proofs.Query.Labelling
import FactGraph.Proofs.Query.Multiplicity
import FactGraph.Proofs.Query.Order
import FactGraph.Proofs.Query.Placement
import FactGraph.Proofs.Row.Line
import FactGraph.Proofs.Row.Packing
import FactGraph.Proofs.Row.Recovery
import FactGraph.Proofs.Row.Restoration
import FactGraph.Proofs.Schema.Migration
import FactGraph.Proofs.Schema.Opening
import FactGraph.Proofs.Store.Attainment
import FactGraph.Proofs.Store.Backup
import FactGraph.Proofs.Store.Command
import FactGraph.Proofs.Store.Encoded
import FactGraph.Proofs.Store.Import
import FactGraph.Proofs.Store.ReadBack
import FactGraph.Proofs.Store.Report
