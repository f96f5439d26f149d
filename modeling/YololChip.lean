import YololChip.Main
import YololChip.Proofs.Carried
import YololChip.Proofs.Printing
import YololChip.Proofs.Cursor
import YololChip.Proofs.Announcements
import YololChip.Proofs.Entries
import YololChip.Proofs.Recorder
import YololChip.Proofs.Told
import YololChip.Proofs.Outcomes
import YololChip.Proofs.Cycle
import YololChip.Proofs.Numeric
import YololChip.Proofs.Commands
import YololChip.Proofs.Causes
import YololChip.Proofs.SourceLines
import YololChip.Proofs.StepRecords
import YololChip.Proofs.Stores
import YololChip.Proofs.FirstLines
import YololChip.Proofs.SourcePlaces
import YololChip.Proofs.Attribution
import YololChip.Proofs.Reports
import YololChip.Proofs.VariableSteps
import YololChip.Proofs.Sequences
import YololChip.Proofs.Coverage
import YololChip.Proofs.LayoutLines
import YololChip.Proofs.CompoundAssignments
import YololChip.Proofs.CanonicalText
import YololChip.Proofs.ExactArithmetic
import YololChip.Proofs.Order
import YololChip.Proofs.LastOccurrence
import YololChip.Proofs.Comparison
import YololChip.Proofs.HandlerOrder
import YololChip.Proofs.Journal
import YololChip.Proofs.StepSchedule
import YololChip.Proofs.RaisedRules
import YololChip.Proofs.PartialTrees
import YololChip.Proofs.SessionLog
import YololChip.Proofs.IrrelevantParts
import YololChip.Proofs.NodePlaces
import YololChip.Proofs.ViablePrefixes
import YololChip.Proofs.Termination
