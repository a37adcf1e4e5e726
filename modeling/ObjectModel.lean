import ObjectModel.CommandLine
import ObjectModel.Main
import ObjectModel.Proofs.Check
import ObjectModel.Proofs.Meaning
import ObjectModel.Proofs.Memo
import ObjectModel.Proofs.Errors
import ObjectModel.Proofs.Reading
import ObjectModel.Proofs.Safety
import ObjectModel.Proofs.Shadowing
import ObjectModel.Proofs.Termination
import ObjectModel.Proofs.Depth
import ObjectModel.Proofs.Afresh
import ObjectModel.Proofs.Independence
import ObjectModel.Proofs.WellFormedValue
import ObjectModel.Proofs.RoundTrip
import ObjectModel.Proofs.Limit
import ObjectModel.Proofs.SameValue
import ObjectModel.Proofs.SameActuals
import ObjectModel.Proofs.FieldTypes
import ObjectModel.Proofs.Journal
import ObjectModel.Proofs.Once
import ObjectModel.Proofs.MapClass
import ObjectModel.Proofs.Narrowing
import ObjectModel.Proofs.Derivation
import ObjectModel.Proofs.Locality
import ObjectModel.Proofs.Recovery
import ObjectModel.Proofs.Reordering
import ObjectModel.Proofs.Unused
import ObjectModel.Proofs.Log
import ObjectModel.Proofs.Nesting
import ObjectModel.Proofs.Quoting
import ObjectModel.Proofs.Pieces
import ObjectModel.Proofs.Escapes
import ObjectModel.Proofs.LineFeeds
import ObjectModel.Proofs.LineByLine
import ObjectModel.Proofs.HardwareBody
import ObjectModel.Proofs.Recognition
import ObjectModel.Proofs.LineEnds
import ObjectModel.Proofs.Wrapper
import ObjectModel.Proofs.MapBuilding
import ObjectModel.Proofs.Signature
import ObjectModel.Proofs.Reporting
import ObjectModel.Proofs.Verdict
import ObjectModel.Proofs.Forward
import ObjectModel.Proofs.Progress
import ObjectModel.Proofs.Frames
import ObjectModel.Proofs.Blame
import ObjectModel.Proofs.JsonMembers
import ObjectModel.Proofs.JsonLayout
import ObjectModel.Proofs.FieldLines
import ObjectModel.Proofs.Loosening
import ObjectModel.Proofs.Restoring
