import FilterTree.Filter.Instance
import FilterTree.Main
import FilterTree.Proofs.Builtins
import FilterTree.Proofs.History
import FilterTree.Proofs.Addressing
import FilterTree.Proofs.ByteOrder
import FilterTree.Proofs.Relocated
import FilterTree.Proofs.Acceptance
import FilterTree.Proofs.Invocation
import FilterTree.Proofs.Binding
import FilterTree.Proofs.Deletion
import FilterTree.Proofs.OneShot
import FilterTree.Proofs.AllOrNothing
import FilterTree.Proofs.AuditFree
import FilterTree.Proofs.Admitted
import FilterTree.Proofs.Created
import FilterTree.Proofs.Composition
import FilterTree.Proofs.Imported
import FilterTree.Proofs.PathText
import FilterTree.Proofs.ArgumentJson
import FilterTree.Proofs.ImportedPaths
import FilterTree.Proofs.Digits
import FilterTree.Proofs.JsonTokens
import FilterTree.Proofs.JsonText
import FilterTree.Proofs.Documents
import FilterTree.Proofs.Remnant
import FilterTree.Proofs.Gathering
import FilterTree.Proofs.Angles
import FilterTree.Proofs.Workings
import FilterTree.Proofs.HalfWritten
import FilterTree.Proofs.Neighborhood
import FilterTree.Proofs.StoreViews
import FilterTree.Proofs.Outgrown
import FilterTree.Proofs.Counting
import FilterTree.Proofs.Levels
import FilterTree.Proofs.ActionJson
import FilterTree.Proofs.Accumulated
import FilterTree.Proofs.Doubles
import FilterTree.Proofs.ImportedSizes
import FilterTree.Proofs.Filling
import FilterTree.Proofs.Throttled
