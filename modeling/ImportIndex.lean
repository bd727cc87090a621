import ImportIndex.Main
import ImportIndex.Proofs.Artifact.Listing
import ImportIndex.Proofs.Artifact.Name
import ImportIndex.Proofs.Build.Evaluation
import ImportIndex.Proofs.Build.FromScratch
import ImportIndex.Proofs.Build.History
import ImportIndex.Proofs.Build.TraceFile
import ImportIndex.Proofs.Import.Bounds
import ImportIndex.Proofs.Import.Closure
import ImportIndex.Proofs.Import.History
import ImportIndex.Proofs.Build.Acyclic
import ImportIndex.Proofs.Build.Backing
import ImportIndex.Proofs.Build.Looking
import ImportIndex.Proofs.Build.Moves
import ImportIndex.Proofs.Build.Repeat
import ImportIndex.Proofs.Build.Upkeep
import ImportIndex.Proofs.Import.Cyclic
import ImportIndex.Proofs.Import.Reconfigured
import ImportIndex.Proofs.Import.Replay
import ImportIndex.Proofs.Import.RootCause
import ImportIndex.Proofs.Import.Cutoff
import ImportIndex.Proofs.Build.Lifecycle
import ImportIndex.Proofs.Build.Storing
import ImportIndex.Proofs.Import.Nesting
import ImportIndex.Proofs.Import.Unfailing
import ImportIndex.Proofs.FileTree.Filled
import ImportIndex.Proofs.Build.Aftermath
import ImportIndex.Proofs.Build.Account
import ImportIndex.Proofs.FileTree.Removal
import ImportIndex.Proofs.Artifact.Sweep
import ImportIndex.Proofs.Build.Mirrored
import ImportIndex.Proofs.FileTree.Spared
import ImportIndex.Proofs.Artifact.Remains
import ImportIndex.Proofs.Import.Swept
import ImportIndex.Proofs.Build.Additions
import ImportIndex.Proofs.Artifact.Naming
import ImportIndex.Proofs.Import.Exact
import ImportIndex.Proofs.Build.Needs
import ImportIndex.Proofs.Artifact.RoundTrip
import ImportIndex.Proofs.Import.Partition
import ImportIndex.Proofs.Import.Ruled
import ImportIndex.Proofs.Source.Discovery
import ImportIndex.Proofs.Source.Coverage
import ImportIndex.Proofs.Source.Relative
import ImportIndex.Proofs.Import.Dotted
import ImportIndex.Proofs.Import.Textual
import ImportIndex.Proofs.Path.Canonical
import ImportIndex.Proofs.Reference.Lines
