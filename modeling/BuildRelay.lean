import BuildRelay.Bundle.Adapter
import BuildRelay.FileSystem.Tree
import BuildRelay.LogFormat
import BuildRelay.Proofs.Path.Canonical
import BuildRelay.Proofs.Path.Detour
import BuildRelay.Proofs.Path.Memo
import BuildRelay.Proofs.Path.Parents
import BuildRelay.Proofs.Path.Shape
import BuildRelay.Proofs.Path.Steps
import BuildRelay.Proofs.Settings.Layers
import BuildRelay.Proofs.Settings.Placement
import BuildRelay.Proofs.Settings.Upward
import BuildRelay.Proofs.Catalog.Sessions
import BuildRelay.Proofs.Catalog.Consistency
import BuildRelay.Proofs.Catalog.Views
import BuildRelay.Proofs.Catalog.Contest
import BuildRelay.Proofs.Catalog.Kinds
import BuildRelay.Proofs.Catalog.Holdings
import BuildRelay.Proofs.Catalog.Deletion
import BuildRelay.Proofs.Catalog.Repetition
import BuildRelay.Proofs.Catalog.Directories
import BuildRelay.Proofs.Catalog.Unanswered
import BuildRelay.Proofs.Catalog.Mirror
import BuildRelay.Proofs.Workspace.Sessions
import BuildRelay.Proofs.Workspace.Demand
import BuildRelay.Proofs.Workspace.SharedRecord
import BuildRelay.Proofs.Workspace.Projects
import BuildRelay.Proofs.Workspace.Members
import BuildRelay.Proofs.Workspace.Outputs
import BuildRelay.Proofs.Workspace.Texts
import BuildRelay.Proofs.Workspace.Leftovers
import BuildRelay.Proofs.Workspace.Separation
import BuildRelay.Proofs.Gate.Looks
import BuildRelay.Proofs.Gate.Settled
import BuildRelay.Proofs.Gate.Handles
import BuildRelay.Proofs.Gate.Release
import BuildRelay.Proofs.Gate.Windows
import BuildRelay.Proofs.Gate.Pass
import BuildRelay.Proofs.Gate.LeftBehind
import BuildRelay.Proofs.Build.Passes
import BuildRelay.Proofs.Build.Sources
import BuildRelay.Proofs.Build.Calls
import BuildRelay.Proofs.Build.Overrides
import BuildRelay.Proofs.Build.FileView
import BuildRelay.Proofs.Build.Imports
import BuildRelay.Proofs.Build.Supply
import BuildRelay.Proofs.Bundle.Sessions
import BuildRelay.Proofs.Bundle.Loads
import BuildRelay.Proofs.Gate.LateLooks
import BuildRelay.Proofs.Output.Boundary
import BuildRelay.Proofs.Output.Layout
import BuildRelay.Proofs.Output.Contention
import BuildRelay.Proofs.Bundle.Typings
import BuildRelay.Proofs.Bundle.Reach
import BuildRelay.Proofs.Bundle.Resolution
import BuildRelay.Proofs.Bundle.Closing
import BuildRelay.Proofs.Bundle.Chunks
