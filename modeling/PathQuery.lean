import PathQuery.Schema.Sample
import PathQuery.Schema.Tagged
import PathQuery.Script.Run
import PathQuery.Settings.Configuration
import PathQuery.Value.Tagged
import PathQuery.Proofs.Ancestry
import PathQuery.Proofs.Preorder
import PathQuery.Proofs.Leaf
import PathQuery.Proofs.Run
import PathQuery.Proofs.Change
import PathQuery.Proofs.Ownership
import PathQuery.Proofs.Invariant
import PathQuery.Proofs.Reachable
import PathQuery.Proofs.Declaration
import PathQuery.Proofs.Faults
import PathQuery.Proofs.Source
import PathQuery.Proofs.Active
import PathQuery.Proofs.Rendered
import PathQuery.Proofs.Compilation
import PathQuery.Proofs.Dangling
import PathQuery.Proofs.Naming
import PathQuery.Proofs.Placeholders
import PathQuery.Proofs.Programs
import PathQuery.Proofs.Backward
import PathQuery.Proofs.Sight
import PathQuery.Proofs.Isolation
import PathQuery.Proofs.OnClause
import PathQuery.Proofs.Canonical
import PathQuery.Proofs.Closed
import PathQuery.Proofs.Inapplicable
import PathQuery.Proofs.Deeds
import PathQuery.Proofs.Placement
import PathQuery.Proofs.Defaulted
import PathQuery.Proofs.Quiet
import PathQuery.Proofs.LeftPending
import PathQuery.Proofs.Address
import PathQuery.Proofs.Marks
import PathQuery.Proofs.AccessOrder
import PathQuery.Proofs.Agreement
import PathQuery.Proofs.Renaming
import PathQuery.Proofs.LateBinding
import PathQuery.Proofs.Formula
import PathQuery.Proofs.Printed
import PathQuery.Proofs.KeyAccess
import PathQuery.Proofs.Failure
import PathQuery.Proofs.JoinPoint
import PathQuery.Proofs.Movement
import PathQuery.Proofs.Guarded
import PathQuery.Proofs.Capture
import PathQuery.Proofs.Chains
import PathQuery.Proofs.Lookup
import PathQuery.Proofs.FreshNames
import PathQuery.Proofs.ScopeTree
import PathQuery.Proofs.DepthFirst
import PathQuery.Proofs.Overlay
import PathQuery.Proofs.Configured
