import SetForest.Atom
import SetForest.Interner
import SetForest.Main
import SetForest.Session
import SetForest.Proofs.Session.Storage
import SetForest.Proofs.Session.Lattice
import SetForest.Proofs.Session.Nested
import SetForest.Proofs.Session.Inclusions
import SetForest.Proofs.Forest.Residence
import SetForest.Proofs.Family.Residence
import SetForest.Proofs.Family.Merge
import SetForest.Proofs.Session.Merge
import SetForest.Proofs.Lockstep
import SetForest.Proofs.Storage.Resemblance
import SetForest.Proofs.Forest.Similar
import SetForest.Proofs.Family.Similar
import SetForest.Proofs.Session.Similar
import SetForest.Proofs.Forest.Dump
import SetForest.Proofs.Session.Strategies
import SetForest.Proofs.Content.Paths
import SetForest.Proofs.Forest.Paths
import SetForest.Proofs.Family.Paths
import SetForest.Proofs.Family.Terms
import SetForest.Proofs.Session.Laws
import SetForest.Proofs.Forest.Complete
import SetForest.Proofs.Family.Complete
import SetForest.Proofs.Forest.Eviction
import SetForest.Proofs.Family.Eviction
import SetForest.Proofs.Forest.Caches
import SetForest.Proofs.Session.Caches
import SetForest.Proofs.Session.Eviction
import SetForest.Proofs.Content.Violation
import SetForest.Proofs.Family.Ordered
import SetForest.Proofs.Session.Ordered
import SetForest.Proofs.Family.Dependable
import SetForest.Proofs.Session.Resident
import SetForest.Proofs.Forest.Accounts
import SetForest.Proofs.Family.Journal
import SetForest.Proofs.Family.Accounts
import SetForest.Proofs.Session.Statistics
import SetForest.Proofs.Content.Flat
import SetForest.Proofs.Family.Flat
import SetForest.Proofs.Workload.Cases
import SetForest.Proofs.Workload.Replay
import SetForest.Proofs.CommandLine.Replay
import SetForest.Proofs.Text.Split
import SetForest.Proofs.Text.Decimal
import SetForest.Proofs.OperationFile.Grammar
import SetForest.Proofs.OperationFile.Recognition
import SetForest.Proofs.OperationFile.RoundTrip
import SetForest.Proofs.Forest.Failure
import SetForest.Proofs.Family.Single
import SetForest.Proofs.Family.Operand
import SetForest.Proofs.Family.Failure
import SetForest.Proofs.Session.Range
import SetForest.Proofs.Session.Failure
import SetForest.Proofs.Forest.Filter
import SetForest.Proofs.Session.Filter
import SetForest.Proofs.Forest.Lasting
import SetForest.Proofs.Content.Edits
import SetForest.Proofs.Forest.Update
import SetForest.Proofs.Session.Lasting
import SetForest.Proofs.Family.Edits
import SetForest.Proofs.Session.Edits
import SetForest.Proofs.Family.FlatEdits
import SetForest.Proofs.Session.FlatEdits
import SetForest.Proofs.Content.Prepare
import SetForest.Proofs.Session.Unordered
import SetForest.Proofs.Storage.Layouts
import SetForest.Proofs.Workload.Random
import SetForest.Proofs.Workload.Generate
import SetForest.Proofs.Family.Universe
import SetForest.Proofs.Workload.Persistent
import SetForest.Proofs.Forest.Reconfigured
import SetForest.Proofs.Session.Configurations
import SetForest.Proofs.Content.Text
import SetForest.Proofs.Workload.Mismatches
