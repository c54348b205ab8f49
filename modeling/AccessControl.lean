import AccessControl.Query.Text
import AccessControl.Store.Preload
import AccessControl.Condition.Text
import AccessControl.Encoding.Config
import AccessControl.Encoding.Record
import AccessControl.Encoding.Schema
import AccessControl.Json.Parser
import AccessControl.Json.Printer
import AccessControl.Proofs.Founded
import AccessControl.Proofs.Chains
import AccessControl.Proofs.Rechecking
import AccessControl.Proofs.Outcome
import AccessControl.Proofs.Readings
import AccessControl.Proofs.Definedness
import AccessControl.Proofs.Meaning
import AccessControl.Proofs.RecordReading
import AccessControl.Proofs.Agreement
import AccessControl.Proofs.Bindings
import AccessControl.Proofs.Grounded
import AccessControl.Proofs.HookedPreloads
import AccessControl.Proofs.FaultyPreloads
import AccessControl.Proofs.TwinRuns
import AccessControl.Proofs.Sameness
import AccessControl.Proofs.History
import AccessControl.Proofs.Algebra
import AccessControl.Proofs.Scoping
import AccessControl.Proofs.Composition
import AccessControl.Proofs.Interference
import AccessControl.Proofs.Resources
import AccessControl.Proofs.KnownTables
import AccessControl.Proofs.Encodings
import AccessControl.Proofs.EagerLoading
import AccessControl.Proofs.Simplification
import AccessControl.Proofs.ScopeInvariants
import AccessControl.Proofs.BindingDiscipline
import AccessControl.Proofs.DeadBranches
import AccessControl.Proofs.Validation
import AccessControl.Proofs.Renaming
import AccessControl.Proofs.Interleaving
import AccessControl.Proofs.Registration
import AccessControl.Proofs.Sorting
import AccessControl.Proofs.Folds
import AccessControl.Proofs.Mentions
import AccessControl.Proofs.ForeignKeys
