import ModuleLift.Main
import ModuleLift.Proofs.Lift.Marker
import ModuleLift.Proofs.Polyfill
import ModuleLift.Proofs.Scope.Names
import ModuleLift.Proofs.Lift.Names
import ModuleLift.Proofs.Lift.Binding
import ModuleLift.Proofs.Lift.Mention
import ModuleLift.Proofs.Scope.Extent
import ModuleLift.Proofs.Scope.Reach
import ModuleLift.Proofs.Lift.Ambient
import ModuleLift.Proofs.Lift.Recognition
import ModuleLift.Proofs.Lift.Rounds
import ModuleLift.Proofs.Lift.Account
import ModuleLift.Proofs.Lift.Redeclaration
import ModuleLift.Proofs.Lift.Settled
import ModuleLift.Proofs.Lift.Rest
import ModuleLift.Proofs.Lift.Again
import ModuleLift.Proofs.Text.Utf8
import ModuleLift.Proofs.Files.Route
import ModuleLift.Proofs.Files.FileTree
import ModuleLift.Proofs.Lift.Probe
import ModuleLift.Proofs.Command.Step
import ModuleLift.Proofs.Command.Isolation
import ModuleLift.Proofs.Command.Overwriting
import ModuleLift.Proofs.Command.Checking
import ModuleLift.Proofs.Scope.Grammatical
import ModuleLift.Proofs.Scope.Account
import ModuleLift.Proofs.Scope.Complete
import ModuleLift.Proofs.Emission.Printable
import ModuleLift.Proofs.Lift.Division
import ModuleLift.Proofs.Lift.Exports
import ModuleLift.Proofs.Lift.Local
import ModuleLift.Proofs.Lift.Written
import ModuleLift.Proofs.Emission.Recovery
import ModuleLift.Proofs.Resolution
import ModuleLift.Proofs.Lift.Arguments
import ModuleLift.Proofs.Text.Quoted
import ModuleLift.Proofs.ExportMap
import ModuleLift.Proofs.Scope.WellFormed
import ModuleLift.Proofs.Scope.EvalCalls
import ModuleLift.Proofs.Grammar.Cutting
import ModuleLift.Proofs.Grammar.NameLists
import ModuleLift.Proofs.Lift.Keys
