import TypeInference.Diagnostic
import TypeInference.Fault
import TypeInference.KeyMap
import TypeInference.Literal.Basic
import TypeInference.Literal.Fold
import TypeInference.Numeral.Binary64
import TypeInference.Numeral.Positional
import TypeInference.Numeral.Shortest
import TypeInference.Operator
import TypeInference.Registry
import TypeInference.Session.Basic
import TypeInference.Session.Expression
import TypeInference.Session.Finish
import TypeInference.Session.Obligation
import TypeInference.Session.Scope
import TypeInference.Session.Unification
import TypeInference.Source.Ascription
import TypeInference.Source.Declaration
import TypeInference.Source.Node
import TypeInference.Source.Span
import TypeInference.Subst
import TypeInference.Symbol
import TypeInference.Text.Extending
import TypeInference.Text.Invisible
import TypeInference.Text.Quoted
import TypeInference.Text.Unassigned
import TypeInference.Ty.Basic
import TypeInference.Ty.Display
import TypeInference.Ty.OfAscription
import TypeInference.Ty.Variable
import TypeInference.TypeError
import TypeInference.Unify.Engine
import TypeInference.Unify.Event
import TypeInference.VarSupply
import TypeInference.Workspace
import TypeInference.Proofs.Subst.Acyclic
import TypeInference.Proofs.Subst.Growth
import TypeInference.Proofs.Unify.Rule
import TypeInference.Proofs.Unify.Bound
import TypeInference.Proofs.Unify.Confinement
import TypeInference.Proofs.Unify.Reduction
import TypeInference.Proofs.Unify.Symmetry
import TypeInference.Proofs.Unify.Taint
import TypeInference.Proofs.Session.Operation
import TypeInference.Proofs.Session.Reachable
import TypeInference.Proofs.Session.Unification
import TypeInference.Proofs.Session.Comparison
import TypeInference.Proofs.Session.Trait
import TypeInference.Proofs.Session.Act
import TypeInference.Proofs.Session.Command
import TypeInference.Proofs.Session.Settlement
import TypeInference.Proofs.Session.Output
import TypeInference.Proofs.Session.Frame
import TypeInference.Proofs.Session.Justification
import TypeInference.Proofs.Session.Obligation
import TypeInference.Proofs.Session.ConstraintOrder
import TypeInference.Proofs.Session.OpenType
import TypeInference.Proofs.Session.Folding
import TypeInference.Proofs.Subst.Renaming
import TypeInference.Proofs.Unify.Renaming
import TypeInference.Proofs.Session.Renaming
import TypeInference.Proofs.Session.Drawing
import TypeInference.Proofs.Session.Numbering
import TypeInference.Proofs.Session.Idempotence
import TypeInference.Proofs.Session.Operand
import TypeInference.Proofs.Session.SharedPool
import TypeInference.Proofs.Session.Callee
import TypeInference.Proofs.Session.Termination
import TypeInference.Proofs.Session.Footprint
import TypeInference.Proofs.Session.Refusal
import TypeInference.Proofs.Session.Closing
import TypeInference.Proofs.Session.Ascription
import TypeInference.Proofs.Session.Pinning
import TypeInference.Proofs.Session.Determination
import TypeInference.Proofs.Session.LiteralOperation
import TypeInference.Proofs.Symbol.Scoping
import TypeInference.Proofs.Session.Publication
import TypeInference.Proofs.Ty.Printed
import TypeInference.Proofs.Session.Tracing
import TypeInference.Proofs.Registry.Registration
import TypeInference.Proofs.Subst.History
import TypeInference.Proofs.Subst.Cycle
import TypeInference.Proofs.Session.Observation
import TypeInference.Proofs.Ty.Rendering
