/-
# Type errors and reports

A type error is the cause of a failed check.  It has two texts: one for logs,
with numbered variables, and one for users, with letters.  A report attributes
an error to a node and is turned into a diagnostic at the end.
-/

import TypeInference.Diagnostic
import TypeInference.Ty.Display

namespace TypeInference

/-- Why a check failed. -/
inductive TypeError where
  /-- Two types with different outermost constructors. -/
  | mismatch (expected actual : Ty)
  /-- Two function types with different numbers of parameters. -/
  | arity (expected actual : Nat) (expectedTy actualTy : Ty)
  /-- A variable that would stand for a type containing it. -/
  | infinite (v : VarId) (ty : Ty)
  /-- A type that inference left open. -/
  | unresolved (subject : String) (ty : Ty)
  /-- A type without a required trait. -/
  | unsatisfied (ty : Ty) (traitName : String)
  | unknownIdentifier (name : String)
  | unknownTypeName (name : String)
  deriving DecidableEq, Repr

namespace TypeError

/-- The category of an error. -/
def category : TypeError → Category
  | .mismatch .. => .typeMismatch
  | .arity .. => .arityMismatch
  | .infinite .. => .infiniteType
  | .unresolved .. => .unresolvedType
  | .unsatisfied .. => .traitBound
  | .unknownIdentifier _ => .undefinedName
  | .unknownTypeName _ => .unknownType

/-- The types that an error is about. -/
def types : TypeError → List Ty
  | .mismatch expected actual => [expected, actual]
  | .arity _ _ expectedTy actualTy => [expectedTy, actualTy]
  | .infinite v ty => [.var v, ty]
  | .unresolved _ ty => [ty]
  | .unsatisfied ty _ => [ty]
  | .unknownIdentifier _ | .unknownTypeName _ => []

/-- The text for logs. -/
def logText : TypeError → String
  | .mismatch expected actual =>
      "type mismatch: expected `" ++ expected.text ++ "`, got `" ++ actual.text ++ "`"
  | .arity expected actual _ _ =>
      "arity mismatch: expected " ++ Nat.repr expected ++ " arguments, got " ++
        Nat.repr actual
  | .infinite v ty => "infinite type: " ++ VarId.text v ++ " occurs in `" ++ ty.text ++ "`"
  | .unresolved subject ty =>
      "cannot infer a type for " ++ subject ++ ": `" ++ ty.text ++ "` is still open"
  | .unsatisfied ty traitName =>
      "type `" ++ ty.text ++ "` does not implement trait `" ++ traitName ++ "`"
  | .unknownIdentifier name => "unknown identifier `" ++ name ++ "`"
  | .unknownTypeName name => "unknown type `" ++ name ++ "`"

/-- The text for users. -/
def message : TypeError → String
  | .mismatch expected actual =>
      let shown := Ty.lettered expected actual
      "type mismatch: expected `" ++ shown.1 ++ "`, got `" ++ shown.2 ++ "`"
  | .arity expected actual expectedTy actualTy =>
      let shown := Ty.lettered expectedTy actualTy
      let count := if expected = 1 then "1 argument" else Nat.repr expected ++ " arguments"
      "function takes " ++ count ++ " but is used with " ++ Nat.repr actual ++
        ": expected `" ++ shown.1 ++ "`, got `" ++ shown.2 ++ "`"
  | .infinite v ty =>
      let shown := Ty.lettered (.var v) ty
      "infinite type: `" ++ shown.1 ++ "` would have to contain itself in `" ++
        shown.2 ++ "`"
  | .unresolved subject ty =>
      "cannot infer a type for " ++ subject ++ ": inference stopped at `" ++
        ty.letteredText ++ "`"
  | .unsatisfied ty traitName =>
      "type `" ++ ty.letteredText ++ "` does not implement trait `" ++ traitName ++ "`"
  | .unknownIdentifier name => "unknown identifier `" ++ name ++ "`"
  | .unknownTypeName name => "unknown type `" ++ name ++ "`"

/-- The hint for users. -/
def help? : TypeError → Option String
  | .unsatisfied _ traitName => some ("the operation requires `" ++ traitName ++ "`")
  | _ => none

end TypeError

/-- An error attributed to the node that caused it. -/
structure Report where
  error : TypeError
  origin : NodeId
  span : Option Span
  /-- Remarks on other places. -/
  labels : List Label
  deriving DecidableEq, Repr

namespace Report

/-- A report without a place. -/
def ofError (error : TypeError) (origin : NodeId) : Report := ⟨error, origin, none, []⟩

/-- The category of the reported error. -/
def category (report : Report) : Category := report.error.category

/-- The diagnostic shown for a report.  The place is left out when no user wrote it. -/
def toDiagnostic (report : Report) : Diagnostic :=
  { Diagnostic.ofMessage report.category report.error.message with
    origin := some report.origin
    location := report.span.filter fun span => !span.isSynthetic
    labels := report.labels
    help := report.error.help? }

end Report

end TypeInference
