/-
# Diagnostics

A diagnostic is what a user sees of a failed check: a category with a stable
code, a message, the place and the node it is about, remarks on other places,
and possibly a hint.
-/

import TypeInference.Source.Node
import TypeInference.Source.Span

namespace TypeInference

/-- The kinds of failed checks. -/
inductive Category where
  | typeMismatch
  | arityMismatch
  | infiniteType
  | unresolvedType
  | traitBound
  | undefinedName
  | unknownType
  deriving DecidableEq, Repr

namespace Category

/-- Every category, in the order of the codes. -/
def all : List Category :=
  [.typeMismatch, .arityMismatch, .infiniteType, .unresolvedType, .traitBound,
   .undefinedName, .unknownType]

/-- The name of a category. -/
def name : Category → String
  | .typeMismatch => "type_mismatch"
  | .arityMismatch => "arity_mismatch"
  | .infiniteType => "infinite_type"
  | .unresolvedType => "unresolved_type"
  | .traitBound => "trait_bound"
  | .undefinedName => "undefined_name"
  | .unknownType => "unknown_type"

/-- The stable code of a category. -/
def code : Category → String
  | .typeMismatch => "E0001"
  | .arityMismatch => "E0002"
  | .infiniteType => "E0003"
  | .unresolvedType => "E0004"
  | .traitBound => "E0005"
  | .undefinedName => "E0006"
  | .unknownType => "E0007"

/-- One sentence on what the category means. -/
def description : Category → String
  | .typeMismatch => "Expression type does not match expected type."
  | .arityMismatch => "A function was used with the wrong number of arguments."
  | .infiniteType => "A type would have to contain itself."
  | .unresolvedType => "Inference could not determine a type."
  | .traitBound => "A required trait is not implemented by the given type."
  | .undefinedName => "A referenced variable or function is undefined."
  | .unknownType => "A type annotation names an unknown type."

/-- One sentence on what usually helps. -/
def exampleFix : Category → String
  | .typeMismatch => "Adjust the expression or the annotation so both agree on one type."
  | .arityMismatch => "Call the function with its declared parameter count."
  | .infiniteType => "Check for a value passed to itself as an argument."
  | .unresolvedType => "Add a type annotation to the declaration."
  | .traitBound => "Convert the operands to a type that supports the operation."
  | .undefinedName => "Define the missing name or fix the spelling."
  | .unknownType => "Use one of the built-in type names."

end Category

/-- A failed check as it is shown to a user. -/
structure Diagnostic where
  category : Category
  code : Option String
  message : String
  location : Option Span
  origin : Option NodeId
  labels : List Label
  help : Option String
  deriving DecidableEq, Repr

namespace Diagnostic

/-- A diagnostic with its category's code and nothing but a message. -/
def ofMessage (category : Category) (message : String) : Diagnostic :=
  { category, code := some category.code, message, location := none, origin := none,
    labels := [], help := none }

/-- The printed form: code, message, and the hint on a line of its own. -/
def text (diagnostic : Diagnostic) : String :=
  let head := match diagnostic.code with
    | some code => "error[" ++ code ++ "]: " ++ diagnostic.message
    | none => "error: " ++ diagnostic.message
  match diagnostic.help with
  | some help => head ++ "\n  help: " ++ help
  | none => head

/-- The printed form of the first of several diagnostics. -/
def summary (diagnostics : List Diagnostic) : String :=
  match diagnostics with
  | first :: _ => first.text
  | [] => ""

/-- The diagnostics about one node. -/
def aboutNode (diagnostics : List Diagnostic) (node : NodeId) : List Diagnostic :=
  diagnostics.filter fun diagnostic => diagnostic.origin == some node

end Diagnostic

end TypeInference
