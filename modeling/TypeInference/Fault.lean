/-
# Misuse of the inference state

A fault is not a type error of the checked program.  It says that an operation
was called in a state it does not accept, and it ends the run.
-/

import TypeInference.Source.Node
import TypeInference.Ty.Display

namespace TypeInference

/-- Why an operation could not be carried out. -/
inductive Fault where
  /-- A bound variable was bound again to another type. -/
  | alreadyBound (v : VarId) (existing new : Ty)
  /-- A variable was met again inside its own binding. -/
  | cyclicChain (v : VarId)
  /-- Unification used up the steps that a substitution without cycles can need. -/
  | unboundedUnification
  /-- A trait was asked about that the registry does not have. -/
  | unregisteredTrait (name : String)
  /-- No numbers are left for new variables. -/
  | idsExhausted
  /-- The stand-in for unknown names was declared. -/
  | placeholderDeclared
  /-- A declaration was published while it was visible. -/
  | alreadyPublished (decl : DeclId)
  /-- A symbol was declared outside all scopes. -/
  | noOpenScope
  /-- A scope was closed outside all scopes. -/
  | noScopeToClose
  deriving DecidableEq, Repr

/-- The text of a fault. -/
def Fault.message : Fault → String
  | .alreadyBound v existing new =>
      "type variable " ++ VarId.text v ++ " is already bound to `" ++ existing.text ++
        "`, cannot rebind to `" ++ new.text ++ "`"
  | .cyclicChain v => "cyclic substitution chain through " ++ VarId.text v
  | .unboundedUnification => "unification exceeded its bound"
  | .unregisteredTrait name => "trait `" ++ name ++ "` is not registered"
  | .idsExhausted => "type variable ids exhausted"
  | .placeholderDeclared => "the unknown-identifier placeholder cannot be declared"
  | .alreadyPublished decl =>
      "declaration " ++ (NodeId.decl decl).text ++ " is already published"
  | .noOpenScope => "no open scope"
  | .noScopeToClose => "no open scope to close"

/-- A computation of two parts returns what the second returns on a result of the first. -/
theorem exists_of_bind_eq_ok {α β : Type} {value : Except Fault α}
    {next : α → Except Fault β} {b : β} (h : (value >>= next) = .ok b) :
    ∃ a, value = .ok a ∧ next a = .ok b := by
  cases value with
  | ok a => exact ⟨a, rfl, h⟩
  | error fault => cases h

theorem exists_of_map_eq_ok {α β : Type} {x : Except Fault α} {f : α → β} {b : β}
    (h : x.map f = .ok b) : ∃ a, x = .ok a ∧ f a = b := by
  cases x with
  | error fault => cases h
  | ok a => exact ⟨a, rfl, Except.ok.inj h⟩

/-- A computation of two parts faults where the first does, or where the second does on a
result of the first. -/
theorem cases_of_bind_eq_error {α β : Type} {value : Except Fault α}
    {next : α → Except Fault β} {fault : Fault} (h : (value >>= next) = .error fault) :
    value = .error fault ∨ ∃ a, value = .ok a ∧ next a = .error fault := by
  cases value with
  | ok a => exact .inr ⟨a, rfl, h⟩
  | error other =>
      cases h
      exact .inl rfl

end TypeInference
