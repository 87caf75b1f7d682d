/-
# Unification

Two types are made equal by binding variables.  Each rule first follows the
two types to their heads.  Wildcards go with everything, literal wrappers are
looked through, and a variable is bound to the applied and erased form of the
other side, so that bound types never hold wrappers.

The unifier recurses on a number of steps.  `stepBound` is large enough for
every substitution without cycles: a binding at most triples the summed heights
of two types still to be compared, each rule lowers that sum, and no more
bindings can be made than there are variables in sight.
-/

import TypeInference.Subst
import TypeInference.TypeError
import TypeInference.Unify.Event

namespace TypeInference.Unify

/-- How far a unification has come: the bindings, and the events with the newest first. -/
structure Progress where
  subst : Subst
  log : List Event

/-- Note an event. -/
def Progress.note (progress : Progress) (event : Event) : Progress :=
  { progress with log := event :: progress.log }

/-- How a unification ends. -/
inductive Attempt where
  | solved (progress : Progress)
  | failed (error : TypeError) (progress : Progress)
  | broken (fault : Fault)

namespace Attempt

/-- Go on after a success. -/
def andThen (attempt : Attempt) (next : Progress → Attempt) : Attempt :=
  match attempt with
  | .solved progress => next progress
  | .failed error progress => .failed error progress
  | .broken fault => .broken fault

/-- Go on with the value of a computation that may fault. -/
def given {α : Type} (value : Except Fault α) (next : α → Attempt) : Attempt :=
  match value with
  | .ok value => next value
  | .error fault => .broken fault

end Attempt

/-- Bind an unbound variable to a type without wrappers, unless it occurs there. -/
def bindErased (progress : Progress) (v : VarId) (ty : Ty) : Attempt :=
  if ty.occurs v then
    .failed (.infinite v ty) (progress.note (.occursIn v ty))
  else
    .given (progress.subst.bind v ty) fun subst => .solved ⟨subst, .bound v ty :: progress.log⟩

/-- Bind an unbound variable to the applied and erased form of a type. -/
def bindVar (progress : Progress) (v : VarId) (ty : Ty) : Attempt :=
  .given (progress.subst.apply ty) fun applied => bindErased progress v applied.erase

/-- Fail because the outermost constructors differ. -/
def mismatch (progress : Progress) (expected actual : Ty) : Attempt :=
  .given (progress.subst.apply expected) fun expected' =>
    .given (progress.subst.apply actual) fun actual' =>
      .failed (.mismatch expected' actual') (progress.note (.mismatched expected actual))

/-- Fail because the numbers of parameters differ. -/
def arityMismatch (progress : Progress) (params params' : List Ty) (expected actual : Ty) :
    Attempt :=
  .given (progress.subst.apply expected) fun expected' =>
    .given (progress.subst.apply actual) fun actual' =>
      .failed (.arity params.length params'.length expected' actual')
        (progress.note (.arityDiffers expected actual))

/-- Unify pairs from left to right, stopping at the first failure. -/
def solveAll (solve : Progress → Ty → Ty → Attempt) :
    Progress → List (Ty × Ty) → Attempt
  | progress, [] => .solved progress
  | progress, (expected, actual) :: rest =>
      (solve progress expected actual).andThen fun progress => solveAll solve progress rest

/-- One rule of unification on two heads, with `solve` for the parts. -/
def solveHeads (solve : Progress → Ty → Ty → Attempt) (progress : Progress)
    (expected actual : Ty) : Attempt :=
  if expected.isWildcard || actual.isWildcard then
    .solved (progress.note (.wildcard expected actual))
  else
    match expected, actual with
    | .const base _, _ => solve (progress.note (.unwrapped expected actual)) base actual
    | _, .const base _ => solve (progress.note (.unwrapped expected actual)) expected base
    | .var v, .var w =>
        if v = w then .solved (progress.note (.sameVar v)) else bindVar progress v actual
    | .var v, _ => bindVar progress v actual
    | _, .var w => bindVar progress w expected
    | .func params result, .func params' result' =>
        if params.length = params'.length then
          solveAll solve (progress.note (.decomposed expected actual))
            (params.zip params' ++ [(result, result')])
        else
          arityMismatch progress params params' expected actual
    | _, _ =>
        if expected.tag = actual.tag then
          .solved (progress.note (.sameLeaf expected actual))
        else
          mismatch progress expected actual

/-- Unify two types within a number of nested steps. -/
def solve : Nat → Progress → Ty → Ty → Attempt
  | 0, _, _, _ => .broken .unboundedUnification
  | steps + 1, progress, expected, actual =>
      .given (progress.subst.resolve expected) fun expected =>
        .given (progress.subst.resolve actual) fun actual =>
          solveHeads (solve steps) progress expected actual

/-- The number of constructors in all bound types. -/
def boundSize (subst : Subst) : Nat := Ty.sizeAll subst.bindings.values

/-- Enough nested steps for every substitution without cycles. -/
def stepBound (subst : Subst) (expected actual : Ty) : Nat :=
  let weight := expected.size + actual.size + 2 * boundSize subst
  weight * Nat.pow 3 weight

/-- Unify two types under a substitution. -/
def run (subst : Subst) (expected actual : Ty) : Attempt :=
  solve (stepBound subst expected actual) ⟨subst, []⟩ expected actual

end TypeInference.Unify
