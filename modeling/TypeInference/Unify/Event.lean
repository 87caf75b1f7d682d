/-
# What happens during unification

Every rule of the unifier leaves an event with the types it looked at.  A
trace keeps the first events up to a limit and numbers them from one.
-/

import TypeInference.Ty.Display

namespace TypeInference

/-- The kinds of steps that a trace distinguishes. -/
inductive Action where
  | identity
  | bind
  | decompose
  | unwrapConst
  | occursCheck
  | error
  | rollback
  deriving DecidableEq, Repr

/-- The name of a kind of step. -/
def Action.name : Action → String
  | .identity => "identity"
  | .bind => "bind"
  | .decompose => "decompose"
  | .unwrapConst => "unwrap_const"
  | .occursCheck => "occurs_check"
  | .error => "error"
  | .rollback => "rollback"

/-- One step of a unification. -/
inductive Event where
  /-- One side is `any` or `error`. -/
  | wildcard (expected actual : Ty)
  /-- Both sides are one variable. -/
  | sameVar (v : VarId)
  /-- Both sides are one leaf type. -/
  | sameLeaf (expected actual : Ty)
  /-- A literal wrapper was dropped. -/
  | unwrapped (expected actual : Ty)
  /-- A variable was bound. -/
  | bound (v : VarId) (ty : Ty)
  /-- Two function types were taken apart. -/
  | decomposed (expected actual : Ty)
  /-- A variable occurs in the type it should be bound to. -/
  | occursIn (v : VarId) (ty : Ty)
  /-- The outermost constructors differ. -/
  | mismatched (expected actual : Ty)
  /-- The numbers of parameters differ. -/
  | arityDiffers (expected actual : Ty)
  /-- The bindings of a failed unification were undone. -/
  | rolledBack (expected actual : Ty) (count : Nat)
  deriving DecidableEq, Repr

namespace Event

/-- The kind of step. -/
def action : Event → Action
  | .wildcard .. | .sameVar _ | .sameLeaf .. => .identity
  | .unwrapped .. => .unwrapConst
  | .bound .. => .bind
  | .decomposed .. => .decompose
  | .occursIn .. => .occursCheck
  | .mismatched .. | .arityDiffers .. => .error
  | .rolledBack .. => .rollback

/-- The type on the left of a step. -/
def left : Event → Ty
  | .wildcard expected _ | .sameLeaf expected _ | .unwrapped expected _
  | .decomposed expected _ | .mismatched expected _ | .arityDiffers expected _
  | .rolledBack expected _ _ => expected
  | .sameVar v | .bound v _ | .occursIn v _ => .var v

/-- The type on the right of a step. -/
def right : Event → Ty
  | .wildcard _ actual | .sameLeaf _ actual | .unwrapped _ actual
  | .decomposed _ actual | .mismatched _ actual | .arityDiffers _ actual
  | .rolledBack _ actual _ => actual
  | .sameVar v => .var v
  | .bound _ ty | .occursIn _ ty => ty

/-- The remark on a step. -/
def detail : Event → String
  | .wildcard .. => "`any` and `<error>` unify with every type"
  | .sameVar _ => "same variable"
  | .sameLeaf .. => "types already equal"
  | .unwrapped .. => "compare the literal's type"
  | .bound v ty => VarId.text v ++ " := " ++ ty.text
  | .decomposed .. => "unify arguments pairwise, then return types"
  | .occursIn v ty =>
      VarId.text v ++ " occurs in " ++ ty.text ++ ", infinite type prevented"
  | .mismatched .. => "type mismatch"
  | .arityDiffers .. => "argument counts differ"
  | .rolledBack _ _ count => "undid " ++ Nat.repr count ++ " binding(s)"

end Event

/-- A numbered line of a trace. -/
structure TraceLine where
  step : Nat
  action : Action
  left : String
  right : String
  detail : String
  deriving DecidableEq, Repr

/-- An event under its number in a trace. -/
structure TraceStep where
  step : Nat
  event : Event
  deriving DecidableEq, Repr

/-- A numbered event as a line. -/
def TraceStep.line (s : TraceStep) : TraceLine :=
  ⟨s.step, s.event.action, s.event.left.text, s.event.right.text, s.event.detail⟩

/-- A buffer for the events since it was last emptied, with room for `limit` of them. -/
structure Trace where
  limit : Nat
  steps : List TraceStep
  deriving DecidableEq, Repr

namespace Trace

/-- A trace without events. -/
def empty (limit : Nat) : Trace := ⟨limit, []⟩

/-- Add an event at the end, under the next number, unless the buffer is full. -/
def push (trace : Trace) (event : Event) : Trace :=
  if trace.limit ≤ trace.steps.length then trace
  else { trace with steps := trace.steps ++ [⟨trace.steps.length + 1, event⟩] }

/-- Add events one after the other. -/
def record (trace : Trace) (batch : List Event) : Trace := batch.foldl push trace

/-- Forget all events. -/
def clear (trace : Trace) : Trace := { trace with steps := [] }

/-- The events as numbered lines. -/
def lines (trace : Trace) : List TraceLine := trace.steps.map TraceStep.line

/-- Recording in two batches is recording at once. -/
theorem record_record (trace : Trace) (first second : List Event) :
    (trace.record first).record second = trace.record (first ++ second) :=
  List.foldl_append.symm

end Trace

end TypeInference
