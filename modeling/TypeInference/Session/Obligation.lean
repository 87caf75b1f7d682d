/-
# Required traits

A trait required of a type that is still a variable is put off.  Obligations
are taken up again when a scope is closed and at the end; those whose variable
is still open stay.
-/

import TypeInference.Session.Basic

namespace TypeInference.Session

/-- The type that decides whether a trait holds: the head of a type, looked up
again below its literal wrappers. -/
def traitSubject (s : Session) (ty : Ty) : Except Fault Ty := do
  let head ← s.subst.resolve ty
  s.subst.resolve head.unwrap

/-- Require a trait of a type.  The wildcards have every trait, and a variable
defers the answer. -/
def requireTrait (s : Session) (ty : Ty) (traitName : String) (origin : NodeId) :
    Except Fault (Except TypeError Unit × Session) :=
  if s.registry.contains traitName then do
    let subject ← s.traitSubject ty
    match subject with
    | .any | .error => .ok (.ok (), s)
    | .var v =>
        .ok (.ok (), { s with obligations := s.obligations ++ [⟨.var v, traitName, origin⟩] })
    | subject =>
        if ← s.registry.satisfies subject traitName then
          .ok (.ok (), s)
        else
          .ok (.error (.unsatisfied (← s.apply subject) traitName), s)
  else
    .error (.unregisteredTrait traitName)

/-- Take up one obligation again, and report it if it fails. -/
def discharge (s : Session) (obligation : Obligation) : Except Fault Session := do
  let (outcome, s) ← s.requireTrait obligation.ty obligation.traitName obligation.origin
  match outcome with
  | .ok () => .ok s
  | .error error => .ok (s.reportError error obligation.origin)

/-- Take up all obligations again, in order. -/
def dischargeTraits (s : Session) : Except Fault Session :=
  s.obligations.foldlM discharge { s with obligations := [] }

end TypeInference.Session
