/-
# Unification within a session

A failed unification leaves the substitution as it was: the bindings it made
are undone before it returns.
-/

import TypeInference.Session.Basic

namespace TypeInference.Session

/-- Make two types agree, or leave the substitution alone and say why not. -/
def unify (s : Session) (expected actual : Ty) :
    Except Fault (Except TypeError Unit × Session) :=
  match Unify.run s.subst expected actual with
  | .broken fault => .error fault
  | .solved progress =>
      .ok (.ok (), { s with subst := progress.subst }.recordEvents progress.log.reverse)
  | .failed error progress =>
      let subst := progress.subst.rollback s.subst.snapshot
      let undone := progress.subst.size - subst.size
      let events := progress.log.reverse ++ [.rolledBack expected actual undone]
      .ok (.error error, { s with subst }.recordEvents events)

/-- Whether two types could be made to agree.  The session is not changed. -/
def consistent (s : Session) (expected actual : Ty) : Except Fault Bool :=
  match Unify.run s.subst expected actual with
  | .broken fault => .error fault
  | .solved _ => .ok true
  | .failed _ _ => .ok false

/-- Make a type agree with an expected one.  The answer is the expected type with
all bindings used, or `error` after a report. -/
def expect (s : Session) (expected actual : Ty) (origin : NodeId) :
    Except Fault (Ty × Session) := do
  let (outcome, s) ← s.unify expected actual
  match outcome with
  | .ok () => .ok (← s.apply expected, s)
  | .error error => .ok (.error, s.reportError error origin)

end TypeInference.Session
