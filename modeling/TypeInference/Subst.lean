/-
# Substitutions with a trail

A substitution maps variables to types and keeps, beside the map, the trail of
the bound variables in the order they were bound.  Bindings are never changed.
They are only added, or undone along the trail from the newest back to a
snapshot.

Nothing here checks that bindings are free of cycles.  Following a chain of
variables stops after as many steps as there are bindings, and applying a
substitution stops when a variable is met inside its own binding; both report
the variable at which they stopped.
-/

import TypeInference.Fault
import TypeInference.KeyMap

namespace TypeInference

namespace Ty

mutual

/-- Replace every variable of a type, from left to right, until a fault. -/
def replaceVars (image : VarId → Except Fault Ty) : Ty → Except Fault Ty
  | .var v => image v
  | .func params result => do
      let params' ← replaceVarsAll image params
      let result' ← result.replaceVars image
      .ok (.func params' result')
  | .const base value => do
      let base' ← base.replaceVars image
      .ok (.const base' value)
  | ty => .ok ty

/-- Replace every variable of a list of types, from left to right. -/
def replaceVarsAll (image : VarId → Except Fault Ty) : List Ty → Except Fault (List Ty)
  | [] => .ok []
  | first :: rest => do
      let first' ← first.replaceVars image
      let rest' ← replaceVarsAll image rest
      .ok (first' :: rest')

end

end Ty

/-- A point in the history of a substitution: how long the trail was. -/
abbrev Snapshot := Nat

/-- Bindings of variables to types, with the order they were made in. -/
structure Subst where
  /-- The bound types in ascending order of their variables. -/
  bindings : KeyMap VarId Ty
  /-- The bound variables, the newest first. -/
  trail : List VarId
  deriving DecidableEq, Inhabited

namespace Subst

/-- No bindings. -/
def empty : Subst := ⟨.empty, []⟩

/-- The type a variable is bound to. -/
def lookup (s : Subst) (v : VarId) : Option Ty := s.bindings.find? v

/-- Whether a variable is bound. -/
def isBound (s : Subst) (v : VarId) : Bool := (s.lookup v).isSome

/-- The number of bindings. -/
def size (s : Subst) : Nat := s.bindings.size

/-- Add a binding of a variable that has none. -/
def extend (s : Subst) (v : VarId) (ty : Ty) : Subst :=
  ⟨s.bindings.insert v ty, v :: s.trail⟩

/-- Bind a variable.  A bound variable may only be bound to a type of the same
shape, and then keeps the type it has. -/
def bind (s : Subst) (v : VarId) (ty : Ty) : Except Fault Subst :=
  match s.lookup v with
  | some existing =>
      if existing.sameShape ty then .ok s else .error (.alreadyBound v existing ty)
  | none => .ok (s.extend v ty)

/-- The current point in the history. -/
def snapshot (s : Subst) : Snapshot := s.trail.length

/-- Take variables off a trail, and their bindings out of the map, while the
trail is longer than it was at a snapshot. -/
def undo (point : Snapshot) (bindings : KeyMap VarId Ty) : List VarId → Subst
  | [] => ⟨bindings, []⟩
  | v :: older =>
      if point < older.length + 1 then undo point (bindings.erase v) older
      else ⟨bindings, v :: older⟩

/-- Undo the bindings made since a snapshot. -/
def rollback (s : Subst) (point : Snapshot) : Subst := undo point s.bindings s.trail

@[simp] theorem lookup_empty (v : VarId) : empty.lookup v = none := rfl

@[simp] theorem lookup_extend_self (s : Subst) (v : VarId) (ty : Ty) :
    (s.extend v ty).lookup v = some ty :=
  KeyMap.find?_insert_self s.bindings v ty

/-- A new binding leaves the other variables alone. -/
theorem lookup_extend_of_ne (s : Subst) {v w : VarId} (hne : w ≠ v) (ty : Ty) :
    (s.extend v ty).lookup w = s.lookup w :=
  KeyMap.find?_insert_of_ne s.bindings hne ty

@[simp] theorem trail_extend (s : Subst) (v : VarId) (ty : Ty) :
    (s.extend v ty).trail = v :: s.trail := rfl

/-- Binding an unbound variable adds one binding. -/
theorem bind_of_lookup_eq_none {s : Subst} {v : VarId} (h : s.lookup v = none) (ty : Ty) :
    s.bind v ty = .ok (s.extend v ty) := by
  rw [bind, h]

/-- Follow bindings of variables for at most `hops` steps. -/
def follow (s : Subst) (hops : Nat) (ty : Ty) : Except Fault Ty :=
  match ty with
  | .var v =>
      match s.lookup v with
      | none => .ok (.var v)
      | some next =>
          match hops with
          | 0 => .error (.cyclicChain v)
          | hops + 1 => s.follow hops next
  | ty => .ok ty

/-- The unbound variable or the proper type at the end of a chain of variables. -/
def resolve (s : Subst) (ty : Ty) : Except Fault Ty := s.follow s.size ty

/-- What a variable stands for once all bindings are used, given the variables
inside whose bindings it was met. -/
def expand (s : Subst) (depth : Nat) (active : List VarId) (v : VarId) : Except Fault Ty :=
  match s.lookup v with
  | none => .ok (.var v)
  | some bound =>
      if active.contains v then .error (.cyclicChain v)
      else
        match depth with
        | 0 => .error (.cyclicChain v)
        | depth + 1 => bound.replaceVars fun w => s.expand depth (v :: active) w

/-- Replace every bound variable at every depth. -/
def apply (s : Subst) (ty : Ty) : Except Fault Ty := ty.replaceVars (s.expand s.size [])

end Subst

end TypeInference
