/-
# Variables of a type

Occurrences are listed from left to right.  The free variables are the same
numbers in ascending order, each once.
-/

import TypeInference.Ty.Basic

namespace TypeInference

/-- Put a number into an ascending list unless it is there already. -/
def insertAscending (n : Nat) : List Nat → List Nat
  | [] => [n]
  | m :: rest =>
      if n < m then n :: m :: rest
      else if n = m then m :: rest
      else m :: insertAscending n rest

/-- The numbers of a list in ascending order, each once. -/
def ascendingDistinct (numbers : List Nat) : List Nat :=
  numbers.foldr insertAscending []

@[simp] theorem mem_insertAscending {k n : Nat} {list : List Nat} :
    k ∈ insertAscending n list ↔ k = n ∨ k ∈ list := by
  induction list with
  | nil => simp [insertAscending]
  | cons m rest ih =>
      rw [insertAscending]
      split
      · simp
      · split
        · rename_i heq
          subst heq
          simp
        · simp only [List.mem_cons, ih]
          exact or_left_comm

/-- Sorting keeps exactly the numbers of the list. -/
@[simp] theorem mem_ascendingDistinct {k : Nat} {list : List Nat} :
    k ∈ ascendingDistinct list ↔ k ∈ list := by
  induction list with
  | nil => simp [ascendingDistinct]
  | cons n rest ih =>
      rw [ascendingDistinct, List.foldr_cons, mem_insertAscending, List.mem_cons]
      exact or_congr_right ih

theorem pairwise_insertAscending {n : Nat} {list : List Nat} (h : list.Pairwise (· < ·)) :
    (insertAscending n list).Pairwise (· < ·) := by
  induction list with
  | nil => exact List.pairwise_singleton _ _
  | cons m rest ih =>
      obtain ⟨hm, hrest⟩ := List.pairwise_cons.mp h
      rw [insertAscending]
      split
      · rename_i hlt
        refine List.pairwise_cons.mpr ⟨fun k hk => ?_, h⟩
        rcases List.mem_cons.mp hk with rfl | hk
        · exact hlt
        · exact Nat.lt_trans hlt (hm k hk)
      · split
        · exact h
        · refine List.pairwise_cons.mpr ⟨fun k hk => ?_, ih hrest⟩
          rcases mem_insertAscending.mp hk with rfl | hk
          · omega
          · exact hm k hk

theorem pairwise_ascendingDistinct (list : List Nat) :
    (ascendingDistinct list).Pairwise (· < ·) := by
  induction list with
  | nil => exact .nil
  | cons n rest ih => exact pairwise_insertAscending ih

/-- No number is listed twice. -/
theorem nodup_ascendingDistinct (list : List Nat) : (ascendingDistinct list).Nodup :=
  (pairwise_ascendingDistinct list).imp fun hlt => Nat.ne_of_lt hlt

namespace Ty

mutual

/-- The occurrences of variables, from left to right. -/
def varOccurrences : Ty → List VarId
  | .var v => [v]
  | .func params result => varOccurrencesAll params ++ result.varOccurrences
  | .const base _ => base.varOccurrences
  | _ => []

/-- The occurrences of variables in a list of types. -/
def varOccurrencesAll : List Ty → List VarId
  | [] => []
  | first :: rest => first.varOccurrences ++ varOccurrencesAll rest

end

/-- The variables of a type in ascending order. -/
def freeVars (ty : Ty) : List VarId := ascendingDistinct ty.varOccurrences

/-- Whether a type has no variables. -/
def isClosed (ty : Ty) : Bool := ty.varOccurrences.isEmpty

mutual

/-- Whether a variable stands anywhere in a type. -/
def occurs (v : VarId) : Ty → Bool
  | .var w => w == v
  | .func params result => occursAny v params || result.occurs v
  | .const base _ => base.occurs v
  | _ => false

/-- Whether a variable stands anywhere in a list of types. -/
def occursAny (v : VarId) : List Ty → Bool
  | [] => false
  | first :: rest => first.occurs v || occursAny v rest

end

mutual

/-- A variable stands in a type exactly when it is among its occurrences. -/
theorem occurs_iff (v : VarId) : (ty : Ty) → (ty.occurs v = true ↔ v ∈ ty.varOccurrences)
  | .var w => by
      rw [occurs, varOccurrences, beq_iff_eq, List.mem_singleton]
      exact eq_comm
  | .func params result => by
      simp [occurs, varOccurrences, occursAny_iff v params, occurs_iff v result]
  | .const base _ => by simp [occurs, varOccurrences, occurs_iff v base]
  | .int | .num | .bool | .str | .any | .error | .none => by simp [occurs, varOccurrences]

theorem occursAny_iff (v : VarId) :
    (list : List Ty) → (occursAny v list = true ↔ v ∈ varOccurrencesAll list)
  | [] => by simp [occursAny, varOccurrencesAll]
  | first :: rest => by
      simp [occursAny, varOccurrencesAll, occurs_iff v first, occursAny_iff v rest]

end

/-- The free variables are the variables that occur. -/
theorem mem_freeVars {v : VarId} {ty : Ty} : v ∈ ty.freeVars ↔ ty.occurs v = true := by
  rw [freeVars, mem_ascendingDistinct, occurs_iff]

/-- A type is closed exactly when no variable occurs in it. -/
theorem isClosed_iff {ty : Ty} : ty.isClosed = true ↔ ∀ v, ty.occurs v = false := by
  simp only [isClosed, List.isEmpty_iff, List.eq_nil_iff_forall_not_mem, ← occurs_iff,
    Bool.not_eq_true]

end Ty

end TypeInference
