/-
# Types

The types that inference works with.  Besides primitives, functions and
inference variables there are two wildcards, `any` for deliberately untyped
code and `error` for code that has already been reported, and a wrapper that
remembers the literal a value was written as.
-/

import TypeInference.Literal.Basic

namespace TypeInference

/-- The number of an inference variable. -/
abbrev VarId := Nat

/-- The printed form of a variable. -/
def VarId.text (v : VarId) : String := "$" ++ Nat.repr v

/-- A type. -/
inductive Ty where
  /-- Exit codes, which are not numbers. -/
  | int
  | num
  | bool
  | str
  /-- A type still to be inferred. -/
  | var (id : VarId)
  | func (params : List Ty) (result : Ty)
  /-- The type of untyped code. -/
  | any
  /-- The type of code that has been reported. -/
  | error
  /-- The type of the absent value. -/
  | none
  /-- A type whose value is a known literal. -/
  | const (base : Ty) (value : Literal)
  deriving Inhabited, Repr

/-- The outermost constructor of a type. -/
inductive Tag where
  | int
  | num
  | bool
  | str
  | var
  | func
  | any
  | error
  | none
  | const
  deriving DecidableEq, Repr

namespace Tag

/-- Every tag, in the order tags are listed. -/
def all : List Tag :=
  [.int, .num, .bool, .str, .var, .func, .any, .error, .none, .const]

/-- The name of a tag. -/
def text : Tag → String
  | .int => "int"
  | .num => "num"
  | .bool => "bool"
  | .str => "str"
  | .var => "var"
  | .func => "func"
  | .any => "any"
  | .error => "<error>"
  | .none => "None"
  | .const => "const"

end Tag

/-- The type a literal has of its own. -/
def Literal.ty : Literal → Ty
  | .int _ => .int
  | .num _ => .num
  | .bool _ => .bool
  | .str _ => .str
  | .none => .none

namespace Ty

/-- The outermost constructor. -/
def tag : Ty → Tag
  | .int => .int
  | .num => .num
  | .bool => .bool
  | .str => .str
  | .var _ => .var
  | .func _ _ => .func
  | .any => .any
  | .error => .error
  | .none => .none
  | .const _ _ => .const

/-- The type of a literal, wrapped so that the value is remembered. -/
def ofLiteral (value : Literal) : Ty := .const value.ty value

/-- One of the four types of plain data. -/
def isPrimitive : Ty → Bool
  | .int | .num | .bool | .str => true
  | _ => false

/-- Whether the type is a variable. -/
def isVar : Ty → Bool
  | .var _ => true
  | _ => false

/-- Whether the type is `error` itself. -/
def isError : Ty → Bool
  | .error => true
  | _ => false

/-- Whether the type goes with every other: `any` or `error`. -/
def isWildcard : Ty → Bool
  | .any | .error => true
  | _ => false

/-- The primitive a written name stands for.  Exit codes have no such name. -/
def primitiveNamed? : String → Option Ty
  | "num" => some .num
  | "str" => some .str
  | "bool" => some .bool
  | _ => Option.none

/-- The type below all outer literal wrappers. -/
def unwrap : Ty → Ty
  | .const base _ => base.unwrap
  | ty => ty

/-- The literal that the outermost wrapper remembers. -/
def literal? : Ty → Option Literal
  | .const _ value => some value
  | _ => Option.none

mutual

/-- The type without literal wrappers at any depth. -/
def erase : Ty → Ty
  | .const base _ => base.erase
  | .func params result => .func (eraseAll params) result.erase
  | ty => ty

/-- `erase` on each type of a list. -/
def eraseAll : List Ty → List Ty
  | [] => []
  | first :: rest => first.erase :: eraseAll rest

end

mutual

/-- Nothing is left to erase after erasing. -/
@[simp] theorem erase_erase : (ty : Ty) → ty.erase.erase = ty.erase
  | .const base _ => by rw [erase, erase_erase base]
  | .func params result => by
      rw [erase, erase, eraseAll_eraseAll params, erase_erase result]
  | .int | .num | .bool | .str | .var _ | .any | .error | .none => rfl

@[simp] theorem eraseAll_eraseAll : (list : List Ty) → eraseAll (eraseAll list) = eraseAll list
  | [] => rfl
  | first :: rest => by
      rw [eraseAll, eraseAll, erase_erase first, eraseAll_eraseAll rest]

end

mutual

/-- The number of constructors in a type. -/
def size : Ty → Nat
  | .const base _ => base.size + 1
  | .func params result => sizeAll params + result.size + 1
  | _ => 1

/-- The number of constructors in a list of types. -/
def sizeAll : List Ty → Nat
  | [] => 0
  | first :: rest => first.size + sizeAll rest

end

mutual

/-- Equality of types, given what it means for two literals to be equal. -/
def equalBy (same : Literal → Literal → Bool) : Ty → Ty → Bool
  | .var v, .var w => v == w
  | .func params result, .func params' result' =>
      equalAllBy same params params' && result.equalBy same result'
  | .const base value, .const base' value' => base.equalBy same base' && same value value'
  | left, right => left.tag == right.tag

/-- `equalBy` on two lists, position by position. -/
def equalAllBy (same : Literal → Literal → Bool) : List Ty → List Ty → Bool
  | [], [] => true
  | first :: rest, first' :: rest' => first.equalBy same first' && equalAllBy same rest rest'
  | _, _ => false

end

/-- Equality up to the values that literal wrappers remember. -/
def sameShape (left right : Ty) : Bool := left.equalBy (fun _ _ => true) right

mutual

theorem equalBy_self : (ty : Ty) → ty.equalBy (fun x y => x == y) ty = true
  | .var v => by simp [equalBy]
  | .func params result => by simp [equalBy, equalAllBy_self params, equalBy_self result]
  | .const base value => by simp [equalBy, equalBy_self base]
  | .int | .num | .bool | .str | .any | .error | .none => rfl

theorem equalAllBy_self : (list : List Ty) → equalAllBy (fun x y => x == y) list list = true
  | [] => rfl
  | first :: rest => by simp [equalAllBy, equalBy_self first, equalAllBy_self rest]

end

mutual

theorem eq_of_equalBy : (left right : Ty) →
    left.equalBy (fun x y => x == y) right = true → left = right
  | .var v, right, h => by cases right <;> simp_all [equalBy, tag]
  | .func params result, right, h => by
      cases right with
      | func params' result' =>
          simp only [equalBy, Bool.and_eq_true] at h
          rw [eq_of_equalAllBy params params' h.1, eq_of_equalBy result result' h.2]
      | _ => simp [equalBy, tag] at h
  | .const base value, right, h => by
      cases right with
      | const base' value' =>
          simp only [equalBy, Bool.and_eq_true, beq_iff_eq] at h
          rw [eq_of_equalBy base base' h.1, h.2]
      | _ => simp [equalBy, tag] at h
  | .int, right, h => by cases right <;> simp_all [equalBy, tag]
  | .num, right, h => by cases right <;> simp_all [equalBy, tag]
  | .bool, right, h => by cases right <;> simp_all [equalBy, tag]
  | .str, right, h => by cases right <;> simp_all [equalBy, tag]
  | .any, right, h => by cases right <;> simp_all [equalBy, tag]
  | .error, right, h => by cases right <;> simp_all [equalBy, tag]
  | .none, right, h => by cases right <;> simp_all [equalBy, tag]

theorem eq_of_equalAllBy : (left right : List Ty) →
    equalAllBy (fun x y => x == y) left right = true → left = right
  | [], [], _ => rfl
  | [], _ :: _, h => by simp [equalAllBy] at h
  | _ :: _, [], h => by simp [equalAllBy] at h
  | first :: rest, first' :: rest', h => by
      simp only [equalAllBy, Bool.and_eq_true] at h
      rw [eq_of_equalBy first first' h.1, eq_of_equalAllBy rest rest' h.2]

end

instance : DecidableEq Ty := fun left right =>
  decidable_of_iff (left.equalBy (fun x y => x == y) right = true)
    ⟨eq_of_equalBy left right, fun h => h ▸ equalBy_self left⟩

mutual

/-- Whether a leaf with a given tag stands anywhere in a type. -/
def mentions (leaf : Tag) : Ty → Bool
  | .func params result => anyMentions leaf params || result.mentions leaf
  | .const base _ => base.mentions leaf
  | ty => ty.tag == leaf

/-- Whether a leaf with a given tag stands anywhere in a list of types. -/
def anyMentions (leaf : Tag) : List Ty → Bool
  | [] => false
  | first :: rest => first.mentions leaf || anyMentions leaf rest

end

end Ty

/-- What is known of an expression: its type and, if it is known, its value. -/
structure Inferred where
  ty : Ty
  value : Option Literal
  deriving DecidableEq, Inhabited, Repr

namespace Inferred

/-- A type without a known value. -/
def ofTy (ty : Ty) : Inferred := ⟨ty, Option.none⟩

/-- A literal, whose type remembers its value. -/
def ofLiteral (value : Literal) : Inferred := ⟨.ofLiteral value, some value⟩

/-- What is known of an expression that has been reported. -/
def error : Inferred := ofTy .error

/-- Whether the expression has been reported. -/
def isError (inferred : Inferred) : Bool := inferred.ty.isError

end Inferred

end TypeInference
