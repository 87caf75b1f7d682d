/-
# Symbols and scopes

A symbol ties a declaration to what is known of it.  A scope holds its symbols
by declaration and, beside that, the declaration that each name currently
refers to, so that a later declaration of a name hides the earlier one without
removing it.  Scopes are stacked and inner names hide outer ones.
-/

import TypeInference.Fault
import TypeInference.KeyMap
import TypeInference.Source.Declaration

namespace TypeInference

/-- A declared name and what is known of it. -/
structure Symbol where
  /-- Missing only in the stand-in for unknown names. -/
  decl : Option DeclId
  name : String
  span : Span
  inferred : Inferred
  ascription : Option (Located Ascription)

namespace Symbol

/-- The symbol of a declaration. -/
def ofDeclaration (declaration : Declaration) (inferred : Inferred) : Symbol :=
  ⟨some declaration.id, declaration.name, declaration.span, inferred,
    declaration.ascription⟩

/-- The stand-in for a name that was not found. -/
def unknown : Symbol := ⟨none, "<NameError>", .synthetic, .error, none⟩

/-- Whether a symbol is the stand-in. -/
def isUnknown (symbol : Symbol) : Bool := symbol.decl.isNone

/-- The type of a symbol. -/
def ty (symbol : Symbol) : Ty := symbol.inferred.ty

end Symbol

/-- How the type of a symbol ended up when its scope was closed. -/
inductive Verdict where
  /-- Fully known. -/
  | concrete
  /-- Mentions `error`. -/
  | poisoned
  /-- Mentions `any`, but not `error`. -/
  | escaped
  deriving DecidableEq, Repr

/-- The name of a verdict. -/
def Verdict.name : Verdict → String
  | .concrete => "concrete"
  | .poisoned => "poisoned"
  | .escaped => "escaped"

/-- The verdict on a final type. -/
def Ty.verdict (ty : Ty) : Verdict :=
  if ty.mentions .error then .poisoned
  else if ty.mentions .any then .escaped
  else .concrete

/-- A symbol with its final type. -/
structure ResolvedSymbol where
  decl : DeclId
  name : String
  ty : Ty
  value : Option Literal
  verdict : Verdict
  deriving DecidableEq, Repr

/-- The final form of a symbol.  A poisoned symbol keeps no value. -/
def Symbol.resolved (symbol : Symbol) (decl : DeclId) (ty : Ty) : ResolvedSymbol :=
  { decl, name := symbol.name, ty, verdict := ty.verdict,
    value := match ty.verdict with
      | .poisoned => none
      | .concrete | .escaped => symbol.inferred.value }

/-- The symbols published in one scope. -/
structure Scope where
  symbols : KeyMap DeclId Symbol
  names : KeyMap String DeclId

namespace Scope

/-- A scope without symbols. -/
def empty : Scope := ⟨.empty, .empty⟩

/-- The number of symbols, hidden ones included. -/
def size (scope : Scope) : Nat := scope.symbols.size

/-- Publish a symbol; its name now refers to it. -/
def publish (scope : Scope) (decl : DeclId) (symbol : Symbol) : Scope :=
  ⟨scope.symbols.insert decl symbol, scope.names.insert symbol.name decl⟩

/-- The symbol that a name refers to. -/
def lookup (scope : Scope) (name : String) : Option Symbol := do
  let decl ← scope.names.find? name
  scope.symbols.find? decl

end Scope

/-- The open scopes, the innermost first. -/
structure SymbolTable where
  scopes : List Scope

namespace SymbolTable

/-- A table with one open scope. -/
def new : SymbolTable := ⟨[.empty]⟩

/-- The number of open scopes. -/
def depth (table : SymbolTable) : Nat := table.scopes.length

/-- Open a scope. -/
def push (table : SymbolTable) : SymbolTable := ⟨.empty :: table.scopes⟩

/-- Remove the innermost scope. -/
def pop? (table : SymbolTable) : Option (Scope × SymbolTable) :=
  match table.scopes with
  | [] => none
  | scope :: outer => some (scope, ⟨outer⟩)

/-- The symbol that a name refers to, in the innermost scope that has the name. -/
def lookup (table : SymbolTable) (name : String) : Option Symbol :=
  table.scopes.findSome? (·.lookup name)

/-- The symbol of a declaration in an open scope. -/
def get? (table : SymbolTable) (decl : DeclId) : Option Symbol :=
  table.scopes.findSome? (·.symbols.find? decl)

/-- Publish a symbol in the innermost scope. -/
def declare (table : SymbolTable) (symbol : Symbol) : Except Fault SymbolTable :=
  match symbol.decl with
  | none => .error .placeholderDeclared
  | some decl =>
      if (table.get? decl).isSome then .error (.alreadyPublished decl)
      else
        match table.scopes with
        | [] => .error .noOpenScope
        | scope :: outer => .ok ⟨scope.publish decl symbol :: outer⟩

end SymbolTable

end TypeInference
