/-
# Identities of declarations and expressions

Nodes are told apart by number and never by name.  Declarations come before
expressions in the order of nodes.
-/

namespace TypeInference

/-- The number of a declaration. -/
abbrev DeclId := Nat

/-- The number of an expression. -/
abbrev ExprId := Nat

/-- The node that a report is about. -/
inductive NodeId where
  | decl (id : DeclId)
  | expr (id : ExprId)
  deriving DecidableEq, Ord, Repr

/-- A node's kind and number. -/
def NodeId.text : NodeId → String
  | .decl id => "decl#" ++ Nat.repr id
  | .expr id => "expr#" ++ Nat.repr id

end TypeInference
