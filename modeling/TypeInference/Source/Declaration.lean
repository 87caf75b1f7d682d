/-
# Declarations in the order they were met

A declaration is numbered by its position.  Two declarations of one name are
two declarations.
-/

import TypeInference.Source.Ascription
import TypeInference.Source.Node

namespace TypeInference

/-- A declared name, where it stands, and the type written beside it. -/
structure Declaration where
  id : DeclId
  name : String
  span : Span
  ascription : Option (Located Ascription)

/-- The declarations of a unit; the number of a declaration is its index. -/
structure Declarations where
  items : List Declaration

namespace Declarations

/-- No declarations. -/
def empty : Declarations := ⟨[]⟩

/-- The number of declarations. -/
def size (declarations : Declarations) : Nat := declarations.items.length

/-- Add a declaration and return it with its number. -/
def declare (declarations : Declarations) (name : String) (span : Span)
    (ascription : Option (Located Ascription)) : Declaration × Declarations :=
  let declaration : Declaration := ⟨declarations.size, name, span, ascription⟩
  (declaration, ⟨declarations.items ++ [declaration]⟩)

/-- The declaration with a given number. -/
def get? (declarations : Declarations) (id : DeclId) : Option Declaration :=
  declarations.items[id]?

end Declarations

end TypeInference
