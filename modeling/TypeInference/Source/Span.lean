/-
# Places in source files

A span is a byte range of one file.  Nodes that no file contains carry spans
of a reserved file, and such spans are never shown to a user.
-/

namespace TypeInference

/-- A half-open byte range within one source file. -/
structure Span where
  file : Nat
  start : Nat
  stop : Nat
  deriving DecidableEq, Ord, Inhabited, Repr

namespace Span

/-- The file number reserved for nodes that were not written by a user. -/
def syntheticFile : Nat := 4294967295

/-- The span given to generated nodes. -/
def synthetic : Span := ⟨syntheticFile, 0, 0⟩

/-- Whether a span belongs to the reserved file. -/
def isSynthetic (span : Span) : Bool := span.file == syntheticFile

end Span

/-- A value together with the place it was written at. -/
structure Located (α : Type) where
  value : α
  span : Span

/-- A remark attached to a place. -/
structure Label where
  span : Span
  message : String
  deriving DecidableEq, Repr

end TypeInference
