/-
# Types as a user writes them

An ascription is the written form of a type before its names are looked up.
Any position may be left open by a hole.
-/

import TypeInference.Source.Span

namespace TypeInference

/-- A written type. -/
inductive Ascription where
  /-- A type referred to by name. -/
  | named (name : String)
  /-- A function type. -/
  | func (params : List Ascription) (result : Ascription)
  /-- A position left to inference. -/
  | hole
  deriving Inhabited, Repr

namespace Ascription

mutual

/-- The written form: a name, `(a, b) -> r`, or an underscore. -/
def text : Ascription → String
  | .named name => name
  | .func params result =>
      "(" ++ ", ".intercalate (texts params) ++ ") -> " ++ result.text
  | .hole => "_"

/-- The written forms of several types. -/
def texts : List Ascription → List String
  | [] => []
  | first :: rest => first.text :: texts rest

end

end Ascription

end TypeInference
