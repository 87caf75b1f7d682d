/-
# Text in double quotes

A quoted text shows every character in a form that can be read on one line.
The choice is made character by character and needs no context: a few
characters have a short escape, the ones that would not show are given by
their code point, and all others stand for themselves.
-/

import TypeInference.Text.Extending
import TypeInference.Text.Invisible
import TypeInference.Text.Unassigned

namespace TypeInference.Text

/-- Whether a code point lies in one of the closed ranges. -/
def inRanges (ranges : List (Nat × Nat)) (point : Nat) : Bool :=
  ranges.any fun range => range.1 ≤ point && point ≤ range.2

/-- Whether a character shows on its own when printed. -/
def standsAlone (c : Char) : Bool :=
  !(inRanges invisibleRanges c.toNat || inRanges extendingRanges c.toNat ||
    inRanges unassignedRanges c.toNat)

/-- A code point in lower-case hexadecimal between braces. -/
def codePointEscape (c : Char) : List Char :=
  ['\\', 'u', '\x7b'] ++ Nat.toDigits 16 c.toNat ++ ['\x7d']

/-- The form of one character between double quotes. -/
def quotedChar (c : Char) : List Char :=
  match c with
  | '\x00' => ['\\', '0']
  | '\t' => ['\\', 't']
  | '\n' => ['\\', 'n']
  | '\r' => ['\\', 'r']
  | '"' => ['\\', '"']
  | '\\' => ['\\', '\\']
  | c => if standsAlone c then [c] else codePointEscape c

/-- A text between double quotes, with escapes. -/
def quoted (text : String) : String :=
  String.ofList ('"' :: text.toList.flatMap quotedChar ++ ['"'])

end TypeInference.Text
