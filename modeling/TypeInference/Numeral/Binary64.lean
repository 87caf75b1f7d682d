/-
# Double-precision numbers by their bits

A `Binary64` is the sixty-four bits of an IEEE 754 double.  Equality of values
is equality of bits, so the two zeros differ and a NaN equals itself.  The
arithmetic and the order are those of the number the bits stand for.
-/

namespace TypeInference

/-- A double-precision number, identified by its bits. -/
structure Binary64 where
  bits : UInt64
  deriving DecidableEq, Inhabited, Repr

namespace Binary64

/-- The number the bits stand for. -/
def toFloat (x : Binary64) : Float := Float.ofBits x.bits

/-- The bits of a number. -/
def ofFloat (x : Float) : Binary64 := ⟨x.toBits⟩

/-- The rounded sum. -/
def add (x y : Binary64) : Binary64 := ofFloat (x.toFloat + y.toFloat)

/-- The rounded difference. -/
def sub (x y : Binary64) : Binary64 := ofFloat (x.toFloat - y.toFloat)

/-- The rounded product. -/
def mul (x y : Binary64) : Binary64 := ofFloat (x.toFloat * y.toFloat)

/-- The rounded quotient. -/
def div (x y : Binary64) : Binary64 := ofFloat (x.toFloat / y.toFloat)

/-- Numeric equality: the zeros are equal and a NaN equals nothing. -/
def numericEq (x y : Binary64) : Bool := x.toFloat == y.toFloat

/-- Numeric order: false whenever a NaN takes part. -/
def numericLt (x y : Binary64) : Bool := x.toFloat < y.toFloat

/-- Numeric order or equality: false whenever a NaN takes part. -/
def numericLe (x y : Binary64) : Bool := x.toFloat ≤ y.toFloat

/-- Either of the two zeros. -/
def isZero (x : Binary64) : Bool := x.bits &&& 0x7FFFFFFFFFFFFFFF == 0

/-- The sign bit. -/
def isNegative (x : Binary64) : Bool := x.bits >>> 63 == 1

/-- The eleven exponent bits. -/
def exponentField (x : Binary64) : Nat := ((x.bits >>> 52) &&& 0x7FF).toNat

/-- The fifty-two fraction bits. -/
def fractionField (x : Binary64) : Nat := (x.bits &&& 0xFFFFFFFFFFFFF).toNat

/-- Neither finite nor infinite. -/
def isNaN (x : Binary64) : Bool := x.exponentField == 0x7FF && x.fractionField != 0

/-- Positive or negative infinity. -/
def isInfinite (x : Binary64) : Bool := x.exponentField == 0x7FF && x.fractionField == 0

end Binary64

end TypeInference
