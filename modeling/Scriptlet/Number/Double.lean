import Scriptlet.Text.Word

/-!
# Doubles: the numbers of the language

A double is a sign and a magnitude of 63 bits. Read as a natural number the magnitude grows with the size of the double: the
finite ones come first, then infinity, then what is not a number. A finite double is a whole number of units of 2 ^ (-1074),
and `Double.units` counts them, so all arithmetic here is exact arithmetic on natural numbers.
-/

namespace Scriptlet

-- A power of a natural number is the same term whatever a module imports.
attribute [instance(20000), default_instance 20000] instPowNat

/-- A binary floating point number of 64 bits. -/
structure Double where
  negative : Bool
  magnitude : Nat
  magnitude_lt : magnitude < 2 ^ 63
  deriving DecidableEq, Repr

/-- The quotient of two natural numbers, rounded to the nearest; of two that are equally near, the even one. -/
def roundDiv (num den : Nat) : Nat :=
  let q := num / den
  let r := num % den
  if 2 * r < den then q else if den < 2 * r then q + 1 else q + q % 2

namespace Double

/-- The double of a word of 64 bits: the sign in the highest one, the magnitude in the others. -/
def ofBits (bits : UInt64) : Double :=
  ⟨decide (2 ^ 63 ≤ bits.toNat), bits.toNat % 2 ^ 63, Nat.mod_lt _ (by decide)⟩

/-- The magnitude of infinity. -/
def infinityMagnitude : Nat := 2047 * 2 ^ 52

/-- Whether a double is a number and not infinite. -/
def isFinite (x : Double) : Bool := x.magnitude < infinityMagnitude

/-- Whether a double is not a number. -/
def isNaN (x : Double) : Bool := infinityMagnitude < x.magnitude

/-- The leading bits of a finite double as a whole number: 53 of them, or fewer next to zero. -/
def significand (x : Double) : Nat :=
  if x.magnitude / 2 ^ 52 = 0 then x.magnitude % 2 ^ 52 else 2 ^ 52 + x.magnitude % 2 ^ 52

/-- How many places the significand of a finite double is shifted to the left. -/
def scale (x : Double) : Nat := x.magnitude / 2 ^ 52 - 1

/-- The size of a finite double in units of 2 ^ (-1074). -/
def units (x : Double) : Nat := x.significand * 2 ^ x.scale

/-- The double nearest to the quotient of two natural numbers; of two that are equally near, the one whose last bit is 0.
Quotients beyond the largest double by half a step or more give infinity. -/
def nearest (num den : Nat) : Double :=
  let total := num * 2 ^ 1074
  let scale := (total / den).log2 - 52
  ⟨false, min (scale * 2 ^ 52 + roundDiv total (den * 2 ^ scale)) infinityMagnitude,
    Nat.lt_of_le_of_lt (Nat.min_le_right _ _) (by decide)⟩

/-- The value of a run of digits. -/
def digitsValue (digits : List Char) : Nat := digits.foldl (fun n c => 10 * n + (c.toNat - '0'.toNat)) 0

/-- The number that a run of digits writes, rounded to a double; none if there is no digit or another character. -/
def ofDigits? (text : String) : Option Double :=
  if text ≠ "" ∧ text.toList.all Text.isDigit then some (nearest (digitsValue text.toList) 1) else none

/-- Equality as the language compares numbers: the two zeros are equal, and what is not a number equals nothing. -/
def same (x y : Double) : Bool :=
  !x.isNaN && !y.isNaN &&
    ((x.negative == y.negative && x.magnitude == y.magnitude) || (x.magnitude == 0 && y.magnitude == 0))

/-- The natural number that a double is, if it is one. Negative zero counts as zero. -/
def natural? (x : Double) : Option Nat :=
  if x.isFinite ∧ (x.negative = false ∨ x.magnitude = 0) ∧ x.units % 2 ^ 1074 = 0 then some (x.units / 2 ^ 1074)
  else none

end Double

end Scriptlet
