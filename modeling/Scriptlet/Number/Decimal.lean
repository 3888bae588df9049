import Scriptlet.Number.Double

/-!
# Decimals: writing a double with the fewest digits

A finite double other than zero is written by the decimal of the fewest digits that reads back as that double, and of several
such decimals by the nearest. On the grid of the decimals of `n` digits only the two neighbours of the double have to be
tried: if any decimal of the grid reads back, one of them does. Seventeen digits are always enough.
-/

namespace Scriptlet

/-- The decimal `coefficient * 10 ^ exponent`. -/
structure Decimal where
  coefficient : Nat
  exponent : Int
  deriving DecidableEq, Repr

/-- Which of two neighbours is taken when the double lies in the middle between them. -/
inductive Tie where
  | upper | even
  deriving DecidableEq, Repr

namespace Decimal

/-- The smallest double is above 10 ^ (-324), so counted in units of 10 ^ (-341) every double has 17 digits or more. -/
def places : Nat := 341

/-- The most digits that are ever needed. -/
def maxDigits : Nat := 17

/-- The size of a finite double in units of 10 ^ (-341), without the fraction. -/
def scaled (x : Double) : Nat := x.units * 10 ^ places / 2 ^ 1074

/-- How many digits a natural number has. -/
def digitCount (n : Nat) : Nat := if n < 10 then 1 else digitCount (n / 10) + 1

/-! A number of `width` digits has its first `n` digits on a grid whose step is a power of ten. -/

/-- The step from one decimal of `n` digits to the next, in units of 10 ^ (-341). -/
def step (width n : Nat) : Nat := 10 ^ (width - n)

/-- The number of whole steps in a double. -/
def lower (x : Double) (width n : Nat) : Nat := scaled x / step width n

/-- Whether `c` steps read back as the size of a double. -/
def readsBack (x : Double) (width n c : Nat) : Bool :=
  (Double.nearest (c * step width n) (10 ^ places)).magnitude = x.magnitude

/-- Whether the upper neighbour of a double is taken where both read back: it is nearer, or equally near and preferred. -/
def takesUpper (tie : Tie) (x : Double) (width n : Nat) : Bool :=
  let middle := (2 * lower x width n + 1) * step width n * 2 ^ 1074
  let twice := 2 * x.units * 10 ^ places
  middle < twice || (middle == twice && (tie == .upper || lower x width n % 2 == 1))

/-- The decimal of `c` steps. Ten to the power of `n` has a digit more than the grid and is written by a single one. -/
def ofSteps (width n c : Nat) : Decimal :=
  let exponent : Int := (width : Int) - n - places
  if c = 10 ^ n then ⟨1, exponent + n⟩ else ⟨c, exponent⟩

/-- The decimal of `n` digits that reads back as the size of a double and is nearest to it, if there is one. -/
def ofDigits? (tie : Tie) (x : Double) (width n : Nat) : Option Decimal :=
  let low := lower x width n
  if readsBack x width n low then
    some (ofSteps width n (if readsBack x width n (low + 1) ∧ takesUpper tie x width n then low + 1 else low))
  else if readsBack x width n (low + 1) then some (ofSteps width n (low + 1))
  else none

/-- The shortest decimal of a finite double other than zero, without its sign. -/
def shortest (tie : Tie) (x : Double) : Decimal :=
  let width := digitCount (scaled x)
  ((List.range maxDigits).findSome? fun k => ofDigits? tie x width (k + 1)).getD ⟨0, 0⟩

end Decimal

/-- How decimals are laid out in a format. -/
structure DecimalStyle where
  /-- Which decimal is taken of two that are equally short and equally near. -/
  tie : Tie
  /-- Whether a number whose first digit stands for this power of ten is written without an exponent. -/
  positional : Int → Bool
  /-- What follows a whole number that is written without an exponent. -/
  wholeMark : String

namespace DecimalStyle

/-- A number of zeros. -/
def zeros (n : Nat) : String := String.ofList (List.replicate n '0')

/-- A run of digits with a point behind the first `point` of them, and zeros where digits are missing. -/
def plain (style : DecimalStyle) (digits : List Char) (point : Int) : String :=
  if point ≤ 0 then "0." ++ zeros (-point).toNat ++ .ofList digits
  else if (digits.length : Int) ≤ point then .ofList digits ++ zeros (point - digits.length).toNat ++ style.wholeMark
  else .ofList (digits.take point.toNat) ++ "." ++ .ofList (digits.drop point.toNat)

/-- A run of digits with a point behind the first, and the power of ten of the first digit with its sign. -/
def scientific (digits : List Char) (power : Int) : String :=
  .ofList (digits.take 1) ++ (if digits.length ≤ 1 then "" else "." ++ .ofList (digits.drop 1)) ++
    (if power < 0 then "e-" else "e+") ++ toString power.natAbs

/-- The text of a decimal. -/
def layout (style : DecimalStyle) (d : Decimal) : String :=
  let digits := (toString d.coefficient).toList
  let point := digits.length + d.exponent
  if style.positional (point - 1) then style.plain digits point else scientific digits (point - 1)

/-- The text of a finite double. -/
def write (style : DecimalStyle) (x : Double) : String :=
  (if x.negative then "-" else "") ++
    if x.magnitude = 0 then "0" ++ style.wholeMark else style.layout (Decimal.shortest style.tie x)

end DecimalStyle

end Scriptlet
