import ByteTape.Number.Rounding

/-!
# Binary floating-point numbers of 64 bits

A word is read as a sign, eleven exponent bits and fifty-two fraction bits. What it stands for is
either no number, an infinity, or exactly `significand * 2 ^ exponent` with a sign; all later
arithmetic is done on that exact value. A positive quotient of natural numbers is rounded to the
nearest such value, ties going to the even significand.
-/

namespace ByteTape.Number

/-- What a 64-bit floating-point word stands for. -/
inductive Binary64 where
  /-- No number. -/
  | nan
  /-- An infinity with its sign. -/
  | infinite (negative : Bool)
  /-- The number `significand * 2 ^ exponent` with its sign. -/
  | finite (negative : Bool) (significand : Nat) (exponent : Int)
  deriving DecidableEq

namespace Binary64

/-- The number zero. -/
def zero : Binary64 :=
  finite false 0 0

/-- The meaning of a sign, a biased exponent below 2048 and a fraction below `2 ^ 52`. -/
def ofFields (negative : Bool) (biased fraction : Nat) : Binary64 :=
  if biased = 2047 then
    if fraction = 0 then infinite negative else nan
  else if biased = 0 then
    finite negative fraction (-1074)
  else
    finite negative ((1 <<< 52) + fraction) (biased - 1075)

/-- The meaning of a word. -/
def ofBits (word : UInt64) : Binary64 :=
  let bits := word.toNat
  ofFields (1 <<< 63 ≤ bits) ((bits >>> 52) % 2048) (bits % (1 <<< 52))

/-- The largest `exponent` with `2 ^ exponent ≤ dividend / divisor`, both being positive. -/
def binaryMagnitude (dividend divisor : Nat) : Int :=
  let guess : Int := (dividend.log2 : Int) - divisor.log2
  if divisor <<< guess.toNat ≤ dividend <<< (-guess).toNat then guess else guess - 1

/-- The number nearest to a quotient of positive numbers: the significand has 53 bits, fewer only
at the smallest exponent, and what reaches `2 ^ 1024` is infinite. -/
def ofQuotient (negative : Bool) (dividend divisor : Nat) : Binary64 :=
  let exponent := max (binaryMagnitude dividend divisor - 52) (-1074)
  let significand :=
    roundQuotient (dividend <<< (-exponent).toNat) (divisor <<< exponent.toNat)
  if 1 <<< 1024 ≤ significand <<< exponent.toNat then infinite negative
  else finite negative significand exponent

end Binary64

end ByteTape.Number
