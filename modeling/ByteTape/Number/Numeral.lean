import ByteTape.Number.Binary64

/-!
# Reading numerals

Two kinds of numeral are read. A word is decimal digits, perhaps after a plus sign, with a value
below `2 ^ 64`. A decimal has an optional sign, digits with an optional point among or beside
them, and an optional power of ten; it is read as the nearest 64-bit floating-point number. The
names of the infinities and of no number are read in any case of letters.
-/

namespace ByteTape.Number

/-- The value of decimal digits, the most significant first. -/
def valueOfDigits (digits : List Char) : Nat :=
  digits.foldl (fun value digit => value * 10 + (digit.toNat - '0'.toNat)) 0

/-- The value of a text that is all digits and has at least one. -/
def digits? (characters : List Char) : Option Nat :=
  if characters.isEmpty || !characters.all Char.isDigit then none
  else some (valueOfDigits characters)

/-- Read a word: digits after an optional plus sign, below `2 ^ 64`. -/
def word? (text : String) : Option Nat :=
  let digits :=
    match text.toList with
    | '+' :: rest => rest
    | characters => characters
  (digits? digits).filter (· < UInt64.size)

/-- Split off an optional sign; the flag tells whether it was a minus. -/
def splitSign : List Char → Bool × List Char
  | '-' :: rest => (true, rest)
  | '+' :: rest => (false, rest)
  | characters => (false, characters)

/-- A decimal without its sign: the number `coefficient * 10 ^ exponent`. -/
structure Decimal where
  /-- All digits together as one number. -/
  coefficient : Nat
  /-- The power of ten they are multiplied by. -/
  exponent : Int
  deriving DecidableEq

namespace Decimal

/-- Read what follows the digits: nothing, or the mark of a power of ten and its exponent. -/
def exponent? : List Char → Option Int
  | [] => some 0
  | mark :: rest =>
    if mark = 'e' || mark = 'E' then
      let (negative, digits) := splitSign rest
      (digits? digits).map fun magnitude => if negative then -(magnitude : Int) else magnitude
    else
      none

/-- Split off a point and the digits after it. -/
def splitFraction : List Char → List Char × List Char
  | '.' :: rest => rest.span Char.isDigit
  | characters => ([], characters)

/-- Read a decimal without sign: digits before or after the point, then perhaps a power of ten. -/
def read? (characters : List Char) : Option Decimal :=
  let (whole, afterWhole) := characters.span Char.isDigit
  let (fraction, tail) := splitFraction afterWhole
  if whole.isEmpty && fraction.isEmpty then
    none
  else
    (exponent? tail).map fun exponent =>
      ⟨valueOfDigits (whole ++ fraction), exponent - fraction.length⟩

/-- The 64-bit number nearest to a decimal. A coefficient of `n` digits lies below `10 ^ n`, so
outside the range of exponents kept here the number is infinite or zero anyway. -/
def toBinary64 (decimal : Decimal) (negative : Bool) : Binary64 :=
  let digitCount : Int := (Nat.toDigits 10 decimal.coefficient).length
  if decimal.coefficient = 0 || decimal.exponent + digitCount < -330 then
    .finite negative 0 0
  else if 330 < decimal.exponent + digitCount then
    .infinite negative
  else
    .ofQuotient negative (decimal.coefficient * Nat.pow 10 decimal.exponent.toNat)
      (Nat.pow 10 (-decimal.exponent).toNat)

end Decimal

/-- Read a number: a signed decimal, an infinity or no number. -/
def binary64? (text : String) : Option Binary64 :=
  let (negative, characters) := splitSign text.toList
  let name := String.ofList (characters.map Char.toLower)
  if name = "inf" || name = "infinity" then
    some (.infinite negative)
  else if name = "nan" then
    some .nan
  else
    (Decimal.read? characters).map (·.toBinary64 negative)

end ByteTape.Number
