import ByteTape.Number.Binary64

/-!
# Delays

A delay is a whole number of nanoseconds. It is set from a number of seconds, whose exact value is
rounded to the nearest nanosecond, ties going to the even one. What is no time to wait, or cannot
be counted in `2 ^ 64` seconds, means no delay.
-/

namespace ByteTape

open Number

/-- A time to wait. -/
structure Delay where
  /-- The length in nanoseconds. -/
  nanoseconds : Nat
  deriving DecidableEq

namespace Delay

/-- No waiting at all. -/
def none : Delay :=
  ⟨0⟩

/-- The number of nanoseconds in a second. -/
def perSecond : Nat :=
  1000000000

/-- The nanoseconds of `significand * 2 ^ exponent` seconds, if the seconds stay below `2 ^ 64`. -/
def nanosecondsOf (significand : Nat) (exponent : Int) : Nat :=
  if significand <<< exponent.toNat < UInt64.size <<< (-exponent).toNat then
    roundQuotient ((significand <<< exponent.toNat) * perSecond) (1 <<< (-exponent).toNat)
  else
    0

/-- The delay of a number of seconds; none for what is negative, infinite or no number. -/
def ofSeconds : Binary64 → Delay
  | .finite negative significand exponent =>
    if negative && significand != 0 then none else ⟨nanosecondsOf significand exponent⟩
  | .infinite _ => none
  | .nan => none

/-- The whole seconds of a delay. -/
def seconds (delay : Delay) : Nat :=
  delay.nanoseconds / perSecond

/-- The nanoseconds beyond the whole seconds. -/
def subsecond (delay : Delay) : Nat :=
  delay.nanoseconds % perSecond

/-- The text of a delay: seconds, a point, and nine digits. -/
def text (delay : Delay) : String :=
  let digits := delay.subsecond.repr
  delay.seconds.repr ++ "." ++ String.ofList (List.replicate (9 - digits.length) '0') ++ digits

/-- Seconds and the nanoseconds beyond them make up the delay. -/
theorem seconds_mul_add_subsecond (delay : Delay) :
    delay.seconds * perSecond + delay.subsecond = delay.nanoseconds := by
  rw [seconds, subsecond, Nat.mul_comm]
  exact Nat.div_add_mod _ _

/-- The nanoseconds beyond the whole seconds do not fill a second. -/
theorem subsecond_lt (delay : Delay) : delay.subsecond < perSecond :=
  Nat.mod_lt _ (by decide)

end Delay

end ByteTape
