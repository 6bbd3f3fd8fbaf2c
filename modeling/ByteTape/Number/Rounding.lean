/-!
# Rounding a quotient

The nearest natural number to an exact quotient, where a quotient halfway between two neighbours
goes to the even one. The remainder is compared with the half exactly, so no precision is lost.
-/

namespace ByteTape.Number

/-- The natural number nearest to a quotient, ties going to the even neighbour. -/
def roundQuotient (dividend divisor : Nat) : Nat :=
  let floor := dividend / divisor
  let doubled := 2 * (dividend % divisor)
  if doubled < divisor then floor
  else if divisor < doubled then floor + 1
  else if floor % 2 = 0 then floor
  else floor + 1

/-- The rounded quotient is within half a unit of the exact one. -/
theorem roundQuotient_near (dividend divisor : Nat) (h : 0 < divisor) :
    2 * dividend ≤ (2 * roundQuotient dividend divisor + 1) * divisor ∧
      2 * roundQuotient dividend divisor * divisor ≤ 2 * dividend + divisor := by
  have hSplit := Nat.div_add_mod dividend divisor
  have hRest := Nat.mod_lt dividend h
  unfold roundQuotient
  generalize dividend / divisor = floor at hSplit ⊢
  generalize dividend % divisor = rest at hSplit hRest ⊢
  have hComm : divisor * floor = floor * divisor := Nat.mul_comm divisor floor
  dsimp only
  split
  · constructor <;> simp only [Nat.add_mul, Nat.mul_assoc] <;> omega
  · split
    · constructor <;> simp only [Nat.add_mul, Nat.mul_add, Nat.mul_assoc] <;> omega
    · split
      · constructor <;> simp only [Nat.add_mul, Nat.mul_assoc] <;> omega
      · constructor <;> simp only [Nat.add_mul, Nat.mul_add, Nat.mul_assoc] <;> omega

end ByteTape.Number
