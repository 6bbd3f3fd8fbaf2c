import ByteTape.Number.Rounding
import Mathlib.Algebra.Order.Field.Basic
import Mathlib.Algebra.Order.Field.Rat
import Mathlib.Algebra.Ring.Int.Parity
import Mathlib.Tactic.FieldSimp
import Mathlib.Tactic.Linarith
import Mathlib.Tactic.Ring

/-!
# The nearest whole number

A whole number is nearest to a rational one if no other is nearer, and of two that are equally near
it is the even one. It is at most a half away, and it does not decrease where the rational number does
not; so there is only one. Rounding a quotient finds it.
-/

namespace ByteTape.Number

/-- A whole number than which none is nearer to a value, and which is even if another one is as
near. -/
structure IsNearest (value : ℚ) (number : ℤ) : Prop where
  /-- No whole number is nearer. -/
  nearest : ∀ other : ℤ, |value - number| ≤ |value - other|
  /-- Of two that are equally near it is the even one. -/
  even_of_tie : ∀ other : ℤ, other ≠ number → |value - other| = |value - number| → Even number

/-- A whole number is nearest exactly if it is at most a half away, and even if it is a half away. -/
theorem isNearest_iff (value : ℚ) (number : ℤ) :
    IsNearest value number ↔
      |value - number| ≤ 1 / 2 ∧ (|value - number| = 1 / 2 → Even number) := by
  constructor
  · intro h
    -- The two neighbours of the number are all that it has to be compared with.
    have hAbove := h.nearest (number + 1)
    have hBelow := h.nearest (number - 1)
    push_cast at hAbove hBelow
    constructor
    · rcases le_total 0 (value - number) with hSign | hSign
      · rw [abs_of_nonneg hSign] at hAbove ⊢
        rcases le_abs.1 hAbove with hFar | hFar <;> linarith
      · rw [abs_of_nonpos hSign] at hBelow ⊢
        rcases le_abs.1 hBelow with hFar | hFar <;> linarith
    · intro hHalf
      rcases le_total 0 (value - number) with hSign | hSign
      · refine h.even_of_tie (number + 1) (by omega) ?_
        rw [hHalf]
        rw [abs_of_nonneg hSign] at hHalf
        push_cast
        rw [abs_of_nonpos (by linarith)]
        linarith
      · refine h.even_of_tie (number - 1) (by omega) ?_
        rw [hHalf]
        rw [abs_of_nonpos hSign] at hHalf
        push_cast
        rw [abs_of_nonneg (by linarith)]
        linarith
  · rintro ⟨hNear, hEven⟩
    have hFar : ∀ other : ℤ, other ≠ number → 1 / 2 ≤ |value - other| := by
      intro other hOther
      have hApart : (1 : ℚ) ≤ |(number : ℚ) - other| := by
        exact_mod_cast Int.one_le_abs (sub_ne_zero.2 hOther.symm)
      have hTriangle := abs_sub_le (number : ℚ) value other
      rw [abs_sub_comm (number : ℚ) value] at hTriangle
      linarith
    constructor
    · intro other
      by_cases hOther : other = number
      · rw [hOther]
      · exact hNear.trans (hFar other hOther)
    · intro other hOther hTie
      have hHalf := hFar other hOther
      rw [hTie] at hHalf
      exact hEven (le_antisymm hNear hHalf)

/-- Where a value does not decrease, its nearest whole number does not. -/
theorem IsNearest.le_of_le {first second : ℚ} {number other : ℤ} (hFirst : IsNearest first number)
    (hSecond : IsNearest second other) (h : first ≤ second) : number ≤ other := by
  obtain ⟨hNear, hEven⟩ := (isNearest_iff first number).1 hFirst
  obtain ⟨hNear', hEven'⟩ := (isNearest_iff second other).1 hSecond
  by_contra hLess
  have hGap : (other : ℚ) + 1 ≤ number := by
    exact_mod_cast Int.lt_of_not_ge hLess
  have hLower := (abs_le.1 hNear).1
  have hUpper := (abs_le.1 hNear').2
  -- Both values can only be the middle between the two numbers, and these cannot both be even.
  have hMiddle : first - number = -(1 / 2) := by linarith
  have hMiddle' : second - other = 1 / 2 := by linarith
  have hNext : number = other + 1 := by
    have hCast : (number : ℚ) = other + 1 := by linarith
    exact_mod_cast hCast
  have hEvenNumber := hEven (by rw [hMiddle, abs_neg, abs_of_pos (by norm_num)])
  have hEvenOther := hEven' (by rw [hMiddle', abs_of_pos (by norm_num)])
  rw [hNext, Int.even_add_one] at hEvenNumber
  exact hEvenNumber hEvenOther

/-- What rounding does with the remainder: it leaves the smaller part of the divisor, makes up the
larger one, and goes to an even number from the middle. -/
theorem roundQuotient_cases (dividend divisor : Nat) :
    2 * (dividend % divisor) < divisor ∧ roundQuotient dividend divisor = dividend / divisor ∨
      divisor < 2 * (dividend % divisor) ∧
        roundQuotient dividend divisor = dividend / divisor + 1 ∨
      2 * (dividend % divisor) = divisor ∧ Even (roundQuotient dividend divisor) := by
  unfold roundQuotient
  dsimp only
  rw [Nat.even_iff]
  split
  · omega
  · split
    · omega
    · split <;> omega

/-- Rounding goes to an even number from the middle between two. -/
theorem even_roundQuotient_of_middle (dividend : Nat) {divisor : Nat} (hDivisor : 0 < divisor)
    (h : 2 * dividend = 2 * roundQuotient dividend divisor * divisor + divisor ∨
      2 * dividend + divisor = 2 * roundQuotient dividend divisor * divisor) :
    Even (roundQuotient dividend divisor) := by
  have hSplit := Nat.div_add_mod dividend divisor
  have hRest := Nat.mod_lt dividend hDivisor
  rcases roundQuotient_cases dividend divisor with ⟨hSmall, hFloor⟩ | ⟨hLarge, hNext⟩ | ⟨-, hEven⟩
  · have hProduct : 2 * (dividend / divisor) * divisor = 2 * (divisor * (dividend / divisor)) := by
      ring
    rw [hFloor, hProduct] at h
    omega
  · have hProduct : 2 * (dividend / divisor + 1) * divisor =
        2 * (divisor * (dividend / divisor)) + 2 * divisor := by ring
    rw [hNext, hProduct] at h
    omega
  · exact hEven

/-- Rounding a quotient finds the nearest whole number. -/
theorem isNearest_roundQuotient (dividend : Nat) {divisor : Nat} (hDivisor : 0 < divisor) :
    IsNearest ((dividend : ℚ) / divisor) (roundQuotient dividend divisor : ℕ) := by
  have hPositive : (0 : ℚ) < divisor := by exact_mod_cast hDivisor
  have hNear := roundQuotient_near dividend divisor hDivisor
  have hEven := even_roundQuotient_of_middle dividend hDivisor
  generalize roundQuotient dividend divisor = rounded at hNear hEven ⊢
  have hGap : |(dividend : ℚ) / divisor - (rounded : ℤ)| =
      |2 * (dividend : ℚ) - 2 * rounded * divisor| / (2 * divisor) := by
    rw [← abs_of_pos (by linarith : (0 : ℚ) < 2 * divisor), ← abs_div]
    congr 1
    field_simp
    push_cast
    ring
  have hHalf : (1 / 2 : ℚ) * (2 * divisor) = divisor := by ring
  rw [isNearest_iff, hGap]
  constructor
  · rw [div_le_iff₀ (by linarith), hHalf, abs_le]
    have hUpper : 2 * (dividend : ℚ) ≤ (2 * rounded + 1) * divisor := by exact_mod_cast hNear.1
    have hLower : 2 * (rounded : ℚ) * divisor ≤ 2 * dividend + divisor := by
      exact_mod_cast hNear.2
    constructor <;> linarith
  · rw [div_eq_iff (by linarith), hHalf]
    intro hTie
    have hMiddle : 2 * dividend = 2 * rounded * divisor + divisor ∨
        2 * dividend + divisor = 2 * rounded * divisor := by
      rcases eq_or_eq_neg_of_abs_eq hTie with hAbove | hBelow
      · left
        have hCast : 2 * (dividend : ℚ) = 2 * rounded * divisor + divisor := by linarith
        exact_mod_cast hCast
      · right
        have hCast : 2 * (dividend : ℚ) + divisor = 2 * rounded * divisor := by linarith
        exact_mod_cast hCast
    exact_mod_cast hEven hMiddle

end ByteTape.Number
