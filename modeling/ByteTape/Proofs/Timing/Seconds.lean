import ByteTape.Pacing
import ByteTape.Proofs.Timing.Nearest
import Mathlib.Algebra.Order.Field.Power
import Mathlib.Tactic.NormNum
import Mathlib.Tactic.Positivity

/-!
# Seconds and nanoseconds

The value of a word is given by its fields, as a rational number: the sign, the power of two, and the
fraction with the hidden bit before it unless the exponent is the smallest one. A delay is set from a
number of seconds that is not negative and less than `2 ^ 64` by taking the nearest whole number of
nanoseconds, and every other word sets none. What is rounded is the exact value in all cases, so that
it makes no difference whether the seconds are tiny, a fraction, or whole already; and what reaches
`2 ^ 64` seconds by rounding does not arise, because a word has too few places to come so near.
-/

namespace ByteTape

open Number

namespace Number.Binary64

/-- The exact value of a word that stands for a finite number, by its three fields. -/
def exactValue? (word : UInt64) : Option ℚ :=
  let sign : ℚ := (-1 : ℚ) ^ (word.toNat / 2 ^ 63)
  let biased : ℕ := word.toNat / 2 ^ 52 % 2048
  let fraction : ℚ := (word.toNat % 2 ^ 52 : ℕ) / (2 : ℚ) ^ 52
  if biased = 2047 then none
  else if biased = 0 then some (sign * fraction * (2 : ℚ) ^ (-1022 : ℤ))
  else some (sign * (1 + fraction) * (2 : ℚ) ^ ((biased : ℤ) - 1023))

/-- The value that significand, exponent and sign of a finite number stand for. -/
def value? : Binary64 → Option ℚ
  | .finite negative significand exponent =>
    some ((if negative then -1 else 1) * significand * (2 : ℚ) ^ exponent)
  | .infinite _ => none
  | .nan => none

/-- Fifty-two places behind the point are fifty-two powers of two. -/
theorem zpow_sub_places (exponent : ℤ) : (2 : ℚ) ^ (exponent - 52) = 2 ^ exponent / 2 ^ 52 := by
  rw [zpow_sub₀ two_ne_zero]
  rfl

/-- The meaning of three fields has the value of the three fields. -/
theorem value?_ofFields (negative : Bool) (biased fraction : ℕ) :
    (ofFields negative biased fraction).value? =
      let sign : ℚ := if negative then -1 else 1
      if biased = 2047 then none
      else if biased = 0 then some (sign * (fraction / (2 : ℚ) ^ 52) * (2 : ℚ) ^ (-1022 : ℤ))
      else some (sign * (1 + fraction / (2 : ℚ) ^ 52) * (2 : ℚ) ^ ((biased : ℤ) - 1023)) := by
  dsimp only [ofFields]
  split
  · split <;> rfl
  · split
    · have hExponent : (-1074 : ℤ) = -1022 - 52 := by omega
      rw [value?, hExponent, zpow_sub_places]
      congr 1
      ring
    · have hExponent : (biased : ℤ) - 1075 = biased - 1023 - 52 := by omega
      rw [value?, hExponent, zpow_sub_places, Nat.shiftLeft_eq]
      congr 1
      push_cast
      ring

/-- Reading a word keeps its exact value. -/
theorem value?_ofBits (word : UInt64) : (ofBits word).value? = exactValue? word := by
  have hWord : word.toNat < 2 ^ 64 := word.toNat_lt
  have hSign : (if decide (1 <<< 63 ≤ word.toNat) then (-1 : ℚ) else 1) =
      (-1) ^ (word.toNat / 2 ^ 63) := by
    by_cases hNegative : 1 <<< 63 ≤ word.toNat
    · have hBit : word.toNat / 2 ^ 63 = 1 := by omega
      rw [decide_eq_true hNegative, hBit]
      simp
    · have hBit : word.toNat / 2 ^ 63 = 0 := by omega
      rw [decide_eq_false hNegative, hBit]
      simp
  rw [ofBits, value?_ofFields, exactValue?, Nat.shiftRight_eq_div_pow, Nat.shiftLeft_eq 1 52,
    one_mul]
  simp only [hSign]

/-- A significand has at most 53 bits. -/
theorem significand_lt {word : UInt64} {negative : Bool} {significand : Nat} {exponent : Int}
    (h : ofBits word = .finite negative significand exponent) : significand < 2 ^ 53 := by
  have hFraction : word.toNat % (1 <<< 52) < 2 ^ 52 := Nat.mod_lt _ (by decide)
  dsimp only [ofBits, ofFields] at h
  split at h
  · split at h <;> contradiction
  · split at h
    · injection h with _ hSignificand
      omega
    · injection h with _ hSignificand
      have hHidden : 1 <<< 52 = 2 ^ 52 := rfl
      omega

end Number.Binary64

namespace Delay

open Number.Binary64

/-- A significand with an exponent is the quotient that is rounded. -/
theorem significand_mul_zpow (significand : Nat) (exponent : Int) :
    significand * (2 : ℚ) ^ exponent =
      (significand <<< exponent.toNat : ℕ) / (1 <<< (-exponent).toNat : ℕ) := by
  have hPower : (2 : ℚ) ^ exponent = 2 ^ exponent.toNat / 2 ^ (-exponent).toNat := by
    rw [← zpow_natCast, ← zpow_natCast, ← zpow_sub₀ two_ne_zero, Int.toNat_sub_toNat_neg]
  rw [hPower, Nat.shiftLeft_eq, Nat.shiftLeft_eq, one_mul]
  push_cast
  rw [mul_div_assoc]

/-- The seconds that are counted are those below `2 ^ 64`. -/
theorem shiftLeft_lt_iff (significand : Nat) (exponent : Int) :
    significand <<< exponent.toNat < UInt64.size <<< (-exponent).toNat ↔
      significand * (2 : ℚ) ^ exponent < 2 ^ 64 := by
  have hDivisor : (0 : ℚ) < (1 <<< (-exponent).toNat : ℕ) := by
    rw [Nat.shiftLeft_eq, one_mul]
    positivity
  have hLimit : ((UInt64.size <<< (-exponent).toNat : ℕ) : ℚ) =
      (2 : ℚ) ^ 64 * (1 <<< (-exponent).toNat : ℕ) := by
    rw [Nat.shiftLeft_eq, Nat.shiftLeft_eq, one_mul]
    push_cast
    rfl
  rw [significand_mul_zpow, div_lt_iff₀ hDivisor, ← hLimit, Nat.cast_lt]

/-- Seconds below `2 ^ 64` are rounded to the nearest nanosecond. -/
theorem isNearest_nanosecondsOf {significand : Nat} {exponent : Int}
    (h : significand * (2 : ℚ) ^ exponent < 2 ^ 64) :
    IsNearest (significand * (2 : ℚ) ^ exponent * 10 ^ 9)
      (nanosecondsOf significand exponent : ℕ) := by
  have hDivisor : 0 < 1 <<< (-exponent).toNat := by
    rw [Nat.shiftLeft_eq, one_mul]
    positivity
  have hNearest := isNearest_roundQuotient (significand <<< exponent.toNat * perSecond) hDivisor
  have hValue : ((significand <<< exponent.toNat * perSecond : ℕ) : ℚ) /
      (1 <<< (-exponent).toNat : ℕ) = significand * (2 : ℚ) ^ exponent * 10 ^ 9 := by
    rw [significand_mul_zpow, Nat.cast_mul, mul_div_right_comm]
    norm_num [perSecond]
  rw [hValue] at hNearest
  rw [nanosecondsOf, if_pos ((shiftLeft_lt_iff significand exponent).2 h)]
  exact hNearest

/-- Seconds from `2 ^ 64` on are not counted. -/
theorem nanosecondsOf_of_le {significand : Nat} {exponent : Int}
    (h : 2 ^ 64 ≤ significand * (2 : ℚ) ^ exponent) : nanosecondsOf significand exponent = 0 := by
  have hNot := (shiftLeft_lt_iff significand exponent).not.2 (not_lt.2 h)
  rw [nanosecondsOf, if_neg hNot]

/-- A number of at most 53 bits that is less than `2 ^ 64` is less by one at least. -/
theorem le_of_lt_of_significand_lt {significand : Nat} {exponent : Int}
    (hSignificand : significand < 2 ^ 53) (h : significand * (2 : ℚ) ^ exponent < 2 ^ 64) :
    significand * (2 : ℚ) ^ exponent ≤ 2 ^ 64 - 1 := by
  rcases le_or_gt 0 exponent with hWhole | hFraction
  · obtain ⟨places, rfl⟩ := Int.eq_ofNat_of_zero_le hWhole
    rw [zpow_natCast] at h ⊢
    have hLess : significand * 2 ^ places < 2 ^ 64 := by exact_mod_cast h
    have hLe : significand * 2 ^ places + 1 ≤ 2 ^ 64 := hLess
    have hCast : (significand : ℚ) * 2 ^ places + 1 ≤ 2 ^ 64 := by exact_mod_cast hLe
    linarith
  · have hPower : (2 : ℚ) ^ exponent ≤ 1 := zpow_le_one_of_nonpos₀ one_le_two hFraction.le
    have hBound : (significand : ℚ) ≤ 2 ^ 53 := by exact_mod_cast hSignificand.le
    have hProduct : significand * (2 : ℚ) ^ exponent ≤ 2 ^ 53 * 1 := by
      gcongr
    exact hProduct.trans (by norm_num)

/-- A word stands for a number of seconds that can be waited: one that is not negative and is less
than `2 ^ 64`. -/
def Admits (word : UInt64) (seconds : ℚ) : Prop :=
  exactValue? word = some seconds ∧ 0 ≤ seconds ∧ seconds < 2 ^ 64

/-- A finite number that is not less than zero has the value of its significand and exponent, and
another one is less than zero. -/
theorem signed_value (negative : Bool) (significand : Nat) (exponent : Int) :
    if negative && significand != 0 then
      (if negative then -1 else 1) * significand * (2 : ℚ) ^ exponent < 0
    else
      (if negative then -1 else 1) * significand * (2 : ℚ) ^ exponent =
        significand * (2 : ℚ) ^ exponent := by
  have hPower : (0 : ℚ) < 2 ^ exponent := by positivity
  cases negative with
  | false => simp
  | true =>
    by_cases hZero : significand = 0
    · simp [hZero]
    · have hPositive : (0 : ℚ) < significand := by exact_mod_cast Nat.pos_of_ne_zero hZero
      have hProduct := mul_pos hPositive hPower
      simp [hZero, hProduct]

/-- The delay of seconds that can be waited is found from significand and exponent alone. -/
theorem exists_of_admits {word : UInt64} {seconds : ℚ} (h : Admits word seconds) :
    ∃ (significand : Nat) (exponent : Int), significand < 2 ^ 53 ∧
      seconds = significand * (2 : ℚ) ^ exponent ∧
      ofSeconds (ofBits word) = ⟨nanosecondsOf significand exponent⟩ := by
  obtain ⟨hValue, hSign, -⟩ := h
  rw [← value?_ofBits] at hValue
  cases hWord : ofBits word with
  | nan =>
    rw [hWord] at hValue
    contradiction
  | infinite negative =>
    rw [hWord] at hValue
    contradiction
  | finite negative significand exponent =>
    rw [hWord, value?, Option.some.injEq] at hValue
    have hSigned := signed_value negative significand exponent
    rw [hValue] at hSigned
    rw [ofSeconds]
    split at hSigned
    · exact absurd hSign (not_le.2 hSigned)
    · rename_i hNot
      rw [if_neg hNot]
      exact ⟨significand, exponent, significand_lt hWord, hSigned, rfl⟩

/-- A word that stands for no seconds that can be waited sets no delay. -/
theorem ofSeconds_of_not_admits {word : UInt64} (h : ∀ seconds, ¬ Admits word seconds) :
    ofSeconds (ofBits word) = none := by
  cases hWord : ofBits word with
  | nan => rfl
  | infinite negative => rfl
  | finite negative significand exponent =>
    have hSigned := signed_value negative significand exponent
    have hValue : exactValue? word =
        some ((if negative then -1 else 1) * significand * (2 : ℚ) ^ exponent) := by
      rw [← value?_ofBits, hWord, value?]
    rw [ofSeconds]
    split at hSigned
    · rename_i hNegative
      rw [if_pos hNegative]
    · rename_i hNot
      rw [hSigned] at hValue
      have hLarge : 2 ^ 64 ≤ significand * (2 : ℚ) ^ exponent := by
        by_contra hSmall
        exact h _ ⟨hValue, by positivity, not_le.1 hSmall⟩
      rw [if_neg hNot, nanosecondsOf_of_le hLarge]
      rfl

/-- The delay of seconds that can be waited is the nearest whole number of nanoseconds. -/
theorem Admits.isNearest {word : UInt64} {seconds : ℚ} (h : Admits word seconds) :
    IsNearest (seconds * 10 ^ 9) (ofSeconds (ofBits word)).nanoseconds := by
  obtain ⟨significand, exponent, -, rfl, hDelay⟩ := exists_of_admits h
  rw [hDelay]
  exact isNearest_nanosecondsOf h.2.2

/-- The delay of seconds that can be waited is less than `2 ^ 64` seconds. -/
theorem Admits.seconds_lt {word : UInt64} {seconds : ℚ} (h : Admits word seconds) :
    (ofSeconds (ofBits word)).seconds < 2 ^ 64 := by
  have hNear := (abs_le.1 ((isNearest_iff _ _).1 h.isNearest).1).1
  obtain ⟨significand, exponent, hSignificand, rfl, -⟩ := exists_of_admits h
  have hBelow := le_of_lt_of_significand_lt hSignificand h.2.2
  have hCast : ((ofSeconds (ofBits word)).nanoseconds : ℚ) < (2 ^ 64 * 10 ^ 9 : ℕ) := by
    push_cast at hNear ⊢
    linarith
  have hLess : (ofSeconds (ofBits word)).nanoseconds < 2 ^ 64 * 10 ^ 9 := by exact_mod_cast hCast
  exact Nat.div_lt_of_lt_mul (by rw [perSecond]; omega)

/-- There is no delay exactly if there are no nanoseconds to wait. -/
theorem eq_none_iff (delay : Delay) : delay = none ↔ delay.nanoseconds = 0 := by
  obtain ⟨nanoseconds⟩ := delay
  rw [none, Delay.mk.injEq]

/-- There is a delay exactly if more than half a nanosecond is to be waited. -/
theorem Admits.ofSeconds_ne_none_iff {word : UInt64} {seconds : ℚ} (h : Admits word seconds) :
    ofSeconds (ofBits word) ≠ none ↔ 1 / 2 < seconds * 10 ^ 9 := by
  have hNearest := h.isNearest
  rw [Ne, eq_none_iff]
  constructor
  · intro hDelay
    by_contra hSmall
    have hNonneg : 0 ≤ seconds * 10 ^ 9 := mul_nonneg h.2.1 (by norm_num)
    have hZero : IsNearest (seconds * 10 ^ 9) 0 := by
      rw [isNearest_iff, Int.cast_zero, sub_zero, abs_of_nonneg hNonneg]
      exact ⟨not_lt.1 hSmall, fun _ => Even.zero⟩
    have hLe := hNearest.le_of_le hZero le_rfl
    omega
  · intro hLarge hDelay
    rw [hDelay, isNearest_iff, Nat.cast_zero, Int.cast_zero, sub_zero] at hNearest
    exact absurd (le_of_abs_le hNearest.1) (not_le.2 hLarge)

end Delay

namespace Pacing

open Number.Binary64 Delay

/-- Setting a delay from a word rounds its exact value once. If the word stands for seconds that can be
waited, the delay is the nearest whole number of nanoseconds, of two that are equally near the even
one, and it makes up less than `2 ^ 64` seconds and a part of a second; if it does not, there is no
delay. So more seconds never make a shorter delay, and a run pauses exactly if it is stepped or more
than half a nanosecond is to be waited. -/
theorem delay_nearest_nanosecond (step : Bool) (word : UInt64) :
    let pacing := Pacing.ofSeconds step (ofBits word)
    (∀ seconds, Admits word seconds →
      pacing.delay.subsecond < 10 ^ 9 ∧ pacing.delay.seconds < 2 ^ 64 ∧
        IsNearest (seconds * 10 ^ 9)
          (pacing.delay.seconds * 10 ^ 9 + pacing.delay.subsecond : ℕ)) ∧
      ((∀ seconds, ¬ Admits word seconds) →
        pacing.delay.seconds = 0 ∧ pacing.delay.subsecond = 0) ∧
      (∀ other seconds more, Admits word seconds → Admits other more → seconds ≤ more →
        pacing.delay.nanoseconds ≤ (Pacing.ofSeconds step (ofBits other)).delay.nanoseconds) ∧
      (pacing.pauses = true ↔
        step = true ∨ ∃ seconds, Admits word seconds ∧ 1 / 2 < seconds * 10 ^ 9) := by
  intro pacing
  have hDelay : pacing.delay = Delay.ofSeconds (ofBits word) := rfl
  refine ⟨?_, ?_, ?_, ?_⟩
  · intro seconds hAdmits
    have hWhole : pacing.delay.seconds * 10 ^ 9 + pacing.delay.subsecond = pacing.delay.nanoseconds :=
      pacing.delay.seconds_mul_add_subsecond
    refine ⟨pacing.delay.subsecond_lt, hAdmits.seconds_lt, ?_⟩
    rw [hWhole]
    exact hAdmits.isNearest
  · intro hNone
    rw [hDelay, ofSeconds_of_not_admits hNone]
    exact ⟨rfl, rfl⟩
  · intro other seconds more hAdmits hOther hLe
    have hProduct : seconds * 10 ^ 9 ≤ more * 10 ^ 9 := by linarith
    exact_mod_cast hAdmits.isNearest.le_of_le hOther.isNearest hProduct
  · rw [pauses, Bool.or_eq_true, bne_iff_ne]
    refine or_congr Iff.rfl ⟨?_, ?_⟩
    · intro hSome
      by_cases hAdmits : ∃ seconds, Admits word seconds
      · obtain ⟨seconds, hAdmits⟩ := hAdmits
        exact ⟨seconds, hAdmits, hAdmits.ofSeconds_ne_none_iff.1 hSome⟩
      · exact absurd (ofSeconds_of_not_admits (not_exists.1 hAdmits)) hSome
    · rintro ⟨seconds, hAdmits, hLarge⟩
      exact hAdmits.ofSeconds_ne_none_iff.2 hLarge

/-- A second divided by 1024 is halfway between two numbers of nanoseconds and goes to the even one. -/
theorem delay_nearest_nanosecond_tie :
    let word : UInt64 := 0x3F50000000000000
    let pacing := Pacing.ofSeconds false (ofBits word)
    Admits word (1 / 1024) ∧ pacing.delay.seconds = 0 ∧ pacing.delay.subsecond = 976562 ∧
      IsNearest (1 / 1024 * 10 ^ 9) (0 * 10 ^ 9 + 976562 : ℕ) ∧ pacing.pauses = true := by
  intro word pacing
  have hValue : exactValue? word = some (1 / 1024) := by
    have hWord : word.toNat = 1013 * 2 ^ 52 := rfl
    rw [exactValue?, hWord]
    norm_num
  have hAdmits : Admits word (1 / 1024) := ⟨hValue, by norm_num, by norm_num⟩
  have hSeconds : pacing.delay.seconds = 0 := by decide +kernel
  have hSubsecond : pacing.delay.subsecond = 976562 := by decide +kernel
  obtain ⟨hDelay, -, -, hPauses⟩ := delay_nearest_nanosecond false word
  obtain ⟨-, -, hNearest⟩ := hDelay (1 / 1024) hAdmits
  rw [hSeconds, hSubsecond] at hNearest
  exact ⟨hAdmits, hSeconds, hSubsecond, hNearest,
    hPauses.2 (.inr ⟨1 / 1024, hAdmits, by norm_num⟩)⟩

end Pacing

end ByteTape
