/-
Binary floating-point formats: what the bits of a number say.

- `Format`: how many bits there are for the exponent and for the fraction. `binary32`, `binary64`.
- `Format.value`: the number that bits stand for, which can be infinite, or none.
- `value_representable`: it has as many significant bits as the format. `value_injective`: only zero has two representations.
- `fixed_cases`: positive numbers that are their bits. `binary32_fixed`, `binary64_fixed`, `binary64_complement`,
  `binary32_ne_binary64`: there are none, also not for negative numbers and across the formats.
-/
import Mathlib.Order.WithBot
import TouchHLE.Lib.Rounding

namespace TouchHLE.BinaryFloat

open Rounding

/-- rational numbers, and infinity at both ends -/
abbrev Extended := WithBot (WithTop ℚ)

def finite (q : ℚ) : Extended := ((q : WithTop ℚ) : WithBot (WithTop ℚ))

theorem finite_inj {q r : ℚ} : finite q = finite r ↔ q = r := by simp [finite]

theorem finite_lt {q r : ℚ} : finite q < finite r ↔ q < r := by simp [finite]

theorem extended_cases (x : Extended) : x = ⊥ ∨ x = ⊤ ∨ ∃ q, x = finite q := by
  induction x using WithBot.recBotCoe with
  | bot => exact Or.inl rfl
  | coe x =>
    induction x using WithTop.recTopCoe with
    | top => exact Or.inr (Or.inl rfl)
    | coe q => exact Or.inr (Or.inr ⟨q, rfl⟩)

theorem finite_ne_bot {q : ℚ} : finite q ≠ ⊥ := WithBot.coe_ne_bot

theorem finite_ne_top {q : ℚ} : finite q ≠ ⊤ := by simp [finite]

structure Format where
  exponentBits : ℕ
  fractionBits : ℕ

def binary32 : Format := ⟨8, 23⟩

def binary64 : Format := ⟨11, 52⟩

namespace Format

variable (f : Format) (bits : ℕ)

def bias : ℕ := 2 ^ (f.exponentBits - 1) - 1

def fraction : ℕ := bits % 2 ^ f.fractionBits

def exponent : ℕ := bits / 2 ^ f.fractionBits % 2 ^ f.exponentBits

def negative : Bool := bits / 2 ^ (f.exponentBits + f.fractionBits) % 2 == 1

/-- subnormal numbers have no leading bit -/
def significand : ℕ := if f.exponent bits = 0 then f.fraction bits else 2 ^ f.fractionBits + f.fraction bits

/-- the exponent of the last bit -/
def scale : ℤ := (max (f.exponent bits) 1 : ℕ) - (f.bias + f.fractionBits : ℕ)

def magnitude : ℚ := f.significand bits * 2 ^ f.scale bits

def value : Option Extended :=
  if f.exponent bits = 2 ^ f.exponentBits - 1 then
    if f.fraction bits = 0 then some (if f.negative bits then ⊥ else ⊤) else none
  else some (finite (if f.negative bits then -f.magnitude bits else f.magnitude bits))

end Format

variable {f : Format} {bits bits' : ℕ} {q : ℚ} {x : Extended}

theorem value_cases (h : f.value bits = some x) :
    (f.exponent bits = 2 ^ f.exponentBits - 1 ∧ f.fraction bits = 0 ∧ x = if f.negative bits then ⊥ else ⊤) ∨
      f.exponent bits ≠ 2 ^ f.exponentBits - 1 ∧ x = finite (if f.negative bits then -f.magnitude bits else f.magnitude bits) := by
  unfold Format.value at h
  by_cases hexp : f.exponent bits = 2 ^ f.exponentBits - 1
  · rw [if_pos hexp] at h
    by_cases hfrac : f.fraction bits = 0
    · rw [if_pos hfrac] at h
      exact Or.inl ⟨hexp, hfrac, (Option.some.inj h).symm⟩
    · rw [if_neg hfrac] at h
      cases h
  · rw [if_neg hexp] at h
    exact Or.inr ⟨hexp, (Option.some.inj h).symm⟩

theorem value_finite (h : f.value bits = some (finite q)) : f.exponent bits ≠ 2 ^ f.exponentBits - 1 ∧
    q = (if f.negative bits then -f.magnitude bits else f.magnitude bits) := by
  obtain ⟨-, -, hx⟩ | ⟨hexp, hx⟩ := value_cases h
  · split_ifs at hx <;> cases hx
  · exact ⟨hexp, finite_inj.1 hx⟩

theorem fraction_lt (f : Format) (bits : ℕ) : f.fraction bits < 2 ^ f.fractionBits := Nat.mod_lt _ (by positivity)

theorem significand_lt : f.significand bits < 2 ^ (f.fractionBits + 1) := by
  have hlt := fraction_lt f bits
  unfold Format.significand
  rw [pow_succ]
  split_ifs <;> omega

theorem magnitude_nonneg (f : Format) (bits : ℕ) : 0 ≤ f.magnitude bits := by
  unfold Format.magnitude
  positivity

theorem abs_value (h : f.value bits = some (finite q)) : |q| = f.magnitude bits := by
  obtain ⟨-, rfl⟩ := value_finite h
  split_ifs
  · rw [abs_neg, abs_of_nonneg (magnitude_nonneg f bits)]
  · exact abs_of_nonneg (magnitude_nonneg f bits)

theorem value_representable (h : f.value bits = some (finite q)) : Representable (f.fractionBits + 1) q :=
  ⟨f.significand bits, f.scale bits, significand_lt, abs_value h⟩

/-! ## Representations -/

theorem scale_le (h : f.scale bits < f.scale bits') : 2 ^ f.fractionBits ≤ f.significand bits' := by
  unfold Format.scale at h
  unfold Format.significand
  rw [if_neg (by omega)]
  omega

theorem magnitude_injective (h : f.magnitude bits = f.magnitude bits') :
    f.exponent bits = f.exponent bits' ∧ f.fraction bits = f.fraction bits' := by
  have hlt (b b' : ℕ) (hscale : f.scale b < f.scale b') : f.magnitude b ≠ f.magnitude b' := by
    intro hsame
    have hsig : (f.significand b : ℚ) * 2 ^ f.scale b < f.significand b' * 2 ^ f.scale b' :=
      calc (f.significand b : ℚ) * 2 ^ f.scale b
          < 2 ^ (f.fractionBits + 1) * 2 ^ f.scale b := by
            gcongr
            exact_mod_cast significand_lt
        _ = 2 ^ f.fractionBits * 2 ^ (f.scale b + 1) := by
            rw [pow_succ, zpow_add_one₀ two_ne_zero]
            ring
        _ ≤ f.significand b' * 2 ^ f.scale b' := by
            gcongr
            · exact_mod_cast scale_le hscale
            · norm_num
            · omega
    exact absurd hsame hsig.ne
  have hscale : f.scale bits = f.scale bits' :=
    le_antisymm (not_lt.1 fun hgt => hlt _ _ hgt h.symm) (not_lt.1 fun hgt => hlt _ _ hgt h)
  have hsig : f.significand bits = f.significand bits' := by
    unfold Format.magnitude at h
    rw [hscale] at h
    exact_mod_cast mul_right_cancel₀ (zpow_ne_zero _ two_ne_zero) h
  have hfraction := fraction_lt f bits
  have hfraction' := fraction_lt f bits'
  unfold Format.scale at hscale
  unfold Format.significand at hsig
  split_ifs at hsig <;> omega

theorem fields_eq (hin : bits < 2 ^ (f.exponentBits + f.fractionBits + 1)) :
    bits = (f.negative bits).toNat * 2 ^ (f.exponentBits + f.fractionBits) + f.exponent bits * 2 ^ f.fractionBits
      + f.fraction bits := by
  have hneg : (f.negative bits).toNat = bits / 2 ^ (f.exponentBits + f.fractionBits) := by
    have hlt : bits / 2 ^ (f.exponentBits + f.fractionBits) < 2 := by
      rw [Nat.div_lt_iff_lt_mul (by positivity), ← Nat.pow_succ']
      exact hin
    unfold Format.negative
    rw [Nat.mod_eq_of_lt hlt]
    generalize bits / 2 ^ (f.exponentBits + f.fractionBits) = s at hlt ⊢
    interval_cases s <;> rfl
  have hdiv : bits / 2 ^ (f.exponentBits + f.fractionBits) = bits / 2 ^ f.fractionBits / 2 ^ f.exponentBits := by
    rw [Nat.div_div_eq_div_mul, ← pow_add, Nat.add_comm]
  calc bits = 2 ^ f.fractionBits * (bits / 2 ^ f.fractionBits) + bits % 2 ^ f.fractionBits := (Nat.div_add_mod _ _).symm
    _ = 2 ^ f.fractionBits * (2 ^ f.exponentBits * (bits / 2 ^ f.fractionBits / 2 ^ f.exponentBits)
          + bits / 2 ^ f.fractionBits % 2 ^ f.exponentBits) + bits % 2 ^ f.fractionBits := by
        rw [Nat.div_add_mod (bits / 2 ^ f.fractionBits)]
    _ = _ := by
        rw [hneg, hdiv, Format.exponent, Format.fraction, pow_add]
        ring

theorem magnitude_eq_zero (h : f.magnitude bits = 0) : f.exponent bits = 0 ∧ f.fraction bits = 0 := by
  have hsig : f.significand bits = 0 := by
    unfold Format.magnitude at h
    exact_mod_cast (mul_eq_zero.1 h).resolve_right (zpow_ne_zero _ two_ne_zero)
  unfold Format.significand at hsig
  split_ifs at hsig with hexp
  · exact ⟨hexp, hsig⟩
  · have hpos : 0 < 2 ^ f.fractionBits := by positivity
    omega

theorem zero_bits (hin : bits < 2 ^ (f.exponentBits + f.fractionBits + 1)) (h : f.value bits = some (finite 0)) :
    bits = (f.negative bits).toNat * 2 ^ (f.exponentBits + f.fractionBits) := by
  have hmagnitude : f.magnitude bits = 0 := by rw [← abs_value h, abs_zero]
  obtain ⟨hexp, hfrac⟩ := magnitude_eq_zero hmagnitude
  have hfields := fields_eq hin
  rwa [hexp, hfrac, Nat.zero_mul, Nat.add_zero] at hfields

theorem value_zero (f : Format) (h : 1 < f.exponentBits) : f.value 0 = some (finite 0) := by
  have hexp : f.exponent 0 = 0 := by simp [Format.exponent]
  have hpow : 2 ^ 1 < 2 ^ f.exponentBits := Nat.pow_lt_pow_right (by norm_num) h
  rw [Format.value, hexp, if_neg (by omega)]
  simp [Format.magnitude, Format.significand, hexp, Format.fraction, Format.negative]

/-- **A number has one representation**, but for zero, which has one for each sign. -/
theorem value_injective (hin : bits < 2 ^ (f.exponentBits + f.fractionBits + 1))
    (hin' : bits' < 2 ^ (f.exponentBits + f.fractionBits + 1)) (h : f.value bits = some x) (h' : f.value bits' = some x)
    (hzero : x = finite 0 → f.negative bits = f.negative bits') : bits = bits' := by
  have hfields : f.negative bits = f.negative bits' ∧ f.exponent bits = f.exponent bits' ∧ f.fraction bits = f.fraction bits' := by
    obtain ⟨hexp, hfrac, hx⟩ | ⟨-, hx⟩ := value_cases h
    · obtain ⟨hexp', hfrac', hx'⟩ | ⟨-, hx'⟩ := value_cases h'
      · refine ⟨?_, hexp.trans hexp'.symm, hfrac.trans hfrac'.symm⟩
        cases hneg : f.negative bits <;> cases hneg' : f.negative bits' <;> simp_all
      · rw [hx'] at hx
        split_ifs at hx <;> cases hx
    · rw [hx] at h'
      obtain ⟨-, hsame⟩ := value_finite h'
      have hmagnitude : f.magnitude bits = f.magnitude bits' := by
        rw [← abs_value (hx ▸ h), abs_value h']
      refine ⟨?_, magnitude_injective hmagnitude⟩
      by_cases hm : f.magnitude bits = 0
      · apply hzero
        rw [hx, hm]
        simp
      · rw [← hmagnitude] at hsame
        cases hneg : f.negative bits <;> cases hneg' : f.negative bits' <;> simp_all [self_eq_neg, neg_eq_self]
  rw [fields_eq hin, fields_eq hin', hfields.1, hfields.2.1, hfields.2.2]

/-! ## Numbers as their bits -/

theorem value_nonneg (h : f.value bits = some (finite q)) (hq : 0 < q) : f.negative bits = false := by
  obtain ⟨-, hq'⟩ := value_finite h
  cases hneg : f.negative bits with
  | false => rfl
  | true =>
    rw [hneg, if_pos rfl] at hq'
    have hmagnitude := magnitude_nonneg f bits
    linarith

/-- the exponent of the last bit, where the bits above the fraction are not zero -/
theorem magnitude_normal (h : f.exponent bits ≠ 0) : f.magnitude bits =
    (2 ^ f.fractionBits + f.fraction bits : ℕ) * (2 : ℚ) ^ ((f.exponent bits : ℤ) - (f.bias + f.fractionBits : ℕ)) := by
  rw [Format.magnitude, Format.significand, if_neg h, Format.scale, max_eq_left (by omega)]

theorem magnitude_subnormal (h : f.exponent bits = 0) :
    f.magnitude bits = f.fraction bits * (2 : ℚ) ^ (1 - (f.bias + f.fractionBits : ℕ) : ℤ) := by
  rw [Format.magnitude, Format.significand, if_pos h, Format.scale, h]
  rfl

/-- numbers whose last bit has a weight of at most one are smaller than their significands -/
theorem magnitude_le (h : f.exponent bits ≤ f.bias + f.fractionBits) (hc : 0 < f.bias + f.fractionBits) :
    f.magnitude bits ≤ f.significand bits := by
  have hscale : f.scale bits ≤ 0 := by
    unfold Format.scale
    omega
  have hpow : (2 : ℚ) ^ f.scale bits ≤ 1 := zpow_le_one_of_nonpos₀ (by norm_num) hscale
  calc f.magnitude bits ≤ f.significand bits * 1 := mul_le_mul_of_nonneg_left hpow (Nat.cast_nonneg _)
    _ = f.significand bits := mul_one _

theorem magnitude_large {d : ℕ} (h : f.exponent bits = f.bias + f.fractionBits + d) (hd : 0 < d) :
    f.magnitude bits = ((2 ^ f.fractionBits + f.fraction bits) * 2 ^ d : ℕ) := by
  rw [magnitude_normal (by omega), h]
  push_cast
  rw [← zpow_natCast 2 d]
  congr 2
  omega

/-- a positive number that is its bits: the bits above the fraction count for as much as the exponent gives it -/
theorem fixed_cases (hin : bits < 2 ^ (f.exponentBits + f.fractionBits + 1)) (hc : 1 < f.bias + f.fractionBits)
    (hneg : f.negative bits = false) (h : f.magnitude bits = bits) : bits = 0 ∨ ∃ d F, 0 < d ∧ F < 2 ^ f.fractionBits ∧
      (2 ^ f.fractionBits + F) * 2 ^ d = (f.bias + f.fractionBits + d) * 2 ^ f.fractionBits + F := by
  have hbits : bits = f.exponent bits * 2 ^ f.fractionBits + f.fraction bits := by simpa [hneg] using fields_eq hin
  rcases Nat.lt_or_ge (f.bias + f.fractionBits) (f.exponent bits) with hlarge | hsmall
  · obtain ⟨d, hd⟩ := Nat.exists_eq_add_of_lt hlarge
    refine Or.inr ⟨d + 1, f.fraction bits, by omega, fraction_lt f bits, ?_⟩
    have hexp : f.exponent bits = f.bias + f.fractionBits + (d + 1) := by omega
    rw [magnitude_large hexp (by omega)] at h
    rw [← hexp, ← hbits]
    exact_mod_cast h
  · left
    have hle := magnitude_le hsmall (by omega)
    rw [h] at hle
    have hle : bits ≤ f.significand bits := by exact_mod_cast hle
    have hexp : f.exponent bits ≤ 1 := by
      by_contra hgt
      have hmul : 2 * 2 ^ f.fractionBits ≤ f.exponent bits * 2 ^ f.fractionBits := Nat.mul_le_mul_right _ (by omega)
      have hpos : 0 < 2 ^ f.fractionBits := by positivity
      rw [Format.significand, if_neg (by omega)] at hle
      omega
    have hsig : f.significand bits = bits := by
      unfold Format.significand
      split_ifs with hzero
      · rw [hzero] at hbits
        omega
      · rw [show f.exponent bits = 1 by omega] at hbits
        omega
    have hpow : (2 : ℚ) ^ f.scale bits < 1 := by
      apply zpow_lt_one_of_neg₀ (by norm_num)
      unfold Format.scale
      omega
    by_contra hne
    have hpos : (0 : ℚ) < bits := by exact_mod_cast Nat.pos_of_ne_zero hne
    rw [Format.magnitude, hsig] at h
    have hlt : (bits : ℚ) * 2 ^ f.scale bits < bits * 1 := mul_lt_mul_of_pos_left hpow hpos
    linarith

/-- powers of two outgrow what is added -/
theorem mul_le_two_pow {k d : ℕ} (h : k ≤ d) : 2 ^ k * (d - k + 1) ≤ 2 ^ d := by
  calc 2 ^ k * (d - k + 1) ≤ 2 ^ k * 2 ^ (d - k) := Nat.mul_le_mul_left _ Nat.lt_two_pow_self
    _ = 2 ^ d := by rw [← pow_add, Nat.add_sub_cancel' h]

/-- **No number** of the usual formats is its bits, but zero. -/
theorem binary32_fixed (hin : bits < 2 ^ 32) (hneg : binary32.negative bits = false) (h : binary32.magnitude bits = bits) :
    bits = 0 := by
  apply (fixed_cases (f := binary32) hin (by decide) hneg h).resolve_right
  rintro ⟨d, F, hd, hF, heq⟩
  simp only [binary32, Format.bias] at hF heq
  have hbound : d < 8 := by
    by_contra hge
    have hpow := mul_le_two_pow (not_lt.1 hge)
    generalize 2 ^ d = x at heq hpow
    have hmul : 2 ^ 23 * x ≤ (2 ^ 23 + F) * x := Nat.mul_le_mul_right _ (by omega)
    omega
  interval_cases d <;> omega

theorem binary64_fixed (hin : bits < 2 ^ 64) (hneg : binary64.negative bits = false) (h : binary64.magnitude bits = bits) :
    bits = 0 := by
  apply (fixed_cases (f := binary64) hin (by decide) hneg h).resolve_right
  rintro ⟨d, F, hd, hF, heq⟩
  simp only [binary64, Format.bias] at hF heq
  have hbound : d < 11 := by
    by_contra hge
    have hpow := mul_le_two_pow (not_lt.1 hge)
    generalize 2 ^ d = x at heq hpow
    have hmul : 2 ^ 52 * x ≤ (2 ^ 52 + F) * x := Nat.mul_le_mul_right _ (by omega)
    omega
  interval_cases d <;> omega

/-- no negative number is its bits in two's complement -/
theorem binary64_complement (hin : bits < 2 ^ 64) (hneg : binary64.negative bits = true) :
    binary64.magnitude bits ≠ (2 ^ 64 - bits : ℕ) := by
  intro h
  have hbits : bits = 2 ^ 63 + binary64.exponent bits * 2 ^ 52 + binary64.fraction bits := by
    have hfields := fields_eq (f := binary64) hin
    rw [hneg, Bool.toNat_true, Nat.one_mul] at hfields
    exact hfields
  have hfraction : binary64.fraction bits < 2 ^ 52 := fraction_lt binary64 bits
  rcases Nat.lt_or_ge 1075 (binary64.exponent bits) with hlarge | hsmall
  · obtain ⟨d, hd⟩ := Nat.exists_eq_add_of_lt hlarge
    have hexp : binary64.exponent bits = binary64.bias + binary64.fractionBits + (d + 1) := hd
    rw [magnitude_large hexp (by omega)] at h
    have h : (2 ^ 52 + binary64.fraction bits) * 2 ^ (d + 1) = 2 ^ 64 - bits := by exact_mod_cast h
    have hbound : d < 9 := by
      by_contra hge
      have hpow := mul_le_two_pow (k := 10) (show 10 ≤ d + 1 by omega)
      generalize 2 ^ (d + 1) = x at h hpow
      have hmul : 2 ^ 52 * x ≤ (2 ^ 52 + binary64.fraction bits) * x := Nat.mul_le_mul_right _ (by omega)
      omega
    interval_cases d <;> omega
  · have hle := magnitude_le (f := binary64) hsmall (by decide)
    have hsig : binary64.significand bits < 2 ^ 53 := significand_lt
    rw [h] at hle
    have hle : 2 ^ 64 - bits ≤ binary64.significand bits := by exact_mod_cast hle
    omega

/-- bits of the shorter format are those of a subnormal number of the longer one -/
theorem binary64_exponent (hin : bits < 2 ^ 32) : binary64.exponent bits = 0 := by
  unfold Format.exponent
  rw [Nat.div_eq_of_lt (hin.trans (by decide))]
  rfl

/-- no positive number has the same bits in both formats -/
theorem binary32_ne_binary64 (hin : bits < 2 ^ 32) (hpos : bits ≠ 0) : binary32.magnitude bits ≠ binary64.magnitude bits := by
  have hexp := binary64_exponent hin
  have hfrac : binary64.fraction bits = bits := Nat.mod_eq_of_lt (hin.trans (by decide))
  have hsmall : binary64.magnitude bits = bits * (2 : ℚ) ^ (-1074 : ℤ) := by
    rw [magnitude_subnormal hexp, hfrac]
    rfl
  have hbits : (0 : ℚ) < bits := by exact_mod_cast Nat.pos_of_ne_zero hpos
  by_cases hsig : binary32.significand bits = 0
  · rw [hsmall, Format.magnitude, hsig, Nat.cast_zero, zero_mul]
    exact (mul_pos hbits (by positivity)).ne
  · refine ne_of_gt ?_
    have hone : (1 : ℚ) ≤ binary32.significand bits := by exact_mod_cast Nat.pos_of_ne_zero hsig
    have hscale : (-149 : ℤ) ≤ binary32.scale bits := by
      simp only [Format.scale, Format.bias, binary32]
      omega
    calc binary64.magnitude bits = bits * (2 : ℚ) ^ (-1074 : ℤ) := hsmall
      _ < 2 ^ 32 * (2 : ℚ) ^ (-1074 : ℤ) := by
        gcongr
        exact_mod_cast hin
      _ = (2 : ℚ) ^ (-1042 : ℤ) := by
        rw [← zpow_natCast, ← zpow_add₀ two_ne_zero]
        rfl
      _ ≤ 1 * (2 : ℚ) ^ (-149 : ℤ) := by
        rw [one_mul]
        exact zpow_le_zpow_right₀ (by norm_num) (by decide)
      _ ≤ binary32.significand bits * 2 ^ binary32.scale bits := by
        gcongr
        norm_num

end TouchHLE.BinaryFloat
