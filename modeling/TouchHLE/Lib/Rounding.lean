/-
Rounding of rational numbers to the nearest one with so many significant bits, as floating-point arithmetic does where
exponents are not a limit.

- `toNearest`: to an integer, and of two to the even one.
- `significant`: to `p` significant bits.
- `ofInt`: of an integer of any sign.
- `toNearest_intCast`, `significant_natCast`: integers that need not be rounded.
- `Representable`: what has so many significant bits. `lt_of_ofInt_lt`, `lt_of_lt_ofInt`: rounding does not pass by these.
-/
import Mathlib.Data.Int.Log
import Mathlib.Tactic

namespace TouchHLE.Rounding

def toNearest (q : ℚ) : ℤ :=
  if q - ⌊q⌋ < 1 / 2 then ⌊q⌋ else if 1 / 2 < q - ⌊q⌋ then ⌊q⌋ + 1 else if ⌊q⌋ % 2 = 0 then ⌊q⌋ else ⌊q⌋ + 1

/-- the weight of the last bit -/
def ulp (p : ℕ) (q : ℚ) : ℚ := (2 : ℚ) ^ (Int.log 2 q + 1 - p)

def significant (p : ℕ) (q : ℚ) : ℚ := if q = 0 then 0 else toNearest (q / ulp p q) * ulp p q

/-- an integer that is rounded by its absolute value -/
def ofInt (p : ℕ) (n : ℤ) : ℚ := n.sign * significant p n.natAbs

theorem toNearest_intCast (n : ℤ) : toNearest n = n := by
  unfold toNearest
  rw [Int.floor_intCast, sub_self, if_pos (by norm_num)]

theorem toNearest_natCast (n : ℕ) : toNearest n = n := toNearest_intCast n

variable {p n : ℕ}

theorem significant_natCast (h : n < 2 ^ p) : significant p n = n := by
  by_cases hn : n = 0
  · subst hn
    rfl
  have hq : (n : ℚ) ≠ 0 := Nat.cast_ne_zero.2 hn
  unfold significant
  rw [if_neg hq]
  -- the last bit has a weight of at most one, so the quotient is an integer
  have hlog : Nat.log 2 n < p := Nat.log_lt_of_lt_pow hn h
  have hulp : ulp p n = ((2 : ℚ) ^ (p - 1 - Nat.log 2 n))⁻¹ := by
    unfold ulp
    rw [Int.log_natCast, ← zpow_natCast, ← zpow_neg]
    congr 1
    omega
  have hquot : (n : ℚ) / ulp p n = ((n * 2 ^ (p - 1 - Nat.log 2 n) : ℕ) : ℚ) := by
    rw [hulp, div_inv_eq_mul]
    push_cast
    rfl
  have hne : ulp p (n : ℚ) ≠ 0 := by
    rw [hulp]
    positivity
  rw [hquot, toNearest_natCast, Int.cast_natCast, ← hquot, div_mul_cancel₀ _ hne]

/-! ## Order -/

variable {q : ℚ}

theorem le_toNearest {n : ℤ} (h : n ≤ q) : n ≤ toNearest q := by
  have hfloor : n ≤ ⌊q⌋ := Int.le_floor.2 h
  unfold toNearest
  split_ifs <;> omega

theorem toNearest_le {n : ℤ} (h : q ≤ n) : toNearest q ≤ n := by
  have hfloor : ⌊q⌋ ≤ n := Int.cast_le.1 ((Int.floor_le q).trans h)
  -- it is rounded up only if it is not an integer
  have hup (hne : 0 < q - ⌊q⌋) : ⌊q⌋ + 1 ≤ n := Int.cast_lt.1 ((sub_pos.1 hne).trans_le h)
  unfold toNearest
  split_ifs with hlow hhigh heven
  · exact hfloor
  · exact hup (by linarith)
  · exact hfloor
  · exact hup (by linarith)

/-- a number with at most so many significant bits -/
def Representable (p : ℕ) (q : ℚ) : Prop := ∃ (m : ℕ) (e : ℤ), m < 2 ^ p ∧ |q| = m * 2 ^ e

theorem Representable.neg {p : ℕ} (h : Representable p q) : Representable p (-q) := by
  rwa [Representable, abs_neg]

theorem Representable.mono {p p' : ℕ} (h : Representable p q) (hle : p ≤ p') : Representable p' q := by
  obtain ⟨m, e, hm, hq⟩ := h
  exact ⟨m, e, hm.trans_le (Nat.pow_le_pow_right (by norm_num) hle), hq⟩

/-- far from zero they are multiples of a power of two -/
theorem Representable.multiple {p k : ℕ} (h : Representable p q) (hp : 0 < p) (hlarge : (2 : ℚ) ^ (p - 1 + k) ≤ q) :
    ∃ j : ℤ, q = j * 2 ^ k := by
  obtain ⟨m, e, hm, hq⟩ := h
  have hpos : 0 < q := lt_of_lt_of_le (by positivity) hlarge
  rw [abs_of_pos hpos] at hq
  have hexp : (k : ℤ) ≤ e := by
    by_contra hlt
    have hbelow : q < 2 ^ (p - 1 + k) :=
      calc q = m * (2 : ℚ) ^ e := hq
        _ ≤ m * (2 : ℚ) ^ ((k : ℤ) - 1) := by
          gcongr
          · norm_num
          · omega
        _ < (2 : ℚ) ^ p * (2 : ℚ) ^ ((k : ℤ) - 1) := by
          gcongr
          exact_mod_cast hm
        _ = 2 ^ (p - 1 + k) := by
          rw [← zpow_natCast, ← zpow_natCast, ← zpow_add₀ two_ne_zero]
          congr 1
          push_cast [Nat.cast_sub hp]
          ring
    exact absurd hlarge (not_le.2 hbelow)
  refine ⟨m * 2 ^ (e - k).toNat, ?_⟩
  rw [hq]
  push_cast
  rw [mul_assoc, ← zpow_natCast, ← zpow_natCast, ← zpow_add₀ two_ne_zero]
  congr 2
  omega

theorem significant_of_log {p k n : ℕ} (hn : n ≠ 0) (hk : Nat.log 2 n + 1 = p + k) :
    significant p n = toNearest ((n : ℚ) / 2 ^ k) * 2 ^ k := by
  have hulp : ulp p n = 2 ^ k := by
    unfold ulp
    rw [Int.log_natCast, ← zpow_natCast]
    congr 1
    omega
  unfold significant
  rw [if_neg (Nat.cast_ne_zero.2 hn), hulp]

/-- rounding keeps the order with the multiples of the weight of the last bit -/
theorem le_significant {p k n : ℕ} {j : ℤ} (hn : n ≠ 0) (hk : Nat.log 2 n + 1 = p + k) (h : (j : ℚ) * 2 ^ k ≤ n) :
    (j : ℚ) * 2 ^ k ≤ significant p n := by
  rw [significant_of_log hn hk]
  have hle : (j : ℚ) ≤ n / 2 ^ k := (le_div_iff₀ (by positivity)).2 h
  have hround : (j : ℚ) ≤ toNearest ((n : ℚ) / 2 ^ k) := Int.cast_le.2 (le_toNearest hle)
  exact mul_le_mul_of_nonneg_right hround (by positivity)

theorem significant_le {p k n : ℕ} {j : ℤ} (hn : n ≠ 0) (hk : Nat.log 2 n + 1 = p + k) (h : (n : ℚ) ≤ j * 2 ^ k) :
    significant p n ≤ j * 2 ^ k := by
  rw [significant_of_log hn hk]
  have hle : (n : ℚ) / 2 ^ k ≤ j := (div_le_iff₀ (by positivity)).2 h
  have hround : (toNearest ((n : ℚ) / 2 ^ k) : ℚ) ≤ j := Int.cast_le.2 (toNearest_le hle)
  exact mul_le_mul_of_nonneg_right hround (by positivity)

/-- numbers with more bits than are significant -/
theorem exists_log (hp : 0 < p) (h : 2 ^ p ≤ n) :
    n ≠ 0 ∧ ∃ k, Nat.log 2 n + 1 = p + k ∧ (2 : ℚ) ^ (p - 1 + k) ≤ n := by
  have hn : n ≠ 0 := (lt_of_lt_of_le (by positivity) h).ne'
  have hlog := Nat.le_log_of_pow_le (by norm_num) h
  refine ⟨hn, Nat.log 2 n + 1 - p, by omega, ?_⟩
  have hpow : 2 ^ Nat.log 2 n ≤ n := Nat.pow_log_le_self 2 hn
  rw [show p - 1 + (Nat.log 2 n + 1 - p) = Nat.log 2 n by omega]
  exact_mod_cast hpow

theorem lt_of_significant_lt (hp : 0 < p) (hq : Representable p q) (h : significant p n < q) : n < q := by
  by_cases hsmall : n < 2 ^ p
  · rwa [significant_natCast hsmall] at h
  obtain ⟨hn, k, hk, hpow⟩ := exists_log hp (not_lt.1 hsmall)
  have hsplit : (2 : ℚ) ^ (p - 1 + k) = ((2 ^ (p - 1) : ℤ) : ℚ) * 2 ^ k := by
    push_cast
    exact pow_add _ _ _
  by_contra hle
  have hlarge : (2 : ℚ) ^ (p - 1 + k) ≤ q := by
    rw [hsplit] at hpow ⊢
    exact (le_significant hn hk hpow).trans h.le
  obtain ⟨j, rfl⟩ := hq.multiple hp hlarge
  exact absurd h (not_lt.2 (le_significant hn hk (not_lt.1 hle)))

theorem lt_of_lt_significant (hp : 0 < p) (hq : Representable p q) (h : q < significant p n) : q < n := by
  by_cases hsmall : n < 2 ^ p
  · rwa [significant_natCast hsmall] at h
  obtain ⟨hn, k, hk, hpow⟩ := exists_log hp (not_lt.1 hsmall)
  by_contra hle
  obtain ⟨j, rfl⟩ := hq.multiple hp (hpow.trans (not_lt.1 hle))
  exact absurd h (not_lt.2 (significant_le hn hk (not_lt.1 hle)))

theorem ofInt_neg (p : ℕ) (n : ℤ) : ofInt p (-n) = -ofInt p n := by
  rw [ofInt, ofInt, Int.sign_neg, Int.natAbs_neg, Int.cast_neg, neg_mul]

theorem ofInt_natCast (p n : ℕ) : ofInt p n = significant p n := by
  by_cases hn : n = 0
  · subst hn
    simp [ofInt, significant]
  · rw [ofInt, Int.sign_natCast_of_ne_zero hn, Int.natAbs_natCast, Int.cast_one, one_mul]

/-- **Rounding** an integer does not move it past a number that can be represented. -/
theorem lt_of_ofInt_lt {p : ℕ} {n : ℤ} (hp : 0 < p) (hq : Representable p q) (h : ofInt p n < q) : n < q := by
  obtain ⟨m, rfl | rfl⟩ := n.eq_nat_or_neg
  · rw [ofInt_natCast] at h
    exact_mod_cast lt_of_significant_lt hp hq h
  · rw [ofInt_neg, ofInt_natCast] at h
    have hlt := lt_of_lt_significant hp hq.neg (neg_lt.1 h)
    push_cast
    exact neg_lt.1 hlt

theorem lt_of_lt_ofInt {p : ℕ} {n : ℤ} (hp : 0 < p) (hq : Representable p q) (h : q < ofInt p n) : q < n := by
  have hneg := lt_of_ofInt_lt hp hq.neg (n := -n) (by rw [ofInt_neg]; exact neg_lt_neg h)
  push_cast at hneg
  exact neg_lt_neg_iff.1 hneg

theorem significant_isInt (hp : 0 < p) : ∃ t : ℤ, significant p n = t := by
  by_cases hsmall : n < 2 ^ p
  · exact ⟨n, by rw [significant_natCast hsmall, Int.cast_natCast]⟩
  · obtain ⟨hn, k, hk, -⟩ := exists_log hp (not_lt.1 hsmall)
    exact ⟨toNearest ((n : ℚ) / 2 ^ k) * 2 ^ k, by rw [significant_of_log hn hk]; push_cast; rfl⟩

theorem ofInt_isInt {p : ℕ} {n : ℤ} (hp : 0 < p) : ∃ t : ℤ, ofInt p n = t := by
  obtain ⟨t, ht⟩ := significant_isInt (n := n.natAbs) hp
  exact ⟨n.sign * t, by rw [ofInt, ht, Int.cast_mul]⟩

end TouchHLE.Rounding
