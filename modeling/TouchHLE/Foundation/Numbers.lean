/-
`NSNumber` (`ns_value.rs`): its order, when two are equal, and what their hashes are made of.

- `NSNumber`: a number of any of the kinds that is in the range of its kind.
- `compare`, `isEqual`, `hash`: the methods. `value`: what number it is.
- `ordering_exact`: the order is that of the values.
- `SameBits`, `hashBits_eq_iff`: which numbers that are equal have the same bits.
- `congruent_iff`: when two numbers are found for each other. `equal_one`: two that are equal and are not.
-/
import TouchHLE.Foundation.PropertyLists
import TouchHLE.Lib.BinaryFloat

namespace TouchHLE

open Machine Rounding BinaryFloat

namespace NSNumberHostObject

/-- the range of the kind -/
def Stored : NSNumberHostObject → Prop
  | .bool _ => True
  | .unsignedLongLong x => x < 2 ^ 64
  | .unsignedInt x => x < 2 ^ 32
  | .int x => -2 ^ 31 ≤ x ∧ x < 2 ^ 31
  | .longLong x => -2 ^ 63 ≤ x ∧ x < 2 ^ 63
  | .float bits => bits < 2 ^ 32
  | .double bits => bits < 2 ^ 64
  | .short x => -2 ^ 15 ≤ x ∧ x < 2 ^ 15
  | .char x => -2 ^ 7 ≤ x ∧ x < 2 ^ 7

def isFloat : NSNumberHostObject → Bool
  | .float _ => true
  | .double _ => true
  | _ => false

/-- `as i128` of a float: without the digits after the point, and as near as there is -/
def truncate : Option Extended → ℤ
  | none => 0
  | some x =>
    if x = ⊥ then -2 ^ 127
    else if x = ⊤ then 2 ^ 127 - 1
    else
      let q := (x.unbotD 0).untopD 0
      max (-2 ^ 127) (min (2 ^ 127 - 1) (if 0 ≤ q then ⌊q⌋ else ⌈q⌉))

def asI128 : NSNumberHostObject → ℤ
  | .bool x => x.toNat
  | .unsignedLongLong x => x
  | .unsignedInt x => x
  | .int x => x
  | .longLong x => x
  | .float bits => truncate (binary32.value bits)
  | .double bits => truncate (binary64.value bits)
  | .short x => x
  | .char x => x

/-- integers are rounded; a `f32` is a `f64` too -/
def asDouble : NSNumberHostObject → Option Extended
  | .bool x => some (finite (ofInt 53 x.toNat))
  | .unsignedLongLong x => some (finite (ofInt 53 x))
  | .unsignedInt x => some (finite (ofInt 53 x))
  | .int x => some (finite (ofInt 53 x))
  | .longLong x => some (finite (ofInt 53 x))
  | .float bits => binary32.value bits
  | .double bits => binary64.value bits
  | .short x => some (finite (ofInt 53 x))
  | .char x => some (finite (ofInt 53 x))

/-- `as u64` -/
def asU64 (x : ℤ) : ℕ := (x % 2 ^ 64).toNat

/-- what `hash` gives to `hash_helper` -/
def hashBits : NSNumberHostObject → ℕ
  | .bool x => x.toNat
  | .unsignedLongLong x => x
  | .unsignedInt x => x
  | .int x => asU64 x
  | .longLong x => asU64 x
  | .float bits => bits
  | .double bits => bits
  | .short x => asU64 x
  | .char x => asU64 x

/-- `f64::partial_cmp` -/
def partialCmp : Option Extended → Option Extended → Option Ordering
  | some x, some y => some (Ord.compare x y)
  | _, _ => none

/-- how `compare:` orders two numbers -/
def ordering (num otherNum : NSNumberHostObject) : Except Panic Ordering :=
  if num.isFloat || otherNum.isFloat then do
    let res ← unwrap (partialCmp num.asDouble otherNum.asDouble) .missing
    if res = .eq then pure (Ord.compare num.asI128 otherNum.asI128) else pure res
  else pure (Ord.compare num.asI128 otherNum.asI128)

end NSNumberHostObject

/-- a number as it is stored -/
structure NSNumber where
  host : NSNumberHostObject
  stored : host.Stored

namespace NSNumber

abbrev NSOrderedAscending : ℤ := -1
abbrev NSOrderedSame : ℤ := 0
abbrev NSOrderedDescending : ℤ := 1

def fromRustOrdering : Ordering → ℤ
  | .lt => NSOrderedAscending
  | .eq => NSOrderedSame
  | .gt => NSOrderedDescending

section

-- the objects that are numbers
variable (numbers : ℕ → Option NSNumber)

def borrow (object : ℕ) : Except Panic NSNumberHostObject := do
  let n ← unwrap (numbers object) .hostObject
  pure n.host

def compare (this other : ℕ) : Except Panic ℤ := do
  let num ← borrow numbers this
  let otherNum ← borrow numbers other
  let ordering ← num.ordering otherNum
  pure (fromRustOrdering ordering)

def isEqualToNumber (this other : ℕ) : Except Panic Bool := do
  let res ← compare numbers this other
  pure (res == NSOrderedSame)

def isEqual (this other : ℕ) : Except Panic Bool :=
  if this = other then pure true
  else if (numbers other).isSome then isEqualToNumber numbers this other
  else pure false

def hash (hashHelper : ℕ → ℕ) (this : ℕ) : Except Panic ℕ := do
  let num ← borrow numbers this
  pure (hashHelper num.hashBits)

end

end NSNumber

namespace NSNumberHostObject

/-! ## Values -/

inductive Kind where
  | integer
  | single
  | double
deriving DecidableEq

def kind : NSNumberHostObject → Kind
  | .float _ => .single
  | .double _ => .double
  | _ => .integer

/-- **What number it is**, none for those that are not a number -/
def value (n : NSNumberHostObject) : Option Extended :=
  match n with
  | .float bits => binary32.value bits
  | .double bits => binary64.value bits
  | _ => some (finite n.asI128)

def negativeZero : NSNumberHostObject → Bool
  | .float bits => bits == 2 ^ 31
  | .double bits => bits == 2 ^ 63
  | _ => false

variable {num otherNum : NSNumberHostObject} {bits : ℕ} {x y : Extended} {m : ℤ} {f : Format} {bits' : ℕ}

/-- what the integer kinds have in common -/
theorem integer_cases (hk : num.kind = .integer) : num.isFloat = false ∧ num.value = some (finite num.asI128) ∧
    num.asDouble = some (finite (ofInt 53 num.asI128)) ∧ num.negativeZero = false := by
  cases num with
  | float bits => cases hk
  | double bits => cases hk
  | _ => exact ⟨rfl, rfl, rfl, rfl⟩

theorem integer_range (hk : num.kind = .integer) (hs : num.Stored) :
    -2 ^ 63 ≤ num.asI128 ∧ num.asI128 < 2 ^ 64 ∧ num.hashBits = asU64 num.asI128 := by
  cases num with
  | bool b => cases b <;> decide
  | float bits => cases hk
  | double bits => cases hk
  | unsignedLongLong x =>
    simp only [Stored, asI128, hashBits, asU64] at hs ⊢
    omega
  | unsignedInt x =>
    simp only [Stored, asI128, hashBits, asU64] at hs ⊢
    omega
  | _ =>
    simp only [Stored, asI128] at hs ⊢
    exact ⟨by omega, by omega, rfl⟩

/-- what the floating-point kinds have in common -/
theorem float_cases (hk : num.kind ≠ .integer) : num.isFloat = true ∧ num.asDouble = num.value ∧
    num.asI128 = truncate num.value ∧ ∀ q, num.value = some (finite q) → Representable 53 q := by
  cases num with
  | float bits =>
    refine ⟨rfl, rfl, rfl, fun q hq => ?_⟩
    exact (value_representable (f := binary32) hq).mono (by decide)
  | double bits => exact ⟨rfl, rfl, rfl, fun q hq => value_representable (f := binary64) hq⟩
  | _ => exact absurd rfl hk

/-! ## The order -/

theorem compare_finite (m n : ℤ) : Ord.compare (finite m) (finite n) = Ord.compare m n := by
  rcases lt_trichotomy m n with hlt | heq | hgt
  · rw [compare_lt_iff_lt.2 hlt, compare_lt_iff_lt.2 (finite_lt.2 (Int.cast_lt.2 hlt))]
  · rw [heq, compare_eq_iff_eq.2 rfl, compare_eq_iff_eq.2 rfl]
  · rw [compare_gt_iff_gt.2 hgt, compare_gt_iff_gt.2 (finite_lt.2 (Int.cast_lt.2 hgt))]

theorem truncate_int {t : ℤ} (h : |t| ≤ 2 ^ 64) : truncate (some (finite t)) = t := by
  have hbounds := abs_le.1 h
  have hq : ((finite (t : ℚ)).unbotD 0).untopD 0 = t := rfl
  unfold truncate
  dsimp only
  rw [if_neg finite_ne_bot, if_neg finite_ne_top, hq, Int.floor_intCast, Int.ceil_intCast, ite_self]
  omega

/-- the bounds of integers stay where they are -/
theorem ofInt_range (hlo : -2 ^ 63 ≤ m) (hhi : m < 2 ^ 64) : |ofInt 53 m| ≤ 2 ^ 64 := by
  have hpow (s : ℚ) (hs : |s| = 1) : Representable 53 (s * 2 ^ 64) :=
    ⟨1, 64, by norm_num, by rw [abs_mul, hs, one_mul, Nat.cast_one, one_mul, abs_of_pos (by positivity)]; rfl⟩
  rw [abs_le]
  constructor
  · by_contra hlt
    have hm := lt_of_ofInt_lt (by norm_num) (hpow (-1) (by norm_num)) (by linarith)
    have hcast : ((-2 ^ 63 : ℤ) : ℚ) ≤ m := Int.cast_le.2 hlo
    push_cast at hcast
    linarith
  · by_contra hgt
    have hm := lt_of_lt_ofInt (by norm_num) (hpow 1 (by norm_num)) (by linarith)
    have hcast : (m : ℚ) < ((2 ^ 64 : ℤ) : ℚ) := Int.cast_lt.2 hhi
    push_cast at hcast
    linarith

/-- how `compare:` orders two numbers that it converts, which are integers besides -/
def tie (x y : Extended) (i j : ℤ) : Ordering := if Ord.compare x y = .eq then Ord.compare i j else Ord.compare x y

/-- **The order of an integer and a float**: only numbers that are equal after the rounding are ordered by their integers, and
the float is one then. -/
theorem tie_integer (hlo : -2 ^ 63 ≤ m) (hhi : m < 2 ^ 64) (hy : ∀ q, y = finite q → Representable 53 q) :
    tie (finite (ofInt 53 m)) y m (truncate (some y)) = Ord.compare (finite m) y := by
  unfold tie
  rcases extended_cases y with rfl | rfl | ⟨q, rfl⟩
  · rw [compare_gt_iff_gt.2 (bot_lt_iff_ne_bot.2 finite_ne_bot), compare_gt_iff_gt.2 (bot_lt_iff_ne_bot.2 finite_ne_bot)]
    rfl
  · rw [compare_lt_iff_lt.2 (lt_top_iff_ne_top.2 finite_ne_top), compare_lt_iff_lt.2 (lt_top_iff_ne_top.2 finite_ne_top)]
    rfl
  · have hrep := hy q rfl
    rcases lt_trichotomy (ofInt 53 m) q with hlt | heq | hgt
    · have hm := lt_of_ofInt_lt (by norm_num) hrep hlt
      rw [compare_lt_iff_lt.2 (finite_lt.2 hlt), compare_lt_iff_lt.2 (finite_lt.2 hm)]
      rfl
    · obtain ⟨t, ht⟩ := ofInt_isInt (n := m) (show 0 < 53 by norm_num)
      have hrange := ofInt_range hlo hhi
      rw [ht] at heq hrange
      subst heq
      rw [ht, compare_eq_iff_eq.2 rfl, if_pos rfl, truncate_int (by exact_mod_cast hrange), compare_finite]
    · have hm := lt_of_lt_ofInt (by norm_num) hrep hgt
      rw [compare_gt_iff_gt.2 (finite_lt.2 hgt), compare_gt_iff_gt.2 (finite_lt.2 hm)]
      rfl

theorem tie_swap (x y : Extended) (i j : ℤ) : tie x y i j = (tie y x j i).swap := by
  unfold tie
  rw [show Ord.compare x y = (Ord.compare y x).swap from Std.OrientedCmp.eq_swap,
    show Ord.compare i j = (Ord.compare j i).swap from Std.OrientedCmp.eq_swap]
  cases Ord.compare y x <;> rfl

theorem ordering_eq {x' y' : Extended} (hfloat : (num.isFloat || otherNum.isFloat) = true) (hx : num.asDouble = some x')
    (hy : otherNum.asDouble = some y') : num.ordering otherNum = .ok (tie x' y' num.asI128 otherNum.asI128) := by
  rw [ordering, if_pos hfloat, hx, hy]
  unfold tie
  cases hres : Ord.compare x' y' <;> simp [partialCmp, hres, unwrap, pure, Except.pure, bind, Except.bind]

/-- **The order** is that of the values. -/
theorem ordering_exact (hnum : num.Stored) (hother : otherNum.Stored) (hx : num.value = some x) (hy : otherNum.value = some y) :
    num.ordering otherNum = .ok (Ord.compare x y) := by
  by_cases hk : num.kind = .integer <;> by_cases hk' : otherNum.kind = .integer
  · obtain ⟨hfloat, hvalue, -, -⟩ := integer_cases hk
    obtain ⟨hfloat', hvalue', -, -⟩ := integer_cases hk'
    cases hvalue.symm.trans hx
    cases hvalue'.symm.trans hy
    rw [ordering, hfloat, hfloat', compare_finite]
    rfl
  · obtain ⟨-, hvalue, hdouble, -⟩ := integer_cases hk
    obtain ⟨hlo, hhi, -⟩ := integer_range hk hnum
    obtain ⟨hfloat', hdouble', hint', hrep⟩ := float_cases hk'
    cases hvalue.symm.trans hx
    rw [ordering_eq (by rw [hfloat', Bool.or_true]) hdouble (hdouble'.trans hy), hint', hy, tie_integer hlo hhi]
    intro q hq
    exact hrep q (hy.trans (congrArg some hq))
  · obtain ⟨hfloat, hdouble, hint, hrep⟩ := float_cases hk
    obtain ⟨-, hvalue', hdouble', -⟩ := integer_cases hk'
    obtain ⟨hlo, hhi, -⟩ := integer_range hk' hother
    cases hvalue'.symm.trans hy
    rw [ordering_eq (by rw [hfloat, Bool.true_or]) (hdouble.trans hx) hdouble', hint, hx, tie_swap, tie_integer hlo hhi,
      ← Std.OrientedCmp.eq_swap]
    intro q hq
    exact hrep q (hx.trans (congrArg some hq))
  · obtain ⟨hfloat, hdouble, hint, -⟩ := float_cases hk
    obtain ⟨-, hdouble', hint', -⟩ := float_cases hk'
    rw [ordering_eq (by rw [hfloat, Bool.true_or]) (hdouble.trans hx) (hdouble'.trans hy), hint, hint', hx, hy]
    unfold tie
    split_ifs with heq
    · rw [compare_eq_iff_eq.1 heq, compare_eq_iff_eq.2 rfl, compare_eq_iff_eq.2 rfl]
    · rfl


/-! ## Hashes -/

/-- the bits of a number, but for its sign if it is zero -/
theorem bits_injective (hin : bits < 2 ^ (f.exponentBits + f.fractionBits + 1))
    (hin' : bits' < 2 ^ (f.exponentBits + f.fractionBits + 1)) (hx : f.value bits = some x) (hy : f.value bits' = some x)
    (h : (bits == 2 ^ (f.exponentBits + f.fractionBits)) = (bits' == 2 ^ (f.exponentBits + f.fractionBits))) : bits = bits' := by
  apply value_injective hin hin' hx hy
  rintro rfl
  have hzero := zero_bits hin hx
  have hzero' := zero_bits hin' hy
  have hpos : 2 ^ (f.exponentBits + f.fractionBits) ≠ 0 := by positivity
  rw [hzero, hzero'] at h
  generalize 2 ^ (f.exponentBits + f.fractionBits) = p at h hpos
  simpa [hpos] using h

/-- only zero has bits that are zero -/
theorem value_of_hashBits (hs : num.Stored) (h : num.hashBits = 0) : num.value = some (finite 0) := by
  by_cases hk : num.kind = .integer
  · obtain ⟨hlo, hhi, hbits⟩ := integer_range hk hs
    obtain ⟨-, hvalue, -⟩ := integer_cases hk
    have hzero : num.asI128 = 0 := by
      rw [hbits, asU64] at h
      omega
    rw [hvalue, hzero, Int.cast_zero]
  · cases num with
    | float bits =>
      obtain rfl : bits = 0 := h
      exact value_zero binary32 (by decide)
    | double bits =>
      obtain rfl : bits = 0 := h
      exact value_zero binary64 (by decide)
    | _ => exact absurd rfl hk

theorem hashBits_zero (hs : num.Stored) (hx : num.value = some (finite 0)) : num.hashBits = 0 ↔ num.negativeZero = false := by
  by_cases hk : num.kind = .integer
  · obtain ⟨-, -, hbits⟩ := integer_range hk hs
    obtain ⟨-, hvalue, -, hnot⟩ := integer_cases hk
    have hzero : num.asI128 = 0 := by
      have hsame := finite_inj.1 (Option.some.inj (hvalue.symm.trans hx))
      exact_mod_cast hsame
    rw [hbits, hzero, hnot]
    exact ⟨fun _ => rfl, fun _ => rfl⟩
  · cases num with
    | float bits =>
      have hb : bits = (binary32.negative bits).toNat * 2 ^ 31 := zero_bits (f := binary32) hs hx
      have hle := Bool.toNat_le (binary32.negative bits)
      generalize (binary32.negative bits).toNat = s at hb hle
      simp only [hashBits, negativeZero, beq_eq_false_iff_ne]
      omega
    | double bits =>
      have hb : bits = (binary64.negative bits).toNat * 2 ^ 63 := zero_bits (f := binary64) hs hx
      have hle := Bool.toNat_le (binary64.negative bits)
      generalize (binary64.negative bits).toNat = s at hb hle
      simp only [hashBits, negativeZero, beq_eq_false_iff_ne]
      omega
    | _ => exact absurd rfl hk

/-- an integer and a float that are equal and have the same bits -/
theorem integer_bits (hlo : -2 ^ 63 ≤ m) (hhi : m < 2 ^ 64) (hx : f.value bits = some (finite m))
    (hpos : f.negative bits = false → f.magnitude bits = bits → bits = 0)
    (hneg : 2 ^ 63 ≤ bits → f.negative bits = true → f.magnitude bits ≠ (2 ^ 64 - bits : ℕ)) (h : asU64 m = bits) : bits = 0 := by
  have hmagnitude := abs_value hx
  obtain ⟨-, hsame⟩ := value_finite hx
  unfold asU64 at h
  rcases le_or_gt 0 m with hnonneg | hlt
  · have hm : m = (bits : ℤ) := by omega
    by_contra hne
    have hb : (0 : ℚ) < bits := by exact_mod_cast Nat.pos_of_ne_zero hne
    rw [hm, Int.cast_natCast] at hmagnitude hx
    exact hne (hpos (value_nonneg hx hb) (by rw [← hmagnitude, abs_of_pos hb]))
  · have hm : (2 ^ 64 - bits : ℕ) = -m := by omega
    have hq : (m : ℚ) < 0 := Int.cast_lt_zero.2 hlt
    have hnegative : f.negative bits = true := by
      by_contra hnot
      rw [if_neg hnot] at hsame
      have hm0 := magnitude_nonneg f bits
      linarith
    refine absurd ?_ (hneg (by omega) hnegative)
    rw [← hmagnitude, abs_of_neg hq]
    exact_mod_cast hm.symm

/-- **Numbers of two kinds** that are equal and have the same bits are zero. -/
theorem bits_of_integer (hs : num.Stored) (hs' : otherNum.Stored) (hk : num.kind = .integer) (hk' : otherNum.kind ≠ .integer)
    (hx : num.value = some x) (hy : otherNum.value = some x) (h : num.hashBits = otherNum.hashBits) : otherNum.hashBits = 0 := by
  obtain ⟨hlo, hhi, hbits⟩ := integer_range hk hs
  obtain ⟨-, hvalue, -⟩ := integer_cases hk
  cases hvalue.symm.trans hx
  rw [hbits] at h
  cases otherNum with
  | float bits =>
    have hin : bits < 2 ^ 32 := hs'
    refine integer_bits hlo hhi hy (binary32_fixed hin) (fun hge => ?_) h
    have hge : 2 ^ 63 ≤ bits := hge
    omega
  | double bits => exact integer_bits hlo hhi hy (binary64_fixed hs') (fun _ => binary64_complement hs') h
  | _ => exact absurd rfl hk'

theorem value_ne_infinite (hin : bits < 2 ^ 32) (hx : x = ⊥ ∨ x = ⊤) : binary64.value bits ≠ some x := by
  rw [Format.value, binary64_exponent hin, if_neg (by decide)]
  intro h
  rcases hx with rfl | rfl
  · exact finite_ne_bot (Option.some.inj h)
  · exact finite_ne_top (Option.some.inj h)

theorem bits_of_single (hin : bits < 2 ^ 32) (hx : binary32.value bits = some x) (hy : binary64.value bits' = some x)
    (h : bits = bits') : bits' = 0 := by
  subst h
  by_contra hne
  rcases extended_cases x with rfl | rfl | ⟨q, rfl⟩
  · exact value_ne_infinite hin (Or.inl rfl) hy
  · exact value_ne_infinite hin (Or.inr rfl) hy
  · exact binary32_ne_binary64 hin hne ((abs_value hx).symm.trans (abs_value hy))

/-- which of the numbers that are equal have the same bits: those of one kind that are not zeros of other signs, and zeros that
are not negative -/
def SameBits (num otherNum : NSNumberHostObject) (x : Extended) : Prop :=
  num.kind = otherNum.kind ∧ num.negativeZero = otherNum.negativeZero ∨
    x = finite 0 ∧ num.negativeZero = false ∧ otherNum.negativeZero = false

theorem bits_of_kinds (hs : num.Stored) (hs' : otherNum.Stored) (hk : num.kind ≠ otherNum.kind) (hx : num.value = some x)
    (hy : otherNum.value = some x) (h : num.hashBits = otherNum.hashBits) : num.hashBits = 0 := by
  by_cases hi : num.kind = .integer
  · rw [h]
    exact bits_of_integer hs hs' hi (fun hi' => hk (hi.trans hi'.symm)) hx hy h
  · by_cases hi' : otherNum.kind = .integer
    · exact bits_of_integer hs' hs hi' hi hy hx h.symm
    · cases num with
      | float bits =>
        cases otherNum with
        | float bits' => exact absurd rfl hk
        | double bits' => exact h.trans (bits_of_single hs hx hy h)
        | _ => exact absurd rfl hi'
      | double bits =>
        cases otherNum with
        | float bits' => exact bits_of_single hs' hy hx h.symm
        | double bits' => exact absurd rfl hk
        | _ => exact absurd rfl hi'
      | _ => exact absurd rfl hi

theorem negativeZero_eq (hk : num.kind = otherNum.kind) (h : num.hashBits = otherNum.hashBits) :
    num.negativeZero = otherNum.negativeZero := by
  by_cases hi : num.kind = .integer
  · obtain ⟨-, -, -, hneg⟩ := integer_cases hi
    obtain ⟨-, -, -, hneg'⟩ := integer_cases (hk ▸ hi)
    rw [hneg, hneg']
  · cases num with
    | float bits =>
      cases otherNum with
      | float bits' => exact congrArg (· == 2 ^ 31) h
      | _ => cases hk
    | double bits =>
      cases otherNum with
      | double bits' => exact congrArg (· == 2 ^ 63) h
      | _ => cases hk
    | _ => exact absurd rfl hi

theorem bits_of_kind (hs : num.Stored) (hs' : otherNum.Stored) (hk : num.kind = otherNum.kind) (hx : num.value = some x)
    (hy : otherNum.value = some x) (hneg : num.negativeZero = otherNum.negativeZero) : num.hashBits = otherNum.hashBits := by
  by_cases hi : num.kind = .integer
  · obtain ⟨-, -, hbits⟩ := integer_range hi hs
    obtain ⟨-, -, hbits'⟩ := integer_range (hk ▸ hi) hs'
    obtain ⟨-, hvalue, -⟩ := integer_cases hi
    obtain ⟨-, hvalue', -⟩ := integer_cases (hk ▸ hi)
    cases hvalue.symm.trans hx
    have hsame := finite_inj.1 (Option.some.inj (hvalue'.symm.trans hy))
    rw [hbits, hbits', Int.cast_inj.1 hsame]
  · cases num with
    | float bits =>
      cases otherNum with
      | float bits' => exact bits_injective (f := binary32) hs hs' hx hy hneg
      | _ => cases hk
    | double bits =>
      cases otherNum with
      | double bits' => exact bits_injective (f := binary64) hs hs' hx hy hneg
      | _ => cases hk
    | _ => exact absurd rfl hi

/-- **The bits of two numbers that are equal** -/
theorem hashBits_eq_iff (hs : num.Stored) (hs' : otherNum.Stored) (hx : num.value = some x) (hy : otherNum.value = some x) :
    num.hashBits = otherNum.hashBits ↔ SameBits num otherNum x := by
  by_cases hk : num.kind = otherNum.kind
  · constructor
    · intro h
      exact Or.inl ⟨hk, negativeZero_eq hk h⟩
    · intro h
      have hneg : num.negativeZero = otherNum.negativeZero := by
        obtain ⟨-, hneg⟩ | ⟨-, hpos, hpos'⟩ := h
        · exact hneg
        · rw [hpos, hpos']
      exact bits_of_kind hs hs' hk hx hy hneg
  · constructor
    · intro h
      have hzero := bits_of_kinds hs hs' hk hx hy h
      cases hx.symm.trans (value_of_hashBits hs hzero)
      exact Or.inr ⟨rfl, (hashBits_zero hs hx).1 hzero, (hashBits_zero hs' hy).1 (h.symm.trans hzero)⟩
    · rintro (⟨hsame, -⟩ | ⟨rfl, hpos, hpos'⟩)
      · exact absurd hsame hk
      · rw [(hashBits_zero hs hx).2 hpos, (hashBits_zero hs' hy).2 hpos']

end NSNumberHostObject

namespace NSNumber

/-! ## The methods -/

open NSNumberHostObject

variable {numbers : ℕ → Option NSNumber} {this other : ℕ} {num otherNum : NSNumber} {x y : Extended}

/-- what a dictionary asks the numbers that are its keys -/
def keyMessages (numbers : ℕ → Option NSNumber) (hashHelper : ℕ → ℕ) : KeyMessages where
  hash key := (hash numbers hashHelper key).toOption.getD 0
  isEqual candidateKey key := (isEqual numbers candidateKey key).toOption.getD false
  copy _ key := key

/-- **What numbers should do**: they are ordered and equal as their values are, and those that are equal have the same hash and are
found for each other. -/
structure Congruent (numbers : ℕ → Option NSNumber) (this other : ℕ) (num otherNum : NSNumber) (x y : Extended) : Prop where
  order : compare numbers this other = .ok (fromRustOrdering (Ord.compare x y))
  equal : isEqual numbers this other = .ok (decide (x = y))
  bits : x = y → num.host.hashBits = otherNum.host.hashBits
  found : ∀ hashHelper value d r, x = y →
    (DictionaryHostObject.insert (keyMessages numbers hashHelper) ⟨[], 0⟩ ⟨0, [], []⟩ this value false) = .ok (d, r) →
    d.lookup (keyMessages numbers hashHelper) other = value

theorem borrow_ok (hnum : numbers this = some num) : borrow numbers this = .ok num.host := by
  rw [borrow, hnum]
  rfl

theorem compare_exact (hnum : numbers this = some num) (hother : numbers other = some otherNum) (hx : num.host.value = some x)
    (hy : otherNum.host.value = some y) : compare numbers this other = .ok (fromRustOrdering (Ord.compare x y)) := by
  rw [compare, borrow_ok hnum, ok_bind, borrow_ok hother, ok_bind, ordering_exact num.stored otherNum.stored hx hy]
  rfl

theorem isEqual_exact (hnum : numbers this = some num) (hother : numbers other = some otherNum) (hx : num.host.value = some x)
    (hy : otherNum.host.value = some y) : isEqual numbers this other = .ok (decide (x = y)) := by
  unfold isEqual
  split_ifs with hsame hnumber
  · subst hsame
    cases hnum.symm.trans hother
    cases hx.symm.trans hy
    rw [decide_eq_true rfl]
    rfl
  · rw [isEqualToNumber, compare_exact hnum hother hx hy, ok_bind]
    by_cases heq : x = y
    · rw [compare_eq_iff_eq.2 heq, decide_eq_true heq]
      rfl
    · rw [decide_eq_false heq]
      rcases lt_or_gt_of_ne heq with hlt | hgt
      · rw [compare_lt_iff_lt.2 hlt]
        rfl
      · rw [compare_gt_iff_gt.2 hgt]
        rfl
  · rw [hother] at hnumber
    exact absurd rfl hnumber

/-- a number is found for one that is equal and has the same hash -/
theorem lookup_of_bits (hnum : numbers this = some num) (hother : numbers other = some otherNum)
    (hbits : num.host.hashBits = otherNum.host.hashBits) (hequal : isEqual numbers this other = .ok true) {hashHelper : ℕ → ℕ}
    {value : ℕ} {d : DictionaryHostObject} {r : References}
    (hinsert : DictionaryHostObject.insert (keyMessages numbers hashHelper) ⟨[], 0⟩ ⟨0, [], []⟩ this value false = .ok (d, r)) :
    d.lookup (keyMessages numbers hashHelper) other = value := by
  have hhash : (keyMessages numbers hashHelper).hash other = (keyMessages numbers hashHelper).hash this := by
    simp only [keyMessages, hash]
    rw [borrow_ok hnum, borrow_ok hother, ok_bind, ok_bind, hbits]
  have hsame : (keyMessages numbers hashHelper).same this other = true := by
    simp [KeyMessages.same, keyMessages, hequal, Except.toOption]
  cases hinsert
  rw [DictionaryHostObject.lookup, hhash, Assoc.lookup_insert_self]
  simp [Buckets.find, hsame]

/-- **Numbers** are congruent if and only if they are not equal or have the same bits. -/
theorem congruent_iff (hnum : numbers this = some num) (hother : numbers other = some otherNum) (hx : num.host.value = some x)
    (hy : otherNum.host.value = some y) :
    Congruent numbers this other num otherNum x y ↔ (x = y → SameBits num.host otherNum.host x) := by
  constructor
  · rintro hc rfl
    exact (hashBits_eq_iff num.stored otherNum.stored hx hy).1 (hc.bits rfl)
  · intro h
    have hbits (heq : x = y) : num.host.hashBits = otherNum.host.hashBits := by
      subst heq
      exact (hashBits_eq_iff num.stored otherNum.stored hx hy).2 (h rfl)
    refine ⟨compare_exact hnum hother hx hy, isEqual_exact hnum hother hx hy, hbits, fun hashHelper value d r heq hinsert => ?_⟩
    refine lookup_of_bits hnum hother (hbits heq) ?_ hinsert
    rw [isEqual_exact hnum hother hx hy, decide_eq_true heq]

/-- 1 as an `int` and as a `double`, and -1 as a `short` and as a `long long` -/
def sampleNumbers : ℕ → Option NSNumber
  | 1 => some ⟨.int 1, by simp [Stored]⟩
  | 2 => some ⟨.double 0x3ff0000000000000, by simp [Stored]⟩
  | 3 => some ⟨.short (-1), by simp [Stored]⟩
  | 4 => some ⟨.longLong (-1), by simp [Stored]⟩
  | _ => none

theorem congruent_iff_minus_one : Congruent sampleNumbers 3 4 ⟨.short (-1), by simp [Stored]⟩ ⟨.longLong (-1), by simp [Stored]⟩
    (finite (-1)) (finite (-1)) :=
  (congruent_iff rfl rfl (by simp [value, asI128]) (by simp [value, asI128])).2 fun _ => Or.inl ⟨rfl, rfl⟩

theorem value_one : (NSNumberHostObject.double 0x3ff0000000000000).value = some (finite 1) := by decide +kernel

/-- The numbers 1 and 1.0 are equal, and their hashes are made of other bits. -/
theorem equal_one : isEqual sampleNumbers 1 2 = .ok true ∧
    ¬Congruent sampleNumbers 1 2 ⟨.int 1, by simp [Stored]⟩ ⟨.double 0x3ff0000000000000, by simp [Stored]⟩ (finite 1)
      (finite 1) := by
  constructor
  · rw [isEqual_exact (x := finite 1) (y := finite 1) rfl rfl (by simp [value, asI128]) value_one, decide_eq_true rfl]
  · intro hc
    have hbits := hc.bits rfl
    simp [hashBits, asU64] at hbits

end NSNumber

end TouchHLE
