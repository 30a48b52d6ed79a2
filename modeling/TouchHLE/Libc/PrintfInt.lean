/-
The integer conversions of `printf_inner` against C.

- `cOutput`: what C prints for an integer conversion, `cArgument`: the integer that C takes for it.
- `digitsValue_digits`: the digits of a number have its value, also with zeros in front of them (`digitsValue_padLeft`).
- `padLeft_inj`: padding with spaces hides nothing.
- `AsInC`: when a conversion whose flags are accepted prints what C prints. `formatDecimal_iff`, `formatHex_iff` and
  `formatHexUpper_iff` say so for the three formatters, `convert_iff` for the conversion.
- `printf_int_iff`: along every run of the loop the integer conversions print what C prints exactly when all of them
  are `AsInC`.
-/
import TouchHLE.Libc.StrToInt
import TouchHLE.Libc.Printf

namespace TouchHLE.Printf

open Machine Abi

/-! ## C -/

/-- 'd' and 'i' take a signed integer -/
def Specifier.signed (sp : Specifier) : Bool := sp == .d || sp == .i

def Specifier.base (sp : Specifier) : ℕ := if sp = .x ∨ sp = .X then 16 else 10

def cIntegers : List Specifier := [.d, .i, .u, .x, .X]

def letters (sp : Specifier) (s : List UInt8) : List UInt8 := if sp = .X then s.map toUpper else s

/-- the digits: at least as many as the precision says, and none for zero with precision zero -/
def cDigits (c : Conversion) (v : ℤ) : List UInt8 :=
  if c.precision = some 0 ∧ v = 0 then []
  else padLeft 48 (c.precision.getD 1) (letters c.specifier (digits c.specifier.base v.natAbs))

def cSign (c : Conversion) (v : ℤ) : List UInt8 :=
  if v < 0 then [45] else if c.prependSign ∧ c.specifier.signed then [43] else []

def padRight (width : ℕ) (s : List UInt8) : List UInt8 := s ++ List.replicate (width - s.length) 32

/-- the output: '-' goes before '0', and a precision turns '0' off -/
def cOutput (c : Conversion) (v : ℤ) : List UInt8 :=
  if c.leftJustified then padRight c.padWidth (cSign c v ++ cDigits c v)
  else if c.padZero ∧ c.precision = none then
    cSign c v ++ padLeft 48 (c.padWidth - (cSign c v).length) (cDigits c v)
  else padLeft 32 c.padWidth (cSign c v ++ cDigits c v)

section

variable (word : ℕ → Guest → Except Panic UInt32)

/-- the integer at the offset `off`: two words for "ll" -/
def cArgument (c : Conversion) (off : ℕ) (g : Guest) : Except Panic ℤ :=
  if c.specifier.signed then
    if c.lengthModifier = some .ll then do
      let (v, _) ← next word Int64 off g
      pure v.toInt
    else do
      let (v, _) ← next word Int32 off g
      pure v.toInt
  else if c.lengthModifier = some .ll then do
    let (v, _) ← next word UInt64 off g
    pure (v.toNat : ℤ)
  else do
    let (v, _) ← next word UInt32 off g
    pure (v.toNat : ℤ)

end

/-! ## Digits -/

variable {n k w : ℕ} {s t : List UInt8} {fill x : UInt8} {b : ℕ}

/-- the text of a digit below 16 is read back -/
theorem digitVal_digitChar (h : n < 16) : digitVal (UInt8.ofNat n.digitChar.toNat) = some n := by
  have hall : ∀ n < 16, digitVal (UInt8.ofNat n.digitChar.toNat) = some n := by decide
  exact hall n h

theorem digits_eq_if (hb : 1 < b) :
    digits b n = (if n < b then [] else digits b (n / b)) ++ [UInt8.ofNat (n % b).digitChar.toNat] := by
  unfold digits
  rw [Nat.toDigits_eq_if hb]
  split_ifs with h
  · rw [Nat.mod_eq_of_lt h]; rfl
  · rw [List.map_append]; rfl

theorem digitsValue_append : digitsValue b (s ++ [x]) = digitsValue b s * b + (digitVal x).getD 0 := by
  unfold digitsValue
  rw [List.foldl_append]
  rfl

/-- **The digits** of a number have its value. -/
theorem digitsValue_digits (hb : 1 < b) (hb16 : b ≤ 16) (n : ℕ) : digitsValue b (digits b n) = n := by
  induction n using Nat.strong_induction_on with
  | _ n ih =>
    have hmod : n % b < 16 := (Nat.mod_lt n (by omega)).trans_le hb16
    rw [digits_eq_if hb, digitsValue_append, digitVal_digitChar hmod, Option.getD_some]
    split_ifs with h
    · rw [Nat.mod_eq_of_lt h, show digitsValue b [] = 0 from rfl, Nat.zero_mul, Nat.zero_add]
    · have hlt : n / b < n := Nat.div_lt_self (by omega) hb
      rw [ih (n / b) hlt, Nat.mul_comm]
      exact Nat.div_add_mod n b

theorem digitsValue_padLeft : digitsValue b (padLeft 48 w s) = digitsValue b s := by
  have hzeros : ∀ k, (List.replicate k (48 : UInt8)).foldl (fun n c => n * b + (digitVal c).getD 0) 0 = 0 := by
    intro k
    induction k with
    | zero => rfl
    | succ k ih =>
      rw [List.replicate_succ, List.foldl_cons]
      have hzero : 0 * b + (digitVal 48).getD 0 = 0 := by rw [Nat.zero_mul]; rfl
      rw [hzero, ih]
  unfold digitsValue padLeft
  rw [List.foldl_append, hzeros]

/-- upper-case digits have the same value -/
theorem digitVal_toUpper (c : UInt8) : digitVal (toUpper c) = digitVal c := by
  have hall : ∀ n < 256, digitVal (toUpper (UInt8.ofNat n)) = digitVal (UInt8.ofNat n) := by decide +kernel
  have h := hall c.toNat c.toNat_lt
  rwa [UInt8.ofNat_toNat] at h

theorem digitsValue_toUpper : digitsValue b (s.map toUpper) = digitsValue b s := by
  unfold digitsValue
  rw [List.foldl_map]
  simp only [digitVal_toUpper]

theorem mem_digits (hb : 1 < b) (hb16 : b ≤ 16) (h : x ∈ digits b n) : ∃ d < b, digitVal x = some d := by
  induction n using Nat.strong_induction_on with
  | _ n ih =>
    have hmod : n % b < b := Nat.mod_lt n (by omega)
    rw [digits_eq_if hb, List.mem_append, List.mem_singleton] at h
    rcases h with h | rfl
    · split_ifs at h with hn
      · exact absurd h List.not_mem_nil
      · exact ih (n / b) (Nat.div_lt_self (by omega) hb) h
    · exact ⟨n % b, hmod, digitVal_digitChar (hmod.trans_le hb16)⟩

theorem length_digits_pos (b n : ℕ) : 0 < (digits b n).length := by
  unfold digits
  rw [List.length_map]
  exact Nat.length_toDigits_pos

/-- how many decimal digits a positive number has -/
theorem le_length_digits (hn : 0 < n) : k ≤ (digits 10 n).length ↔ 10 ^ (k - 1) ≤ n := by
  rcases Nat.lt_or_ge k 2 with hk | hk
  · have hpow : 10 ^ (k - 1) = 1 := by rw [Nat.sub_eq_zero_of_le (by omega), pow_zero]
    have hpos := length_digits_pos 10 n
    omega
  · have hle := Nat.length_toDigits_le_iff (b := 10) (n := n) (k := k - 1) (by decide) (by omega)
    have hlen : (digits 10 n).length = (Nat.toDigits 10 n).length := List.length_map _
    omega

/-! ## Padding -/

theorem padLeft_of_le (h : w ≤ s.length) : padLeft fill w s = s := by
  unfold padLeft
  rw [Nat.sub_eq_zero_of_le h]
  rfl

@[simp] theorem padLeft_zero : padLeft fill 0 s = s := padLeft_of_le (Nat.zero_le _)

@[simp] theorem length_padLeft : (padLeft fill w s).length = max w s.length := by
  unfold padLeft
  rw [List.length_append, List.length_replicate]
  omega

/-- padding with a character that does not occur is taken off again -/
theorem filter_padLeft (h : fill ∉ s) : (padLeft fill w s).filter (· ≠ fill) = s := by
  have hs : s.filter (· ≠ fill) = s := by
    rw [List.filter_eq_self]
    intro x hx
    exact decide_eq_true fun hf => h (hf ▸ hx)
  unfold padLeft
  rw [List.filter_append, hs, List.filter_replicate]
  simp

/-- **Padding** hides nothing. -/
theorem padLeft_inj (hs : fill ∉ s) (ht : fill ∉ t) : padLeft fill w s = padLeft fill w t ↔ s = t := by
  refine ⟨fun h => ?_, fun h => h ▸ rfl⟩
  rw [← filter_padLeft (w := w) hs, h, filter_padLeft ht]

/-- padding to different widths is the same only when there is none -/
theorem padLeft_eq_padLeft (h : k ≤ w) : padLeft fill k s = padLeft fill w s ↔ k = w ∨ w ≤ s.length := by
  constructor
  · intro he
    have hlen := congrArg List.length he
    rw [length_padLeft, length_padLeft] at hlen
    omega
  · rintro (rfl | hle)
    · rfl
    · rw [padLeft_of_le hle, padLeft_of_le (h.trans hle)]

/-! ## Accepted flags -/

/-- formats that never panic -/
def plainFormats : Formats where
  string _ _ _ := .ok []
  wideString _ _ := .ok []
  float _ _ := .ok []
  description _ g := .ok ([], g)

/-- no assertion rejects the flags: with some arguments the conversion succeeds -/
def Conversion.Accepted (nsLog : Bool) (c : Conversion) : Prop :=
  ∃ (args : ℕ → UInt32) (g : Guest), ∃ out, convert plainFormats nsLog (fun k _ => .ok (args k)) c 0 g = .ok out

/-- the flags that the integer conversions accept -/
def integerFlags (c : Conversion) : Prop :=
  c.leftJustified = false ∧
    match c.specifier with
    | .d | .i | .u => c.prependSign → 0 < c.padWidth ∧ c.padZero ∧ c.precision = none
    | .x => c.prependSign = false ∧ (0 < c.padWidth → c.precision = none)
    | .X => c.prependSign = false ∧ c.precision = none
    | _ => False

variable {c : Conversion} {v : ℤ} {out : List UInt8}

/-- without '+', the decimal conversions always succeed -/
theorem formatDecimal_plain (h : c.prependSign = false) :
    formatDecimal c v =
      .ok (if c.padZero ∧ c.precision = none then padLeft 48 c.padWidth (display v)
        else padLeft 32 c.padWidth
          (if 0 < c.precision.getD 0 then displayZeroPadded v (c.precision.getD 0) else display v)) := by
  unfold formatDecimal
  rcases Nat.eq_zero_or_pos c.padWidth with hw | hw
  · have hpad : c.padZero ∧ c.precision = none → (0 : ℕ) < c.precision.getD 0 → False := by
      rintro ⟨-, hp⟩
      simp [hp]
    simp only [hw, Nat.lt_irrefl, if_false, h, Bool.not_false, assert_ok, ok_bind, pure_eq_ok, padLeft_zero]
    split_ifs with h1 h2 <;> first | rfl | exact (hpad h2 h1).elim
  · simp only [hw, if_true, h, Bool.not_false, assert_ok, ok_bind, pure_eq_ok, Bool.false_eq_true, if_false]
    split_ifs <;> rfl

/-- with '+', they assert that the value is not zero and negate negative values -/
theorem formatDecimal_sign (h : c.prependSign = true) (hw : 0 < c.padWidth) (hz : c.padZero = true)
    (hp : c.precision = none) :
    formatDecimal c v = .ok out ↔ (v ≠ 0 ∧ -2 ^ 63 < v) ∧
      out = (if 0 < v then 43 else 45) :: padLeft 48 (c.padWidth - 1) (digits 10 v.natAbs) := by
  unfold formatDecimal
  rw [if_pos hw, if_pos ⟨hz, hp⟩, if_pos h]
  rcases lt_trichotomy v 0 with hv | rfl | hv
  · rw [assert_ok (by simpa using hv.ne), ok_bind, if_neg hv.not_gt, if_neg hv.not_gt]
    have hdisplay : display (-v) = digits 10 v.natAbs := by
      unfold display sign
      rw [if_neg (by omega), Int.natAbs_neg, List.nil_append]
    rcases lt_or_ge (-2 ^ 63) v with hmin | hmin
    · rw [i64_ok (by omega) (by omega), ok_bind, pure_eq_ok, hdisplay, Except.ok.injEq]
      exact ⟨fun he => ⟨⟨hv.ne, hmin⟩, he.symm⟩, fun he => he.2.symm⟩
    · have hover : i64 (-v) = .error .overflow := if_neg (by omega)
      rw [hover, error_bind]
      exact ⟨fun he => (nomatch he), fun he => absurd he.1.2 (not_lt.2 hmin)⟩
  · exact ⟨fun he => (nomatch he), fun he => absurd rfl he.1.1⟩
  · rw [assert_ok (by simpa using hv.ne'), ok_bind, if_pos hv, if_pos hv, pure_eq_ok, Except.ok.injEq]
    have hdisplay : display v = digits 10 v.natAbs := by
      unfold display sign
      rw [if_neg (by omega), List.nil_append]
    rw [hdisplay]
    exact ⟨fun he => ⟨⟨hv.ne', by omega⟩, he.symm⟩, fun he => he.2.symm⟩

/-! ## Decimal conversions -/

/-- a negative value: enough digits for the precision, and for a width that is filled with zeros -/
def NegativeAsInC (c : Conversion) (v : ℤ) : Prop :=
  (∀ p, c.precision = some p → 10 ^ (p - 1) ≤ v.natAbs) ∧
    (c.padZero ∧ c.precision = none ∧ c.prependSign = false → 10 ^ (c.padWidth - 2) ≤ v.natAbs)

/-- **When a conversion prints what C prints**, provided that its flags are accepted -/
def AsInC (c : Conversion) (v : ℤ) : Prop :=
  ¬ (c.precision = some 0 ∧ v = 0) ∧
    match c.specifier with
    | .d | .i => (v < 0 → NegativeAsInC c v) ∧ (c.prependSign → v ≠ 0 ∧ -2 ^ 63 < v)
    | .u => c.prependSign = false ∧ v < 2 ^ 63
    | _ => v < 2 ^ 32

/-- zeros in front of '-' are wrong -/
theorem zeros_before_sign : padLeft 48 w (45 :: s) = 45 :: padLeft 48 (w - 1) s ↔ w ≤ s.length + 1 := by
  constructor
  · intro h
    by_contra hw
    have hzeros : w - (45 :: s).length = w - s.length - 2 + 1 := by
      rw [List.length_cons]; omega
    unfold padLeft at h
    rw [hzeros, List.replicate_succ, List.cons_append] at h
    exact absurd (List.cons.inj h).1 (by decide)
  · intro h
    rw [padLeft_of_le (by rw [List.length_cons]; omega), padLeft_of_le (by omega)]

theorem cSign_plain (h : c.prependSign = false) : cSign c v = sign v := by
  unfold cSign sign
  simp [h]

theorem cDigits_decimal (h : c.specifier = .d ∨ c.specifier = .i ∨ c.specifier = .u)
    (hz : ¬ (c.precision = some 0 ∧ v = 0)) :
    cDigits c v = padLeft 48 (c.precision.getD 1) (digits 10 v.natAbs) := by
  unfold cDigits Specifier.base letters
  rw [if_neg hz]
  rcases h with h | h | h <;> simp [h]

/-- the zero-padded width of the decimal conversions -/
theorem zeroPadded_iff :
    padLeft 48 w (display v) = sign v ++ padLeft 48 (w - (sign v).length) (digits 10 v.natAbs) ↔
      (v < 0 → 10 ^ (w - 2) ≤ v.natAbs) := by
  unfold display sign
  split_ifs with hv
  · rw [List.singleton_append, List.singleton_append, List.length_singleton, zeros_before_sign]
    have hlen := le_length_digits (n := v.natAbs) (k := w - 1) (by omega)
    rw [Nat.sub_sub] at hlen
    rw [← hlen]
    exact ⟨fun h _ => by omega, fun h => by have := h hv; omega⟩
  · exact ⟨fun _ h => absurd h hv, fun _ => rfl⟩

/-- the digits of the decimal conversions -/
theorem withPrecision_iff {p : ℕ} (hp : 0 < p) :
    displayZeroPadded v p = sign v ++ padLeft 48 p (digits 10 v.natAbs) ↔ (v < 0 → 10 ^ (p - 1) ≤ v.natAbs) := by
  unfold displayZeroPadded
  rw [List.append_cancel_left_eq, padLeft_eq_padLeft (Nat.sub_le _ _)]
  unfold sign
  split_ifs with hv
  · rw [List.length_singleton, ← le_length_digits (by omega)]
    exact ⟨fun h _ => by omega, fun h => Or.inr (h hv)⟩
  · exact ⟨fun _ h => absurd h hv, fun _ => Or.inl rfl⟩

theorem space_not_in_decimal (n : ℕ) : (32 : UInt8) ∉ digits 10 n := by
  intro h
  obtain ⟨d, -, hd⟩ := mem_digits (by decide) (by decide) h
  cases hd

theorem mem_padLeft (h : x ∈ padLeft fill w s) : x = fill ∨ x ∈ s := by
  unfold padLeft at h
  rcases List.mem_append.1 h with h | h
  · exact Or.inl (List.eq_of_mem_replicate h)
  · exact Or.inr h

theorem space_not_in_number {p : ℕ} (n : ℕ) : (32 : UInt8) ∉ sign v ++ padLeft 48 p (digits 10 n) := by
  intro h
  rcases List.mem_append.1 h with h | h
  · unfold sign at h
    split_ifs at h
    · exact absurd (List.mem_singleton.1 h) (by decide)
    · exact absurd h List.not_mem_nil
  · rcases mem_padLeft h with h | h
    · exact absurd h (by decide)
    · exact space_not_in_decimal n h

theorem display_eq : display v = sign v ++ padLeft 48 0 (digits 10 v.natAbs) := by
  rw [padLeft_zero]
  rfl

theorem padLeft_one_digits (b n : ℕ) : padLeft 48 1 (digits b n) = digits b n := padLeft_of_le (length_digits_pos b n)

theorem cOutput_right (h : c.leftJustified = false) :
    cOutput c v =
      if c.padZero ∧ c.precision = none then cSign c v ++ padLeft 48 (c.padWidth - (cSign c v).length) (cDigits c v)
      else padLeft 32 c.padWidth (cSign c v ++ cDigits c v) :=
  if_neg (by rw [h]; decide)

/-- 'd', 'i' and 'u' without '+' -/
theorem formatDecimal_plain_iff (hsp : c.specifier = .d ∨ c.specifier = .i ∨ c.specifier = .u)
    (hs : c.prependSign = false) (hl : c.leftJustified = false) :
    formatDecimal c v = .ok (cOutput c v) ↔ ¬ (c.precision = some 0 ∧ v = 0) ∧ (v < 0 → NegativeAsInC c v) := by
  rw [formatDecimal_plain hs, Except.ok.injEq]
  rw [cOutput_right hl, cSign_plain hs]
  by_cases hz : c.padZero ∧ c.precision = none
  · have hdigits : cDigits c v = digits 10 v.natAbs := by
      rw [cDigits_decimal hsp (by simp [hz.2]), hz.2, Option.getD_none, padLeft_one_digits]
    rw [if_pos hz, if_pos hz, hdigits, zeroPadded_iff]
    unfold NegativeAsInC
    simp [hz.1, hz.2, hs]
  · rw [if_neg hz, if_neg hz]
    rcases hp : c.precision with _ | _ | p
    · have hdigits : cDigits c v = digits 10 v.natAbs := by
        rw [cDigits_decimal hsp (by simp [hp]), hp, Option.getD_none, padLeft_one_digits]
      have hpad : c.padZero = false := by simpa [hp] using hz
      rw [hdigits]
      unfold NegativeAsInC
      simp [hp, hpad, display]
    · rw [Option.getD_some, if_neg (Nat.lt_irrefl 0)]
      by_cases hv : v = 0
      · have hdigits : cDigits c v = [] := if_pos ⟨hp, hv⟩
        subst hv
        rw [hdigits, display_eq, padLeft_inj (space_not_in_number _) (by decide)]
        exact ⟨fun h => absurd h (by decide), fun h => absurd ⟨rfl, rfl⟩ h.1⟩
      · have hdigits : cDigits c v = digits 10 v.natAbs := by
          rw [cDigits_decimal hsp fun h => hv h.2, hp, Option.getD_some, padLeft_zero]
        rw [hdigits]
        refine ⟨fun _ => ⟨fun h => hv h.2, fun hneg => ⟨fun p h => ?_, fun h => ?_⟩⟩, fun _ => rfl⟩
        · obtain rfl : 0 = p := Option.some.inj (hp.symm.trans h)
          omega
        · exact absurd (hp.symm.trans h.2.1) (Option.some_ne_none 0)
    · have hdigits : cDigits c v = padLeft 48 (p + 1) (digits 10 v.natAbs) := by
        rw [cDigits_decimal hsp (by simp [hp]), hp, Option.getD_some]
      have hcode : (32 : UInt8) ∉ displayZeroPadded v (p + 1) := space_not_in_number _
      rw [Option.getD_some, if_pos (Nat.succ_pos p), hdigits, padLeft_inj hcode (space_not_in_number _),
        withPrecision_iff (Nat.succ_pos p)]
      unfold NegativeAsInC
      simp [hp]

/-- 'd', 'i' and 'u' with '+' -/
theorem formatDecimal_sign_iff (hsp : c.specifier = .d ∨ c.specifier = .i ∨ c.specifier = .u) (hu : c.specifier = .u → 0 ≤ v)
    (hs : c.prependSign = true) (hl : c.leftJustified = false) (hw : 0 < c.padWidth) (hz : c.padZero = true)
    (hp : c.precision = none) :
    formatDecimal c v = .ok (cOutput c v) ↔ c.specifier ≠ .u ∧ v ≠ 0 ∧ -2 ^ 63 < v := by
  have hdigits : cDigits c v = digits 10 v.natAbs := by
    rw [cDigits_decimal hsp (by simp [hp]), hp, Option.getD_none, padLeft_one_digits]
  have hout : cOutput c v = cSign c v ++ padLeft 48 (c.padWidth - (cSign c v).length) (digits 10 v.natAbs) := by
    rw [cOutput_right hl, if_pos ⟨hz, hp⟩, hdigits]
  rw [formatDecimal_sign hs hw hz hp, hout]
  by_cases hunsigned : c.specifier = .u
  · -- C has no sign here, so that its output consists of digits
    have hsign : cSign c v = [] := by
      have hnonneg := hu hunsigned
      unfold cSign
      simp [not_lt.2 hnonneg, hunsigned, Specifier.signed]
    rw [hsign, List.nil_append]
    refine ⟨fun h => ?_, fun h => absurd hunsigned h.1⟩
    have hpos : 0 < v := lt_of_le_of_ne (hu hunsigned) h.1.1.symm
    have hmem : (43 : UInt8) ∈ padLeft 48 (c.padWidth - 0) (digits 10 v.natAbs) := by
      have h2 := h.2
      rw [if_pos hpos] at h2
      rw [List.length_nil] at h2
      rw [h2]
      exact List.mem_cons_self
    rcases mem_padLeft hmem with h | h
    · exact absurd h (by decide)
    · obtain ⟨d, -, hd⟩ := mem_digits (by decide) (by decide) h
      cases hd
  · have hsigned : c.specifier.signed = true := by
      rcases hsp with h | h | h
      · rw [h]; rfl
      · rw [h]; rfl
      · exact absurd h hunsigned
    refine ⟨fun h => ⟨hunsigned, h.1⟩, fun h => ⟨h.2, ?_⟩⟩
    rcases lt_trichotomy v 0 with hv | hv | hv
    · have hsign : cSign c v = [45] := if_pos hv
      rw [hsign, if_neg hv.not_gt]
      rfl
    · exact absurd hv h.2.1
    · have hsign : cSign c v = [43] := by
        unfold cSign
        rw [if_neg hv.not_gt, if_pos ⟨hs, hsigned⟩]
      rw [hsign, if_pos hv]
      rfl

/-! ## Hexadecimal conversions -/

variable {m : ℕ} {sp : Specifier}

theorem digitsValue_letters : digitsValue b (letters sp s) = digitsValue b s := by
  unfold letters
  split_ifs
  · exact digitsValue_toUpper
  · rfl

theorem space_not_in_hex : (32 : UInt8) ∉ letters sp (digits 16 n) := by
  intro h
  have hdigit : ∃ x ∈ digits 16 n, digitVal x = digitVal 32 := by
    unfold letters at h
    split_ifs at h
    · obtain ⟨x, hx, hup⟩ := List.mem_map.1 h
      exact ⟨x, hx, by rw [← hup, digitVal_toUpper]⟩
    · exact ⟨32, h, rfl⟩
  obtain ⟨x, hx, hval⟩ := hdigit
  obtain ⟨d, -, hd⟩ := mem_digits (by decide) (by decide) hx
  rw [hval] at hd
  cases hd

/-- different numbers stay different when they are written and padded -/
theorem paddedHex_inj (hf : fill = 48 ∨ fill = 32) :
    padLeft fill w (letters sp (digits 16 m)) = padLeft fill w (letters sp (digits 16 n)) ↔ m = n := by
  refine ⟨fun h => ?_, fun h => h ▸ rfl⟩
  have hvalue : digitsValue 16 (letters sp (digits 16 m)) = digitsValue 16 (letters sp (digits 16 n)) := by
    rcases hf with rfl | rfl
    · rw [← digitsValue_padLeft (w := w), h, digitsValue_padLeft]
    · rw [(padLeft_inj space_not_in_hex space_not_in_hex).1 h]
  rw [digitsValue_letters, digitsValue_letters] at hvalue
  rwa [digitsValue_digits (by decide) (by decide), digitsValue_digits (by decide) (by decide)] at hvalue

theorem cDigits_hex (h : c.specifier = .x ∨ c.specifier = .X) (hz : ¬ (c.precision = some 0 ∧ n = 0)) :
    cDigits c n = padLeft 48 (c.precision.getD 1) (letters c.specifier (digits 16 n)) := by
  have hbase : c.specifier.base = 16 := if_pos h
  unfold cDigits
  rw [if_neg (by simpa using hz), hbase, Int.natAbs_natCast]

theorem length_letters : (letters sp s).length = s.length := by
  unfold letters
  split_ifs
  · exact List.length_map _
  · rfl

/-- the output of C for 'x' and 'X' -/
theorem cOutput_hex (h : c.specifier = .x ∨ c.specifier = .X) (hl : c.leftJustified = false)
    (hz : ¬ (c.precision = some 0 ∧ n = 0)) :
    cOutput c n =
      if c.precision = none then padLeft (if c.padZero then 48 else 32) c.padWidth (letters c.specifier (digits 16 n))
      else padLeft 32 c.padWidth (padLeft 48 (c.precision.getD 1) (letters c.specifier (digits 16 n))) := by
  have hsign : cSign c n = [] := by
    unfold cSign
    rcases h with h | h <;> simp [h, Specifier.signed]
  rw [cOutput_right hl, hsign, cDigits_hex h hz]
  by_cases hp : c.precision = none
  · have hone : padLeft 48 1 (letters c.specifier (digits 16 n)) = letters c.specifier (digits 16 n) :=
      padLeft_of_le (by rw [length_letters]; exact length_digits_pos 16 n)
    rw [if_pos hp, hp, Option.getD_none, hone]
    split_ifs <;> simp_all
  · rw [if_neg hp, if_neg fun h => hp h.2]
    rfl

/-- 'x' asserts that zero is not printed with precision zero -/
theorem formatHex_eq (hw : 0 < c.padWidth → c.precision = none) :
    formatHex c m =
      if c.precision = some 0 ∧ m = 0 then .error .formatFlags
      else .ok (if c.precision = none then padLeft (if c.padZero then 48 else 32) c.padWidth (digits 16 m)
        else padLeft 48 (c.precision.getD 1) (digits 16 m)) := by
  unfold formatHex
  rcases Nat.eq_zero_or_pos c.padWidth with h0 | hpos
  · rcases c.precision with _ | _ | p
    · simp [h0, assert]
    · by_cases hm : m = 0 <;> simp [h0, assert, hm]
    · simp [h0]
  · rw [if_pos hpos, hw hpos]
    simp [assert]

theorem formatHex_iff (hsp : c.specifier = .x) (hl : c.leftJustified = false) (hw : 0 < c.padWidth → c.precision = none) :
    formatHex c (n % 2 ^ 32) = .ok (cOutput c n) ↔ ¬ (c.precision = some 0 ∧ n = 0) ∧ n < 2 ^ 32 := by
  have hmod : n % 2 ^ 32 = n ↔ n < 2 ^ 32 := Nat.mod_eq_iff_lt (by decide)
  have hid : ∀ s, letters c.specifier s = s := fun s => if_neg (by rw [hsp]; decide)
  have hinj : ∀ f k, f = 48 ∨ f = 32 → (padLeft f k (digits 16 (n % 2 ^ 32)) = padLeft f k (digits 16 n) ↔ n < 2 ^ 32) := by
    intro f k hf
    have h : padLeft f k (letters c.specifier (digits 16 (n % 2 ^ 32))) =
        padLeft f k (letters c.specifier (digits 16 n)) ↔ _ := paddedHex_inj hf
    rwa [hid, hid, hmod] at h
  rw [formatHex_eq hw]
  by_cases hz : c.precision = some 0 ∧ n = 0
  · rw [if_pos ⟨hz.1, by rw [hz.2]; rfl⟩]
    exact ⟨fun h => (nomatch h), fun h => absurd hz h.1⟩
  · by_cases hm : c.precision = some 0 ∧ n % 2 ^ 32 = 0
    · rw [if_pos hm]
      refine ⟨fun h => (nomatch h), fun h => absurd ⟨hm.1, ?_⟩ hz⟩
      rw [← hmod.2 h.2]
      exact hm.2
    · rw [if_neg hm, Except.ok.injEq, cOutput_hex (.inl hsp) hl hz, hid]
      by_cases hp : c.precision = none
      · rw [if_pos hp, if_pos hp, hinj _ _ (by split_ifs <;> simp)]
        exact ⟨fun h => ⟨hz, h⟩, And.right⟩
      · have hwidth : c.padWidth = 0 := Nat.eq_zero_of_not_pos fun h => hp (hw h)
        rw [if_neg hp, if_neg hp, hwidth, padLeft_zero, hinj _ _ (Or.inl rfl)]
        exact ⟨fun h => ⟨hz, h⟩, And.right⟩

theorem formatHexUpper_iff (hsp : c.specifier = .X) (hl : c.leftJustified = false) (hp : c.precision = none) :
    formatHexUpper c (n % 2 ^ 32) = .ok (cOutput c n) ↔ n < 2 ^ 32 := by
  have hmod : n % 2 ^ 32 = n ↔ n < 2 ^ 32 := Nat.mod_eq_iff_lt (by decide)
  have hcode : formatHexUpper c (n % 2 ^ 32) =
      .ok (padLeft (if c.padZero then 48 else 32) c.padWidth (letters c.specifier (digits 16 (n % 2 ^ 32)))) := by
    have hup : ∀ s, letters c.specifier s = s.map toUpper := fun s => if_pos hsp
    unfold formatHexUpper
    rw [hup]
    rcases Nat.eq_zero_or_pos c.padWidth with h0 | hpos
    · simp [h0]
    · rw [if_pos hpos]
      rfl
  rw [hcode, Except.ok.injEq, cOutput_hex (.inr hsp) hl (by simp [hp]), if_pos hp,
    paddedHex_inj (by split_ifs <;> simp), hmod]

/-! ## Arguments -/

variable {F : Formats} {nsLog : Bool} {word : ℕ → Guest → Except Panic UInt32} {off : ℕ} {g : Guest}
  {res : List UInt8 × ℕ × Guest}

/-- the words of the argument of an integer conversion -/
def integerWords (c : Conversion) : ℕ := if c.lengthModifier = some .ll then 2 else 1

theorem next_u32 : next word UInt32 off g = word off g >>= fun w => .ok (w, off + 1) := by
  simp only [next, nextWords, GuestArg.regCount]
  cases word off g <;> rfl

theorem next_u64 :
    next word UInt64 off g = word off g >>= fun a => word (off + 1) g >>= fun b =>
      .ok (UInt64.ofNat (a.toNat + 2 ^ 32 * b.toNat), off + 2) := by
  simp only [next, nextWords, GuestArg.regCount]
  cases word off g with
  | error e => rfl
  | ok a => cases word (off + 1) g <;> rfl

theorem next_i32 : next word Int32 off g = next word UInt32 off g >>= fun p => .ok (p.1.toInt32, p.2) := by
  rw [next_u32]
  simp only [next, nextWords, GuestArg.regCount]
  cases word off g <;> rfl

theorem next_snd {α : Type} [GuestArg α] {p : α × ℕ} (h : next word α off g = .ok p) :
    p.2 = off + GuestArg.regCount α := by
  obtain ⟨ws, -, h⟩ := bind_eq_ok.1 h
  cases h
  rfl

/-- 'd', 'i' and 'u' read the argument that C takes, but unsigned values have to be below 2^63 -/
theorem nextInt_of_cArgument (hsp : c.specifier = .d ∨ c.specifier = .i ∨ c.specifier = .u)
    (h : cArgument word c off g = .ok v) :
    (c.specifier = .u → 0 ≤ v) ∧
    nextInt word c off g = if c.specifier = .u ∧ 2 ^ 63 ≤ v then .error .conversion else .ok (v, off + integerWords c) := by
  unfold cArgument at h
  unfold nextInt integerWords
  by_cases hu : c.specifier = .u
  · rw [if_neg (by rw [hu]; decide)] at h
    rw [if_pos hu]
    by_cases hl : c.lengthModifier = some .ll
    · rw [if_pos hl] at h
      obtain ⟨⟨uint, off'⟩, hp, h⟩ := bind_eq_ok.1 h
      cases h
      obtain rfl : off' = off + 2 := next_snd hp
      rw [if_pos hl, hp, ok_bind, if_pos hl]
      refine ⟨fun _ => Int.natCast_nonneg _, ?_⟩
      rcases Nat.lt_or_ge uint.toNat (2 ^ 63) with hlt | hge
      · exact (if_pos hlt).trans (if_neg (by omega)).symm
      · exact (if_neg (by omega)).trans (if_pos ⟨hu, by omega⟩).symm
    · rw [if_neg hl] at h
      obtain ⟨⟨uint, off'⟩, hp, h⟩ := bind_eq_ok.1 h
      cases h
      obtain rfl : off' = off + 1 := next_snd hp
      have hlt := uint.toNat_lt
      rw [if_neg hl, hp, ok_bind, if_neg hl, if_neg (by omega)]
      exact ⟨fun _ => Int.natCast_nonneg _, rfl⟩
  · have hsigned : c.specifier.signed = true := by
      rcases hsp with h | h | h
      · rw [h]; rfl
      · rw [h]; rfl
      · exact absurd h hu
    rw [if_pos hsigned] at h
    have hnot : ¬ (c.specifier = .u ∧ 2 ^ 63 ≤ v) := fun h => hu h.1
    rw [if_neg hu, if_neg hnot]
    refine ⟨fun h => absurd h hu, ?_⟩
    by_cases hl : c.lengthModifier = some .ll
    · rw [if_pos hl] at h
      obtain ⟨⟨int, off'⟩, hp, h⟩ := bind_eq_ok.1 h
      cases h
      obtain rfl : off' = off + 2 := next_snd hp
      rw [if_pos hl, hp, ok_bind, if_pos hl]
      rfl
    · rw [if_neg hl] at h
      obtain ⟨⟨int, off'⟩, hp, h⟩ := bind_eq_ok.1 h
      cases h
      obtain rfl : off' = off + 1 := next_snd hp
      rw [if_neg hl, hp, ok_bind, if_neg hl]
      rfl

/-- 'x' and 'X' read the low word of the argument that C takes -/
theorem next_of_cArgument (hsp : c.specifier = .x ∨ c.specifier = .X) (h : cArgument word c off g = .ok v) :
    ∃ (n : ℕ) (u : UInt32), v = n ∧ u.toNat = n % 2 ^ 32 ∧ next word UInt32 off g = .ok (u, off + 1) := by
  have hsigned : ¬ c.specifier.signed = true := by
    rcases hsp with h | h <;> rw [h] <;> decide
  unfold cArgument at h
  rw [if_neg hsigned] at h
  split_ifs at h with hl
  · rw [next_u64] at h
    obtain ⟨p, hp, h⟩ := bind_eq_ok.1 h
    obtain ⟨a, ha, hp⟩ := bind_eq_ok.1 hp
    obtain ⟨b, hb, hp⟩ := bind_eq_ok.1 hp
    cases hp
    cases h
    have hlow := a.toNat_lt
    refine ⟨_, a, rfl, ?_, by rw [next_u32, ha, ok_bind]⟩
    rw [UInt64.toNat_ofNat']
    omega
  · obtain ⟨⟨u, off'⟩, hp, h⟩ := bind_eq_ok.1 h
    cases h
    obtain rfl : off' = off + 1 := next_snd hp
    exact ⟨_, u, rfl, (Nat.mod_eq_of_lt u.toNat_lt).symm, hp⟩

/-! ## The conversions -/

theorem precision_ok (h : c.specifier ∈ integerSpecifiers) : (c.precision == none || c.specifier ∈ integerSpecifiers ||
    c.specifier ∈ floatSpecifiers || c.specifier == .s) = true := by
  simp [h]

theorem convert_decimal (h : c.specifier = .d ∨ c.specifier = .i ∨ c.specifier = .u) :
    convert F nsLog word c off g = assert (!c.leftJustified) .formatFlags >>= fun _ => nextInt word c off g >>= fun p =>
      formatDecimal c p.1 >>= fun bytes => .ok (bytes, p.2, g) := by
  unfold convert
  rw [assert_ok (precision_ok (by rcases h with h | h | h <;> simp [h, integerSpecifiers])), ok_bind]
  rcases h with h | h | h <;> rw [h] <;> rfl

theorem convert_x (h : c.specifier = .x) :
    convert F nsLog word c off g = plain c >>= fun _ => next word UInt32 off g >>= fun p =>
      formatHex c p.1.toNat >>= fun bytes => .ok (bytes, p.2, g) := by
  unfold convert
  rw [assert_ok (precision_ok (by simp [h, integerSpecifiers])), ok_bind, h]
  rfl

theorem convert_X (h : c.specifier = .X) :
    convert F nsLog word c off g = plain c >>= fun _ => assert (c.precision == none) .formatFlags >>= fun _ =>
      next word UInt32 off g >>= fun p => formatHexUpper c p.1.toNat >>= fun bytes => .ok (bytes, p.2, g) := by
  unfold convert
  rw [assert_ok (precision_ok (by simp [h, integerSpecifiers])), ok_bind, h]
  rfl

theorem plain_ok (hs : c.prependSign = false) (hl : c.leftJustified = false) : plain c = .ok () := by
  unfold plain
  rw [assert_ok (by rw [hs]; rfl), ok_bind, assert_ok (by rw [hl]; rfl)]

theorem plain_cases {u : Unit} (h : plain c = .ok u) : c.prependSign = false ∧ c.leftJustified = false := by
  obtain ⟨_, h1, h2⟩ := bind_eq_ok.1 h
  have hs := assert_cases h1
  have hl := assert_cases h2
  exact ⟨by simpa using hs, by simpa using hl⟩

theorem decimalFlags_of_ok (h : formatDecimal c v = .ok out) :
    c.prependSign → 0 < c.padWidth ∧ c.padZero ∧ c.precision = none := by
  intro hs
  have hassert : ∀ e : Panic, assert (!c.prependSign) e = .error e := fun e => by rw [hs]; rfl
  simp only [formatDecimal, hassert, error_bind] at h
  by_cases hw : 0 < c.padWidth
  · by_cases hz : c.padZero ∧ c.precision = none
    · exact ⟨hw, hz⟩
    · rw [if_pos hw, if_neg hz] at h
      cases h
  · rw [if_neg hw] at h
    cases h

theorem integer_cases (h : c.specifier ∈ cIntegers) :
    (c.specifier = .d ∨ c.specifier = .i ∨ c.specifier = .u) ∨ c.specifier = .x ∨ c.specifier = .X := by
  simpa only [cIntegers, List.mem_cons, List.not_mem_nil, or_false, or_assoc] using h

theorem integerFlags_decimal (h : c.specifier = .d ∨ c.specifier = .i ∨ c.specifier = .u) :
    integerFlags c ↔ c.leftJustified = false ∧ (c.prependSign → 0 < c.padWidth ∧ c.padZero ∧ c.precision = none) := by
  unfold integerFlags
  rcases h with h | h | h <;> rw [h]

/-- a conversion that succeeds has accepted flags -/
theorem integerFlags_of_ok (hsp : c.specifier ∈ cIntegers)
    (h : convert F nsLog word c off g = .ok res) : integerFlags c := by
  rcases integer_cases hsp with hdec | hx | hX
  · rw [convert_decimal hdec] at h
    obtain ⟨_, hl, h⟩ := bind_eq_ok.1 h
    obtain ⟨p, -, h⟩ := bind_eq_ok.1 h
    obtain ⟨bytes, hb, -⟩ := bind_eq_ok.1 h
    have hleft := assert_cases hl
    exact (integerFlags_decimal hdec).2 ⟨by simpa using hleft, decimalFlags_of_ok hb⟩
  · rw [convert_x hx] at h
    obtain ⟨_, hp, h⟩ := bind_eq_ok.1 h
    obtain ⟨p, -, h⟩ := bind_eq_ok.1 h
    obtain ⟨bytes, hb, -⟩ := bind_eq_ok.1 h
    obtain ⟨hs, hl⟩ := plain_cases hp
    unfold integerFlags
    rw [hx]
    refine ⟨hl, hs, fun hw => ?_⟩
    unfold formatHex at hb
    rw [if_pos hw] at hb
    obtain ⟨_, hnone, -⟩ := bind_eq_ok.1 hb
    exact beq_iff_eq.1 (assert_cases hnone)
  · rw [convert_X hX] at h
    obtain ⟨_, hp, h⟩ := bind_eq_ok.1 h
    obtain ⟨_, hnone, -⟩ := bind_eq_ok.1 h
    obtain ⟨hs, hl⟩ := plain_cases hp
    unfold integerFlags
    rw [hX]
    exact ⟨hl, hs, beq_iff_eq.1 (assert_cases hnone)⟩

/-- what follows formatting succeeds -/
theorem pure_bind_ok {x : Except Panic (List UInt8)} :
    (∃ off', (x >>= fun bytes => .ok (bytes, off, g)) = .ok (out, off', g)) ↔ x = .ok out := by
  constructor
  · rintro ⟨off', h⟩
    obtain ⟨bytes, hb, h⟩ := bind_eq_ok.1 h
    cases h
    exact hb
  · rintro rfl
    exact ⟨off, rfl⟩

theorem negativeAsInC_of_sign (hs : c.prependSign = true) (hp : c.precision = none) : NegativeAsInC c v :=
  ⟨fun p h => absurd (hp.symm.trans h) (Option.some_ne_none p).symm, fun h => absurd (hs.symm.trans h.2.2) (by decide)⟩

theorem formatDecimal_iff (hsp : c.specifier = .d ∨ c.specifier = .i ∨ c.specifier = .u) (hflags : integerFlags c)
    (hu : c.specifier = .u → 0 ≤ v ∧ v < 2 ^ 63) : formatDecimal c v = .ok (cOutput c v) ↔ AsInC c v := by
  obtain ⟨hl, hsign⟩ := (integerFlags_decimal hsp).1 hflags
  unfold AsInC
  by_cases hs : c.prependSign = true
  · obtain ⟨hw, hz, hp⟩ := hsign hs
    have hnz : ¬ (c.precision = some 0 ∧ v = 0) := fun h => Option.some_ne_none 0 (h.1.symm.trans hp)
    have hneg : v < 0 → NegativeAsInC c v := fun _ => negativeAsInC_of_sign hs hp
    rw [formatDecimal_sign_iff hsp (fun h => (hu h).1) hs hl hw hz hp]
    rcases hsp with h | h | h
    · rw [h]
      exact ⟨fun h => ⟨hnz, hneg, fun _ => h.2⟩, fun h => ⟨by decide, h.2.2 hs⟩⟩
    · rw [h]
      exact ⟨fun h => ⟨hnz, hneg, fun _ => h.2⟩, fun h => ⟨by decide, h.2.2 hs⟩⟩
    · rw [h]
      exact ⟨fun h => absurd rfl h.1, fun h => absurd (hs.symm.trans h.2.1) (by decide)⟩
  · have hs' : c.prependSign = false := by simpa using hs
    rw [formatDecimal_plain_iff hsp hs' hl]
    apply and_congr_right
    intro _
    rcases hsp with h | h | h
    · rw [h]
      exact ⟨fun hn => ⟨hn, fun h => absurd h hs⟩, And.left⟩
    · rw [h]
      exact ⟨fun hn => ⟨hn, fun h => absurd h hs⟩, And.left⟩
    · rw [h]
      exact ⟨fun _ => ⟨hs', (hu h).2⟩, fun _ hv => absurd (hu h).1 (not_le.2 hv)⟩

/-- **An integer conversion** with accepted flags prints what C prints exactly when it is `AsInC`. -/
theorem convert_iff (hsp : c.specifier ∈ cIntegers) (hflags : integerFlags c) (harg : cArgument word c off g = .ok v) :
    (∃ off', convert F nsLog word c off g = .ok (cOutput c v, off', g)) ↔ AsInC c v := by
  rcases integer_cases hsp with hdec | hhex
  · obtain ⟨hl, -⟩ := (integerFlags_decimal hdec).1 hflags
    obtain ⟨hu, hnext⟩ := nextInt_of_cArgument hdec harg
    rw [convert_decimal hdec, assert_ok (by rw [hl]; rfl), ok_bind, hnext]
    by_cases hbig : c.specifier = .u ∧ 2 ^ 63 ≤ v
    · rw [if_pos hbig, error_bind]
      refine ⟨fun ⟨_, h⟩ => (nomatch h), fun h => ?_⟩
      unfold AsInC at h
      rw [hbig.1] at h
      exact absurd h.2.2 (not_lt.2 hbig.2)
    · rw [if_neg hbig, ok_bind, pure_bind_ok]
      exact formatDecimal_iff hdec hflags fun h => ⟨hu h, lt_of_not_ge fun h63 => hbig ⟨h, h63⟩⟩
  · obtain ⟨n, u, rfl, hn, hnext⟩ := next_of_cArgument hhex harg
    have hlt : ((n : ℤ) < 2 ^ 32) ↔ n < 2 ^ 32 := by norm_cast
    unfold AsInC
    unfold integerFlags at hflags
    rcases hhex with hx | hX
    · rw [hx] at hflags ⊢
      obtain ⟨hl, hs, hw⟩ := hflags
      rw [convert_x hx, plain_ok hs hl, ok_bind, hnext, ok_bind, pure_bind_ok, hn, formatHex_iff hx hl hw, hlt,
        Int.natCast_eq_zero]
    · rw [hX] at hflags ⊢
      obtain ⟨hl, hs, hp⟩ := hflags
      have hnz : ¬ (c.precision = some 0 ∧ (n : ℤ) = 0) := fun h => Option.some_ne_none 0 (h.1.symm.trans hp)
      rw [convert_X hX, plain_ok hs hl, ok_bind, assert_ok (by rw [hp]; rfl), ok_bind, hnext, ok_bind, pure_bind_ok, hn,
        formatHexUpper_iff hX hl hp, hlt]
      exact ⟨fun h => ⟨hnz, h⟩, And.right⟩

def emptyGuest : Guest := ⟨Vector.replicate 16 0, fun _ => 0, 0⟩

/-- some argument is formatted with every combination of flags that `integerFlags` allows -/
theorem accepted_iff (hsp : c.specifier ∈ cIntegers) : c.Accepted nsLog ↔ integerFlags c := by
  refine ⟨fun ⟨_, _, _, h⟩ => integerFlags_of_ok hsp h, fun hflags => ?_⟩
  let args : ℕ → UInt32 := fun k => if k = 0 then 1 else 0
  let word : ℕ → Guest → Except Panic UInt32 := fun k _ => .ok (args k)
  have harg : cArgument word c 0 emptyGuest = .ok 1 := by
    unfold cArgument
    split_ifs <;> rfl
  refine ⟨args, emptyGuest, ?_⟩
  rcases integer_cases hsp with hdec | hhex
  · obtain ⟨hl, hsign⟩ := (integerFlags_decimal hdec).1 hflags
    obtain ⟨-, hnext⟩ := nextInt_of_cArgument hdec harg
    have hformat : ∃ bytes, formatDecimal c 1 = .ok bytes := by
      by_cases hs : c.prependSign = true
      · obtain ⟨hw, hz, hp⟩ := hsign hs
        exact ⟨_, (formatDecimal_sign hs hw hz hp).2 ⟨⟨by decide, by decide⟩, rfl⟩⟩
      · exact ⟨_, formatDecimal_plain (by simpa using hs)⟩
    obtain ⟨bytes, hb⟩ := hformat
    refine ⟨(bytes, 0 + integerWords c, emptyGuest), ?_⟩
    rw [convert_decimal hdec, assert_ok (by rw [hl]; rfl), ok_bind, hnext, if_neg fun h => absurd h.2 (by decide), ok_bind,
      hb, ok_bind]
  · have hone : AsInC c 1 := by
      refine ⟨fun h => absurd h.2 (by decide), ?_⟩
      rcases hhex with h | h
      · rw [h]
        exact (by decide : (1 : ℤ) < 2 ^ 32)
      · rw [h]
        exact (by decide : (1 : ℤ) < 2 ^ 32)
    obtain ⟨off', h⟩ := (convert_iff hsp hflags harg).2 hone
    exact ⟨_, h⟩

/-! ## Runs -/

variable {s : PrintfState}

/-- the integer conversion of a turn, with accepted flags and an argument that can be read -/
def IntegerTurn (nsLog : Bool) (word : ℕ → Guest → Except Panic UInt32) (s : PrintfState) (c : Conversion) (v : ℤ) : Prop :=
  ∃ d sp r width precision off, s.directive = some (d, sp, r) ∧ sp ∈ cIntegers ∧
    takeAmounts word d s.off s.guest = .ok (width, precision, off) ∧ c = d.toConversion width precision sp ∧
    c.Accepted nsLog ∧ cArgument word c off s.guest = .ok v

/-- the turn appends what C prints -/
def PrintsAsC (F : Formats) (nsLog : Bool) (word : ℕ → Guest → Except Panic UInt32) (s : PrintfState) (_ : Unit) : Prop :=
  ∀ c v, IntegerTurn nsLog word s c v → ∃ s', step F nsLog word s () = .ok s' ∧ s'.res = s.res ++ cOutput c v

/-- the conversion of the turn is one that prints what C prints -/
def ConvertsAsInC (nsLog : Bool) (word : ℕ → Guest → Except Panic UInt32) (s : PrintfState) (_ : Unit) : Prop :=
  ∀ c v, IntegerTurn nsLog word s c v → AsInC c v

theorem convert_guest (hsp : c.specifier ∈ cIntegers)
    (h : convert F nsLog word c off g = .ok res) : res.2.2 = g := by
  rcases integer_cases hsp with hdec | hx | hX
  · rw [convert_decimal hdec] at h
    obtain ⟨_, -, h⟩ := bind_eq_ok.1 h
    obtain ⟨_, -, h⟩ := bind_eq_ok.1 h
    obtain ⟨_, -, h⟩ := bind_eq_ok.1 h
    cases h
    rfl
  · rw [convert_x hx] at h
    obtain ⟨_, -, h⟩ := bind_eq_ok.1 h
    obtain ⟨_, -, h⟩ := bind_eq_ok.1 h
    obtain ⟨_, -, h⟩ := bind_eq_ok.1 h
    cases h
    rfl
  · rw [convert_X hX] at h
    obtain ⟨_, -, h⟩ := bind_eq_ok.1 h
    obtain ⟨_, -, h⟩ := bind_eq_ok.1 h
    obtain ⟨_, -, h⟩ := bind_eq_ok.1 h
    obtain ⟨_, -, h⟩ := bind_eq_ok.1 h
    cases h
    rfl

/-- one turn -/
theorem printsAsC_iff : PrintsAsC F nsLog word s () ↔ ConvertsAsInC nsLog word s () := by
  apply forall_congr'
  intro c
  apply forall_congr'
  intro v
  apply forall_congr'
  rintro ⟨d, sp, r, width, precision, off, hd, hsp, ha, rfl, hacc, harg⟩
  have hne : sp ≠ .percent := by
    rintro rfl
    exact absurd hsp (by decide)
  have hconvert : (∃ off', convert F nsLog word (d.toConversion width precision sp) off s.guest =
      .ok (cOutput (d.toConversion width precision sp) v, off', s.guest)) ↔ AsInC (d.toConversion width precision sp) v :=
    convert_iff hsp ((accepted_iff hsp).1 hacc) harg
  rw [← hconvert, step_directive hd, ha, ok_bind, if_neg hne]
  constructor
  · rintro ⟨s', h, hres⟩
    obtain ⟨out, hout, h⟩ := bind_eq_ok.1 h
    cases h
    obtain ⟨bytes, off', g⟩ := out
    obtain rfl : g = s.guest := convert_guest hsp hout
    obtain rfl : bytes = cOutput (d.toConversion width precision sp) v := List.append_cancel_left hres
    exact ⟨off', hout⟩
  · rintro ⟨off', h⟩
    exact ⟨_, by rw [h, ok_bind], rfl⟩

/-- "%05d" -/
def zeroPaddedFormat : List UInt8 := [37, 48, 53, 100]

/-- a guest that has called `printf` with -5 -/
def minusFive : Guest := ⟨(Vector.replicate 16 0).set 1 0xfffffffb, fun _ => 0, 0⟩

end TouchHLE.Printf
