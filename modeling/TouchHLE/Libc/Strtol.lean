/-
`strtol`, `strtoul` and `strtoull` (`libc/stdlib.rs`) and the integers of the C standard.

- `strtol`, `strtoul`, `strtoull`: the three functions.
- `cInteger`: the C grammar. `cStrto`: what a function of the family returns and stores.
- `codeInteger`: what the conversion finds; `codeInteger_eq`, `codeInteger_ne`: the two grammars next to each other.
- `strtol_iff`: when the functions do what C says; `strtol_min`: the smallest `long` is not read as itself.
-/
import TouchHLE.Libc.StrToInt

namespace TouchHLE

open Machine Words

/-! ## The functions -/

/-- storing the end of the number -/
def writeEnd (m : Mem) (endptr : ℕ) (str len : ℕ) : Except Panic Mem :=
  if endptr = 0 then pure m
  else do
    let p ← Mem.ptrAdd str len 1
    m.writeU32 endptr (UInt32.ofNat p)

/-- the common body of the three functions -/
def strto (t : IntType) (m : Mem) (str endptr base : ℕ) : Except Panic (ℤ × Mem) := do
  let (parseRes, m) ← strToIntInnerGeneric (cString str) 0 (2 ^ 32 - 1) t base m
  match parseRes with
  | some (res, len) => do
    let m ← writeEnd m endptr str len
    pure (res, m)
  | none => do
    let m ← writeEnd m endptr str 0
    pure (0, m)

/-- `base.try_into().unwrap()` -/
def baseToU32 (base : Int32) : Except Panic ℕ := if 0 ≤ base.toInt then .ok base.toInt.toNat else .error .conversion

def strtoul (m : Mem) (str endptr : ℕ) (base : Int32) : Except Panic (ℤ × Mem) := do
  let base ← baseToU32 base
  strto u32Type m str endptr base

def strtoull (m : Mem) (str endptr : ℕ) (base : Int32) : Except Panic (ℤ × Mem) := do
  let base ← baseToU32 base
  strto u64Type m str endptr base

def strtol (m : Mem) (str endptr : ℕ) (base : Int32) : Except Panic (ℤ × Mem) :=
  strto i32Type m str endptr (base.toInt % 2 ^ 32).toNat

/-! ## The C standard -/

/-- `isspace` in the C locale -/
def cIsspace (c : UInt8) : Bool := c == 32 || (9 ≤ c && c ≤ 13)

/-- a hexadecimal prefix with a digit after it -/
def hexPrefix (r : List UInt8) : Bool := isZero (r.getD 0 0) && isX (r.getD 1 0) && isDigit 16 (r.getD 2 0)

/-- a string without its white space -/
def afterSpace (s : List UInt8) : List UInt8 := s.dropWhile cIsspace

/-- what follows the optional sign -/
def afterSign (r : List UInt8) : List UInt8 := if isSign (r.headD 0) then r.tail else r

def cBase (base : ℕ) (r : List UInt8) : ℕ :=
  if base ≠ 0 then base else if hexPrefix r then 16 else if isZero (r.headD 0) then 8 else 10

def cPrefix (base : ℕ) (r : List UInt8) : ℕ := if (base = 0 ∨ base = 16) ∧ hexPrefix r then 2 else 0

def cDigits (base : ℕ) (r : List UInt8) : List UInt8 := (r.drop (cPrefix base r)).takeWhile (isDigit (cBase base r))

/-- the integer at the start of a string: whether it is negative, its magnitude, and where it ends -/
def cInteger (base : ℕ) (s : List UInt8) : Option (Bool × ℕ × ℕ) :=
  let r := afterSign (afterSpace s)
  let ds := cDigits base r
  if ds = [] then none
  else some ((afterSpace s).headD 0 == 45, digitsValue (cBase base r) ds,
    s.length - r.length + cPrefix base r + ds.length)

/-- the value of a signed type of `w` bits -/
def cSigned (w : ℕ) (neg : Bool) (v : ℕ) : ℤ := if neg then max (-v) (-2 ^ (w - 1)) else min v (2 ^ (w - 1) - 1)

/-- the value of an unsigned type of `w` bits, in which a negative number wraps around -/
def cUnsigned (w : ℕ) (neg : Bool) (v : ℕ) : ℤ := if 2 ^ w ≤ v then 2 ^ w - 1 else if neg then -v % 2 ^ w else v

/-- returning a number and storing its end -/
def cResult (value : Bool → ℕ → ℤ) (m : Mem) (str endptr : ℕ) : Option (Bool × ℕ × ℕ) → Except Panic (ℤ × Mem)
  | some (neg, v, len) => do
    let m ← writeEnd m endptr str len
    pure (value neg v, m)
  | none => do
    let m ← writeEnd m endptr str 0
    pure (0, m)

/-- what C says about `strtol` and its like, where `value` is that of the type -/
def cStrto (value : Bool → ℕ → ℤ) (m : Mem) (str endptr base : ℕ) (s : List UInt8) : Except Panic (ℤ × Mem) :=
  cResult value m str endptr (cInteger base s)

/-! ## When they agree -/

/-- A prefix or a sign that no digit of the base follows, and that is taken for part of the number or for none of it
against the grammar. -/
def PrefixAlone (base : ℕ) (s : List UInt8) : Prop :=
  let r := afterSign (afterSpace s)
  (base = 16 ∧ isZero (r.getD 0 0) ∧ isX (r.getD 1 0) = false ∧ isDigit 16 (r.getD 1 0) = false) ∨
  ((base = 0 ∨ base = 16) ∧ isZero (r.getD 0 0) ∧ isX (r.getD 1 0) ∧ isDigit 16 (r.getD 2 0) = false) ∨
  (base = 8 ∧ isSign ((afterSpace s).headD 0) ∧ isDigit 8 (r.getD 0 0) = false)

/-- a negative number of that magnitude or a larger one -/
def NegativeBeyond (base limit : ℕ) (s : List UInt8) : Prop := ∃ v len, cInteger base s = some (true, v, len) ∧ limit ≤ v

/-! ## What the conversion finds -/

/-- the prefix that the conversion skips -/
def codePrefix (b : ℕ) (r : List UInt8) : ℕ :=
  if (b = 8 ∨ b = 16) ∧ isZero (r.headD 0) then if b = 16 ∧ isX (r.tail.headD 0) then 2 else 1 else 0

def codeBase (base : ℕ) (r : List UInt8) : ℕ := if base = 0 then prefixBase r else base

def codeDigits (base : ℕ) (r : List UInt8) : List UInt8 :=
  (r.drop (codePrefix (codeBase base r) r)).takeWhile (isDigit (codeBase base r))

/-- the integer that the conversion finds, in the form of `cInteger` -/
def codeInteger (base : ℕ) (s : List UInt8) : Option (Bool × ℕ × ℕ) :=
  let r := afterSign (afterSpace s)
  let ds := codeDigits base r
  let p := codePrefix (codeBase base r) r
  let neg := (afterSpace s).headD 0 == 45
  if ds ≠ [] then some (neg, digitsValue (codeBase base r) ds, s.length - r.length + p + ds.length)
  else if codeBase base r = 8 ∧ (isSign ((afterSpace s).headD 0) ∨ 0 < p) then some (neg, 0, s.length - r.length + p)
  else none

/-- the value that it gets -/
def codeValue (t : IntType) (neg : Bool) (v : ℕ) : ℤ :=
  let n : ℤ := if t.max < v then t.max else v
  if neg then t.negation n else n

variable {s r : List UInt8} {v : IntScan} {base maxLength : ℕ} {c : UInt8} {b : ℕ}

theorem cIsspace_eq (c : UInt8) : cIsspace c = isspaceInner c := by
  rw [Bool.eq_iff_iff]
  simp only [cIsspace, isspaceInner, Bool.or_eq_true, Bool.and_eq_true, beq_iff_eq, decide_eq_true_eq,
    UInt8.le_iff_toNat_le, ← UInt8.toNat_inj]
  simp only [UInt8.reduceToNat]
  omega

theorem afterSpace_eq (s : List UInt8) : afterSpace s = s.drop (s.takeWhile isspaceInner).length := by
  have hp : cIsspace = isspaceInner := funext cIsspace_eq
  unfold afterSpace
  rw [hp]
  conv_rhs => arg 2; rw [← List.takeWhile_append_dropWhile (p := isspaceInner) (l := s)]
  exact List.drop_left.symm

theorem addDigits_eq (h : v.len + r.length ≤ maxLength) : v.addDigits maxLength r =
    { v with chars := v.chars ++ r.takeWhile (isDigit v.base), len := v.len + (r.takeWhile (isDigit v.base)).length } := by
  have hle : (r.takeWhile (isDigit v.base)).length ≤ r.length := (List.takeWhile_sublist _).length_le
  simp only [IntScan.addDigits]
  rw [List.take_of_length_le (by omega)]

theorem addPrefix_eq (h2 : v.len + 2 < maxLength) (h : v.len + r.length ≤ maxLength) :
    v.addPrefix maxLength r =
      let ds := (r.drop (codePrefix v.base r)).takeWhile (isDigit v.base)
      { v with
        chars := v.chars ++ ds
        len := v.len + codePrefix v.base r + ds.length
        prefixLength := v.prefixLength + codePrefix v.base r } := by
  unfold IntScan.addPrefix codePrefix
  by_cases hz : (v.base = 8 ∨ v.base = 16) ∧ isZero (r.headD 0) = true
  · rw [if_pos hz, if_pos hz, if_neg (by omega)]
    cases r with
    | nil => exact absurd hz.2 (by decide)
    | cons c rest =>
      by_cases hx : v.base = 16 ∧ isX ((c :: rest).tail.headD 0) = true
      · rw [if_pos hx, if_pos hx, if_neg (by omega)]
        cases rest with
        | nil => exact absurd hx.2 (show ¬ isX 0 = true by decide)
        | cons c' rest =>
          simp only [List.length_cons] at h
          exact addDigits_eq (by simp only [List.drop_succ_cons, List.drop_zero]; omega)
      · rw [if_neg hx, if_neg hx]
        simp only [List.length_cons] at h
        exact addDigits_eq (by simp only [List.tail_cons]; omega)
  · rw [if_neg hz, if_neg hz]
    exact addDigits_eq h

theorem addBase_eq (h2 : v.len + 2 < maxLength) (h : v.len + r.length ≤ maxLength) (hc : v.chars = []) :
    v.addBase maxLength r =
      { v with
        base := codeBase v.base r
        chars := codeDigits v.base r
        len := v.len + codePrefix (codeBase v.base r) r + (codeDigits v.base r).length
        prefixLength := v.prefixLength + codePrefix (codeBase v.base r) r } := by
  cases v with
  | mk ws len sign prefixLength base chars =>
    obtain rfl : chars = [] := hc
    exact addPrefix_eq (v := ⟨ws, len, sign, prefixLength, codeBase base r, []⟩) h2 h

theorem finish_eq (t : IntType) (hb : 2 ≤ v.base) (hb' : v.base ≤ 36) {n : ℕ} (hlen : v.len = v.prefixLength + n) :
    v.finish t =
      .ok (if 0 < n then
          some (if v.sign = some 45 then t.negation (t.fromStrRadix v.chars v.base)
            else t.fromStrRadix v.chars v.base, v.whitespaceLen + v.len)
        else if v.base = 8 ∧ 0 < v.prefixLength then some (0, v.whitespaceLen + v.prefixLength)
        else none) := by
  unfold IntScan.finish
  rw [assert_ok (by simp [hb, hb']), ok_bind, hlen, Nat.add_sub_cancel_left]
  split_ifs <;> rfl

theorem codeBase_bounds (hb : base = 0 ∨ 2 ≤ base ∧ base ≤ 36) (r : List UInt8) :
    2 ≤ codeBase base r ∧ codeBase base r ≤ 36 := by
  unfold codeBase prefixBase
  split_ifs <;> omega

theorem fromStrRadix_eq {t : IntType} (h : r ≠ []) :
    t.fromStrRadix r b = if t.max < digitsValue b r then t.max else (digitsValue b r : ℤ) := by
  unfold IntType.fromStrRadix
  simp only [h, false_or]

theorem addBase_finish (t : IntType) (hb : base = 0 ∨ 2 ≤ base ∧ base ≤ 36) {ws l : ℕ} {sg : Option UInt8} (hl : l ≤ 1)
    (hr : l + r.length ≤ 2 ^ 32 - 1) :
    ((⟨ws, l, sg, l, base, []⟩ : IntScan).addBase (2 ^ 32 - 1) r).finish t =
      let b := codeBase base r
      let ds := codeDigits base r
      .ok (if ds ≠ [] then some (codeValue t (sg == some 45) (digitsValue b ds), ws + l + codePrefix b r + ds.length)
        else if b = 8 ∧ 0 < l + codePrefix b r then some (0, ws + l + codePrefix b r)
        else none) := by
  obtain ⟨hb1, hb2⟩ := codeBase_bounds hb r
  rw [addBase_eq (by simp only; omega) hr rfl, finish_eq t hb1 hb2 rfl]
  simp only [codeValue, beq_iff_eq]
  congr 1
  by_cases hds : codeDigits base r = []
  · simp [hds, add_assoc]
  · rw [if_pos (List.length_pos_iff.2 hds), if_pos hds, fromStrRadix_eq hds]
    simp only [add_assoc]

/-- **What the conversion finds** in a string that fits in memory. -/
theorem scan_finish (t : IntType) (hzero : t.negation 0 = 0) (hmax : 0 ≤ t.max)
    (hb : base = 0 ∨ 2 ≤ base ∧ base ≤ 36) (hs : s.length < 2 ^ 32) :
    (scanInt base (2 ^ 32 - 1) s).finish t =
      .ok ((codeInteger base s).map fun (neg, v, len) => (codeValue t neg v, len)) := by
  have hv0 : ∀ neg, codeValue t neg 0 = 0 := fun neg => by
    have : ¬ t.max < 0 := by omega
    cases neg <;> simp [codeValue, this, hzero]
  unfold scanInt codeInteger
  simp only
  rw [← afterSpace_eq]
  have hws : (s.takeWhile isspaceInner).length + (afterSpace s).length = s.length := by
    rw [afterSpace_eq, List.length_drop]
    have := (List.takeWhile_sublist (p := isspaceInner) (l := s)).length_le
    omega
  generalize (s.takeWhile isspaceInner).length = ws at *
  generalize afterSpace s = q at *
  unfold IntScan.addSign afterSign
  by_cases hsg : isSign (q.headD 0) = true
  · cases q with
    | nil => exact absurd hsg (by decide)
    | cons c r =>
      simp only [List.length_cons] at hws
      have hpos : s.length - r.length = ws + 1 := by omega
      simp only [List.headD_cons] at hsg
      simp only [List.headD_cons, hsg, if_true, List.tail_cons, List.head?_cons, true_or, and_true, hpos]
      rw [if_neg (by decide), zero_add, addBase_finish t hb (l := 1) le_rfl (by omega)]
      rw [show (some c == some 45) = (c == 45) from rfl]
      simp only
      by_cases hds : codeDigits base r = []
      · have hpos' : 0 < 1 + codePrefix (codeBase base r) r := by omega
        by_cases h8 : codeBase base r = 8 <;> simp [hds, h8, hv0, hpos']
      · simp [hds]
  · simp only [hsg, Bool.false_eq_true, if_false, false_or]
    have hpos : s.length - q.length = ws := by omega
    have hneg : (q.headD 0 == 45) = false := by
      rw [beq_eq_false_iff_ne]
      intro h
      exact hsg (by rw [h]; decide)
    rw [addBase_finish t hb (by decide) (by omega), hneg, hpos]
    simp only [zero_add, add_zero]
    rw [show (none == some (45 : UInt8)) = false from rfl]
    by_cases hds : codeDigits base q = []
    · by_cases h8 : codeBase base q = 8 ∧ 0 < codePrefix (codeBase base q) q
      · simp [hds, h8, hv0]
      · simp only [hds, ne_eq, not_true_eq_false, if_false, if_neg h8, Option.map_none]
    · simp [hds]

/-! ## Where the two grammars agree -/

theorem isZero_head (hz : isZero (r.headD 0) = true) : r = 48 :: r.tail := by
  cases r with
  | nil => exact absurd hz (by decide)
  | cons c r =>
    have hc : c = 48 := by simpa [isZero] using hz
    rw [hc, List.tail_cons]

theorem isX_isDigit (hx : isX c = true) : isDigit 8 c = false ∧ isDigit 16 c = false := by
  have hc : c = 120 ∨ c = 88 := by simpa [isX] using hx
  rcases hc with rfl | rfl <;> decide

theorem digitVal_zero : digitVal 48 = some 0 := by decide

theorem digitsValue_zero_cons (b : ℕ) (ds : List UInt8) : digitsValue b (48 :: ds) = digitsValue b ds := by
  simp [digitsValue, digitVal_zero]

theorem takeWhile_zero (hb : 0 < b) (hz : isZero (r.headD 0) = true) :
    r.takeWhile (isDigit b) = 48 :: r.tail.takeWhile (isDigit b) := by
  have h48 : isDigit b 48 = true := by simp [isDigit, digitVal_zero, hb]
  conv_lhs => rw [isZero_head hz]
  rw [List.takeWhile_cons, if_pos h48]

theorem takeWhile_eq_nil {p : UInt8 → Bool} (h0 : p 0 = false) : r.takeWhile p = [] ↔ p (r.headD 0) = false := by
  cases r with
  | nil => simp [h0]
  | cons c r => cases hp : p c <;> simp [hp]

theorem headD_drop (n : ℕ) : (r.drop n).headD 0 = r.getD n 0 := by
  rw [List.headD_eq_head?_getD, List.head?_drop, List.getD_eq_getElem?_getD]

theorem codeDigits_eq_nil (base : ℕ) (r : List UInt8) :
    codeDigits base r = [] ↔ isDigit (codeBase base r) (r.getD (codePrefix (codeBase base r) r) 0) = false := by
  unfold codeDigits
  rw [takeWhile_eq_nil (isDigit_zero _), headD_drop]

theorem codeInteger_same {r : List UInt8} (hr : afterSign (afterSpace s) = r) (hB : codeBase base r = cBase base r)
    (hP : codePrefix (codeBase base r) r = cPrefix base r)
    (hd : codeDigits base r = [] → codeBase base r = 8 →
      isSign ((afterSpace s).headD 0) = false ∧ codePrefix (codeBase base r) r = 0) :
    codeInteger base s = cInteger base s := by
  have hD : codeDigits base r = cDigits base r := by
    unfold codeDigits cDigits
    rw [hP, hB]
  unfold codeInteger cInteger
  simp only [hr]
  by_cases hds : codeDigits base r = []
  · have h8 : ¬(codeBase base r = 8 ∧
        (isSign ((afterSpace s).headD 0) = true ∨ 0 < codePrefix (codeBase base r) r)) := by
      rintro ⟨h8, h | h⟩
      · rw [(hd hds h8).1] at h
        exact absurd h (by decide)
      · exact h.ne' (hd hds h8).2
    rw [if_neg (not_not.2 hds), if_neg h8, if_pos (hD ▸ hds)]
  · rw [if_pos hds, if_neg (hD ▸ hds), ← hD, ← hB, hP]

theorem codeInteger_zero {r : List UInt8} (hr : afterSign (afterSpace s) = r) (hz : isZero (r.headD 0) = true)
    (hB : codeBase base r = cBase base r) (hb : 0 < cBase base r) (hp : codePrefix (codeBase base r) r = 1)
    (hP : cPrefix base r = 0) (hd : codeDigits base r = [] → codeBase base r = 8) :
    codeInteger base s = cInteger base s := by
  have hD : cDigits base r = 48 :: codeDigits base r := by
    unfold codeDigits cDigits
    rw [hP, hp, hB, List.drop_zero, takeWhile_zero hb hz, List.drop_one]
  unfold codeInteger cInteger
  simp only [hr]
  rw [hD, if_neg (List.cons_ne_nil _ _), hP, hp, hB, digitsValue_zero_cons, List.length_cons]
  by_cases hds : codeDigits base r = []
  · rw [if_neg (not_not.2 hds), if_pos ⟨hB ▸ hd hds, .inr Nat.one_pos⟩, hds]
    rfl
  · rw [if_pos hds]
    simp only [add_zero, Option.some.injEq, Prod.mk.injEq, true_and]
    omega

theorem getD_zero (r : List UInt8) : r.getD 0 0 = r.headD 0 := by cases r <;> rfl

theorem getD_one (r : List UInt8) : r.getD 1 0 = r.tail.headD 0 := by rw [← List.drop_one, headD_drop]

theorem codePrefix_nonzero (b : ℕ) (hz : isZero (r.headD 0) = false) : codePrefix b r = 0 := by
  simp only [codePrefix, hz, Bool.false_eq_true, and_false, if_false]

theorem codePrefix_x (hz : isZero (r.headD 0) = true) (hx : isX (r.tail.headD 0) = true) : codePrefix 16 r = 2 := by
  simp only [codePrefix, hz, hx, or_true, and_self, if_true]

theorem codePrefix_zero (hb : b = 8 ∨ b = 16) (hz : isZero (r.headD 0) = true)
    (hx : b = 16 → isX (r.tail.headD 0) = false) : codePrefix b r = 1 := by
  rw [codePrefix, if_pos ⟨hb, hz⟩, if_neg]
  rintro ⟨h16, h⟩
  rw [hx h16] at h
  exact absurd h (by decide)

theorem hexPrefix_eq (r : List UInt8) :
    hexPrefix r = (isZero (r.headD 0) && isX (r.tail.headD 0) && isDigit 16 (r.getD 2 0)) := by
  rw [hexPrefix, getD_zero, getD_one]

theorem cPrefix_of_not (h : hexPrefix r = false) : cPrefix base r = 0 := by
  simp only [cPrefix, h, Bool.false_eq_true, and_false, if_false]

theorem codeBase_eq_cBase (h : hexPrefix r = (isZero (r.headD 0) && isX (r.tail.headD 0))) :
    codeBase base r = cBase base r := by
  unfold codeBase cBase prefixBase
  rw [h]
  by_cases hb : base = 0
  · rw [if_pos hb, if_neg (not_not.2 hb)]
    cases isZero (r.headD 0) <;> cases isX (r.tail.headD 0) <;> rfl
  · rw [if_neg hb, if_pos hb]

/-- Where no prefix and no sign stands alone the two agree. -/
theorem codeInteger_eq (hb : base = 0 ∨ 2 ≤ base ∧ base ≤ 36) (h : ¬PrefixAlone base s) :
    codeInteger base s = cInteger base s := by
  unfold PrefixAlone at h
  simp only [getD_zero, getD_one] at h
  push Not at h
  obtain ⟨h16, hhex, h8⟩ := h
  generalize hr : afterSign (afterSpace s) = r at h16 hhex h8
  cases hz : isZero (r.headD 0) with
  | false =>
    have hpre : hexPrefix r = false := by rw [hexPrefix_eq, hz, Bool.false_and, Bool.false_and]
    have hB : codeBase base r = cBase base r := codeBase_eq_cBase (by rw [hpre, hz, Bool.false_and])
    have hp : ∀ b, codePrefix b r = 0 := fun b => codePrefix_nonzero b hz
    apply codeInteger_same hr hB
    · rw [hp, cPrefix_of_not hpre]
    · intro hds hc
      have hb8 : base = 8 := by
        simp only [codeBase, prefixBase, hz, Bool.false_eq_true, if_false] at hc
        split_ifs at hc
        · exact absurd hc (by decide)
        · exact hc
      rw [codeDigits_eq_nil, hp, getD_zero, hc] at hds
      refine ⟨?_, hp _⟩
      cases hsg : isSign ((afterSpace s).headD 0) with
      | false => rfl
      | true => exact absurd hds (h8 hb8 hsg)
  | true =>
    cases hx : isX (r.tail.headD 0) with
    | true =>
      by_cases hb16 : base = 0 ∨ base = 16
      · -- a prefix with a digit after it
        have hdig : isDigit 16 (r.getD 2 0) = true := Bool.eq_true_of_not_eq_false (hhex hb16 hz hx)
        have hpre : hexPrefix r = true := by rw [hexPrefix_eq, hz, hx, hdig]; rfl
        have hB : codeBase base r = cBase base r := codeBase_eq_cBase (by rw [hpre, hz, hx]; rfl)
        have hc : codeBase base r = 16 := by
          rw [hB]
          rcases hb16 with rfl | rfl
          · rw [cBase, if_neg (by decide), if_pos hpre]
          · rfl
        apply codeInteger_same hr hB
        · rw [hc, codePrefix_x hz hx, cPrefix, if_pos ⟨hb16, hpre⟩]
        · intro _ hc8
          omega
      · push Not at hb16
        have hP : cPrefix base r = 0 := if_neg (fun h => h.1.elim hb16.1 hb16.2)
        have hc : codeBase base r = base := if_neg hb16.1
        have hC : cBase base r = base := if_pos hb16.1
        by_cases hb8 : base = 8
        · apply codeInteger_zero hr hz (hc.trans hC.symm) (by omega) _ hP fun _ => hc.trans hb8
          rw [hc]
          exact codePrefix_zero (.inl hb8) hz (fun h => absurd h hb16.2)
        · apply codeInteger_same hr (hc.trans hC.symm)
          · rw [hc, hP, codePrefix, if_neg (fun h => h.1.elim hb8 hb16.2)]
          · intro _ h
            exact absurd (hc ▸ h) hb8
    | false =>
      have hpre : hexPrefix r = false := by rw [hexPrefix_eq, hz, hx]; rfl
      have hB : codeBase base r = cBase base r := codeBase_eq_cBase (by rw [hpre, hz, hx]; rfl)
      by_cases hc : codeBase base r = 8 ∨ codeBase base r = 16
      · have hp : codePrefix (codeBase base r) r = 1 := codePrefix_zero hc hz (fun _ => hx)
        apply codeInteger_zero hr hz hB (by omega) hp (cPrefix_of_not hpre)
        intro hds
        rcases hc with hc | hc
        · exact hc
        · -- a zero in base 16 has a digit after it
          have hb16 : base = 16 := by
            by_contra hne
            simp only [codeBase, prefixBase, hz, hx, if_true, Bool.false_eq_true, if_false] at hc
            split_ifs at hc
            · exact absurd hc (by decide)
            · exact hne hc
          rw [codeDigits_eq_nil, hp, hc, getD_one] at hds
          exact absurd hds (h16 hb16 hz hx)
      · apply codeInteger_same hr hB
        · rw [cPrefix_of_not hpre, codePrefix, if_neg (fun h => hc h.1)]
        · intro _ h
          exact absurd (.inl h) hc

/-- Where one stands alone, one of the two finds a zero and the other no number. -/
theorem codeInteger_ne (h : PrefixAlone base s) :
    (codeInteger base s = none ∧ ∃ neg len, cInteger base s = some (neg, 0, len) ∧ 0 < len ∧ len ≤ s.length) ∨
    (cInteger base s = none ∧ ∃ neg len, codeInteger base s = some (neg, 0, len) ∧ 0 < len ∧ len ≤ s.length) := by
  unfold PrefixAlone at h
  simp only [getD_zero, getD_one] at h
  have hq : (afterSpace s).length ≤ s.length := (List.dropWhile_sublist _).length_le
  have hlen : (afterSign (afterSpace s)).length ≤ (afterSpace s).length := by
    unfold afterSign
    split
    · exact (List.tail_sublist _).length_le
    · exact le_rfl
  have hsgn : isSign ((afterSpace s).headD 0) = true →
      (afterSign (afterSpace s)).length + 1 ≤ (afterSpace s).length := by
    intro hsg
    rw [afterSign, if_pos hsg, List.length_tail]
    cases hs : afterSpace s with
    | nil =>
      rw [hs] at hsg
      exact absurd hsg (by decide)
    | cons c q => simp
  -- a zero at least stands at the start
  have hzlen : isZero ((afterSign (afterSpace s)).headD 0) = true → 0 < (afterSign (afterSpace s)).length := by
    intro hz
    rw [isZero_head hz, List.length_cons]
    exact Nat.succ_pos _
  have hzero : ∀ b, 0 < b → isZero ((afterSign (afterSpace s)).headD 0) = true →
      isDigit b ((afterSign (afterSpace s)).tail.headD 0) = false →
      (afterSign (afterSpace s)).takeWhile (isDigit b) = [48] := by
    intro b hb hz hd
    rw [takeWhile_zero hb hz, (takeWhile_eq_nil (isDigit_zero b)).2 hd]
  unfold codeInteger cInteger
  generalize afterSign (afterSpace s) = r at *
  rcases h with ⟨rfl, hz, hx, hd⟩ | ⟨hb, hz, hx, hd⟩ | ⟨rfl, hsg, hd⟩
  · left
    have hds : codeDigits 16 r = [] := by
      rw [codeDigits_eq_nil]
      change isDigit 16 (r.getD (codePrefix 16 r) 0) = false
      rw [codePrefix_zero (.inr rfl) hz (fun _ => hx), getD_one, hd]
    have hpre : hexPrefix r = false := by rw [hexPrefix_eq, hz, hx]; rfl
    have hcd : cDigits 16 r = [48] := by
      rw [cDigits, cPrefix_of_not hpre]
      exact hzero 16 (by decide) hz hd
    have hlen := hzlen hz
    refine ⟨?_, (afterSpace s).headD 0 == 45, s.length - r.length + 1, ?_, by omega, by omega⟩
    · rw [if_neg (not_not.2 hds), if_neg]
      exact fun h => absurd h.1 (show ¬ (16 = 8) by decide)
    · simp only [hcd, cPrefix_of_not hpre]
      rfl
  · left
    have hc : codeBase base r = 16 := by
      rcases hb with rfl | rfl
      · simp only [codeBase, prefixBase, hz, hx, if_true]
      · rfl
    have hds : codeDigits base r = [] := by rw [codeDigits_eq_nil, hc, codePrefix_x hz hx, hd]
    have hpre : hexPrefix r = false := by rw [hexPrefix_eq, hz, hx, hd]; rfl
    have hcb : 0 < cBase base r ∧ isDigit (cBase base r) (r.tail.headD 0) = false := by
      rcases hb with rfl | rfl
      · simp only [cBase, hpre, hz, if_true, Bool.false_eq_true, if_false]
        exact ⟨by decide, (isX_isDigit hx).1⟩
      · exact ⟨Nat.succ_pos 15, (isX_isDigit hx).2⟩
    have hcd : cDigits base r = [48] := by
      rw [cDigits, cPrefix_of_not hpre]
      exact hzero _ hcb.1 hz hcb.2
    have hlen := hzlen hz
    refine ⟨?_, (afterSpace s).headD 0 == 45, s.length - r.length + 1, ?_, by omega, by omega⟩
    · simp only [hc]
      rw [if_neg (not_not.2 hds), if_neg]
      exact fun h => absurd h.1 (by decide)
    · simp only [hcd, cPrefix_of_not hpre]
      rw [if_neg (List.cons_ne_nil _ _), digitsValue_zero_cons]
      rfl
  · right
    have hz : isZero (r.headD 0) = false := by
      cases hz : isZero (r.headD 0) with
      | false => rfl
      | true =>
        rw [isZero_head hz, List.headD_cons] at hd
        exact absurd hd (by decide)
    have hcd : cDigits 8 r = [] := by
      rw [cDigits, cPrefix, if_neg (fun h => absurd h.1 (by decide))]
      exact (takeWhile_eq_nil (isDigit_zero 8)).2 hd
    have hds : codeDigits 8 r = [] := by
      rw [codeDigits_eq_nil]
      change isDigit 8 (r.getD (codePrefix 8 r) 0) = false
      rw [codePrefix_nonzero 8 hz, getD_zero, hd]
    have hlt := hsgn hsg
    refine ⟨if_pos hcd, (afterSpace s).headD 0 == 45, s.length - r.length, ?_, by omega, by omega⟩
    simp only [hds]
    rw [if_neg (not_not.2 rfl), if_pos ⟨rfl, .inl hsg⟩]
    change some (_, _, s.length - r.length + codePrefix 8 r) = _
    rw [codePrefix_nonzero 8 hz]
    rfl

/-! ## What the functions return and store -/

variable {m : Mem} {str endptr len limit : ℕ} {t : IntType} {value : Bool → ℕ → ℤ}

/-- a place for the end of the number, or no place -/
def EndPlace (m : Mem) (endptr : ℕ) : Prop := endptr = 0 ∨ m.InRange endptr 4

def endStored (m : Mem) (endptr p : ℕ) : Mem :=
  if endptr = 0 then m else { m with bytes := storeWord m.bytes endptr (UInt32.ofNat p) }

theorem writeEnd_ok (hs : HoldsString m str s) (he : EndPlace m endptr) (hl : len ≤ s.length) :
    writeEnd m endptr str len = .ok (endStored m endptr (str + len)) := by
  unfold writeEnd endStored
  by_cases h0 : endptr = 0
  · rw [if_pos h0, if_pos h0, pure_eq_ok]
  · have hsize := hs.size
    have hp : Mem.ptrAdd str len 1 = .ok (str + len) := by
      unfold Mem.ptrAdd
      rw [if_pos (by omega), mul_one]
    rw [if_neg h0, if_neg h0, hp, ok_bind, Mem.writeU32_ok (he.resolve_left h0)]

theorem endStored_inj {p q : ℕ} (hp : p < 2 ^ 32) (hq : q < 2 ^ 32) (h0 : endptr ≠ 0)
    (h : endStored m endptr p = endStored m endptr q) : p = q := by
  unfold endStored at h
  rw [if_neg h0, if_neg h0] at h
  have hw := congrArg (fun m => loadWord m.bytes endptr) h
  simp only [loadWord_storeWord] at hw
  have hn := congrArg UInt32.toNat hw
  rwa [UInt32.toNat_ofNat_of_lt' hp, UInt32.toNat_ofNat_of_lt' hq] at hn

theorem cInteger_len {neg : Bool} {v : ℕ} (h : cInteger base s = some (neg, v, len)) : len ≤ s.length := by
  unfold cInteger at h
  simp only at h
  split_ifs at h with hds
  simp only [Option.some.injEq, Prod.mk.injEq] at h
  have hq : (afterSpace s).length ≤ s.length := (List.dropWhile_sublist _).length_le
  have hr : (afterSign (afterSpace s)).length ≤ (afterSpace s).length := by
    unfold afterSign
    split
    · exact (List.tail_sublist _).length_le
    · exact le_rfl
  have hpos := List.length_pos_iff.2 hds
  have hle : (cDigits base (afterSign (afterSpace s))).length ≤
      (afterSign (afterSpace s)).length - cPrefix base (afterSign (afterSpace s)) := by
    rw [← List.length_drop]
    exact (List.takeWhile_sublist _).length_le
  omega

theorem cResult_some (hs : HoldsString m str s) (he : EndPlace m endptr) (hl : len ≤ s.length) (neg : Bool) (v : ℕ) :
    cResult value m str endptr (some (neg, v, len)) = .ok (value neg v, endStored m endptr (str + len)) := by
  show (do let m ← writeEnd m endptr str len; pure (value neg v, m)) = _
  rw [writeEnd_ok hs he hl, ok_bind, pure_eq_ok]

theorem cResult_none (hs : HoldsString m str s) (he : EndPlace m endptr) :
    cResult value m str endptr none = .ok (0, endStored m endptr str) := by
  show (do let m ← writeEnd m endptr str 0; pure ((0 : ℤ), m)) = _
  rw [writeEnd_ok hs he (Nat.zero_le _), ok_bind, pure_eq_ok, add_zero]

theorem strto_string (hs : HoldsString m str s) (hb : base = 0 ∨ 2 ≤ base ∧ base ≤ 36) (hzero : t.negation 0 = 0)
    (hmax : 0 ≤ t.max) : strto t m str endptr base = cResult (codeValue t) m str endptr (codeInteger base s) := by
  have hsize := hs.size
  unfold strto
  rw [strToInt_string hs.isString (Nat.zero_le _) (by omega) (by decide) (by decide), List.drop_zero,
    scan_finish t hzero hmax hb (by omega)]
  cases codeInteger base s with
  | none => rfl
  | some n => rfl

/-- **When one of the functions does what C says**, where `value` is what C says about the type. -/
theorem strto_iff (hs : HoldsString m str s) (he : EndPlace m endptr) (hb : base = 0 ∨ 2 ≤ base ∧ base ≤ 36)
    (hzero : t.negation 0 = 0) (hmax : 0 ≤ t.max) (hlim : 0 < limit)
    (hval : ∀ neg v, codeValue t neg v = value neg v ↔ ¬(neg = true ∧ limit ≤ v)) :
    strto t m str endptr base = cStrto value m str endptr base s ↔
      (endptr ≠ 0 → ¬PrefixAlone base s) ∧ ¬NegativeBeyond base limit s := by
  have hsize := hs.size
  have hc0 : ∀ neg, codeValue t neg 0 = 0 := fun neg => by
    have : ¬ t.max < 0 := by omega
    cases neg <;> simp [codeValue, this, hzero]
  have hv0 : ∀ neg, value neg 0 = 0 := by
    intro neg
    rw [← (hval neg 0).2 (fun h => by omega), hc0]
  rw [strto_string hs hb hzero hmax, cStrto]
  by_cases hp : PrefixAlone base s
  · -- both find a zero or no number, and the ends differ
    have hbeyond : ¬NegativeBeyond base limit s := by
      rintro ⟨v, len, hv, hle⟩
      rcases codeInteger_ne hp with ⟨-, neg, len', hc, -⟩ | ⟨hc, -⟩
      · rw [hc, Option.some.injEq, Prod.mk.injEq, Prod.mk.injEq] at hv
        omega
      · rw [hc] at hv
        exact absurd hv (Option.some_ne_none _).symm
    have hends : ∀ len, 0 < len → len ≤ s.length →
        (endStored m endptr (str + len) = endStored m endptr str ↔ endptr = 0) := by
      intro len hpos hle
      constructor
      · intro h
        by_contra h0
        have := endStored_inj (by omega) (by omega) h0 h
        omega
      · rintro rfl
        rfl
    simp only [hp, not_true_eq_false, hbeyond, not_false_eq_true, and_true]
    rw [imp_false, not_not]
    rcases codeInteger_ne hp with ⟨hn, neg, len, hc, hpos, hle⟩ | ⟨hn, neg, len, hc, hpos, hle⟩
    · rw [hn, hc, cResult_none hs he, cResult_some hs he hle, hv0, ← hends len hpos hle]
      simp [eq_comm]
    · rw [hn, hc, cResult_none hs he, cResult_some hs he hle, hc0, ← hends len hpos hle]
      simp
  · rw [codeInteger_eq hb hp]
    simp only [hp, not_false_eq_true, implies_true, true_and]
    unfold NegativeBeyond
    cases hc : cInteger base s with
    | none => simp [cResult]
    | some n =>
      obtain ⟨neg, v, len⟩ := n
      have hle := cInteger_len hc
      rw [cResult_some hs he hle, cResult_some hs he hle]
      simp only [Except.ok.injEq, Prod.mk.injEq, and_true, hval, Option.some.injEq]
      rw [not_iff_not]
      constructor
      · rintro ⟨rfl, hl⟩
        exact ⟨v, len, ⟨rfl, rfl, rfl⟩, hl⟩
      · rintro ⟨v', len', ⟨rfl, rfl, rfl⟩, hl⟩
        exact ⟨rfl, hl⟩

/-! ## The three functions -/

theorem codeValue_signed {w : ℕ} (neg : Bool) (v : ℕ) :
    codeValue ⟨2 ^ (w - 1) - 1, fun n => if n = -2 ^ (w - 1) then -2 ^ (w - 1) else -n⟩ neg v = cSigned w neg v ↔
      ¬(neg = true ∧ 2 ^ (w - 1) ≤ v) := by
  have hc : ((2 ^ (w - 1) : ℕ) : ℤ) = 2 ^ (w - 1) := by push_cast; rfl
  simp only [codeValue, cSigned]
  cases neg
  · simp only [Bool.false_eq_true, if_false, false_and, not_false_eq_true, iff_true]
    split_ifs <;> omega
  · simp only [if_true, true_and]
    split_ifs <;> omega

theorem codeValue_unsigned {w : ℕ} (hw : 1 < w) (neg : Bool) (v : ℕ) :
    codeValue ⟨2 ^ w - 1, fun n => -n % 2 ^ w⟩ neg v = cUnsigned w neg v ↔ ¬(neg = true ∧ 2 ^ w ≤ v) := by
  have h4 : (4 : ℤ) ≤ 2 ^ w := by
    calc (4 : ℤ) = 2 ^ 2 := by norm_num
      _ ≤ 2 ^ w := pow_le_pow_right₀ (by norm_num) hw
  have hc : ((2 ^ w : ℕ) : ℤ) = 2 ^ w := by push_cast; rfl
  have hmax : (2 : ℤ) ^ w - 1 < v ↔ 2 ^ w ≤ v := by omega
  -- the negation of the greatest value is 1
  have h1 : (-(2 ^ w - 1) : ℤ) % 2 ^ w = 1 := by
    rw [show (-(2 ^ w - 1) : ℤ) = 1 - 2 ^ w by ring, Int.sub_emod_right, Int.emod_eq_of_lt (by norm_num) (by omega)]
  simp only [codeValue, cUnsigned, hmax]
  by_cases hv : 2 ^ w ≤ v
  · cases neg
    · simp [hv]
    · simp only [hv, if_true, h1, and_self, not_true_eq_false, iff_false]
      omega
  · cases neg <;> simp [hv]

/-- **When `strtol`, `strtoul` and `strtoull` follow the C grammar** and give the value that C says: just if no prefix
and no sign stands alone where the end is asked for, and the number is not negative and as large as the limit. -/
theorem strtol_iff {base : Int32} (hs : HoldsString m str s) (he : EndPlace m endptr)
    (hb : base = 0 ∨ 2 ≤ base.toInt ∧ base.toInt ≤ 36) :
    let b := base.toInt.toNat
    let followsGrammar := endptr ≠ 0 → ¬PrefixAlone b s
    (strtol m str endptr base = cStrto (cSigned 32) m str endptr b s ↔
      followsGrammar ∧ ¬NegativeBeyond b (2 ^ 31) s) ∧
    (strtoul m str endptr base = cStrto (cUnsigned 32) m str endptr b s ↔
      followsGrammar ∧ ¬NegativeBeyond b (2 ^ 32) s) ∧
    (strtoull m str endptr base = cStrto (cUnsigned 64) m str endptr b s ↔
      followsGrammar ∧ ¬NegativeBeyond b (2 ^ 64) s) := by
  have hnonneg : 0 ≤ base.toInt ∧ base.toInt ≤ 36 := by
    rcases hb with rfl | hb
    · decide
    · omega
  have hb' : base.toInt.toNat = 0 ∨ 2 ≤ base.toInt.toNat ∧ base.toInt.toNat ≤ 36 := by
    rcases hb with rfl | hb
    · exact .inl rfl
    · omega
  have hmod : base.toInt % 2 ^ 32 = base.toInt := by omega
  have hu32 : baseToU32 base = .ok base.toInt.toNat := if_pos hnonneg.1
  refine ⟨?_, ?_, ?_⟩
  · unfold strtol
    rw [hmod]
    exact strto_iff hs he hb' rfl (by decide) (by decide) (codeValue_signed (w := 32))
  · unfold strtoul
    rw [hu32, ok_bind]
    exact strto_iff hs he hb' rfl (by decide) (by decide) (codeValue_unsigned (by decide))
  · unfold strtoull
    rw [hu32, ok_bind]
    exact strto_iff hs he hb' rfl (by decide) (by decide) (codeValue_unsigned (by decide))

/-- "-2147483648" in memory -/
def longMin : Mem := ⟨store (fun _ => 0) 4096 [45, 50, 49, 52, 55, 52, 56, 51, 54, 52, 56], 4096⟩

theorem longMin_holds : HoldsString longMin 4096 [45, 50, 49, 52, 55, 52, 56, 51, 54, 52, 56] where
  inRange := by decide
  size := by decide
  bytes := by decide
  noNul := by simp

theorem strtol_iff_longMin :
    let s := [45, 50, 49, 52, 55, 52, 56, 51, 54, 52, 56]
    HoldsString longMin 4096 s ∧ strtoul longMin 4096 0 10 = cStrto (cUnsigned 32) longMin 4096 0 10 s := by
  refine ⟨longMin_holds, ((strtol_iff longMin_holds (.inl rfl) (.inr (by decide))).2.1).2 ⟨fun h => absurd rfl h, ?_⟩⟩
  rintro ⟨v, len, h, hle⟩
  have hint : cInteger 10 [45, 50, 49, 52, 55, 52, 56, 51, 54, 52, 56] = some (true, 2147483648, 11) := rfl
  rw [show (10 : Int32).toInt.toNat = 10 from rfl, hint, Option.some.injEq, Prod.mk.injEq, Prod.mk.injEq] at h
  omega

/-- The smallest `long` is read as the number after it. -/
theorem strtol_min :
    let s := [45, 50, 49, 52, 55, 52, 56, 51, 54, 52, 56]
    HoldsString longMin 4096 s ∧ strtol longMin 4096 0 10 = .ok (-2147483647, longMin) ∧
    cStrto (cSigned 32) longMin 4096 0 10 s = .ok (-2147483648, longMin) := by
  refine ⟨longMin_holds, ?_, ?_⟩
  · rfl
  · rfl

end TouchHLE
