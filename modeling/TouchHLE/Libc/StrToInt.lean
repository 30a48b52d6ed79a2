/-
The conversion from strings to integers that `strtol` and its like share with `sscanf` and `fscanf`
(`str_to_int_inner_generic` in `libc/stdlib.rs`).

- `strToIntInnerGeneric`: the conversion over any source, in the stages of the source: sign, base, prefix, digits.
- `scanInt`: what the stages find in a string, without callbacks and indexes.
- `strToInt_string`: on a string the conversion finds just that.
-/
import TouchHLE.Libc.Source

namespace TouchHLE

open Machine

/-! ## Digits -/

/-- the value of a digit of base 36 -/
def digitVal (c : UInt8) : Option ℕ :=
  if 48 ≤ c ∧ c ≤ 57 then some (c.toNat - 48)
  else if 97 ≤ c ∧ c ≤ 122 then some (c.toNat - 97 + 10)
  else if 65 ≤ c ∧ c ≤ 90 then some (c.toNat - 65 + 10)
  else none

/-- `char::is_digit` -/
def isDigit (base : ℕ) (c : UInt8) : Bool := (digitVal c).any (· < base)

def digitsValue (base : ℕ) (s : List UInt8) : ℕ := s.foldl (fun n c => n * base + (digitVal c).getD 0) 0

/-- the integer type of a conversion: `T::MAX`, and the treatment of '-' -/
structure IntType where
  max : ℤ
  negation : ℤ → ℤ

/-- `T::from_str_radix(s, base).unwrap_or(T::MAX)` for a string of digits; the empty string is an error -/
def IntType.fromStrRadix (t : IntType) (s : List UInt8) (base : ℕ) : ℤ :=
  if s = [] ∨ t.max < digitsValue base s then t.max else digitsValue base s

/-- `i16`: `num.checked_mul(-1).unwrap_or(i16::MIN)` -/
def i16Type : IntType := ⟨2 ^ 15 - 1, fun n => if n = -2 ^ 15 then -2 ^ 15 else -n⟩

/-- `i32`: `num.checked_mul(-1).unwrap_or(i32::MIN)` -/
def i32Type : IntType := ⟨2 ^ 31 - 1, fun n => if n = -2 ^ 31 then -2 ^ 31 else -n⟩

/-- `u32`: `num.wrapping_neg()` -/
def u32Type : IntType := ⟨2 ^ 32 - 1, fun n => -n % 2 ^ 32⟩

/-- `u64`: `num.wrapping_neg()` -/
def u64Type : IntType := ⟨2 ^ 64 - 1, fun n => -n % 2 ^ 64⟩

def isSign (c : UInt8) : Bool := c == 43 || c == 45

/-- '0' -/
def isZero (c : UInt8) : Bool := c == 48

/-- 'x' or 'X' -/
def isX (c : UInt8) : Bool := c == 120 || c == 88

/-! ## The conversion -/

/-- the variables that the helper closure captures -/
structure IntScan where
  whitespaceLen : ℕ
  len : ℕ
  sign : Option UInt8
  prefixLength : ℕ
  base : ℕ
  chars : List UInt8
deriving DecidableEq, Repr

section

variable {σ : Type} (src : Source σ) (offset maxLength : ℕ)

/-- the loop over digits; it stops at the latest when `len` overflows -/
def digitsLoop : ℕ → IntScan → σ → Except Panic (IntScan × σ)
  | 0, _, _ => .error .overflow
  | fuel + 1, v, st => do
    let (curr, st) ← src.getcAt st (offset + v.whitespaceLen + v.len)
    match curr with
    | none => pure (v, st)
    | some curr => do
      assert (v.base ≤ 36) .base
      if isDigit v.base curr then
        let v := { v with chars := v.chars ++ [curr], len := v.len + 1 }
        if v.len = maxLength then pure (v, st) else digitsLoop fuel v st
      else do
        let st ← src.ungetc st curr
        assert (v.chars.length == v.len - v.prefixLength) .digitCount
        pure (v, st)

def digits (v : IntScan) (st : σ) : Except Panic (IntScan × σ) := digitsLoop src offset maxLength (2 ^ 32 - v.len) v st

def skipPrefix (v : IntScan) (st : σ) : Except Panic (IntScan × σ) :=
  if v.base = 8 ∨ v.base = 16 then do
    let (curr, st) ← src.getcAt st (offset + v.whitespaceLen + v.len)
    match curr with
    | none => pure (v, st)
    | some curr =>
      if isZero curr then
        let v := { v with len := v.len + 1 }
        if v.len = maxLength then pure (v, st)
        else
          let v := { v with prefixLength := v.prefixLength + 1 }
          if v.base = 16 then do
            let (next, st) ← src.getcAt st (offset + v.whitespaceLen + v.len)
            match next with
            | none => pure (v, st)
            | some next =>
              if isX next then
                let v := { v with len := v.len + 1 }
                if v.len = maxLength then pure (v, st)
                else digits src offset maxLength { v with prefixLength := v.prefixLength + 1 } st
              else do
                let st ← src.ungetc st next
                digits src offset maxLength v st
          else do
            -- a stream delivers the zero again, as a digit
            let st ← src.ungetc st curr
            digits src offset maxLength v st
      else do
        let st ← src.ungetc st curr
        digits src offset maxLength v st
  else digits src offset maxLength v st

def detectBase (v : IntScan) (st : σ) : Except Panic (IntScan × σ) :=
  if v.base = 0 then do
    let (curr, st) ← src.getcAt st (offset + v.whitespaceLen + v.len)
    match curr with
    | none => pure (v, st)
    | some curr =>
      if isZero curr then do
        let (next, st) ← src.getcAt st (offset + v.whitespaceLen + v.len + 1)
        match next with
        | none => pure (v, st)
        | some next => do
          let st ← src.ungetc st next
          let st ← src.ungetc st curr
          skipPrefix src offset maxLength { v with base := if isX next then 16 else 8 } st
      else do
        let st ← src.ungetc st curr
        skipPrefix src offset maxLength { v with base := 10 } st
  else skipPrefix src offset maxLength v st

def skipSign (v : IntScan) (st : σ) : Except Panic (IntScan × σ) := do
  let (maybeSign, st) ← src.getcAt st (offset + v.whitespaceLen + v.len)
  match maybeSign with
  | none => pure (v, st)
  | some maybeSign =>
    if isSign maybeSign then
      let v := { v with sign := some maybeSign, prefixLength := v.prefixLength + 1, len := v.len + 1 }
      if v.len = maxLength then pure (v, st) else detectBase src offset maxLength v st
    else do
      let st ← src.ungetc st maybeSign
      detectBase src offset maxLength v st

/-- the helper closure -/
def scanStages (base : ℕ) (st : σ) : Except Panic (IntScan × σ) := do
  let (whitespace, st) ← src.countWhitespaceGeneric st offset
  match whitespace with
  | .error count => pure (⟨count, 0, none, 0, base, []⟩, st)
  | .ok count => skipSign src offset maxLength ⟨count, 0, none, 0, base, []⟩ st

/-- what follows the helper closure -/
def IntScan.finish (t : IntType) (v : IntScan) : Except Panic (Option (ℤ × ℕ)) := do
  assert (2 ≤ v.base && v.base ≤ 36) .base
  if 0 < v.len - v.prefixLength then
    let res := t.fromStrRadix v.chars v.base
    let res := if v.sign = some 45 then t.negation res else res
    pure (some (res, v.whitespaceLen + v.len))
  else if v.base = 8 ∧ 0 < v.prefixLength then pure (some (0, v.whitespaceLen + v.prefixLength))
  else pure none

/-- `none` is the error -/
def strToIntInnerGeneric (t : IntType) (base : ℕ) (st : σ) : Except Panic (Option (ℤ × ℕ) × σ) := do
  let (v, st) ← scanStages src offset maxLength base st
  let res ← v.finish t
  pure (res, st)

end

/-! ## On a string -/

/-- the digits at the end of what has been scanned so far -/
def IntScan.addDigits (v : IntScan) (maxLength : ℕ) (r : List UInt8) : IntScan :=
  let ds := (r.takeWhile (isDigit v.base)).take (maxLength - v.len)
  { v with chars := v.chars ++ ds, len := v.len + ds.length }

/-- `skip_prefix` and the digits, where `r` is what follows -/
def IntScan.addPrefix (v : IntScan) (maxLength : ℕ) (r : List UInt8) : IntScan :=
  if (v.base = 8 ∨ v.base = 16) ∧ isZero (r.headD 0) then
    if v.len + 1 = maxLength then { v with len := v.len + 1 }
    else if v.base = 16 ∧ isX (r.tail.headD 0) then
      if v.len + 2 = maxLength then { v with len := v.len + 2, prefixLength := v.prefixLength + 1 }
      else { v with len := v.len + 2, prefixLength := v.prefixLength + 2 }.addDigits maxLength (r.drop 2)
    else { v with len := v.len + 1, prefixLength := v.prefixLength + 1 }.addDigits maxLength r.tail
  else v.addDigits maxLength r

/-- the base that the prefix of `r` says -/
def prefixBase (r : List UInt8) : ℕ := if isZero (r.headD 0) then if isX (r.tail.headD 0) then 16 else 8 else 10

def IntScan.addBase (v : IntScan) (maxLength : ℕ) (r : List UInt8) : IntScan :=
  { v with base := if v.base = 0 then prefixBase r else v.base }.addPrefix maxLength r

def IntScan.addSign (v : IntScan) (maxLength : ℕ) (r : List UInt8) : IntScan :=
  if isSign (r.headD 0) then
    let v := { v with sign := r.head?, prefixLength := v.prefixLength + 1, len := v.len + 1 }
    if v.len = maxLength then v else v.addBase maxLength r.tail
  else v.addBase maxLength r

/-- what the conversion scans in a string -/
def scanInt (base maxLength : ℕ) (r : List UInt8) : IntScan :=
  let whitespaceLen := (r.takeWhile isspaceInner).length
  IntScan.addSign ⟨whitespaceLen, 0, none, 0, base, []⟩ maxLength (r.drop whitespaceLen)

section

variable {σ : Type} {src : Source σ} {st : σ} {s r : List UInt8} {offset maxLength : ℕ} {v : IntScan}

theorem isDigit_zero (base : ℕ) : isDigit base 0 = false := rfl

/-- where the conversion stands: what is left of the string there -/
structure At (s : List UInt8) (offset maxLength : ℕ) (v : IntScan) (r : List UInt8) : Prop where
  base : v.base ≤ 36
  room : v.len < maxLength
  inside : offset + v.whitespaceLen + v.len ≤ s.length
  left : s.drop (offset + v.whitespaceLen + v.len) = r

namespace At

theorem head (h : At s offset maxLength v r) (hs : src.IsString st s) :
    src.getcAt st (offset + v.whitespaceLen + v.len) = .ok (some (r.headD 0), st) := by
  rw [hs.getcAt h.inside, Source.IsString.getD_eq_head, h.left]

/-- after a character -/
theorem next {c : UInt8} {v' : IntScan} (h : At s offset maxLength v (c :: r)) (hws : v'.whitespaceLen = v.whitespaceLen)
    (hlen : v'.len = v.len + 1) (hb : v'.base ≤ 36) (hroom : v'.len < maxLength) : At s offset maxLength v' r := by
  have hlt : offset + v.whitespaceLen + v.len < s.length := by
    have := congrArg List.length h.left
    simp only [List.length_drop, List.length_cons] at this
    omega
  refine ⟨hb, hroom, by omega, ?_⟩
  rw [hws, hlen, ← add_assoc, ← List.drop_drop, h.left]
  rfl

/-- with another base -/
theorem rebase {b : ℕ} (h : At s offset maxLength v r) (hb : b ≤ 36) : At s offset maxLength { v with base := b } r :=
  ⟨hb, h.room, h.inside, h.left⟩

end At

/-- one more digit -/
theorem addDigits_cons {c : UInt8} (hroom : v.len < maxLength) (hd : isDigit v.base c = true) :
    v.addDigits maxLength (c :: r) = { v with chars := v.chars ++ [c], len := v.len + 1 }.addDigits maxLength r := by
  obtain ⟨k, hk⟩ : ∃ k, maxLength - v.len = k + 1 := ⟨maxLength - v.len - 1, by omega⟩
  have hk' : maxLength - (v.len + 1) = k := by omega
  simp only [IntScan.addDigits, List.takeWhile_cons, hd, if_true, hk, hk', List.take_succ_cons, List.length_cons,
    List.append_assoc, List.singleton_append]
  congr 1
  omega

theorem digitsLoop_string (hs : src.IsString st s) (hm : maxLength < 2 ^ 32) (fuel : ℕ)
    (hv : At s offset maxLength v r) (hf : 2 ^ 32 ≤ v.len + fuel) (hc : v.chars.length = v.len - v.prefixLength)
    (hp : v.prefixLength ≤ v.len) :
    digitsLoop src offset maxLength fuel v st = .ok (v.addDigits maxLength r, st) := by
  induction fuel generalizing v r with
  | zero =>
    have := hv.room
    omega
  | succ fuel ih =>
    have hroom := hv.room
    rw [digitsLoop, hv.head hs, ok_bind]
    simp only [assert_ok (decide_eq_true hv.base), ok_bind]
    have hstop : ∀ c, (do
        let st ← src.ungetc st c
        assert (v.chars.length == v.len - v.prefixLength) Panic.digitCount
        pure (v, st) : Except Panic (IntScan × σ)) = .ok (v, st) := fun c => by
      rw [hs.ungetc, ok_bind, assert_ok (by simpa using hc), ok_bind, pure_eq_ok]
    cases r with
    | nil =>
      rw [List.headD_nil, isDigit_zero, if_neg Bool.false_ne_true, hstop]
      simp [IntScan.addDigits]
    | cons c rest =>
      rw [List.headD_cons]
      by_cases hd : isDigit v.base c = true
      · rw [if_pos hd]
        rw [addDigits_cons hroom hd]
        by_cases hend : v.len + 1 = maxLength
        · simp [hend, IntScan.addDigits]
        · rw [if_neg hend]
          exact ih (hv.next rfl rfl hv.base (by simp only; omega)) (by simp only; omega)
            (by simp only [List.length_append, List.length_singleton, hc]; omega) (by simp only; omega)
      · rw [if_neg hd, hstop]
        simp [IntScan.addDigits, hd]

theorem digits_string (hs : src.IsString st s) (hm : maxLength < 2 ^ 32) (hv : At s offset maxLength v r)
    (hc : v.chars = []) (hp : v.prefixLength = v.len) :
    digits src offset maxLength v st = .ok (v.addDigits maxLength r, st) :=
  digitsLoop_string hs hm _ hv (by have := hv.room; omega) (by simp [hc, hp]) hp.le

theorem isZero_nil : isZero (([] : List UInt8).headD 0) = false := rfl

theorem skipPrefix_string (hs : src.IsString st s) (hm : maxLength < 2 ^ 32) (hv : At s offset maxLength v r)
    (hc : v.chars = []) (hp : v.prefixLength = v.len) :
    skipPrefix src offset maxLength v st = .ok (v.addPrefix maxLength r, st) := by
  have hdigits := digits_string hs hm hv hc hp
  have hb := hv.base
  have hroom := hv.room
  have hhead := hv.head hs
  unfold skipPrefix IntScan.addPrefix
  by_cases hbase : v.base = 8 ∨ v.base = 16
  swap
  · rw [if_neg hbase, hdigits]
    simp [hbase]
  rw [if_pos hbase, hhead, ok_bind]
  simp only [hbase, true_and]
  by_cases hz : isZero (r.headD 0) = true
  swap
  · rw [if_neg hz, if_neg hz, hs.ungetc, ok_bind, hdigits]
  rw [if_pos hz, if_pos hz]
  by_cases hend : v.len + 1 = maxLength
  · simp only [hend, if_true, pure_eq_ok]
  rw [if_neg hend, if_neg hend]
  cases r with
  | nil => exact absurd hz (by decide)
  | cons c rest =>
    have hv1 : At s offset maxLength { v with len := v.len + 1, prefixLength := v.prefixLength + 1 } rest :=
      hv.next rfl rfl hb (by simp only; omega)
    have hd1 := digits_string hs hm hv1 hc (by simp only [hp])
    rcases hbase with h8 | h16
    · have hne : ¬ (v.base = 16) := by omega
      simp only [hne, if_false, false_and, hs.ungetc, ok_bind, hd1, List.tail_cons]
    have hhead1 := hv1.head hs
    simp only at hhead1
    simp only [h16, if_true, true_and, List.tail_cons, hhead1, ok_bind]
    rw [h16] at hd1
    by_cases hx : isX (rest.headD 0) = true
    swap
    · rw [if_neg hx, if_neg hx, hs.ungetc, ok_bind, hd1]
    rw [if_pos hx, if_pos hx]
    by_cases hend2 : v.len + 1 + 1 = maxLength
    · simp only [hend2, if_true, pure_eq_ok]
    rw [if_neg hend2, if_neg hend2]
    cases rest with
    | nil => exact absurd hx (by decide)
    | cons c' rest' =>
      have hv2 : At s offset maxLength { v with len := v.len + 2, prefixLength := v.prefixLength + 2 } rest' :=
        hv1.next rfl rfl hb (by simp only; omega)
      have hd2 := digits_string hs hm hv2 hc (by simp only [hp])
      rw [h16] at hd2
      exact hd2

theorem detectBase_string (hs : src.IsString st s) (hm : maxLength < 2 ^ 32) (hv : At s offset maxLength v r)
    (hc : v.chars = []) (hp : v.prefixLength = v.len) :
    detectBase src offset maxLength v st = .ok (v.addBase maxLength r, st) := by
  unfold detectBase IntScan.addBase
  by_cases hbase : v.base = 0
  swap
  · rw [if_neg hbase, if_neg hbase]
    exact skipPrefix_string hs hm hv hc hp
  rw [if_pos hbase, if_pos hbase, hv.head hs, ok_bind]
  unfold prefixBase
  by_cases hz : isZero (r.headD 0) = true
  swap
  · simp only [hz, Bool.false_eq_true, if_false, hs.ungetc, ok_bind]
    exact skipPrefix_string hs hm (hv.rebase (by decide)) hc hp
  cases r with
  | nil => exact absurd hz (by decide)
  | cons c rest =>
    have hnext : src.getcAt st (offset + v.whitespaceLen + v.len + 1) = .ok (some (rest.headD 0), st) := by
      have hlt : offset + v.whitespaceLen + v.len < s.length := by
        have := congrArg List.length hv.left
        simp only [List.length_drop, List.length_cons] at this
        omega
      have hrest : s.drop (offset + v.whitespaceLen + v.len + 1) = rest := by rw [← List.drop_drop, hv.left]; rfl
      rw [hs.getcAt (i := offset + v.whitespaceLen + v.len + 1) hlt, Source.IsString.getD_eq_head, hrest]
    simp only [hz, if_true, hnext, hs.ungetc, ok_bind, List.tail_cons]
    have hb : (if isX (rest.headD 0) = true then 16 else 8) ≤ 36 := by split_ifs <;> decide
    exact skipPrefix_string hs hm (hv.rebase hb) hc hp

theorem skipSign_string (hs : src.IsString st s) (hm : maxLength < 2 ^ 32) (hv : At s offset maxLength v r)
    (hc : v.chars = []) (hp : v.prefixLength = v.len) :
    skipSign src offset maxLength v st = .ok (v.addSign maxLength r, st) := by
  unfold skipSign IntScan.addSign
  rw [hv.head hs, ok_bind]
  by_cases hsg : isSign (r.headD 0) = true
  swap
  · simp only [hsg, Bool.false_eq_true, if_false, hs.ungetc, ok_bind]
    exact detectBase_string hs hm hv hc hp
  cases r with
  | nil => exact absurd hsg (by decide)
  | cons c rest =>
    simp only [List.headD_cons] at hsg
    simp only [List.headD_cons, hsg, if_true, List.head?_cons, List.tail_cons]
    by_cases hend : v.len + 1 = maxLength
    · simp only [hend, if_true, pure_eq_ok]
    · rw [if_neg hend, if_neg hend]
      have hroom := hv.room
      exact detectBase_string hs hm (hv.next rfl rfl hv.base (by simp only; omega)) hc (by simp only [hp])

/-- **The conversion on a string** finds what `scanInt` finds in what is left of it. -/
theorem strToInt_string (hs : src.IsString st s) (ho : offset ≤ s.length) {base : ℕ} (hb : base ≤ 36)
    (hm : 0 < maxLength) (hm' : maxLength < 2 ^ 32) (t : IntType) :
    strToIntInnerGeneric src offset maxLength t base st =
      (fun res => (res, st)) <$> (scanInt base maxLength (s.drop offset)).finish t := by
  have hws : ((s.drop offset).takeWhile isspaceInner).length ≤ s.length - offset := by
    calc ((s.drop offset).takeWhile isspaceInner).length ≤ (s.drop offset).length :=
          (List.takeWhile_sublist _).length_le
      _ = s.length - offset := List.length_drop
  unfold strToIntInnerGeneric scanStages
  rw [hs.countWhitespace ho, ok_bind]
  simp only
  rw [skipSign_string (r := (s.drop offset).drop ((s.drop offset).takeWhile isspaceInner).length) hs hm'
    ⟨hb, hm, by simp only; omega, by simp only [List.drop_drop, add_zero]⟩ rfl rfl, ok_bind]
  show _ = _ <$> (scanInt base maxLength (s.drop offset)).finish t
  unfold scanInt
  cases IntScan.finish t _ with
  | error e => rfl
  | ok res => rfl

end

end TouchHLE
