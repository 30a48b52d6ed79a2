/-
`atof`, `strtod` and `strtof` (`libc/stdlib.rs`) and the decimal floating-point numbers of the C standard.

- `atofInner`, `strtod`, `atof`, `strtof`: the functions. `f64FromStr`: `str::parse`, which takes all of its text or nothing;
  what it makes of the characters is left open.
- `DecimalNumber`: the grammar. `NumberPrefix`: the longest prefix in it.
- `number_isPrefix`: every number at the start of a string is a prefix of `floatChars`, the characters that the code takes.
- `strtod_iff`: the functions find the longest number unless an exponent without a digit follows it.
-/
import TouchHLE.Libc.CStrings
import TouchHLE.Libc.Sscanf
import TouchHLE.Libc.Strtol
import Mathlib.Data.List.TakeWhile

namespace TouchHLE.Atof

open Machine Words Scanf Abi

/-! ## The functions -/

/-- 'e' or 'E' -/
def isE (c : UInt8) : Bool := c == 101 || c == 69

/-- `Exp` in the grammar of `f64::from_str` -/
def isExponent (l : List UInt8) : Bool :=
  isE (l.headD 0) && afterSign l.tail != [] && (afterSign l.tail).all (isDigit 10)

/-- what may follow the sign and the first digits: '.' and digits -/
def afterPoint (r : List UInt8) : List UInt8 × List UInt8 :=
  if r.headD 0 = 46 then (r.tail.takeWhile (isDigit 10), r.tail.dropWhile (isDigit 10)) else ([], r)

/-- `Number`, after an optional sign -/
def isNumber (l : List UInt8) : Bool :=
  let r := afterSign l
  let whole := r.takeWhile (isDigit 10)
  let (fraction, r) := afterPoint (r.dropWhile (isDigit 10))
  (whole != [] || fraction != []) && (r == [] || isExponent r)

/-- "inf", "infinity" and "nan" in any case, after an optional sign -/
def isSpecial (l : List UInt8) : Bool :=
  let word := (afterSign l).map fun c => if 65 ≤ c ∧ c ≤ 90 then c + 32 else c
  word == [105, 110, 102] || word == [105, 110, 102, 105, 110, 105, 116, 121] || word == [110, 97, 110]

/-- `str::parse` for an `f64`, where `number` is the value of a text that is one -/
def f64FromStr (number : List UInt8 → F64) (l : List UInt8) : Option F64 :=
  if isNumber l || isSpecial l then some (number l) else none

def atofInner (number : List UInt8 → F64) (m : Mem) (s : ℕ) : Except Panic (Option (F64 × ℕ)) := do
  let (res, _) ← atofInnerGeneric (cString s) (f64FromStr number) 0 m
  pure res

def strtod (number : List UInt8 → F64) (m : Mem) (nptr endptr : ℕ) : Except Panic (F64 × Mem) := do
  let parsed ← atofInner number m nptr
  let (res, len) := parsed.getD (⟨0⟩, 0)
  let m ← writeEnd m endptr nptr len
  pure (res, m)

def atof (number : List UInt8 → F64) (m : Mem) (s : ℕ) : Except Panic F64 := do
  let (res, _) ← strtod number m s 0
  pure res

/-- `narrow` is the conversion to an `f32` -/
def strtof (narrow : F64 → F32) (number : List UInt8 → F64) (m : Mem) (nptr endptr : ℕ) : Except Panic (F32 × Mem) := do
  let parsed ← atofInner number m nptr
  let (res, len) := parsed.getD (⟨0⟩, 0)
  let m ← writeEnd m endptr nptr len
  pure (narrow res, m)

/-! ## The grammar -/

def OptSign (l : List UInt8) : Prop := l = [] ∨ ∃ c, isSign c = true ∧ l = [c]

def Digits (l : List UInt8) : Prop := ∀ c ∈ l, isDigit 10 c = true

/-- a sign and digits with an optional point among them, at least one digit -/
inductive Mantissa : List UInt8 → Prop
  | whole {sign ds : List UInt8} (hsign : OptSign sign) (hds : Digits ds) (hne : ds ≠ []) : Mantissa (sign ++ ds)
  | point {sign ds es : List UInt8} (hsign : OptSign sign) (hds : Digits ds) (hes : Digits es) (hne : ds ≠ [] ∨ es ≠ []) :
    Mantissa (sign ++ ds ++ 46 :: es)

inductive Exponent : List UInt8 → Prop
  | mk {c : UInt8} {sign ds : List UInt8} (hc : isE c = true) (hsign : OptSign sign) (hds : Digits ds) (hne : ds ≠ []) :
    Exponent (c :: (sign ++ ds))

inductive DecimalNumber : List UInt8 → Prop
  | mantissa {l : List UInt8} (h : Mantissa l) : DecimalNumber l
  | exponent {l x : List UInt8} (h : Mantissa l) (hx : Exponent x) : DecimalNumber (l ++ x)

/-- `p` is the longest number at the start of `r` -/
structure NumberPrefix (r p : List UInt8) : Prop where
  isPrefix : p <+: r
  number : DecimalNumber p
  longest : ∀ q, q <+: r → DecimalNumber q → q.length ≤ p.length

/-- a number, and the letter of an exponent without its digits -/
def UnfinishedExponent (r : List UInt8) : Prop :=
  ∃ p c rest, r = p ++ c :: rest ∧ Mantissa p ∧ isE c = true ∧ isDigit 10 ((afterSign rest).headD 0) = false

/-- what a function of the family should do with the string `s`, whatever the parser makes of a number: the value is that of
the longest number, and the end is behind it -/
def ParsesLongest {α : Type} (s : List UInt8) (result : F64 → ℕ → α) (f : (List UInt8 → F64) → Except Panic α) : Prop :=
  ∀ number,
    (∀ p, NumberPrefix (afterSpace s) p →
      f number = .ok (result (number p) (s.length - (afterSpace s).length + p.length))) ∧
    ((∀ p, ¬NumberPrefix (afterSpace s) p) → f number = .ok (result ⟨0⟩ 0))

/-! ## Characters -/

variable {r t p q x l sign ds es rest : List UInt8} {c : UInt8}

theorem isE_not_digit (h : isE c = true) : isDigit 10 c = false ∧ isSign c = false ∧ c ≠ 46 := by
  have hc : c = 101 ∨ c = 69 := by simpa [isE] using h
  rcases hc with rfl | rfl <;> decide

theorem isE_iff : isE c = true ↔ c = 101 ∨ c = 69 := by simp [isE]

theorem isSign_not_digit (h : isSign c = true) : isDigit 10 c = false := by
  have hc : c = 43 ∨ c = 45 := by simpa [isSign] using h
  rcases hc with rfl | rfl <;> decide

theorem digit_not_sign (h : isDigit 10 c = true) : isSign c = false := by
  by_contra hs
  rw [isSign_not_digit (by simpa using hs)] at h
  exact absurd h Bool.false_ne_true

theorem takeWhile_digits (hds : Digits ds) (t : List UInt8) :
    (ds ++ t).takeWhile (isDigit 10) = ds ++ t.takeWhile (isDigit 10) ∧
      (ds ++ t).dropWhile (isDigit 10) = t.dropWhile (isDigit 10) := by
  constructor
  · rw [List.takeWhile_append_of_pos hds]
  · rw [List.dropWhile_append_of_pos hds]

theorem takeWhile_nil (h : isDigit 10 (t.headD 0) = false) :
    t.takeWhile (isDigit 10) = [] ∧ t.dropWhile (isDigit 10) = t := by
  cases t with
  | nil => exact ⟨rfl, rfl⟩
  | cons c t =>
    rw [List.headD_cons] at h
    have hc : ¬isDigit 10 c = true := by rw [h]; exact Bool.false_ne_true
    exact ⟨List.takeWhile_cons_of_neg hc, List.dropWhile_cons_of_neg hc⟩

theorem digits_takeWhile (r : List UInt8) : Digits (r.takeWhile (isDigit 10)) := fun _ hc => List.mem_takeWhile_imp hc

/-- what `afterSign` skips -/
theorem afterSign_split (r : List UInt8) : ∃ sign, OptSign sign ∧ r = sign ++ afterSign r := by
  unfold afterSign
  cases r with
  | nil => exact ⟨[], .inl rfl, rfl⟩
  | cons c r =>
    rw [List.headD_cons]
    split_ifs with hc
    · exact ⟨[c], .inr ⟨c, hc, rfl⟩, rfl⟩
    · exact ⟨[], .inl rfl, rfl⟩

theorem afterSign_append (hsign : OptSign sign) (ht : isSign (t.headD 0) = false) : afterSign (sign ++ t) = t := by
  unfold afterSign
  rcases hsign with rfl | ⟨c, hc, rfl⟩
  · rw [List.nil_append, ht]
    exact if_neg Bool.false_ne_true
  · exact if_pos hc

/-- digits, or what follows them -/
theorem headD_digits (hds : Digits ds) (ht : isSign (t.headD 0) = false) : isSign ((ds ++ t).headD 0) = false := by
  cases ds with
  | nil => exact ht
  | cons d ds => exact digit_not_sign (hds d List.mem_cons_self)

/-! ## What the code takes -/

/-- the characters before the exponent -/
def mantissaChars (r : List UInt8) : List UInt8 := signChars r ++ fractionChars (r.drop (signChars r).length)

theorem signChars_isPrefix (r : List UInt8) : signChars r <+: r := by
  unfold signChars
  split
  · exact List.nil_prefix
  · split_ifs
    · exact List.cons_prefix_cons.2 ⟨rfl, List.takeWhile_prefix _⟩
    · exact List.nil_prefix

theorem fractionChars_isPrefix (r : List UInt8) : fractionChars r <+: r := by
  unfold fractionChars
  split
  · exact List.nil_prefix
  · split_ifs
    · exact List.cons_prefix_cons.2 ⟨rfl, List.takeWhile_prefix _⟩
    · exact List.nil_prefix

theorem exponentChars_isPrefix (r : List UInt8) : exponentChars r <+: r := by
  unfold exponentChars
  split
  · exact List.nil_prefix
  · split_ifs
    · exact List.cons_prefix_cons.2 ⟨rfl, signChars_isPrefix _⟩
    · exact List.nil_prefix

/-- a prefix, and a prefix of what is behind it -/
theorem append_prefix (hp : p <+: r) (hq : q <+: r.drop p.length) : p ++ q <+: r := by
  obtain ⟨t, rfl⟩ := hp
  rw [List.drop_left] at hq
  exact (List.prefix_append_right_inj p).2 hq

theorem mantissaChars_isPrefix (r : List UInt8) : mantissaChars r <+: r :=
  append_prefix (signChars_isPrefix r) (fractionChars_isPrefix _)

theorem floatChars_eq (r : List UInt8) : floatChars r = mantissaChars r ++ exponentChars (r.drop (mantissaChars r).length) := by
  unfold floatChars mantissaChars
  rw [List.length_append, ← List.drop_drop]

theorem floatChars_isPrefix (r : List UInt8) : floatChars r <+: r := by
  rw [floatChars_eq]
  exact append_prefix (mantissaChars_isPrefix r) (exponentChars_isPrefix _)

/-- the first characters of a number are a sign and digits -/
theorem signChars_append (hsign : OptSign sign) (hds : Digits ds)
    (h : sign = [] → ds = [] → isSign (t.headD 0) = false ∧ isDigit 10 (t.headD 0) = false) :
    signChars (sign ++ ds ++ t) = sign ++ ds ++ t.takeWhile (isDigit 10) := by
  rcases hsign with rfl | ⟨c, hc, rfl⟩
  · rw [List.nil_append]
    cases ds with
    | nil =>
      obtain ⟨hs, hd⟩ := h rfl rfl
      rw [List.nil_append, (takeWhile_nil hd).1]
      cases t with
      | nil => rfl
      | cons c t =>
        rw [List.headD_cons] at hs hd
        simp only [signChars, hs, hd, Bool.or_self, Bool.false_eq_true, if_false, List.append_nil]
    | cons d ds =>
      have hd := hds d List.mem_cons_self
      have htail : Digits ds := fun c hc => hds c (List.mem_cons_of_mem d hc)
      simp only [List.cons_append, signChars, hd, Bool.or_true, if_true, (takeWhile_digits htail t).1]
  · simp only [List.cons_append, List.nil_append, signChars, hc, Bool.true_or, if_true, (takeWhile_digits hds t).1]

theorem mantissaChars_whole (hsign : OptSign sign) (hds : Digits ds) (hne : ds ≠ []) (t : List UInt8) :
    mantissaChars (sign ++ ds ++ t) =
      sign ++ ds ++ t.takeWhile (isDigit 10) ++ fractionChars (t.dropWhile (isDigit 10)) := by
  have hsigned := signChars_append (t := t) hsign hds fun _ h => absurd h hne
  unfold mantissaChars
  rw [hsigned]
  congr 2
  rw [List.length_append, ← List.drop_drop, List.drop_left]
  conv_lhs => arg 2; rw [← List.takeWhile_append_dropWhile (p := isDigit 10) (l := t)]
  exact List.drop_left

theorem mantissaChars_point (hsign : OptSign sign) (hds : Digits ds) (hes : Digits es) (t : List UInt8) :
    mantissaChars (sign ++ ds ++ 46 :: es ++ t) = sign ++ ds ++ 46 :: es ++ t.takeWhile (isDigit 10) := by
  have hsigned := signChars_append (t := 46 :: (es ++ t)) hsign hds fun _ _ => ⟨rfl, rfl⟩
  have hpoint : (46 :: (es ++ t)).takeWhile (isDigit 10) = [] := List.takeWhile_cons_of_neg (by decide)
  rw [hpoint, List.append_nil] at hsigned
  have hassoc : sign ++ ds ++ 46 :: es ++ t = sign ++ ds ++ 46 :: (es ++ t) := by simp only [List.append_assoc, List.cons_append]
  unfold mantissaChars
  rw [hassoc, hsigned, List.drop_left]
  simp only [fractionChars, if_true, (takeWhile_digits hes t).1, List.append_assoc, List.cons_append]

/-- the code takes a mantissa -/
theorem mantissa_isPrefix (h : Mantissa p) (t : List UInt8) : p <+: mantissaChars (p ++ t) := by
  cases h with
  | whole hsign hds hne =>
    rw [mantissaChars_whole hsign hds hne, List.append_assoc]
    exact List.prefix_append _ _
  | point hsign hds hes hne =>
    rw [mantissaChars_point hsign hds hes]
    exact List.prefix_append _ _

/-- and no more, if it ends there -/
theorem mantissaChars_eq (h : Mantissa p) (hdigit : isDigit 10 (t.headD 0) = false) (hpoint : t.headD 0 ≠ 46) :
    mantissaChars (p ++ t) = p := by
  obtain ⟨htake, hdrop⟩ := takeWhile_nil hdigit
  cases h with
  | whole hsign hds hne =>
    have hfraction : fractionChars t = [] := by
      cases t with
      | nil => rfl
      | cons c t => exact if_neg hpoint
    rw [mantissaChars_whole hsign hds hne, htake, hdrop, hfraction, List.append_nil, List.append_nil]
  | point hsign hds hes hne => rw [mantissaChars_point hsign hds hes, htake, List.append_nil]

/-- the code takes an exponent -/
theorem exponentChars_append (h : Exponent x) (t : List UInt8) : exponentChars (x ++ t) = x ++ t.takeWhile (isDigit 10) := by
  obtain ⟨hc, hsign, hds, hne⟩ := h
  rw [List.cons_append]
  simp only [exponentChars, if_pos (isE_iff.1 hc), signChars_append hsign hds fun _ h => absurd h hne, List.cons_append]

/-- the mantissa ends where the exponent begins -/
theorem mantissaChars_exponent (h : Mantissa l) (hx : Exponent x) (t : List UInt8) : mantissaChars (l ++ x ++ t) = l := by
  rw [List.append_assoc]
  cases hx with
  | mk hc hsign hds hne =>
    obtain ⟨hdigit, -, hpoint⟩ := isE_not_digit hc
    exact mantissaChars_eq h hdigit hpoint

/-- **Every number at the start of a string** is a prefix of what the code takes. -/
theorem number_isPrefix (h : DecimalNumber q) (hq : q <+: r) : q <+: floatChars r := by
  obtain ⟨t, rfl⟩ := hq
  rw [floatChars_eq]
  cases h with
  | mantissa h => exact (mantissa_isPrefix h t).trans (List.prefix_append _ _)
  | @exponent l x h hx =>
    rw [mantissaChars_exponent h hx, List.append_assoc, List.drop_left, exponentChars_append hx, ← List.append_assoc]
    exact List.prefix_append _ _

/-- so if that is a number, then it is the longest one -/
theorem numberPrefix_floatChars (h : DecimalNumber (floatChars r)) : NumberPrefix r (floatChars r) :=
  ⟨floatChars_isPrefix r, h, fun _ hq hn => (number_isPrefix hn hq).length_le⟩

theorem Mantissa.digit (h : Mantissa p) : ∃ c ∈ p, isDigit 10 c = true := by
  cases h with
  | @whole sign ds hsign hds hne =>
    obtain ⟨c, hc⟩ := List.exists_mem_of_ne_nil ds hne
    exact ⟨c, List.mem_append_right sign hc, hds c hc⟩
  | @point sign ds es hsign hds hes hne =>
    rcases hne with hne | hne
    · obtain ⟨c, hc⟩ := List.exists_mem_of_ne_nil ds hne
      exact ⟨c, List.mem_append_left _ (List.mem_append_right sign hc), hds c hc⟩
    · obtain ⟨c, hc⟩ := List.exists_mem_of_ne_nil es hne
      exact ⟨c, List.mem_append_right _ (List.mem_cons_of_mem 46 hc), hes c hc⟩

theorem Exponent.digit (h : Exponent x) : ∃ c ∈ x, isDigit 10 c = true := by
  cases h with
  | @mk c sign ds hc hsign hds hne =>
    obtain ⟨d, hd⟩ := List.exists_mem_of_ne_nil ds hne
    exact ⟨d, List.mem_cons_of_mem c (List.mem_append_right sign hd), hds d hd⟩

theorem OptSign.no_digit (h : OptSign sign) : ∀ c ∈ sign, isDigit 10 c = false := by
  intro c hc
  rcases h with rfl | ⟨c', hc', rfl⟩
  · exact absurd hc List.not_mem_nil
  · rw [List.mem_singleton.1 hc]
    exact isSign_not_digit hc'

/-- a sign and digits, as the code takes them -/
theorem signChars_split (r : List UInt8) : ∃ sign ds, OptSign sign ∧ Digits ds ∧ signChars r = sign ++ ds ∧
    (ds = [] ↔ isDigit 10 ((afterSign r).headD 0) = false) := by
  cases r with
  | nil => exact ⟨[], [], .inl rfl, nofun, rfl, by decide⟩
  | cons c r =>
    by_cases hs : isSign c = true
    · have hafter : afterSign (c :: r) = r := if_pos hs
      refine ⟨[c], r.takeWhile (isDigit 10), .inr ⟨c, hs, rfl⟩, digits_takeWhile r, ?_, ?_⟩
      · simp only [signChars, hs, Bool.true_or, if_true, List.cons_append, List.nil_append]
      · rw [hafter, takeWhile_eq_nil (isDigit_zero 10)]
    · have hafter : afterSign (c :: r) = c :: r := if_neg hs
      by_cases hd : isDigit 10 c = true
      · refine ⟨[], c :: r.takeWhile (isDigit 10), .inl rfl, ?_, ?_, ?_⟩
        · intro x hx
          rcases List.mem_cons.1 hx with rfl | hx
          · exact hd
          · exact digits_takeWhile r x hx
        · simp only [signChars, hd, Bool.or_true, if_true, List.nil_append]
        · rw [hafter, List.headD_cons, hd]
          exact ⟨fun h => absurd h (List.cons_ne_nil _ _), fun h => absurd h.symm Bool.false_ne_true⟩
      · refine ⟨[], [], .inl rfl, nofun, ?_, ?_⟩
        · simp only [signChars, hs, hd, Bool.or_self, Bool.false_eq_true, if_false, List.append_nil]
        · rw [hafter, List.headD_cons]
          exact ⟨fun _ => by simpa using hd, fun _ => rfl⟩

/-- what the code takes before the exponent is a mantissa if it has a digit -/
theorem mantissa_of_digit (h : ∃ c ∈ mantissaChars r, isDigit 10 c = true) : Mantissa (mantissaChars r) := by
  obtain ⟨sign, ds, hsign, hds, hsplit, -⟩ := signChars_split r
  unfold mantissaChars at h ⊢
  rw [hsplit] at h ⊢
  have hnosign := hsign.no_digit
  generalize r.drop (sign ++ ds).length = t at h ⊢
  have hfraction : fractionChars t = [] ∨ ∃ es, Digits es ∧ fractionChars t = 46 :: es := by
    cases t with
    | nil => exact .inl rfl
    | cons c t =>
      by_cases hc : c = 46
      · exact .inr ⟨_, digits_takeWhile t, by rw [hc]; rfl⟩
      · exact .inl (if_neg hc)
  obtain ⟨c, hmem, hc⟩ := h
  rcases hfraction with hf | ⟨es, hes, hf⟩
  · rw [hf, List.append_nil] at hmem ⊢
    refine .whole hsign hds fun hnil => ?_
    rw [hnil, List.append_nil] at hmem
    exact absurd hc (by rw [hnosign c hmem]; exact Bool.false_ne_true)
  · rw [hf] at hmem ⊢
    refine .point hsign hds hes ?_
    by_contra hnone
    push Not at hnone
    rw [hnone.1, hnone.2, List.append_nil] at hmem
    rcases List.mem_append.1 hmem with hmem | hmem
    · exact absurd hc (by rw [hnosign c hmem]; exact Bool.false_ne_true)
    · rw [List.mem_singleton.1 hmem] at hc
      exact absurd hc (by decide)

/-- without a mantissa there is no number -/
theorem mantissa_of_number (h : DecimalNumber q) (hq : q <+: r) : Mantissa (mantissaChars r) := by
  obtain ⟨l, hl, hlr⟩ : ∃ l, Mantissa l ∧ l <+: r := by
    cases h with
    | mantissa h => exact ⟨q, h, hq⟩
    | exponent h hx => exact ⟨_, h, (List.prefix_append _ _).trans hq⟩
  obtain ⟨t, rfl⟩ := hlr
  obtain ⟨c, hc, hd⟩ := hl.digit
  exact mantissa_of_digit ⟨c, (mantissa_isPrefix hl t).subset hc, hd⟩

/-- what the code takes is a number, or an exponent does not end in one -/
theorem number_or_unfinished (h : Mantissa (mantissaChars r)) : DecimalNumber (floatChars r) ∨ UnfinishedExponent r := by
  obtain ⟨t, ht⟩ := mantissaChars_isPrefix r
  have hdrop : r.drop (mantissaChars r).length = t := by
    conv_lhs => arg 2; rw [← ht]
    exact List.drop_left
  rw [floatChars_eq, hdrop]
  cases t with
  | nil =>
    left
    rw [exponentChars, List.append_nil]
    exact .mantissa h
  | cons c rest =>
    by_cases hc : isE c = true
    · have hchars : exponentChars (c :: rest) = c :: signChars rest := if_pos (isE_iff.1 hc)
      cases hd : isDigit 10 ((afterSign rest).headD 0) with
      | false => exact .inr ⟨_, c, rest, ht.symm, h, hc, hd⟩
      | true =>
        obtain ⟨sign, ds, hsign, hds, hsplit, hne⟩ := signChars_split rest
        rw [hchars, hsplit]
        have hds' : ds ≠ [] := fun hnil => absurd ((hne.1 hnil).symm.trans hd) Bool.false_ne_true
        exact .inl (.exponent h ⟨hc, hsign, hds, hds'⟩)
    · left
      have hchars : exponentChars (c :: rest) = [] := if_neg fun h => hc (isE_iff.2 h)
      rw [hchars, List.append_nil]
      exact .mantissa h

/-- **An exponent without a digit**: the longest number ends before it, and what the code takes is none. -/
theorem unfinished_number (h : UnfinishedExponent r) : (∃ p, NumberPrefix r p) ∧ ¬DecimalNumber (floatChars r) := by
  obtain ⟨p, c, rest, rfl, hp, hc, hd⟩ := h
  obtain ⟨hdigit, -, hpoint⟩ := isE_not_digit hc
  have hmantissa : mantissaChars (p ++ c :: rest) = p := mantissaChars_eq hp hdigit hpoint
  -- the code takes no digit after the letter
  have hnone : ∀ x ∈ exponentChars (c :: rest), isDigit 10 x = false := by
    have hchars : exponentChars (c :: rest) = c :: signChars rest := if_pos (isE_iff.1 hc)
    obtain ⟨sign, ds, hsign, -, hsplit, hds⟩ := signChars_split rest
    intro x hx
    rw [hchars, hsplit, hds.2 hd, List.append_nil] at hx
    rcases List.mem_cons.1 hx with rfl | hx
    · exact hdigit
    · exact hsign.no_digit x hx
  have hlongest : ∀ q, q <+: p ++ c :: rest → DecimalNumber q → q <+: p := by
    intro q hq hn
    have hprefix := number_isPrefix hn hq
    rw [floatChars_eq, hmantissa, List.drop_left] at hprefix
    cases hn with
    | mantissa h =>
      obtain ⟨t, ht⟩ := hq
      have hm := mantissa_isPrefix h t
      rw [ht, hmantissa] at hm
      exact hm
    | @exponent l x h hx =>
      obtain ⟨t, ht⟩ := hq
      have hl := mantissaChars_exponent h hx t
      rw [ht, hmantissa] at hl
      subst hl
      obtain ⟨d, hmem, hdx⟩ := hx.digit
      have hmem' := ((List.prefix_append_right_inj p).1 hprefix).subset hmem
      exact absurd (hnone d hmem' ▸ hdx) Bool.false_ne_true
  refine ⟨⟨p, List.prefix_append _ _, .mantissa hp, fun q hq hn => (hlongest q hq hn).length_le⟩, fun hn => ?_⟩
  have hle := (hlongest _ (floatChars_isPrefix _) hn).length_le
  have hchars : exponentChars (c :: rest) = c :: signChars rest := if_pos (isE_iff.1 hc)
  rw [floatChars_eq, hmantissa, List.drop_left, hchars, List.length_append, List.length_cons] at hle
  omega

/-! ## The parser -/

theorem isExponent_iff : isExponent x = true ↔ Exponent x := by
  constructor
  · intro h
    unfold isExponent at h
    simp only [Bool.and_eq_true, bne_iff_ne, List.all_eq_true] at h
    obtain ⟨⟨hc, hne⟩, hds⟩ := h
    cases x with
    | nil => exact absurd hc (by decide)
    | cons c r =>
      obtain ⟨sign, hsign, hsplit⟩ := afterSign_split r
      rw [hsplit]
      exact ⟨hc, hsign, hds, hne⟩
  · intro ⟨hc, hsign, hds, hne⟩
    have hafter := headD_digits (t := []) hds (by decide)
    rw [List.append_nil] at hafter
    unfold isExponent
    simp only [List.headD_cons, List.tail_cons, afterSign_append hsign hafter, hc, Bool.true_and, Bool.and_eq_true, bne_iff_ne,
      List.all_eq_true]
    exact ⟨hne, hds⟩

theorem isNumber_of_mantissa (h : Mantissa p) (hx : x = [] ∨ Exponent x) : isNumber (p ++ x) = true := by
  have hend : (x == [] || isExponent x) = true := by
    rcases hx with rfl | hx
    · rfl
    · rw [isExponent_iff.2 hx, Bool.or_true]
  have hhead : isDigit 10 (x.headD 0) = false ∧ isSign (x.headD 0) = false ∧ x.headD 0 ≠ 46 := by
    rcases hx with rfl | ⟨hc, -, -, -⟩
    · decide
    · exact isE_not_digit hc
  obtain ⟨hdigit, hnosign, hpoint⟩ := hhead
  obtain ⟨htake, hdrop⟩ := takeWhile_nil hdigit
  unfold isNumber
  cases h with
  | @whole sign ds hsign hds hne =>
    have hwhole := takeWhile_digits hds x
    simp only [List.append_assoc, afterSign_append hsign (headD_digits hds hnosign), hwhole.1, hwhole.2, htake, hdrop,
      List.append_nil, afterPoint, if_neg hpoint, hend, Bool.and_true]
    simpa using hne
  | @point sign ds es hsign hds hes hne =>
    have hcons : isSign ((46 :: (es ++ x)).headD 0) = false := rfl
    have hwhole := takeWhile_digits hds (46 :: (es ++ x))
    have hstop : isDigit 10 46 = false := by decide
    have hfraction := takeWhile_digits hes x
    simp only [List.append_assoc, List.cons_append, afterSign_append hsign (headD_digits hds hcons), hwhole.1, hwhole.2,
      List.takeWhile_cons, List.dropWhile_cons, hstop, Bool.false_eq_true, if_false, List.append_nil, afterPoint,
      List.headD_cons, if_true, List.tail_cons, hfraction.1, hfraction.2, htake, hdrop, hend, Bool.and_true]
    simpa [or_iff_not_imp_left] using hne

theorem number_of_isNumber (h : isNumber l = true) : DecimalNumber l := by
  obtain ⟨sign, hsign, hsplit⟩ := afterSign_split l
  unfold isNumber at h
  simp only [Bool.and_eq_true, Bool.or_eq_true_iff, bne_iff_ne] at h
  generalize afterSign l = r at hsplit h
  have hr : r = r.takeWhile (isDigit 10) ++ r.dropWhile (isDigit 10) := List.takeWhile_append_dropWhile.symm
  have hwhole := digits_takeWhile r
  generalize r.takeWhile (isDigit 10) = whole at hr hwhole h
  generalize r.dropWhile (isDigit 10) = r₁ at hr h
  have hnumber : ∀ {p x}, Mantissa p → (x == [] || isExponent x) = true → DecimalNumber (p ++ x) := by
    intro p x hp hx
    rcases Bool.or_eq_true_iff.1 hx with hx | hx
    · rw [eq_of_beq hx, List.append_nil]
      exact .mantissa hp
    · exact .exponent hp (isExponent_iff.1 hx)
  unfold afterPoint at h
  by_cases hpoint : r₁.headD 0 = 46
  · rw [if_pos hpoint] at h
    cases r₁ with
    | nil => exact absurd hpoint (by decide)
    | cons c r₂ =>
      obtain rfl : c = 46 := hpoint
      have hl : l = sign ++ whole ++ 46 :: r₂.takeWhile (isDigit 10) ++ r₂.dropWhile (isDigit 10) := by
        rw [hsplit, hr]
        simp only [List.append_assoc, List.cons_append, List.takeWhile_append_dropWhile]
      rw [hl]
      exact hnumber (.point hsign hwhole (digits_takeWhile r₂) h.1) (Bool.or_eq_true_iff.2 h.2)
  · rw [if_neg hpoint] at h
    have hl : l = sign ++ whole ++ r₁ := by rw [hsplit, hr, List.append_assoc]
    rw [hl]
    exact hnumber (.whole hsign hwhole (h.1.resolve_right (not_not.2 rfl))) (Bool.or_eq_true_iff.2 h.2)

/-- the parser has the grammar -/
theorem isNumber_iff : isNumber l = true ↔ DecimalNumber l := by
  refine ⟨number_of_isNumber, fun h => ?_⟩
  cases h with
  | mantissa h =>
    have hnumber := isNumber_of_mantissa h (.inl (rfl : ([] : List UInt8) = []))
    rw [List.append_nil] at hnumber
    exact hnumber
  | exponent h hx => exact isNumber_of_mantissa h (.inr hx)

/-- the letters of "inf", "infinity" and "nan" -/
theorem special_letter (h : isSpecial l = true) : ∃ c ∈ l, c = 110 ∨ c = 78 := by
  obtain ⟨sign, -, hsplit⟩ := afterSign_split l
  unfold isSpecial at h
  generalize afterSign l = r at hsplit h
  have hmem : 110 ∈ r.map fun c => if 65 ≤ c ∧ c ≤ 90 then c + 32 else c := by
    simp only [Bool.or_eq_true, beq_iff_eq] at h
    rcases h with (h | h) | h <;> rw [h] <;> decide
  obtain ⟨c, hc, hlow⟩ := List.mem_map.1 hmem
  refine ⟨c, hsplit ▸ List.mem_append_right sign hc, ?_⟩
  split_ifs at hlow with hup
  · refine .inr (UInt8.toNat_inj.1 ?_)
    have hsum := congrArg UInt8.toNat hlow
    rw [UInt8.toNat_add] at hsum
    obtain ⟨-, hhigh⟩ := hup
    rw [UInt8.le_iff_toNat_le] at hhigh
    simp only [UInt8.reduceToNat] at hsum hhigh ⊢
    omega
  · exact .inl hlow

theorem floatChars_letters (r : List UInt8) : ∀ c ∈ floatChars r, isSign c = true ∨ isDigit 10 c = true ∨ c = 46 ∨ isE c = true := by
  have hsigned : ∀ r, ∀ c ∈ signChars r, isSign c = true ∨ isDigit 10 c = true := by
    intro r c hc
    obtain ⟨sign, ds, hsign, hds, hsplit, -⟩ := signChars_split r
    rw [hsplit] at hc
    rcases List.mem_append.1 hc with hc | hc
    · rcases hsign with rfl | ⟨c', hc', rfl⟩
      · exact absurd hc List.not_mem_nil
      · exact .inl (List.mem_singleton.1 hc ▸ hc')
    · exact .inr (hds c hc)
  have hfraction : ∀ r, ∀ c ∈ fractionChars r, c = 46 ∨ isDigit 10 c = true := by
    intro r c hc
    unfold fractionChars at hc
    split at hc
    · exact absurd hc List.not_mem_nil
    · split_ifs at hc with hp
      · rcases List.mem_cons.1 hc with rfl | hc
        · exact .inl hp
        · exact .inr (digits_takeWhile _ c hc)
      · exact absurd hc List.not_mem_nil
  intro c hc
  rw [floatChars_eq] at hc
  rcases List.mem_append.1 hc with hc | hc
  · rcases List.mem_append.1 hc with hc | hc
    · exact (hsigned _ c hc).imp_right .inl
    · rcases hfraction _ c hc with hc | hc
      · exact .inr (.inr (.inl hc))
      · exact .inr (.inl hc)
  · unfold exponentChars at hc
    split at hc
    · exact absurd hc List.not_mem_nil
    · split_ifs at hc with he
      · rcases List.mem_cons.1 hc with rfl | hc
        · exact .inr (.inr (.inr (isE_iff.2 he)))
        · exact (hsigned _ c hc).imp_right .inl
      · exact absurd hc List.not_mem_nil

/-- what the code takes is a number, or the parser does not accept it -/
theorem f64FromStr_floatChars (number : List UInt8 → F64) (r : List UInt8) :
    DecimalNumber (floatChars r) ∧ f64FromStr number (floatChars r) = some (number (floatChars r)) ∨
      ¬DecimalNumber (floatChars r) ∧ f64FromStr number (floatChars r) = none := by
  have hspecial : isSpecial (floatChars r) = false := by
    by_contra h
    obtain ⟨c, hc, hn⟩ := special_letter (by simpa using h)
    rcases hn with rfl | rfl <;> exact absurd (floatChars_letters r _ hc) (by decide)
  unfold f64FromStr
  rw [hspecial, Bool.or_false]
  by_cases h : isNumber (floatChars r) = true
  · exact .inl ⟨isNumber_iff.1 h, if_pos h⟩
  · exact .inr ⟨fun hn => h (isNumber_iff.2 hn), if_neg h⟩

/-! ## The functions on a string -/

variable {m : Mem} {str endptr : ℕ} {s : List UInt8} {number : List UInt8 → F64}

/-- the number that the code finds in a string, and where it ends -/
def found (number : List UInt8 → F64) (s : List UInt8) : Option (F64 × ℕ) :=
  (f64FromStr number (floatChars (afterSpace s))).map fun v =>
    (v, s.length - (afterSpace s).length + (floatChars (afterSpace s)).length)

/-- **The conversion** on a string -/
theorem atofInnerGeneric_string {σ R : Type} {src : Source σ} {st : σ} {parse : List UInt8 → Option R}
    (hs : src.IsString st s) : atofInnerGeneric src parse 0 st =
      .ok ((parse (floatChars (afterSpace s))).map fun v =>
        (v, s.length - (afterSpace s).length + (floatChars (afterSpace s)).length), st) := by
  have hle : (s.takeWhile isspaceInner).length ≤ s.length := takeWhile_length_le _ s
  have hspace := hs.countWhitespace (Nat.zero_le s.length)
  rw [List.drop_zero] at hspace
  have hlen : s.length - (afterSpace s).length = (s.takeWhile isspaceInner).length := by
    rw [afterSpace_eq, List.length_drop]
    omega
  obtain ⟨st', hstages, rfl, -⟩ := floatStages_reads (string_reads hs)
    (show st = st ∧ (s.takeWhile isspaceInner).length ≤ s.length ∧ s.drop (s.takeWhile isspaceInner).length = afterSpace s from
      ⟨rfl, hle, (afterSpace_eq s).symm⟩)
  unfold atofInnerGeneric
  simp only [hspace, ok_bind, Nat.zero_add, hstages, pure_eq_ok, hlen]

theorem atofInner_string (hs : HoldsString m str s) (number : List UInt8 → F64) :
    atofInner number m str = .ok (found number s) := by
  unfold atofInner
  rw [atofInnerGeneric_string hs.isString]
  rfl

theorem found_length (v : F64) {len : ℕ} (h : found number s = some (v, len)) : len ≤ s.length := by
  obtain ⟨v', -, h⟩ := Option.map_eq_some_iff.1 h
  obtain ⟨-, rfl⟩ := Prod.mk.inj h
  have hchars := (floatChars_isPrefix (afterSpace s)).length_le
  have hspace : (afterSpace s).length ≤ s.length := (List.dropWhile_sublist _).length_le
  omega

/-- the longest number is unique -/
theorem NumberPrefix.unique (h : NumberPrefix r p) (h' : NumberPrefix r q) : p = q := by
  have hlen : p.length = q.length := Nat.le_antisymm (h'.longest p h.isPrefix h.number) (h.longest q h'.isPrefix h'.number)
  exact (List.prefix_of_prefix_length_le h.isPrefix h'.isPrefix hlen.le).eq_of_length hlen

section

variable {α : Type} {result : F64 → ℕ → α} {f : (List UInt8 → F64) → Except Panic α}

/-- **The longest number is found** if every exponent has a digit, where `result` is what the function returns. -/
theorem parsesLongest_of_finished
    (hf : ∀ number, f number = .ok (result ((found number s).getD (⟨0⟩, 0)).1 ((found number s).getD (⟨0⟩, 0)).2))
    (h : ¬UnfinishedExponent (afterSpace s)) : ParsesLongest s result f := by
  intro number
  rcases f64FromStr_floatChars number (afterSpace s) with ⟨hn, hparse⟩ | ⟨hn, hparse⟩
  · have hlongest := numberPrefix_floatChars hn
    refine ⟨fun p hp => ?_, fun hnone => absurd hlongest (hnone _)⟩
    rw [hf number, found, hparse, hp.unique hlongest]
    rfl
  · refine ⟨fun p hp => ?_, fun _ => ?_⟩
    · rcases number_or_unfinished (mantissa_of_number hp.number hp.isPrefix) with hn' | hunfinished
      · exact absurd hn' hn
      · exact absurd hunfinished h
    · rw [hf number, found, hparse]
      rfl

/-- an exponent without a digit makes the parser reject the whole text -/
theorem finished_of_parsesLongest
    (hf : ∀ number, f number = .ok (result ((found number s).getD (⟨0⟩, 0)).1 ((found number s).getD (⟨0⟩, 0)).2))
    (hresult : ∀ len, result ⟨1⟩ len ≠ result ⟨0⟩ 0) (h : ParsesLongest s result f) :
    ¬UnfinishedExponent (afterSpace s) := by
  intro hunfinished
  obtain ⟨⟨p, hp⟩, hnone⟩ := unfinished_number hunfinished
  have hcode := hf fun _ => ⟨1⟩
  rcases f64FromStr_floatChars (fun _ => ⟨1⟩) (afterSpace s) with ⟨hn, -⟩ | ⟨-, hparse⟩
  · exact hnone hn
  · rw [found, hparse, (h _).1 p hp] at hcode
    exact hresult _ (Except.ok.inj hcode)

end

/-- **When `strtod`, `atof` and `strtof` find the longest number**: just if no exponent without a digit follows it. -/
theorem strtod_iff (hs : HoldsString m str s) (he : EndPlace m endptr) :
    (ParsesLongest s (fun v len => (v, endStored m endptr (str + len))) (fun number => strtod number m str endptr) ↔
      ¬UnfinishedExponent (afterSpace s)) ∧
    (ParsesLongest s (fun v _ => v) (fun number => atof number m str) ↔ ¬UnfinishedExponent (afterSpace s)) ∧
    ((∀ narrow, ParsesLongest s (fun v len => (narrow v, endStored m endptr (str + len)))
        fun number => strtof narrow number m str endptr) ↔
      ¬UnfinishedExponent (afterSpace s)) := by
  have hwrite : ∀ number endptr, EndPlace m endptr →
      writeEnd m endptr str ((found number s).getD (⟨0⟩, 0)).2 =
        .ok (endStored m endptr (str + ((found number s).getD (⟨0⟩, 0)).2)) := by
    intro number endptr he
    cases hfound : found number s with
    | none => exact writeEnd_ok hs he (Nat.zero_le _)
    | some p => exact writeEnd_ok hs he (found_length p.1 hfound)
  have hone : (⟨1⟩ : F64) ≠ ⟨0⟩ := by decide
  refine ⟨?_, ?_, ?_⟩
  · have hcode : ∀ number, strtod number m str endptr =
        .ok (((found number s).getD (⟨0⟩, 0)).1, endStored m endptr (str + ((found number s).getD (⟨0⟩, 0)).2)) := by
      intro number
      unfold strtod
      simp only [atofInner_string hs, ok_bind, hwrite number endptr he, pure_eq_ok]
    exact ⟨finished_of_parsesLongest hcode fun len h => hone (Prod.mk.inj h).1, parsesLongest_of_finished hcode⟩
  · have hcode : ∀ number, atof number m str = .ok ((found number s).getD (⟨0⟩, 0)).1 := by
      intro number
      unfold atof strtod
      simp only [atofInner_string hs, ok_bind, hwrite number 0 (.inl rfl), pure_eq_ok]
    exact ⟨finished_of_parsesLongest hcode fun len => hone, parsesLongest_of_finished hcode⟩
  · have hcode : ∀ narrow number, strtof narrow number m str endptr =
        .ok (narrow ((found number s).getD (⟨0⟩, 0)).1, endStored m endptr (str + ((found number s).getD (⟨0⟩, 0)).2)) := by
      intro narrow number
      unfold strtof
      simp only [atofInner_string hs, ok_bind, hwrite number endptr he, pure_eq_ok]
    constructor
    · intro h
      -- a conversion that tells the two numbers apart
      let narrow : F64 → F32 := fun v => if v.bits = 0 then ⟨0⟩ else ⟨1⟩
      have hnarrow : narrow ⟨1⟩ ≠ narrow ⟨0⟩ := by decide
      exact finished_of_parsesLongest (hcode narrow) (fun len h => hnarrow (congrArg Prod.fst h)) (h narrow)
    · intro h narrow
      exact parsesLongest_of_finished (hcode narrow) h

/-- a string in memory -/
def textAt (text : List UInt8) : Mem := ⟨store (fun _ => 0) 4096 (text ++ [0]), 4096⟩

/-- " -1.5" -/
def minusText : List UInt8 := [32, 45, 49, 46, 53]

theorem strtod_iff_minus :
    ParsesLongest minusText (fun v len => (v, endStored (textAt minusText) 0 (4096 + len)))
      fun number => strtod number (textAt minusText) 4096 0 := by
  have hs : HoldsString (textAt minusText) 4096 minusText :=
    holdsString_store (m := ⟨fun _ => 0, 4096⟩) ⟨le_rfl, by decide⟩ (by simp [minusText])
  have hnull : EndPlace (textAt minusText) 0 := .inl rfl
  refine (strtod_iff hs hnull).1.2 ?_
  intro ⟨p, c, rest, hsplit, _, hc, _⟩
  have hmem : c ∈ afterSpace minusText := hsplit ▸ List.mem_append_right p List.mem_cons_self
  have hnone : ∀ c ∈ afterSpace minusText, isE c = false := by
    rw [show afterSpace minusText = [45, 49, 46, 53] from rfl]
    simp [isE]
  exact absurd ((hnone c hmem).symm.trans hc) (by decide)

/-- "2e" -/
def letterText : List UInt8 := [50, 101]

/-- "2e" is not read as 2: it is not read at all -/
theorem strtod_letter :
    ¬ParsesLongest letterText (fun v len => (v, endStored (textAt letterText) 0 (4096 + len)))
      fun number => strtod number (textAt letterText) 4096 0 := by
  intro h
  have hdigits : Digits [50] := List.forall_mem_singleton.2 rfl
  have hnoSign : OptSign [] := .inl rfl
  have htwo : Mantissa ([] ++ [50]) := .whole hnoSign hdigits (by decide)
  have hunfinished : UnfinishedExponent (afterSpace letterText) := ⟨[50], 101, [], rfl, htwo, rfl, rfl⟩
  obtain ⟨p, hp⟩ := (unfinished_number hunfinished).1
  have hclaim := (h fun _ => ⟨1⟩).1 p hp
  have hcode : strtod (fun _ => ⟨1⟩) (textAt letterText) 4096 0 = .ok (⟨0⟩, textAt letterText) := rfl
  have hvalue : (⟨0⟩ : F64) = ⟨1⟩ := congrArg Prod.fst (Except.ok.inj (hcode.symm.trans hclaim))
  exact absurd hvalue (by decide)

end TouchHLE.Atof
