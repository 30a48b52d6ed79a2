/-
The integer conversions of `sscanf` with a maximum field width (`libc/stdio/printf.rs`, `str_to_int_inner_generic`).

- `longestInteger`: the state after a conversion that takes the longest integer among the first characters. `cInteger` is
  the grammar.
- `scanInt_take`: the conversion with a width is the conversion of the first characters, unless it is `CutOff`: the width
  ends it in one of the early returns behind a sign, a zero or "0x".
- `scanInt_finish_iff`: the integers; `width_turn`: one directive; `sscanf_width_iff`: runs of the loop.
-/
import TouchHLE.Libc.Sscanf

namespace TouchHLE.Scanf

open Machine Words

/-! ## What a conversion should do -/

/-- what the directive says about the value: that of its type, which C gives it -/
def intValue (d : ScanDirective) : Bool → ℕ → ℤ :=
  if d.specifier = 100 ∨ d.specifier = 105 then if d.lengthModifier = some .h then cSigned 16 else cSigned 32 else cUnsigned 32

/-- the magnitude that a negative number must stay below -/
def intLimit (d : ScanDirective) : ℕ :=
  if d.specifier = 100 ∨ d.specifier = 105 then if d.lengthModifier = some .h then 2 ^ 15 else 2 ^ 31 else 2 ^ 32

/-- after the longest integer in the first characters of `r` behind its white space, where `f` is the rest of the format -/
def longestInteger {σ R : Type} (d : ScanDirective) (s : ScanState σ R) (f r : List UInt8) : ScanState σ R :=
  let start := s.skipped f (r.takeWhile isspaceInner).length
  match cInteger (intBase d.specifier) ((r.dropWhile isspaceInner).take d.maxWidth) with
  | some (neg, v, len) => start.assigned (intStore d (intValue d neg v)) len
  | none => start.stop s.src

/-- The width ends the conversion too early: behind a sign when the base is not known yet, behind a zero that may be a prefix,
or behind "0x". -/
def CutOff (base w : ℕ) (r : List UInt8) : Prop :=
  let k := signLength r
  let t := r.drop k
  base = 0 ∧ w = 1 ∧ k = 1 ∨ (base = 0 ∨ base = 16) ∧ isZero (t.headD 0) = true ∧ w = k + 1 ∨
    hexStart base t = true ∧ w = k + 2

instance (base w : ℕ) (r : List UInt8) : Decidable (CutOff base w r) := by
  unfold CutOff
  infer_instance

/-- a directive with the digits `ds` of a width, where `g` follows them -/
def widthDirective (ds g : List UInt8) : ScanDirective :=
  ⟨digitsValue 10 ds, (parseLength g).1, (parseLength g).2.headD 0⟩

/-- when the directive takes the longest integer at the start of `r` -/
def WidthMatches (d : ScanDirective) (r : List UInt8) : Prop :=
  let base := intBase d.specifier
  let r := r.dropWhile isspaceInner
  d.maxWidth < 2 ^ 32 ∧ ¬CutOff base d.maxWidth r ∧ ¬PrefixAlone base (r.take d.maxWidth) ∧
    ¬NegativeBeyond base (intLimit d) (r.take d.maxWidth)

/-- the next directive is that of an integer with a width -/
structure WidthTurn {σ R : Type} (s : ScanState σ R) (ds g : List UInt8) : Prop where
  going : s.done = false
  rest : s.rest = 37 :: (ds ++ g)
  digits : ∀ c ∈ ds, isDigit 10 c = true
  behind : isDigit 10 (g.headD 0) = false
  integer : (widthDirective ds g).kind = some .integer
  positive : 1 ≤ digitsValue 10 ds

section

variable {σ R : Type} (src : Source σ) (parse : List UInt8 → Option R) (input : List UInt8)

/-- a directive with a width takes the longest integer, whatever else the turn may be -/
def TakesLongest (s : ScanState σ R) (_ : Unit) : Prop :=
  ∀ ds g, WidthTurn s ds g →
    scanStep src parse s () = .ok (longestInteger (widthDirective ds g) s (parseLength g).2.tail (input.drop s.srcIdx))

/-- its condition -/
def WidthFits (s : ScanState σ R) (_ : Unit) : Prop :=
  ∀ ds g, WidthTurn s ds g → WidthMatches (widthDirective ds g) (input.drop s.srcIdx)

end

/-! ## The conversion -/

section

variable {base w m k limit : ℕ} {r t ds g : List UInt8} {sg : Option UInt8} {ty : IntType} {value : Bool → ℕ → ℤ}

theorem addDigits_take {v : IntScan} {big : ℕ} (hbig : m ≤ big) :
    v.addDigits m r = v.addDigits big (r.take (m - v.len)) := by
  have hmin : min (m - v.len) (big - v.len) = m - v.len := by omega
  simp only [IntScan.addDigits, List.take_takeWhile, List.take_take]
  rw [Nat.min_comm, hmin]

/-- the stages behind the sign -/
theorem addBase_take (hbase : base = 0 ∨ base = 10 ∨ base = 16) (hk : k < m) (hk1 : k ≤ 1) (hm : m < 2 ^ 32)
    (hzero : ¬((base = 0 ∨ base = 16) ∧ isZero (t.headD 0) = true ∧ m = k + 1))
    (hhex : ¬(hexStart base t = true ∧ m = k + 2)) :
    (afterSignScan k sg base).addBase m t = (afterSignScan k sg base).addBase (2 ^ 32 - 1) (t.take (m - k)) := by
  have hbig : m ≤ 2 ^ 32 - 1 := by omega
  have hhead := headD_take (Nat.sub_pos_of_lt hk) t
  by_cases hplain : base = 10 ∨ isZero (t.headD 0) = false
  · rw [addBase_plain hbase hplain, addBase_plain hbase (by rwa [hhead])]
    exact addDigits_take hbig
  push Not at hplain
  have hbase' : base = 0 ∨ base = 16 := hbase.imp_right fun h => h.resolve_left hplain.1
  have hz : isZero (t.headD 0) = true := by simpa using hplain.2
  have hroom : k + 1 < m := by
    have hne : m ≠ k + 1 := fun h => hzero ⟨hbase', hz, h⟩
    omega
  by_cases hx : isX (t.tail.headD 0) = true
  · have hstart : hexStart base t = true := by
      rw [hexStart, hz, hx, Bool.and_true, Bool.and_true]
      rcases hbase' with rfl | rfl <;> rfl
    have hroom2 : k + 2 < m := by
      have hne : m ≠ k + 2 := fun h => hhex ⟨hstart, h⟩
      omega
    have hdrop : (t.take (m - k)).drop 2 = (t.drop 2).take (m - (k + 2)) := by rw [List.drop_take, Nat.sub_sub]
    rw [addBase_hex hstart hroom2, addBase_hex (hexStart_take hstart (by omega)) (by omega), hdrop]
    exact addDigits_take hbig
  · have hx' : isX (t.tail.headD 0) = false := by simpa using hx
    obtain ⟨j, rfl⟩ : ∃ j, m = k + 1 + (j + 1) := ⟨m - (k + 2), by omega⟩
    have hsub : k + 1 + (j + 1) - k = j + 1 + 1 := by omega
    rw [isZero_head hz, hsub, List.take_succ_cons, addBase_zero hbase' hx' (by omega),
      addBase_zero hbase' (by rwa [headD_take (Nat.succ_pos j)]) (by omega)]
    have hdigits := addDigits_take (r := t.tail) (v := afterSignScan (k + 1) sg (if base = 0 then 8 else 16)) hbig
    rwa [Nat.add_sub_cancel_left] at hdigits

theorem takeWhile_take_nil (hspace : r.takeWhile isspaceInner = []) (n : ℕ) : (r.take n).takeWhile isspaceInner = [] := by
  rw [← List.take_takeWhile, hspace, List.take_nil]

theorem head?_take (hm : 0 < m) (r : List UInt8) : (r.take m).head? = r.head? := by
  obtain ⟨m, rfl⟩ : ∃ n, m = n + 1 := ⟨m - 1, by omega⟩
  cases r <;> rfl

/-- **The conversion with a width** is the conversion of the first characters, unless the width cuts it off. -/
theorem scanInt_take (hbase : base = 0 ∨ base = 10 ∨ base = 16) (hspace : r.takeWhile isspaceInner = []) (hm : 0 < m)
    (hm' : m < 2 ^ 32) (hcut : ¬CutOff base m r) : scanInt base m r = scanInt base (2 ^ 32 - 1) (r.take m) := by
  have hsign : base = 0 → m = 1 → signLength r ≠ 1 := fun h0 h1 hg => hcut (.inl ⟨h0, h1, hg⟩)
  have hone : ¬(signLength r = 1 ∧ 2 ^ 32 - 1 = 1) := fun h => absurd h.2 (by decide)
  have hle : signLength r ≤ 1 := by
    rcases signLength_cases r with ⟨-, hg⟩ | ⟨-, hg⟩ <;> rw [hg]
    exact Nat.zero_le 1
  rw [scanInt_eq hspace, scanInt_eq (takeWhile_take_nil hspace m), signLength_take hm, head?_take hm, if_neg hone, List.drop_take]
  by_cases h1 : signLength r = 1 ∧ m = 1
  · obtain ⟨hg, rfl⟩ := h1
    have h0 : base ≠ 0 := fun h0 => hsign h0 rfl hg
    rw [if_pos ⟨hg, rfl⟩, hg, if_pos rfl, Nat.sub_self, List.take_zero,
      addBase_plain hbase (.inr (rfl : isZero ([].headD 0) = false)), if_neg h0]
    rfl
  · rw [if_neg h1]
    exact addBase_take hbase (by omega) hle hm' (fun h => hcut (.inr (.inl h))) fun h => hcut (.inr (.inr h))

/-! ## The integers that are found -/

/-- what the early returns behind a zero and "0x" leave is read as a number without digits, which has the largest value -/
theorem finish_cut (ty : IntType) {b p len : ℕ} (hb : 2 ≤ b) (hb' : b ≤ 36) (hp : p < len) :
    (⟨0, len, sg, p, b, []⟩ : IntScan).finish ty =
      .ok (some (if sg = some 45 then ty.negation ty.max else ty.max, len)) := by
  have hmax : ty.fromStrRadix [] b = ty.max := if_pos (.inl rfl)
  unfold IntScan.finish
  rw [assert_base ⟨hb, hb'⟩, ok_bind, if_pos (Nat.sub_pos_of_lt hp), hmax, pure_eq_ok, Nat.zero_add]

/-- what a cut-off conversion finds -/
theorem cutOff_finish (ty : IntType) (hspace : r.takeWhile isspaceInner = []) (hcut : CutOff base w r) :
    (∃ e, (scanInt base w r).finish ty = .error e) ∨
      (∃ len, (scanInt base w r).finish ty = .ok (some (ty.max, len)) ∨
        (scanInt base w r).finish ty = .ok (some (ty.negation ty.max, len))) ∧
      (base = 0 ∨ base = 16) ∧ signLength r < w ∧
        ((r.take w).drop (signLength r) = [48] ∨ ∃ x, isX x = true ∧ (r.take w).drop (signLength r) = [48, x]) := by
  have hvalue : ∀ (sg : Option UInt8) len, (∃ b p, 2 ≤ b ∧ b ≤ 36 ∧ p < len ∧ scanInt base w r = ⟨0, len, sg, p, b, []⟩) →
      ∃ len, (scanInt base w r).finish ty = .ok (some (ty.max, len)) ∨
        (scanInt base w r).finish ty = .ok (some (ty.negation ty.max, len)) := by
    rintro sg len ⟨b, p, hb, hb', hp, hscan⟩
    refine ⟨len, ?_⟩
    rw [hscan, finish_cut ty hb hb' hp]
    split_ifs
    · exact .inr rfl
    · exact .inl rfl
  have hone : ∀ k, ¬(signLength r = 1 ∧ signLength r + (k + 1) = 1) := fun k h => by omega
  rcases hcut with ⟨rfl, rfl, hg⟩ | ⟨hbase, hz, rfl⟩ | ⟨hhex, rfl⟩
  · left
    rw [scanInt_eq hspace, if_pos ⟨hg, rfl⟩]
    exact ⟨.base, rfl⟩
  · right
    have hitem : (r.take (signLength r + 1)).drop (signLength r) = [48] := by
      rw [List.drop_take, Nat.add_sub_cancel_left, isZero_head hz]
      rfl
    refine ⟨?_, hbase, Nat.lt_succ_self _, .inl hitem⟩
    have hscan := @addBase_cut base (signLength r) (r.drop (signLength r)).tail (if signLength r = 1 then r.head? else none) hbase
    obtain ⟨hb, hb'⟩ := prefixBase_bounds hbase (48 :: (r.drop (signLength r)).tail)
    rw [← isZero_head hz] at hscan hb hb'
    exact hvalue _ _ ⟨_, _, hb, hb', Nat.lt_succ_self _, by rw [scanInt_eq hspace, if_neg (hone 0), hscan]⟩
  · right
    obtain ⟨hbase, -, hz, hx⟩ := hexStart_base hhex
    have hitem : (r.take (signLength r + 2)).drop (signLength r) = [48, (r.drop (signLength r)).tail.headD 0] := by
      rw [List.drop_take, Nat.add_sub_cancel_left]
      conv_lhs => rw [isZero_head hz, isX_head hx]
      rfl
    refine ⟨?_, hbase, by omega, .inr ⟨_, hx, hitem⟩⟩
    have hscan : ∀ sg, (afterSignScan (signLength r) sg base).addBase (signLength r + 2) (r.drop (signLength r)) =
        ⟨0, signLength r + 2, sg, signLength r + 1, 16, []⟩ := fun sg => addBase_hexCut hhex
    exact hvalue _ _ ⟨16, _, by decide, by decide, Nat.lt_succ_self _, by rw [scanInt_eq hspace, if_neg (hone 1), hscan]⟩

theorem afterSpace_self (hspace : r.takeWhile isspaceInner = []) : afterSpace r = r := by
  rw [afterSpace_eq, hspace, List.length_nil, List.drop_zero]

theorem afterSign_eq (r : List UInt8) : afterSign r = r.drop (signLength r) := by
  unfold afterSign signLength
  split_ifs
  · rw [List.drop_one]
  · rw [List.drop_zero]

/-- the number in a zero and in "0x" is zero -/
theorem cInteger_zero (hbase : base = 0 ∨ base = 16) (hspace : r.takeWhile isspaceInner = [])
    (h : r.drop (signLength r) = [48] ∨ ∃ x, isX x = true ∧ r.drop (signLength r) = [48, x]) :
    ∃ neg len, cInteger base r = some (neg, 0, len) := by
  have hdigits : cDigits base (afterSign (afterSpace r)) = [48] := by
    rw [afterSpace_self hspace, afterSign_eq]
    rcases h with h | ⟨x, hx, h⟩
    · rw [h]
      rcases hbase with rfl | rfl <;> rfl
    · have hxx : x = 120 ∨ x = 88 := by simpa [isX] using hx
      rw [h]
      rcases hbase with rfl | rfl <;> rcases hxx with rfl | rfl <;> rfl
  have hvalue : ∀ b, digitsValue b [48] = 0 := fun b => by rw [digitsValue_zero_cons]; rfl
  unfold cInteger
  simp only [hdigits, hvalue]
  exact ⟨_, _, if_neg (List.cons_ne_nil _ _)⟩

/-- **The integers.** The conversion finds the longest integer in the first characters, with its value, exactly when the width
does not cut it off, no prefix stands alone in them, and the number is not negative and as large as the limit. -/
theorem scanInt_finish_iff (hbase : base = 0 ∨ base = 10 ∨ base = 16) (hspace : r.takeWhile isspaceInner = []) (hw : 0 < w)
    (hw' : w < 2 ^ 32) (hzero : ty.negation 0 = 0) (hmax : 0 < ty.max) (hneg : ty.negation ty.max ≠ 0) (hlim : 0 < limit)
    (hval : ∀ neg v, codeValue ty neg v = value neg v ↔ ¬(neg = true ∧ limit ≤ v)) :
    (scanInt base w r).finish ty = .ok ((cInteger base (r.take w)).map fun (neg, v, len) => (value neg v, len)) ↔
      ¬CutOff base w r ∧ ¬PrefixAlone base (r.take w) ∧ ¬NegativeBeyond base limit (r.take w) := by
  by_cases hcut : CutOff base w r
  · refine iff_of_false (fun h => ?_) fun h => h.1 hcut
    rcases cutOff_finish ty hspace hcut with ⟨e, he⟩ | ⟨⟨len, hlen⟩, hbase', hlt, hitem⟩
    · cases he.symm.trans h
    · -- the code has the largest value where the number is zero
      rw [← signLength_take (Nat.zero_lt_of_lt hlt)] at hitem
      obtain ⟨neg, len', hnumber⟩ := cInteger_zero hbase' (takeWhile_take_nil hspace w) hitem
      have hcode : codeValue ty neg 0 = 0 := by
        have hle : ¬ty.max < ((0 : ℕ) : ℤ) := by push_cast; omega
        unfold codeValue
        rw [if_neg hle]
        cases neg
        · rfl
        · exact hzero
      have hvalue : value neg 0 = 0 := ((hval neg 0).2 fun h => absurd h.2 (by omega)).symm.trans hcode
      rw [hnumber] at h
      rcases hlen with hlen | hlen
      · have heq := congrArg Prod.fst (Option.some.inj (Except.ok.inj (hlen.symm.trans h)))
        exact hmax.ne' (heq.trans hvalue)
      · have heq := congrArg Prod.fst (Option.some.inj (Except.ok.inj (hlen.symm.trans h)))
        exact hneg (heq.trans hvalue)
  · have hb : base = 0 ∨ 2 ≤ base ∧ base ≤ 36 := by omega
    have hlen : (r.take w).length < 2 ^ 32 := (List.length_take_le w r).trans_lt hw'
    rw [scanInt_take hbase hspace hw hw' hcut, scan_finish ty hzero hmax.le hb hlen]
    by_cases hp : PrefixAlone base (r.take w)
    · refine iff_of_false (fun h => ?_) fun h => h.2.1 hp
      rcases codeInteger_ne hp with ⟨hnone, neg, len, hsome, -⟩ | ⟨hnone, neg, len, hsome, -⟩
      · rw [hnone, hsome] at h
        cases h
      · rw [hnone, hsome] at h
        cases h
    · rw [codeInteger_eq hb hp]
      unfold NegativeBeyond
      cases hc : cInteger base (r.take w) with
      | none => exact iff_of_true rfl ⟨hcut, hp, fun ⟨v, len, h, _⟩ => nomatch h⟩
      | some n =>
        obtain ⟨neg, v, len⟩ := n
        simp only [Option.map_some, Except.ok.injEq, Option.some.injEq, Prod.mk.injEq, and_true, hval]
        constructor
        · rintro h
          exact ⟨hcut, hp, fun ⟨v', len', ⟨hn, hv, _⟩, hle⟩ => h ⟨hn, hv ▸ hle⟩⟩
        · rintro ⟨-, -, h⟩ ⟨hn, hle⟩
          exact h ⟨v, len, ⟨hn, rfl, rfl⟩, hle⟩

/-! ## The width in the format -/

theorem isDigit_ten {c : UInt8} : isDigit 10 c = true ↔ 48 ≤ c ∧ c ≤ 57 := by
  constructor
  · intro h
    by_contra hc
    unfold isDigit digitVal at h
    rw [if_neg hc] at h
    split_ifs at h
    · simp only [Option.any_some, decide_eq_true_eq] at h
      omega
    · simp only [Option.any_some, decide_eq_true_eq] at h
      omega
    · exact absurd h (by decide)
  · intro hc
    have hlow := hc.1
    have hhigh := hc.2
    rw [UInt8.le_iff_toNat_le] at hlow hhigh
    simp only [UInt8.reduceToNat] at hlow hhigh
    unfold isDigit digitVal
    rw [if_pos hc]
    simp only [Option.any_some, decide_eq_true_eq]
    omega

/-- the value of a number whose first digits have the value `n` -/
def valueFrom (n : ℕ) (ds : List UInt8) : ℕ := ds.foldl (fun n c => n * 10 + (digitVal c).getD 0) n

theorem le_valueFrom (n : ℕ) (ds : List UInt8) : n ≤ valueFrom n ds := by
  induction ds generalizing n with
  | nil => exact le_rfl
  | cons c ds ih =>
    have hstep : n ≤ n * 10 + (digitVal c).getD 0 := by omega
    exact hstep.trans (ih _)

/-- **The number of a width**, which must stay below the limit -/
theorem parseNumber_digits {limit n : ℕ} (hds : ∀ c ∈ ds, isDigit 10 c = true) (hg : isDigit 10 (g.headD 0) = false)
    (hn : n < limit) : Printf.parseNumber limit (ds ++ g) n =
      if valueFrom n ds < limit then .ok (valueFrom n ds, g) else .error .overflow := by
  induction ds generalizing n with
  | nil =>
    have hvalue : valueFrom n [] = n := rfl
    rw [hvalue, if_pos hn, List.nil_append]
    cases g with
    | nil => rfl
    | cons c g =>
      have hc : ¬(48 ≤ c ∧ c ≤ 57) := fun h => absurd ((isDigit_ten.2 h).symm.trans hg) (by decide)
      rw [Printf.parseNumber, if_neg hc, pure_eq_ok]
  | cons c ds ih =>
    have hc := hds c List.mem_cons_self
    have hrange := isDigit_ten.1 hc
    have hdigit : (digitVal c).getD 0 = c.toNat - 48 := by
      unfold digitVal
      rw [if_pos hrange]
      rfl
    have hvalue : valueFrom n (c :: ds) = valueFrom (n * 10 + (c.toNat - 48)) ds := by
      rw [← hdigit]
      rfl
    rw [List.cons_append, Printf.parseNumber, if_pos hrange, hvalue]
    by_cases hlt : n * 10 + (c.toNat - 48) < limit
    · simp only [if_pos hlt]
      exact ih (fun c hc => hds c (List.mem_cons_of_mem _ hc)) hlt
    · have hle := le_valueFrom (n * 10 + (c.toNat - 48)) ds
      simp only [if_neg hlt]
      rw [if_neg (by omega)]
      rfl

theorem parseScan_digits (hds : ∀ c ∈ ds, isDigit 10 c = true) (hg : isDigit 10 (g.headD 0) = false) :
    parseScan (ds ++ g) = if digitsValue 10 ds < 2 ^ 32 then .ok (widthDirective ds g, (parseLength g).2.tail)
      else .error .overflow := by
  have hvalue : digitsValue 10 ds = valueFrom 0 ds := rfl
  unfold parseScan widthDirective
  rw [parseNumber_digits hds hg (by decide), hvalue]
  split_ifs <;> rfl

end

/-! ## Turns and runs -/

section

variable {σ R : Type} {src : Source σ} {parse : List UInt8 → Option R} {st : σ} {input ds g format : List UInt8}
  {s : ScanState σ R} {d : ScanDirective}

theorem integerResult_inj {store : ℤ → Stored R} (hstore : Function.Injective store) (hd : s.done = false)
    {x y : Except Panic (Option (ℤ × ℕ))} : integerResult s store x = integerResult s store y ↔ x = y := by
  refine ⟨fun h => ?_, fun h => by rw [h]⟩
  have hstop : ∀ v len, s.stop s.src ≠ s.assigned (store v) len := by
    intro v len h
    have hdone : true = s.done := congrArg ScanState.done h
    exact absurd (hdone.trans hd) (by decide)
  cases x with
  | error e =>
    cases y with
    | error e' => exact congrArg Except.error (Except.error.inj h)
    | ok y => cases h
  | ok x =>
    cases y with
    | error e => cases h
    | ok y =>
      have heq := Except.ok.inj h
      cases x with
      | none =>
        cases y with
        | none => rfl
        | some y => exact absurd heq (hstop _ _)
      | some x =>
        cases y with
        | none => exact absurd heq.symm (hstop _ _)
        | some y =>
          have hidx : s.srcIdx + x.2 = s.srcIdx + y.2 := congrArg ScanState.srcIdx heq
          have hstores : s.stores ++ [(s.argIdx, store x.1)] = s.stores ++ [(s.argIdx, store y.1)] :=
            congrArg ScanState.stores heq
          have hlast := List.append_cancel_left hstores
          have hvalue : x.1 = y.1 := hstore (congrArg Prod.snd (List.cons.inj hlast).1)
          rw [Prod.ext hvalue (Nat.add_left_cancel hidx)]

/-- the types and what C says about them -/
theorem intType_value (d : ScanDirective) :
    (intType d).negation 0 = 0 ∧ 0 < (intType d).max ∧ (intType d).negation (intType d).max ≠ 0 ∧ 0 < intLimit d ∧
      ∀ neg v, codeValue (intType d) neg v = intValue d neg v ↔ ¬(neg = true ∧ intLimit d ≤ v) := by
  unfold intType intLimit intValue
  split_ifs
  · exact ⟨by decide, by decide, by decide, by decide, codeValue_signed (w := 16)⟩
  · exact ⟨by decide, by decide, by decide, by decide, codeValue_signed (w := 32)⟩
  · exact ⟨by decide, by decide, by decide, by decide, codeValue_unsigned (w := 32) (by decide)⟩

/-- **A directive with a width** takes the longest integer in so many characters exactly when `WidthMatches` says so. -/
theorem width_turn (hs : src.IsString st input) (hr : Reading st input s (input.drop s.srcIdx)) (h : WidthTurn s ds g) :
    scanStep src parse s () = .ok (longestInteger (widthDirective ds g) s (parseLength g).2.tail (input.drop s.srcIdx)) ↔
      WidthMatches (widthDirective ds g) (input.drop s.srcIdx) := by
  have hstep : scanStep src parse s () = scanDirective src parse s (ds ++ g) := by
    unfold scanStep
    rw [if_neg (by rw [h.going]; decide), h.rest]
    rfl
  have hparse := parseScan_digits h.digits h.behind
  unfold WidthMatches
  rw [hstep]
  by_cases hw : digitsValue 10 ds < 2 ^ 32
  · rw [if_pos hw] at hparse
    have hr' := hr.skipped (parseLength g).2.tail
    have hbase := intBase_cases (widthDirective ds g).specifier
    have hkind := h.integer
    have hbound : intBase (widthDirective ds g).specifier ≤ 36 := by omega
    have hpos : 0 < (widthDirective ds g).maxWidth := h.positive
    have hwidth : (widthDirective ds g).maxWidth < 2 ^ 32 := hw
    have hgoing : (s.skipped (parseLength g).2.tail ((input.drop s.srcIdx).takeWhile isspaceInner).length).done = false := h.going
    have hlimit : widthLimit (widthDirective ds g).maxWidth = (widthDirective ds g).maxWidth := if_pos hpos
    have hspec : Except.ok (longestInteger (widthDirective ds g) s (parseLength g).2.tail (input.drop s.srcIdx)) =
        integerResult (s.skipped (parseLength g).2.tail ((input.drop s.srcIdx).takeWhile isspaceInner).length)
          (intStore (widthDirective ds g))
          (.ok ((cInteger (intBase (widthDirective ds g).specifier)
            (((input.drop s.srcIdx).dropWhile isspaceInner).take (widthDirective ds g).maxWidth)).map
              fun (neg, v, len) => (intValue (widthDirective ds g) neg v, len))) := by
      unfold longestInteger
      cases cInteger (intBase (widthDirective ds g).specifier)
        (((input.drop s.srcIdx).dropWhile isspaceInner).take (widthDirective ds g).maxWidth) <;> rfl
    obtain ⟨hzero, hmax, hneg, hlim, hval⟩ := intType_value (widthDirective ds g)
    rw [scanDirective_string hs hr hparse (skips_space hkind (by decide)), scanConversion_integer hkind,
      scanInteger_string hs hr' hbound hwidth, hspec, integerResult_inj (intStore_injective _) hgoing, hlimit,
      scanInt_finish_iff hbase (takeWhile_dropWhile_self _ _) hpos hw hzero hmax hneg hlim hval]
    exact ⟨fun hok => ⟨hw, hok⟩, fun hok => hok.2⟩
  · rw [if_neg hw] at hparse
    refine iff_of_false (fun hok => ?_) fun hok => hw hok.1
    unfold scanDirective at hok
    rw [hparse] at hok
    cases hok

end

/-- **Field widths.** Every integer conversion with a maximum field width in a run of `sscanf` takes the longest integer in so
many characters, stores its value and goes on behind it, or fails where there is none, if and only if each of them is as
`WidthMatches` says: the width fits in 32 bits and does not cut the conversion off, no prefix stands alone in the characters,
and the number is not negative and as large as the limit. -/
theorem sscanf_width_iff {R : Type} (parse : List UInt8 → Option R) (format input : List UInt8) {ptr : ℕ} {m : Mem}
    (h : HoldsString m ptr input) :
    LegalRun (scanStep (cString ptr) parse) (TakesLongest (cString ptr) parse input) (scanStart format m) (scanTurns format) ↔
      LegalRun (scanStep (cString ptr) parse) (WidthFits input) (scanStart format m) (scanTurns format) := by
  have hs := h.isString
  have hstart : Reading m input (scanStart (R := R) format m) (input.drop 0) := ⟨rfl, Nat.zero_le _, rfl⟩
  refine legalRun_congr_of_inv (I := fun s => Reading m input s (input.drop s.srcIdx))
    (fun s o s' hr hok => step_reading hs hr hok) (fun s o hr => ?_) hstart
  exact forall_congr' fun ds => forall_congr' fun g => imp_congr_right fun hturn => width_turn hs hr hturn

/-- "%2d" -/
def twoDigits : List UInt8 := [37, 50, 100]

def digitsMem (text : List UInt8) : Mem := ⟨store (fun _ => 0) 4096 (text ++ [0]), 4096⟩

/-- the directive of "%2d" -/
theorem widthTurn_twoDigits {s : ScanState Mem ℕ} {ds g : List UInt8} (h : WidthTurn s ds g) (hrest : s.rest = twoDigits) :
    ds = [50] ∧ g = [100] := by
  have heq : ds ++ g = [50, 100] := (List.cons.inj (h.rest.symm.trans hrest)).2
  cases ds with
  | nil => exact absurd h.positive (by decide)
  | cons c ds =>
    obtain ⟨rfl, htail⟩ := List.cons.inj heq
    cases ds with
    | nil => exact ⟨rfl, htail⟩
    | cons c ds =>
      obtain ⟨rfl, -⟩ := List.cons.inj htail
      exact absurd (h.digits 100 (by simp)) (by decide)

/-- "12" of "123" -/
theorem sscanf_width_iff_two :
    LegalRun (scanStep (cString 4096) fun _ => (none : Option ℕ))
      (TakesLongest (cString 4096) (fun _ => (none : Option ℕ)) [49, 50, 51]) (scanStart twoDigits (digitsMem [49, 50, 51]))
      (scanTurns twoDigits) := by
  have hmem : HoldsString (digitsMem [49, 50, 51]) 4096 [49, 50, 51] := ⟨by decide, by decide, by decide, by simp⟩
  refine (sscanf_width_iff (fun _ => (none : Option ℕ)) twoDigits [49, 50, 51] hmem).2 ?_
  have hover : ∀ s : ScanState Mem ℕ, s.rest = [] → ∀ ds g, WidthTurn s ds g → False := by
    intro s hs ds g h
    exact nomatch hs.symm.trans h.rest
  refine ⟨fun ds g h => ?_, fun s₁ h₁ => ?_⟩
  · obtain ⟨rfl, rfl⟩ := widthTurn_twoDigits h rfl
    have hnumber : cInteger 10 [49, 50] = some (false, 12, 2) := rfl
    refine ⟨by decide, by decide, fun hp => ?_, ?_⟩
    · rcases hp with hp | hp | hp <;> exact absurd hp.1 (by decide)
    · rintro ⟨v, len, hneg, -⟩
      exact nomatch hnumber.symm.trans hneg
  · have hcode : scanStep (cString 4096) (fun _ => (none : Option ℕ)) (scanStart twoDigits (digitsMem [49, 50, 51])) () =
        .ok ⟨[], 2, 1, [(0, .i32 12)], 1, digitsMem [49, 50, 51], false⟩ := rfl
    obtain rfl := Except.ok.inj (hcode.symm.trans h₁)
    refine ⟨fun ds g h => (hover _ rfl ds g h).elim, fun s₂ h₂ => ?_⟩
    obtain rfl := Except.ok.inj h₂
    refine ⟨fun ds g h => (hover _ rfl ds g h).elim, fun s₃ h₃ => ?_⟩
    obtain rfl := Except.ok.inj h₃
    exact ⟨fun ds g h => (hover _ rfl ds g h).elim, fun _ _ => trivial⟩

/-- "%1i" -/
def oneChar : List UInt8 := [37, 49, 105]

/-- A zero that fills its field is read as the largest integer. -/
theorem sscanf_zero : HoldsString (digitsMem [48]) 4096 [48] ∧
    ¬LegalRun (scanStep (cString 4096) fun _ => (none : Option ℕ))
      (TakesLongest (cString 4096) (fun _ => (none : Option ℕ)) [48]) (scanStart oneChar (digitsMem [48])) (scanTurns oneChar) := by
  refine ⟨⟨by decide, by decide, by decide, by simp⟩, fun h => ?_⟩
  have hturn : WidthTurn (R := ℕ) (scanStart oneChar (digitsMem [48])) [49] [105] :=
    ⟨rfl, rfl, List.forall_mem_singleton.2 rfl, rfl, rfl, by decide⟩
  have hclaim := h.1 [49] [105] hturn
  have hcode : scanStep (cString 4096) (fun _ => (none : Option ℕ)) (scanStart oneChar (digitsMem [48])) () =
      .ok ⟨[], 1, 1, [(0, .i32 2147483647)], 1, digitsMem [48], false⟩ := rfl
  have hstores : [(0, Stored.i32 2147483647)] = [(0, Stored.i32 (R := ℕ) 0)] :=
    congrArg ScanState.stores (Except.ok.inj (hcode.symm.trans hclaim))
  exact absurd hstores (by decide)

end TouchHLE.Scanf
