/-
Printing integers and reading them: what the decimal conversions of `printf_inner` print is given to `strtol`, `strtoul` and
`strtoull` (`libc/stdlib.rs`).

- `NumberText`: a sign and digits. `cInteger_number`: the integer in such a text, behind spaces and whatever follows it.
- `formatDecimal_text`: the conversions print such a text, or zeros in front of '-'.
- `strto_printed`: when one of the functions reads the number that was printed. `printed_read_back`: the three of them.
-/
import TouchHLE.Libc.PrintfInt
import TouchHLE.Libc.Atof

namespace TouchHLE.Printf

open Machine Words Atof

/-! ## Texts -/

/-- an integer as a sign, which may be missing, and digits -/
structure NumberText (v : ℤ) (sgn ds : List UInt8) : Prop where
  sign : OptSign sgn
  negative : sgn = [45] ↔ v < 0
  digits : Digits ds
  nonempty : ds ≠ []
  value : digitsValue 10 ds = v.natAbs

variable {v : ℤ} {sgn ds rest text : List UInt8} {c : UInt8} {C : Conversion}

theorem not_space (h : isSign c = true ∨ isDigit 10 c = true) : cIsspace c = false := by
  have hall : ∀ n < 256, isSign (UInt8.ofNat n) = true ∨ isDigit 10 (UInt8.ofNat n) = true →
      cIsspace (UInt8.ofNat n) = false := by decide +kernel
  have hc := hall c.toNat c.toNat_lt
  rw [UInt8.ofNat_toNat] at hc
  exact hc h

/-- **The integer in a text**, with something behind it that is no digit -/
theorem cInteger_number (h : NumberText v sgn ds) (spaces : ℕ) (hrest : isDigit 10 (rest.headD 0) = false) :
    cInteger 10 (List.replicate spaces 32 ++ (sgn ++ ds) ++ rest) =
      some (decide (v < 0), v.natAbs, spaces + sgn.length + ds.length) := by
  obtain ⟨d, ds', rfl⟩ := List.exists_cons_of_ne_nil h.nonempty
  have hd := h.digits d List.mem_cons_self
  have hsign := digit_not_sign hd
  have hdigits : afterSign (sgn ++ (d :: ds' ++ rest)) = d :: ds' ++ rest := afterSign_append h.sign hsign
  have htake : TouchHLE.cDigits 10 (d :: ds' ++ rest) = d :: ds' := by
    show (d :: ds' ++ rest).takeWhile (isDigit 10) = d :: ds'
    rw [(takeWhile_digits h.digits rest).1, (takeWhile_nil hrest).1, List.append_nil]
  -- what the text begins with is no space, and it is '-' for a negative number
  obtain ⟨c, t, hct, hc, hneg⟩ : ∃ c t, sgn ++ (d :: ds' ++ rest) = c :: t ∧ (isSign c = true ∨ isDigit 10 c = true) ∧
      (c == 45) = decide (v < 0) := by
    rw [← decide_eq_decide.2 h.negative]
    rcases h.sign with rfl | ⟨c, hc, rfl⟩
    · refine ⟨d, ds' ++ rest, rfl, .inr hd, beq_eq_false_iff_ne.2 ?_⟩
      rintro rfl
      exact absurd hsign (by decide)
    · exact ⟨c, _, rfl, .inl hc, by simp [beq_eq_decide]⟩
  have hafter : afterSpace (List.replicate spaces 32 ++ (sgn ++ d :: ds') ++ rest) = sgn ++ (d :: ds' ++ rest) := by
    unfold afterSpace
    rw [List.append_assoc, List.append_assoc, hct, List.dropWhile_append_of_pos, List.dropWhile_cons_of_neg]
    · simp [not_space hc]
    · intro x hx
      rw [List.eq_of_mem_replicate hx]
      decide
  unfold cInteger
  simp only [hafter, hdigits, htake, List.cons_ne_nil, if_false]
  rw [hct, List.headD_cons, hneg]
  show some (decide (v < 0), digitsValue 10 (d :: ds'), _ - _ + 0 + _) = _
  rw [h.value]
  simp only [List.length_append, List.length_replicate, Option.some.injEq, Prod.mk.injEq, true_and]
  omega

/-- zeros that fill the width do not come before '-' -/
def SignFirst (c : Conversion) (v : ℤ) : Prop :=
  c.padZero ∧ c.precision = none ∧ c.prependSign = false → v < 0 → 10 ^ (c.padWidth - 2) ≤ v.natAbs

theorem numberText_padLeft {w : ℕ} (hsgn : OptSign sgn) (hneg : sgn = [45] ↔ v < 0) :
    NumberText v sgn (padLeft 48 w (digits 10 v.natAbs)) where
  sign := hsgn
  negative := hneg
  digits := by
    intro x hx
    rcases mem_padLeft hx with rfl | hx
    · rfl
    · obtain ⟨d, hlt, hd⟩ := mem_digits (by decide) (by decide) hx
      unfold isDigit
      rw [hd]
      exact decide_eq_true hlt
  nonempty := by
    have hpos := length_digits_pos 10 v.natAbs
    rw [← List.length_pos_iff, length_padLeft]
    omega
  value := by rw [digitsValue_padLeft, digitsValue_digits (by decide) (by decide)]

theorem numberText_sign {w : ℕ} : NumberText v (sign v) (padLeft 48 w (digits 10 v.natAbs)) := by
  unfold sign
  split_ifs with hv
  · exact numberText_padLeft (.inr ⟨45, rfl, rfl⟩) (by simp [hv])
  · exact numberText_padLeft (.inl rfl) (by simp [hv])

/-- **What is printed**: a number, or zeros before '-' -/
theorem formatDecimal_text (h : formatDecimal C v = .ok text) :
    (SignFirst C v ∧ ∃ spaces sgn ds, NumberText v sgn ds ∧ text = List.replicate spaces 32 ++ (sgn ++ ds)) ∨
      (v < 0 ∧ ¬SignFirst C v ∧ ∃ zeros t, text = padLeft 48 zeros (digits 10 0) ++ 45 :: t) := by
  by_cases hs : C.prependSign = true
  · obtain ⟨hw, hz, hp⟩ := decimalFlags_of_ok h hs
    obtain ⟨⟨hne, -⟩, rfl⟩ := (formatDecimal_sign hs hw hz hp).1 h
    refine .inl ⟨fun hfill => absurd (hs.symm.trans hfill.2.2) (by decide), 0, [if 0 < v then 43 else 45], _,
      numberText_padLeft (.inr ⟨_, ?_, rfl⟩) ?_, rfl⟩
    · split_ifs <;> rfl
    · split_ifs with hv <;> simp <;> omega
  have hs := Bool.eq_false_of_not_eq_true hs
  rw [formatDecimal_plain hs, Except.ok.injEq] at h
  subst h
  split_ifs with hz hprec
  · by_cases hfirst : v < 0 → 10 ^ (C.padWidth - 2) ≤ v.natAbs
    · rw [zeroPadded_iff.2 hfirst]
      exact .inl ⟨fun _ => hfirst, 0, _, _, numberText_sign, rfl⟩
    · have hv : v < 0 := (Classical.not_imp.1 hfirst).1
      have hdisplay : display v = 45 :: digits 10 v.natAbs := by
        unfold display sign
        rw [if_pos hv, List.singleton_append]
      have hw : ¬C.padWidth ≤ (digits 10 v.natAbs).length + 1 := by
        intro hw
        refine hfirst (zeroPadded_iff.1 ?_)
        rw [hdisplay, zeros_before_sign.2 hw]
        unfold sign
        rw [if_pos hv]
        rfl
      obtain ⟨zeros, hzeros⟩ := Nat.exists_eq_add_of_lt (not_le.1 hw)
      refine .inr ⟨hv, fun h => hfirst (h ⟨hz.1, hz.2, hs⟩), zeros + 1, digits 10 v.natAbs, ?_⟩
      unfold padLeft
      rw [hdisplay, List.length_cons, hzeros, Nat.add_assoc, Nat.add_sub_cancel_left, List.replicate_succ']
      rfl
  · exact .inl ⟨fun hfill => absurd ⟨hfill.1, hfill.2.1⟩ hz, _, _, _, numberText_sign, rfl⟩
  · rw [display_eq]
    exact .inl ⟨fun hfill => absurd ⟨hfill.1, hfill.2.1⟩ hz, _, _, _, numberText_sign, rfl⟩

/-! ## What is read -/

variable {m : Mem} {str endptr : ℕ} {t : IntType} {F : Formats} {nsLog : Bool} {word : ℕ → Guest → Except Panic UInt32}
  {off off' : ℕ} {g g' : Guest}

/-- the value is given and the end of the text is stored -/
def ReadBack (m : Mem) (str endptr : ℕ) (text : List UInt8) (v : ℤ) (x : Except Panic (ℤ × Mem)) : Prop :=
  x = .ok (v, endStored m endptr (str + text.length))

theorem strto_decimal {s : List UInt8} (hs : HoldsString m str s) (he : EndPlace m endptr) (hzero : t.negation 0 = 0)
    (hmax : 0 ≤ t.max) {neg : Bool} {n len : ℕ} (h : cInteger 10 s = some (neg, n, len)) :
    strto t m str endptr 10 = .ok (codeValue t neg n, endStored m endptr (str + len)) := by
  have hprefix : ¬PrefixAlone 10 s := by
    unfold PrefixAlone
    simp
  rw [strto_string hs (.inr (by decide)) hzero hmax, codeInteger_eq (.inr (by decide)) hprefix, h,
    cResult_some hs he (cInteger_len h)]

/-- one of the functions, whose values are those of `t` -/
theorem strto_printed (hs : HoldsString m str (text ++ rest)) (hrest : isDigit 10 (rest.headD 0) = false)
    (he : EndPlace m endptr) (hzero : t.negation 0 = 0) (hmax : 0 ≤ t.max) (h : formatDecimal C v = .ok text) :
    ReadBack m str endptr text v (strto t m str endptr 10) ↔
      SignFirst C v ∧ codeValue t (decide (v < 0)) v.natAbs = v := by
  unfold ReadBack
  rcases formatDecimal_text h with ⟨hfirst, spaces, sgn, ds, hnumber, rfl⟩ | ⟨hv, hfirst, zeros, t', rfl⟩
  · rw [strto_decimal hs he hzero hmax (cInteger_number hnumber spaces hrest)]
    simp only [hfirst, true_and, List.length_append, List.length_replicate, Except.ok.injEq, Prod.mk.injEq, Nat.add_assoc,
      and_true]
  · have hzeros : NumberText 0 [] (padLeft 48 zeros (digits 10 0)) := numberText_padLeft (.inl rfl) (by simp)
    have hzero' : codeValue t false 0 = 0 := if_neg (not_lt.2 hmax)
    rw [List.append_assoc] at hs
    rw [strto_decimal hs he hzero hmax (cInteger_number hzeros 0 rfl), Except.ok.injEq, Prod.mk.injEq]
    exact ⟨fun hread => absurd (hread.1.symm.trans hzero') hv.ne, fun h => absurd h.1 hfirst⟩

theorem codeValue_wrapping {w : ℕ} :
    codeValue ⟨2 ^ w - 1, fun n => -n % 2 ^ w⟩ (decide (v < 0)) v.natAbs = v ↔ 0 ≤ v ∧ v < 2 ^ w := by
  have hw : (0 : ℤ) < 2 ^ w := by positivity
  unfold codeValue
  by_cases hv : v < 0
  · have hnonneg : ∀ n : ℤ, 0 ≤ -n % 2 ^ w := fun n => Int.emod_nonneg _ hw.ne'
    simp only [hv, decide_true, if_true]
    exact ⟨fun h => absurd (h ▸ hnonneg _) (not_le.2 hv), fun h => absurd h.1 (not_le.2 hv)⟩
  · simp only [hv, decide_false, Bool.false_eq_true, if_false]
    split_ifs <;> omega

/-- **Printing, then reading.** What a decimal conversion prints for an integer is read back as the integer, up to its
end, if it is in the range of the type and, for `strtol`, is not the smallest `long` and has no zeros before its sign. -/
theorem printed_read_back (hsp : C.specifier = .d ∨ C.specifier = .i ∨ C.specifier = .u)
    (harg : cArgument word C off g = .ok v) (hconvert : convert F nsLog word C off g = .ok (text, off', g'))
    (hs : HoldsString m str (text ++ rest)) (hrest : isDigit 10 (rest.headD 0) = false) (he : EndPlace m endptr) :
    (ReadBack m str endptr text v (strtol m str endptr 10) ↔ SignFirst C v ∧ -2 ^ 31 < v ∧ v < 2 ^ 31) ∧
    (ReadBack m str endptr text v (strtoul m str endptr 10) ↔ 0 ≤ v ∧ v < 2 ^ 32) ∧
    (ReadBack m str endptr text v (strtoull m str endptr 10) ↔ 0 ≤ v ∧ v < 2 ^ 64) := by
  have hformat : formatDecimal C v = .ok text := by
    rw [convert_decimal hsp] at hconvert
    obtain ⟨-, -, hconvert⟩ := bind_eq_ok.1 hconvert
    obtain ⟨⟨v', off₁⟩, hnext, hconvert⟩ := bind_eq_ok.1 hconvert
    obtain ⟨bytes, hformat, hconvert⟩ := bind_eq_ok.1 hconvert
    cases hconvert
    rw [(nextInt_of_cArgument hsp harg).2] at hnext
    split_ifs at hnext
    cases hnext
    exact hformat
  have hfirst : 0 ≤ v → SignFirst C v := fun hv _ hneg => absurd hneg (not_lt.2 hv)
  refine ⟨?_, ?_, ?_⟩
  · refine (strto_printed hs hrest he rfl (by decide) hformat).trans (and_congr_right fun _ => ?_)
    unfold codeValue i32Type
    simp only [decide_eq_true_eq]
    split_ifs <;> omega
  · rw [← and_iff_right_of_imp fun h : 0 ≤ v ∧ v < 2 ^ 32 => hfirst h.1, ← codeValue_wrapping]
    exact strto_printed hs hrest he rfl (by decide) hformat
  · rw [← and_iff_right_of_imp fun h : 0 ≤ v ∧ v < 2 ^ 64 => hfirst h.1, ← codeValue_wrapping]
    exact strto_printed hs hrest he rfl (by decide) hformat

/-- "%d" for -5 -/
def minusFiveMem : Mem := ⟨store (fun _ => 0) 4096 [45, 53], 4096⟩

theorem printed_read_back_five :
    ReadBack minusFiveMem 4096 0 [45, 53] (-5) (strtol minusFiveMem 4096 0 10) := by
  have hs : HoldsString minusFiveMem 4096 ([45, 53] ++ []) := ⟨by decide, by decide, by decide, by simp⟩
  have hconvert : convert plainFormats false (liveWord 0)
      ⟨false, false, false, 0, none, none, .d⟩ 1 minusFive = .ok ([45, 53], 2, minusFive) := rfl
  exact (printed_read_back (.inl rfl) rfl hconvert hs rfl (.inl rfl)).1.2 ⟨fun h => (nomatch h.1), by decide, by decide⟩

end TouchHLE.Printf
