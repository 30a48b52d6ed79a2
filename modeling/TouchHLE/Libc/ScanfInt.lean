/-
The integers of `sscanf` and `fscanf` in the C standard, beside what the conversion of the code finds in a string.

- `cIntLength`: the length of the longest integer at the start of the input, or a matching failure.
- `scanInt_finds_iff`: the conversion finds just that exactly when `IntMatches` says so.
- `scanInt_len`: what it finds is part of the input.
-/
import TouchHLE.Libc.Strtol

namespace TouchHLE.Scanf

open Machine

/-! ## The C standard -/

/-- a directive that must take something -/
def positive (n : ℕ) : Option ℕ := if n = 0 then none else some n

/-- the first `w` characters; no width is 0 -/
def within (w : ℕ) (r : List UInt8) : List UInt8 := if w = 0 then r else r.take w

def signLength (r : List UInt8) : ℕ := if isSign (r.headD 0) then 1 else 0

/-- "0x", which is part of the item also when no digit follows -/
def hexStart (base : ℕ) (r : List UInt8) : Bool :=
  (base == 0 || base == 16) && isZero (r.headD 0) && isX (r.tail.headD 0)

/-- the length of an integer without a sign -/
def cUnsignedLength (base : ℕ) (r : List UInt8) : Option ℕ :=
  if hexStart base r then (positive ((r.drop 2).takeWhile (isDigit 16)).length).map (2 + ·)
  else positive (r.takeWhile (isDigit (if base = 0 then prefixBase r else base))).length

/-- the length of an integer at the start of `r` -/
def cIntLength (base w : ℕ) (r : List UInt8) : Option ℕ :=
  let item := within w r
  (cUnsignedLength base (item.drop (signLength item))).map (signLength item + ·)

/-! ## The conversion -/

/-- where the conversion of integers does what C says: not a sign alone without a base, not "0x" cut off by the width,
and not a hexadecimal zero in front of something else -/
def IntMatches (base w : ℕ) (r : List UInt8) : Prop :=
  let g := signLength r
  let t := r.drop g
  ¬(base = 0 ∧ w = 1 ∧ g = 1) ∧ ¬(hexStart base t = true ∧ w = g + 2) ∧
    ¬(base = 16 ∧ isZero (t.headD 0) = true ∧ (w = 0 ∨ g + 1 < w) ∧ isX (t.tail.headD 0) = false ∧
      isDigit 16 (t.tail.headD 0) = false)

instance (base w : ℕ) (r : List UInt8) : Decidable (IntMatches base w r) := by
  unfold IntMatches
  infer_instance

section

variable {base w m k : ℕ} {r t ds : List UInt8} {c : UInt8} {sg : Option UInt8} {v : IntScan} {ty : IntType}

theorem positive_succ (n : ℕ) : positive (n + 1) = some (n + 1) := if_neg (Nat.succ_ne_zero n)

/-- what the conversion finds, but for the value -/
def Finds (ty : IntType) (v : IntScan) (found : Option ℕ) : Prop :=
  ∃ val, v.finish ty = .ok (found.map fun len => (val, len))

theorem Finds.unique {x y : Option ℕ} (hx : Finds ty v x) (hy : Finds ty v y) : x = y := by
  obtain ⟨a, ha⟩ := hx
  obtain ⟨b, hb⟩ := hy
  rw [ha] at hb
  cases x with
  | none =>
    cases y with
    | none => rfl
    | some y => cases hb
  | some x =>
    cases y with
    | none => cases hb
    | some y =>
      simp only [Option.map_some, Except.ok.injEq, Option.some.injEq, Prod.mk.injEq] at hb
      rw [hb.2]

theorem assert_base {b : ℕ} (hb : 2 ≤ b ∧ b ≤ 36) : assert (2 ≤ b && b ≤ 36) .base = .ok () :=
  assert_eq_ok.2 (by simpa using hb)

theorem finds_some (ty : IntType) (hb : 2 ≤ v.base ∧ v.base ≤ 36) (h : v.prefixLength < v.len) :
    Finds ty v (some (v.whitespaceLen + v.len)) := by
  refine ⟨if v.sign = some 45 then ty.negation (ty.fromStrRadix v.chars v.base) else ty.fromStrRadix v.chars v.base, ?_⟩
  unfold IntScan.finish
  rw [assert_base hb, ok_bind, if_pos (Nat.sub_pos_of_lt h)]
  rfl

theorem finds_none (ty : IntType) (hb : 2 ≤ v.base ∧ v.base ≤ 36) (h : v.len ≤ v.prefixLength)
    (h8 : ¬(v.base = 8 ∧ 0 < v.prefixLength)) : Finds ty v none := by
  refine ⟨0, ?_⟩
  unfold IntScan.finish
  rw [assert_base hb, ok_bind, if_neg (by omega), if_neg h8]
  rfl

/-- the zero of an invalid octal number -/
theorem finds_octal (ty : IntType) (hb : v.base = 8) (h : v.len ≤ v.prefixLength) (hp : 0 < v.prefixLength) :
    Finds ty v (some (v.whitespaceLen + v.prefixLength)) := by
  refine ⟨0, ?_⟩
  unfold IntScan.finish
  rw [assert_base (by rw [hb]; decide), ok_bind, if_neg (by omega), if_pos ⟨hb, hp⟩]
  rfl

/-- the scan of an integer after the sign -/
abbrev afterSignScan (k : ℕ) (sg : Option UInt8) (base : ℕ) : IntScan := ⟨0, k, sg, k, base, []⟩

/-- the digits of a number, after its prefix -/
theorem finds_digits (ty : IntType) (hb : 2 ≤ base ∧ base ≤ 36)
    (h8 : base = 8 → (r.take (m - k)).takeWhile (isDigit base) = [] → k = 0) :
    Finds ty ((afterSignScan k sg base).addDigits m r)
      ((positive ((r.take (m - k)).takeWhile (isDigit base)).length).map (k + ·)) := by
  unfold IntScan.addDigits
  simp only [List.take_takeWhile]
  cases hds : (r.take (m - k)).takeWhile (isDigit base) with
  | nil =>
    apply finds_none ty hb le_rfl
    rintro ⟨hb8, hk⟩
    exact absurd (h8 hb8 hds) hk.ne'
  | cons c ds =>
    have hlt : k < k + (ds.length + 1) := Nat.lt_add_of_pos_right (Nat.succ_pos _)
    have hfound := finds_some ty (v := ⟨0, k + (ds.length + 1), sg, k, base, [] ++ c :: ds⟩) hb hlt
    rw [Nat.zero_add] at hfound
    rw [List.length_cons, positive_succ, Option.map_some]
    exact hfound

theorem headD_take {j : ℕ} (hj : 0 < j) (l : List UInt8) : (l.take j).headD 0 = l.headD 0 := by
  obtain ⟨j, rfl⟩ : ∃ n, j = n + 1 := ⟨j - 1, by omega⟩
  cases l <;> rfl

theorem isDigit_48 (hb : 0 < base) : isDigit base 48 = true := by simp [isDigit, digitVal_zero, hb]

theorem prefixBase_nonzero (hz : isZero (r.headD 0) = false) : prefixBase r = 10 := if_neg (by rw [hz]; decide)

theorem hexStart_nonzero (hz : isZero (r.headD 0) = false) : hexStart base r = false := by
  rw [hexStart, hz, Bool.and_false, Bool.false_and]

/-- a number that does not start with a zero, or is decimal -/
theorem cUnsignedLength_plain (hbase : base = 0 ∨ base = 10 ∨ base = 16) (hz : base = 10 ∨ isZero (t.headD 0) = false) :
    cUnsignedLength base t = positive (t.takeWhile (isDigit (if base = 0 then 10 else base))).length := by
  have hhex : hexStart base t = false := by
    rcases hz with rfl | hz
    · rfl
    · exact hexStart_nonzero hz
  rw [cUnsignedLength, if_neg (by rw [hhex]; decide)]
  by_cases h0 : base = 0
  · subst h0
    have hz' := hz.resolve_left (by decide)
    rw [if_pos rfl, if_pos rfl, prefixBase_nonzero hz']
  · rw [if_neg h0, if_neg h0]

theorem base_plain (hz : base = 10 ∨ isZero (r.headD 0) = false) :
    (if base = 0 then prefixBase r else base) = if base = 0 then 10 else base := by
  rcases hz with rfl | hz
  · rfl
  · rw [prefixBase_nonzero hz]

theorem not_prefix_plain (hbase : base = 0 ∨ base = 10 ∨ base = 16) (hz : base = 10 ∨ isZero (r.headD 0) = false) :
    ¬(((if base = 0 then 10 else base) = 8 ∨ (if base = 0 then 10 else base) = 16) ∧ isZero (r.headD 0) = true) := by
  rintro ⟨hb, hzero⟩
  rcases hbase with rfl | rfl | rfl
  · exact absurd hb (by decide)
  · exact absurd hb (by decide)
  · rw [hz.resolve_left (by decide)] at hzero
    cases hzero

/-- the conversion after the sign, without a prefix -/
theorem addBase_plain (hbase : base = 0 ∨ base = 10 ∨ base = 16) (hz : base = 10 ∨ isZero (r.headD 0) = false) :
    (afterSignScan k sg base).addBase m r = (afterSignScan k sg (if base = 0 then 10 else base)).addDigits m r := by
  unfold IntScan.addBase IntScan.addPrefix
  simp only [base_plain hz, if_neg (not_prefix_plain hbase hz)]

theorem finds_plain (ty : IntType) (hbase : base = 0 ∨ base = 10 ∨ base = 16) (hk : k < m)
    (hz : base = 10 ∨ isZero (r.headD 0) = false) :
    Finds ty ((afterSignScan k sg base).addBase m r) ((cUnsignedLength base (r.take (m - k))).map (k + ·)) := by
  have hz' : base = 10 ∨ isZero ((r.take (m - k)).headD 0) = false := by rwa [headD_take (Nat.sub_pos_of_lt hk)]
  rw [cUnsignedLength_plain hbase hz', addBase_plain hbase hz]
  apply finds_digits ty
  · rcases hbase with rfl | rfl | rfl <;> decide
  · intro h8
    rcases hbase with rfl | rfl | rfl <;> exact absurd h8 (by decide)

/-- a zero that the width cuts off -/
theorem addBase_cut (hbase : base = 0 ∨ base = 16) : (afterSignScan k sg base).addBase (k + 1) (48 :: r) =
    ⟨0, k + 1, sg, k, if base = 0 then prefixBase (48 :: r) else base, []⟩ := by
  have hcode : (if base = 0 then prefixBase (48 :: r) else base) = 8 ∨
      (if base = 0 then prefixBase (48 :: r) else base) = 16 := by
    rcases hbase with rfl | rfl
    · rw [if_pos rfl, prefixBase, if_pos (by exact rfl), List.tail_cons]
      split_ifs
      · exact .inr rfl
      · exact .inl rfl
    · exact .inr rfl
  have hzero : isZero ((48 :: r).headD 0) = true := rfl
  unfold IntScan.addBase IntScan.addPrefix
  simp only [hcode, hzero, and_self, if_true]

theorem prefixBase_bounds (hbase : base = 0 ∨ base = 16) (r : List UInt8) :
    2 ≤ (if base = 0 then prefixBase r else base) ∧ (if base = 0 then prefixBase r else base) ≤ 36 := by
  rcases hbase with rfl | rfl
  · rw [if_pos rfl, prefixBase]
    split_ifs <;> decide
  · rw [if_neg (by decide)]
    decide

theorem finds_zero_cut (ty : IntType) (hbase : base = 0 ∨ base = 16) :
    Finds ty ((afterSignScan k sg base).addBase (k + 1) (48 :: r)) (some (k + 1)) := by
  rw [addBase_cut hbase]
  have hfound := finds_some ty (v := ⟨0, k + 1, sg, k, if base = 0 then prefixBase (48 :: r) else base, []⟩)
    (prefixBase_bounds hbase (48 :: r)) (Nat.lt_succ_self k)
  rwa [Nat.zero_add] at hfound

/-- the base after "0x" -/
theorem hexStart_base (h : hexStart base r = true) :
    (base = 0 ∨ base = 16) ∧ (if base = 0 then prefixBase r else base) = 16 ∧ isZero (r.headD 0) = true ∧
      isX (r.tail.headD 0) = true := by
  unfold hexStart at h
  simp only [Bool.and_eq_true, Bool.or_eq_true, beq_iff_eq] at h
  obtain ⟨⟨hbase, hz⟩, hx⟩ := h
  refine ⟨hbase, ?_, hz, hx⟩
  rcases hbase with rfl | rfl
  · rw [if_pos rfl, prefixBase, if_pos hz, if_pos hx]
  · rfl

/-- "0x" that the width cuts off is found as a number -/
theorem addBase_hexCut (h : hexStart base r = true) :
    (afterSignScan k sg base).addBase (k + 2) r = ⟨0, k + 2, sg, k + 1, 16, []⟩ := by
  obtain ⟨-, hcode, hz, hx⟩ := hexStart_base h
  unfold IntScan.addBase IntScan.addPrefix
  simp only [hcode, hz, hx, or_true, and_self, if_true, (show ¬ k + 1 = k + 2 by omega), if_false]

theorem finds_hex_cut (ty : IntType) (h : hexStart base r = true) :
    Finds ty ((afterSignScan k sg base).addBase (k + 2) r) (some (k + 2)) := by
  rw [addBase_hexCut h]
  have hb : 2 ≤ 16 ∧ 16 ≤ 36 := by decide
  have hfound := finds_some ty (v := ⟨0, k + 2, sg, k + 1, 16, []⟩) hb (Nat.lt_succ_self (k + 1))
  rwa [Nat.zero_add] at hfound

theorem hexStart_zero (hbase : base = 0 ∨ base = 16) (hx : isX (r.headD 0) = true) : hexStart base (48 :: r) = true := by
  have hzero : isZero ((48 :: r).headD 0) = true := rfl
  rw [hexStart, hzero, List.tail_cons, hx, Bool.and_true, Bool.and_true]
  rcases hbase with rfl | rfl <;> rfl

theorem hexStart_take {n : ℕ} (h : hexStart base r = true) (hn : 2 ≤ n) : hexStart base (r.take n) = true := by
  have htail : (r.take n).tail = r.tail.take (n - 1) := by rw [← List.drop_one, ← List.drop_one, List.drop_take]
  unfold hexStart at h ⊢
  rwa [headD_take (by omega), htail, headD_take (by omega)]

/-- the digits after "0x" -/
theorem addBase_hex (h : hexStart base r = true) (hk : k + 2 < m) :
    (afterSignScan k sg base).addBase m r = (afterSignScan (k + 2) sg 16).addDigits m (r.drop 2) := by
  obtain ⟨-, hcode, hz, hx⟩ := hexStart_base h
  unfold IntScan.addBase IntScan.addPrefix
  simp only [hcode, hz, hx, or_true, and_self, if_true, (show ¬ k + 1 = m by omega), (show ¬ k + 2 = m by omega), if_false]

theorem finds_hex (ty : IntType) (h : hexStart base r = true) (hk : k + 2 < m) :
    Finds ty ((afterSignScan k sg base).addBase m r) ((cUnsignedLength base (r.take (m - k))).map (k + ·)) := by
  have hitem : hexStart base (r.take (m - k)) = true := hexStart_take h (by omega)
  have hdrop : (r.take (m - k)).drop 2 = (r.drop 2).take (m - (k + 2)) := by rw [List.drop_take, Nat.sub_sub]
  rw [cUnsignedLength, if_pos hitem, hdrop, Option.map_map, addBase_hex h hk]
  have hmap : ((fun len => k + len) ∘ fun len => 2 + len) = fun len => k + 2 + len := by
    funext len
    exact (Nat.add_assoc k 2 len).symm
  rw [hmap]
  exact finds_digits ty (k := k + 2) (by decide) (fun h8 => absurd h8 (by decide))

/-- a zero that is not part of "0x" -/
theorem addBase_zero (hbase : base = 0 ∨ base = 16) (hx : isX (r.headD 0) = false) (hk : k + 1 < m) :
    (afterSignScan k sg base).addBase m (48 :: r) =
      (afterSignScan (k + 1) sg (if base = 0 then 8 else 16)).addDigits m r := by
  have hzero : isZero ((48 :: r).headD 0) = true := rfl
  unfold IntScan.addBase IntScan.addPrefix
  rcases hbase with rfl | rfl
  · simp only [prefixBase, hzero, List.tail_cons, hx, if_true, Bool.false_eq_true, if_false, true_or, and_self,
      (show ¬ k + 1 = m by omega), and_false]
  · simp only [hzero, List.tail_cons, hx, Bool.false_eq_true, if_false, or_true, and_self, if_true,
      (show ¬ k + 1 = m by omega), and_false, OfNat.ofNat_ne_zero]

/-- what C finds there -/
theorem cUnsignedLength_zero (hbase : base = 0 ∨ base = 16) (hx : isX (t.headD 0) = false) :
    cUnsignedLength base (48 :: t) = some ((t.takeWhile (isDigit (if base = 0 then 8 else 16))).length + 1) := by
  have hhex : hexStart base (48 :: t) = false := by
    rw [hexStart, List.tail_cons, hx, Bool.and_false]
  have hcode : (if base = 0 then prefixBase (48 :: t) else base) = if base = 0 then 8 else 16 := by
    rcases hbase with rfl | rfl
    · rw [if_pos rfl, if_pos rfl, prefixBase, List.tail_cons, hx]
      rfl
    · rfl
  rw [cUnsignedLength, if_neg (by rw [hhex]; decide), hcode, List.takeWhile_cons_of_pos (isDigit_48 (by split_ifs <;> decide)),
    List.length_cons, positive_succ]

/-- **The conversion after the sign** finds what C does, unless "0x" is cut off or a hexadecimal zero stands alone. -/
theorem addBase_finds (ty : IntType) (hbase : base = 0 ∨ base = 10 ∨ base = 16) (hk : k < m)
    (hcut : ¬(hexStart base r = true ∧ m = k + 2))
    (halone : ¬(base = 16 ∧ isZero (r.headD 0) = true ∧ k + 1 < m ∧ isX (r.tail.headD 0) = false ∧
      isDigit 16 (r.tail.headD 0) = false)) :
    Finds ty ((afterSignScan k sg base).addBase m r) ((cUnsignedLength base (r.take (m - k))).map (k + ·)) := by
  by_cases hplain : base = 10 ∨ isZero (r.headD 0) = false
  · exact finds_plain ty hbase hk hplain
  push Not at hplain
  obtain ⟨h10, hz⟩ := hplain
  have hbase' : base = 0 ∨ base = 16 := hbase.imp_right fun h => h.resolve_left h10
  have hz' : isZero (r.headD 0) = true := by simpa using hz
  rw [isZero_head hz']
  obtain ⟨j, rfl⟩ : ∃ j, m = k + 1 + j := ⟨m - (k + 1), by omega⟩
  have hitem : (48 :: r.tail).take (k + 1 + j - k) = 48 :: r.tail.take j := by
    rw [(show k + 1 + j - k = j + 1 by omega), List.take_succ_cons]
  cases j with
  | zero =>
    rw [hitem, List.take_zero, cUnsignedLength_zero hbase' rfl]
    exact finds_zero_cut ty hbase'
  | succ j =>
    have hjpos : 0 < j + 1 := Nat.succ_pos j
    by_cases hx : isX (r.tail.headD 0) = true
    · have hhex : hexStart base r = true := by
        rw [hexStart, hz', hx, Bool.and_true, Bool.and_true]
        rcases hbase' with rfl | rfl <;> rfl
      have hlt : k + 2 < k + 1 + (j + 1) := by
        have hne : k + 1 + (j + 1) ≠ k + 2 := fun he => hcut ⟨hhex, he⟩
        omega
      rw [← isZero_head hz']
      exact finds_hex ty hhex hlt
    · have hx' : isX (r.tail.headD 0) = false := by simpa using hx
      have hsub : k + 1 + (j + 1) - (k + 1) = j + 1 := Nat.add_sub_cancel_left _ _
      rw [hitem, cUnsignedLength_zero hbase' (by rwa [headD_take hjpos]), addBase_zero hbase' hx' (by omega), Option.map_some]
      have hb : 2 ≤ (if base = 0 then 8 else 16) ∧ (if base = 0 then 8 else 16) ≤ 36 := by split_ifs <;> decide
      cases hds : (r.tail.take (j + 1)).takeWhile (isDigit (if base = 0 then 8 else 16)) with
      | nil =>
        have hno : (afterSignScan (k + 1) sg (if base = 0 then 8 else 16)).addDigits (k + 1 + (j + 1)) r.tail =
            afterSignScan (k + 1) sg (if base = 0 then 8 else 16) := by
          simp only [IntScan.addDigits, hsub, List.take_takeWhile, hds, List.append_nil, List.length_nil, Nat.add_zero]
        rw [hno]
        rcases hbase' with rfl | rfl
        · have hfound := finds_octal ty (v := afterSignScan (k + 1) sg 8) rfl le_rfl (Nat.succ_pos k)
          rwa [Nat.zero_add] at hfound
        · have hdigit : isDigit 16 ((r.tail.take (j + 1)).headD 0) = false := (takeWhile_eq_nil (isDigit_zero 16)).1 hds
          rw [headD_take hjpos] at hdigit
          exact absurd ⟨rfl, hz', by omega, hx', hdigit⟩ halone
      | cons c ds =>
        have hfound : Finds ty ((afterSignScan (k + 1) sg (if base = 0 then 8 else 16)).addDigits (k + 1 + (j + 1)) r.tail) _ :=
          finds_digits ty hb
          (fun _ hnil => absurd hnil (by rw [hsub, hds]; exact List.cons_ne_nil c ds))
        rw [hsub, hds, List.length_cons, positive_succ, Option.map_some] at hfound
        rw [List.length_cons, (show k + (ds.length + 1 + 1) = k + 1 + (ds.length + 1) by omega)]
        exact hfound

/-- and not otherwise -/
theorem addBase_not_finds (ty : IntType) (hbad : hexStart base r = true ∧ m = k + 2 ∨
      base = 16 ∧ isZero (r.headD 0) = true ∧ k + 1 < m ∧ isX (r.tail.headD 0) = false ∧
      isDigit 16 (r.tail.headD 0) = false) :
    ¬Finds ty ((afterSignScan k sg base).addBase m r) ((cUnsignedLength base (r.take (m - k))).map (k + ·)) := by
  intro hfinds
  rcases hbad with ⟨hhex, rfl⟩ | ⟨rfl, hz, hlt, hx, hdigit⟩
  · have hnone : cUnsignedLength base (r.take (k + 2 - k)) = none := by
      rw [Nat.add_sub_cancel_left, cUnsignedLength, if_pos (hexStart_take hhex le_rfl), List.drop_take, Nat.sub_self]
      rfl
    rw [hnone] at hfinds
    cases hfinds.unique (finds_hex_cut ty hhex)
  · rw [isZero_head hz] at hfinds
    obtain ⟨j, rfl⟩ : ∃ j, m = k + 1 + (j + 1) := ⟨m - (k + 2), by omega⟩
    have hsub : k + 1 + (j + 1) - k = j + 1 + 1 := by omega
    rw [hsub, List.take_succ_cons, cUnsignedLength_zero (.inr rfl) (by rwa [headD_take (Nat.succ_pos j)]),
      addBase_zero (.inr rfl) hx (by omega), if_neg (by decide)] at hfinds
    have hnone : Finds ty ((afterSignScan (k + 1) sg 16).addDigits (k + 1 + (j + 1)) r.tail) _ := finds_digits ty (by decide)
      (fun h8 => absurd h8 (by decide))
    have hnil : (r.tail.take (j + 1)).takeWhile (isDigit 16) = [] := by
      rw [takeWhile_eq_nil (isDigit_zero 16), headD_take (Nat.succ_pos j)]
      exact hdigit
    rw [Nat.add_sub_cancel_left, hnil] at hnone
    cases hfinds.unique hnone

/-- the limit that the code passes for a width -/
def widthLimit (w : ℕ) : ℕ := if 0 < w then w else 2 ^ 32 - 1

theorem within_eq (hlen : r.length < 2 ^ 32) : within w r = r.take (widthLimit w) := by
  unfold within widthLimit
  by_cases hw : w = 0
  · rw [if_pos hw, if_neg (by omega), List.take_of_length_le (by omega)]
  · rw [if_neg hw, if_pos (Nat.pos_of_ne_zero hw)]

theorem signLength_cases (r : List UInt8) :
    isSign (r.headD 0) = true ∧ signLength r = 1 ∨ isSign (r.headD 0) = false ∧ signLength r = 0 := by
  unfold signLength
  cases isSign (r.headD 0) <;> simp

theorem signLength_take (hm : 0 < m) : signLength (r.take m) = signLength r := by
  unfold signLength
  rw [headD_take hm]

/-- the conversion without white space: a sign that the width cuts off, or what follows the sign -/
theorem scanInt_eq (hspace : r.takeWhile isspaceInner = []) :
    scanInt base m r = if signLength r = 1 ∧ m = 1 then afterSignScan 1 r.head? base
      else (afterSignScan (signLength r) (if signLength r = 1 then r.head? else none) base).addBase m (r.drop (signLength r)) := by
  unfold scanInt IntScan.addSign
  rw [hspace]
  rcases signLength_cases r with ⟨hs, hg⟩ | ⟨hs, hg⟩
  · simp only [List.length_nil, List.drop_zero, hs, hg, if_true, true_and, Nat.zero_add, List.drop_one, eq_comm]
  · simp only [List.length_nil, List.drop_zero, hs, hg, Bool.false_eq_true, if_false, false_and, Nat.zero_ne_one]

theorem cIntLength_eq (hlen : r.length < 2 ^ 32) (hm : 0 < widthLimit w) :
    cIntLength base w r =
      (cUnsignedLength base ((r.drop (signLength r)).take (widthLimit w - signLength r))).map (signLength r + ·) := by
  unfold cIntLength
  simp only [within_eq hlen, signLength_take hm, List.drop_take]

theorem cUnsignedLength_nil (hbase : base = 0 ∨ base = 10 ∨ base = 16) : cUnsignedLength base [] = none := by
  rcases hbase with rfl | rfl | rfl <;> rfl

/-- **The conversion of integers** finds what C matches exactly when `IntMatches` says so. -/
theorem scanInt_finds_iff (ty : IntType) (hbase : base = 0 ∨ base = 10 ∨ base = 16) (hspace : r.takeWhile isspaceInner = [])
    (hlen : r.length < 2 ^ 32) : Finds ty (scanInt base (widthLimit w) r) (cIntLength base w r) ↔ IntMatches base w r := by
  have hm : 0 < widthLimit w := by
    unfold widthLimit
    split_ifs with hw
    · exact hw
    · decide
  have hg : signLength r ≤ 1 := by
    rcases signLength_cases r with ⟨-, hg⟩ | ⟨-, hg⟩ <;> rw [hg]
    exact Nat.zero_le 1
  have hone : widthLimit w = 1 ↔ w = 1 := by unfold widthLimit; split_ifs <;> omega
  have htwo : widthLimit w = signLength r + 2 ↔ w = signLength r + 2 := by unfold widthLimit; split_ifs <;> omega
  have hmore : signLength r + 1 < widthLimit w ↔ w = 0 ∨ signLength r + 1 < w := by unfold widthLimit; split_ifs <;> omega
  rw [scanInt_eq hspace, cIntLength_eq hlen hm]
  unfold IntMatches
  simp only [← hone, ← htwo, ← hmore]
  by_cases hcut : signLength r = 1 ∧ widthLimit w = 1
  · obtain ⟨hg1, hw1⟩ := hcut
    rw [if_pos ⟨hg1, hw1⟩, hg1, hw1, Nat.sub_self, List.take_zero, cUnsignedLength_nil hbase, Option.map_none]
    by_cases h0 : base = 0
    · refine iff_of_false ?_ fun h => h.1 ⟨h0, rfl, rfl⟩
      rintro ⟨v, hv⟩
      subst h0
      cases hv
    · have hb : 2 ≤ base ∧ base ≤ 36 := by omega
      have h8 : base ≠ 8 := by omega
      refine iff_of_true (finds_none ty hb le_rfl fun h => h8 h.1) ⟨fun h => h0 h.1, fun h => ?_, fun h => ?_⟩
      · exact absurd h.2 (by decide)
      · exact absurd h.2.2.1 (by decide)
  · rw [if_neg hcut]
    have hk : signLength r < widthLimit w := by omega
    constructor
    · intro hfinds
      refine ⟨fun h => hcut ⟨h.2.2, h.2.1⟩, ?_, ?_⟩
      · intro hbad
        exact addBase_not_finds ty (.inl hbad) hfinds
      · intro hbad
        exact addBase_not_finds ty (.inr hbad) hfinds
    · rintro ⟨-, h1, h2⟩
      exact addBase_finds ty hbase hk h1 h2

/-- what has been scanned is part of the input -/
structure WithinInput (v' v : IntScan) (n : ℕ) : Prop where
  spaces : v'.whitespaceLen = v.whitespaceLen
  prefixed : v'.prefixLength ≤ v'.len
  taken : v'.len ≤ v.len + n

theorem WithinInput.more {v'' v' v : IntScan} {n k : ℕ} (h : WithinInput v'' v' n) (hspaces : v'.whitespaceLen = v.whitespaceLen)
    (hlen : v'.len = v.len + k) : WithinInput v'' v (n + k) := by
  refine ⟨h.spaces.trans hspaces, h.prefixed, h.taken.trans ?_⟩
  rw [hlen]
  omega

theorem addDigits_within (h : v.prefixLength ≤ v.len) : WithinInput (v.addDigits m r) v r.length := by
  have htaken : ((r.takeWhile (isDigit v.base)).take (m - v.len)).length ≤ r.length := by
    calc ((r.takeWhile (isDigit v.base)).take (m - v.len)).length ≤ (r.takeWhile (isDigit v.base)).length :=
          List.length_take_le' _ _
      _ ≤ r.length := (List.takeWhile_sublist _).length_le
  exact ⟨rfl, h.trans (Nat.le_add_right _ _), Nat.add_le_add_left htaken _⟩

theorem isX_head (hx : isX (r.headD 0) = true) : r = r.headD 0 :: r.tail := by
  cases r with
  | nil => exact absurd hx (by decide)
  | cons => rfl

theorem addPrefix_within (h : v.prefixLength ≤ v.len) : WithinInput (v.addPrefix m r) v r.length := by
  unfold IntScan.addPrefix
  by_cases hz : (v.base = 8 ∨ v.base = 16) ∧ isZero (r.headD 0) = true
  swap
  · rw [if_neg hz]
    exact addDigits_within h
  have hlen : r.length = r.tail.length + 1 := congrArg List.length (isZero_head hz.2)
  rw [if_pos hz, hlen]
  by_cases hend : v.len + 1 = m
  · rw [if_pos hend]
    exact ⟨rfl, h.trans (Nat.le_succ _), Nat.add_le_add_left (Nat.succ_pos _) _⟩
  rw [if_neg hend]
  by_cases hx : v.base = 16 ∧ isX (r.tail.headD 0) = true
  swap
  · rw [if_neg hx]
    exact (addDigits_within (Nat.succ_le_succ h)).more rfl rfl
  have hlen2 : r.tail.length = (r.drop 2).length + 1 := by
    have hdrop : r.drop 2 = r.tail.tail := by rw [← List.drop_one, ← List.drop_one, List.drop_drop]
    rw [hdrop]
    exact congrArg List.length (isX_head hx.2)
  rw [if_pos hx, hlen2]
  split_ifs with hend2
  · exact ⟨rfl, Nat.succ_le_succ (h.trans (Nat.le_succ _)), Nat.add_le_add_left (Nat.le_add_left _ _) _⟩
  · have hmore := addDigits_within (m := m) (r := r.drop 2) (v := { v with len := v.len + 2, prefixLength := v.prefixLength + 2 })
      (Nat.add_le_add_right h 2)
    exact hmore.more (v := v) (k := 2) rfl rfl

theorem addSign_within (h : v.prefixLength ≤ v.len) : WithinInput (v.addSign m r) v r.length := by
  unfold IntScan.addSign
  by_cases hs : isSign (r.headD 0) = true
  swap
  · rw [if_neg hs]
    obtain ⟨hspaces, hprefixed, htaken⟩ := addPrefix_within (m := m) (r := r)
      (v := { v with base := if v.base = 0 then prefixBase r else v.base }) h
    exact ⟨hspaces, hprefixed, htaken⟩
  have hlen : r.length = r.tail.length + 1 := by
    cases r with
    | nil => exact absurd hs (by decide)
    | cons => rfl
  rw [if_pos hs, hlen]
  simp only
  split_ifs with hend
  · exact ⟨rfl, Nat.succ_le_succ h, Nat.add_le_add_left (Nat.le_add_left _ _) _⟩
  · exact (addPrefix_within (Nat.succ_le_succ h)).more rfl rfl

/-- what the conversion finds is part of the input -/
theorem scanInt_len {val : ℤ} {len : ℕ} (h : (scanInt base m r).finish ty = .ok (some (val, len))) :
    len ≤ r.length := by
  obtain ⟨hspaces, hprefixed, htaken⟩ := addSign_within (m := m) (r := r.drop (r.takeWhile isspaceInner).length)
    (v := ⟨(r.takeWhile isspaceInner).length, 0, none, 0, base, []⟩) le_rfl
  have hsp : (r.takeWhile isspaceInner).length ≤ r.length := (List.takeWhile_sublist _).length_le
  rw [List.length_drop] at htaken
  have hbound : (scanInt base m r).whitespaceLen + (scanInt base m r).len ≤ r.length := by
    have hsum := Nat.add_le_add hspaces.le htaken
    exact hsum.trans (by simp only; omega)
  have hprefix : (scanInt base m r).whitespaceLen + (scanInt base m r).prefixLength ≤ r.length :=
    (Nat.add_le_add_left hprefixed _).trans hbound
  generalize scanInt base m r = v at h hbound hprefix
  unfold IntScan.finish at h
  obtain ⟨-, -, h⟩ := bind_eq_ok.1 h
  by_cases h1 : 0 < v.len - v.prefixLength
  · rw [if_pos h1] at h
    cases h
    exact hbound
  · rw [if_neg h1] at h
    by_cases h2 : v.base = 8 ∧ 0 < v.prefixLength
    · rw [if_pos h2] at h
      cases h
      exact hprefix
    · rw [if_neg h2] at h
      cases h

end

end TouchHLE.Scanf
