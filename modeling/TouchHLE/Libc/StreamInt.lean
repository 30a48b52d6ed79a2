/-
The conversion from strings to integers on a stream (`str_to_int_inner_generic` with the callbacks of `fscanf`).

- `StreamReads`: a source whose states say what is left, whatever the index.
- `streamInt`: what the stages find in a stream, and how many characters they take of it.
- `strToInt_stream`: on a stream the conversion finds just that.
- `streamInt_same_iff`: when it finds what it finds in a string, and takes what it finds.
-/
import TouchHLE.Libc.ScanfReads
import TouchHLE.Libc.ScanfInt

namespace TouchHLE.Scanf

open Machine

/-- a stream: in the state `st` the characters `r` are left -/
def StreamReads {σ : Type} (src : Source σ) (Left : σ → List UInt8 → Prop) : Prop :=
  Reads src none fun st idx r => Left st r ∧ idx + r.length < 2 ^ 32

/-! ## The stages -/

/-- digits, and how many there are -/
def readDigits (v : IntScan) (m : ℕ) (r : List UInt8) : IntScan × ℕ := (v.addDigits m r, (v.addDigits m r).len - v.len)

/-- `skip_prefix`: the zero of an octal number is pushed back, and read again as a digit -/
def readPrefix (v : IntScan) (m : ℕ) (r : List UInt8) : IntScan × ℕ :=
  if v.base = 8 ∧ isZero (r.headD 0) = true ∧ v.len + 1 ≠ m then
    readDigits { v with len := v.len + 1, prefixLength := v.prefixLength + 1 } m r
  else (v.addPrefix m r, (v.addPrefix m r).len - v.len)

/-- the detection of the base, which needs two characters after a zero -/
def readBase (v : IntScan) (m : ℕ) (r : List UInt8) : IntScan × ℕ :=
  if v.base = 0 ∧ (r = [] ∨ isZero (r.headD 0) = true ∧ r.tail = []) then (v, r.length)
  else readPrefix { v with base := if v.base = 0 then prefixBase r else v.base } m r

def readSign (v : IntScan) (m : ℕ) (r : List UInt8) : IntScan × ℕ :=
  if isSign (r.headD 0) then
    let v := { v with sign := r.head?, prefixLength := v.prefixLength + 1, len := v.len + 1 }
    if v.len = m then (v, 1) else ((readBase v m r.tail).1, (readBase v m r.tail).2 + 1)
  else readBase v m r

/-- what the conversion finds in a stream, without white space, and how many characters it takes -/
def streamInt (base m : ℕ) (r : List UInt8) : IntScan × ℕ := readSign ⟨0, 0, none, 0, base, []⟩ m r

section

variable {σ : Type} {src : Source σ} {Left : σ → List UInt8 → Prop} {st : σ} {r : List UInt8} {offset m fuel : ℕ}
  {v : IntScan} {c : UInt8} {x : Except Panic (IntScan × σ)}

/-- what a stage finds and leaves -/
def Takes (Left : σ → List UInt8 → Prop) (r : List UInt8) (x : Except Panic (IntScan × σ)) (p : IntScan × ℕ) : Prop :=
  ∃ st', x = .ok (p.1, st') ∧ Left st' (r.drop p.2)

theorem addDigits_nil : v.addDigits m [] = v := by
  simp [IntScan.addDigits]

theorem addDigits_neg (hd : ¬ isDigit v.base c = true) : v.addDigits m (c :: r) = v := by
  simp [IntScan.addDigits, hd]

theorem addDigits_full (hm : v.len = m) : v.addDigits m r = v := by
  subst hm
  simp [IntScan.addDigits]

theorem addDigits_len_le (v : IntScan) (m : ℕ) (r : List UInt8) : v.len ≤ (v.addDigits m r).len := Nat.le_add_right _ _

/-- one more digit -/
theorem readDigits_cons (hroom : v.len < m) (hd : isDigit v.base c = true) :
    readDigits v m (c :: r) = ((readDigits { v with chars := v.chars ++ [c], len := v.len + 1 } m r).1,
      (readDigits { v with chars := v.chars ++ [c], len := v.len + 1 } m r).2 + 1) := by
  have hle := addDigits_len_le { v with chars := v.chars ++ [c], len := v.len + 1 } m r
  unfold readDigits
  rw [addDigits_cons hroom hd]
  simp only at hle ⊢
  rw [(show ∀ n, v.len + 1 ≤ n → n - v.len = n - (v.len + 1) + 1 by omega) _ hle]

namespace StreamReads

theorem next (h : StreamReads src Left) (hat : Left st (c :: r)) {idx : ℕ} (hidx : idx + (r.length + 1) < 2 ^ 32) :
    ∃ st', src.getcAt st idx = .ok (some c, st') ∧ src.ungetc st' c = .ok st ∧ Left st' r := by
  obtain ⟨st', hget, hback, hnext, -⟩ := Reads.next h ⟨hat, hidx⟩
  exact ⟨st', hget, hback, hnext⟩

theorem last (h : StreamReads src Left) (hat : Left st []) {idx : ℕ} (hidx : idx < 2 ^ 32) :
    src.getcAt st idx = .ok (none, st) := (Reads.last h ⟨hat, hidx⟩).1

end StreamReads

theorem digitsLoop_stream (h : StreamReads src Left) (hat : Left st r) (hb : v.base ≤ 36) (hroom : v.len < m)
    (hsmall : offset + v.whitespaceLen + v.len + r.length < 2 ^ 32) (hf : r.length < fuel)
    (hc : v.chars.length = v.len - v.prefixLength) (hp : v.prefixLength ≤ v.len) :
    Takes Left r (digitsLoop src offset m fuel v st) (readDigits v m r) := by
  induction r generalizing v st fuel with
  | nil =>
    obtain ⟨fuel, rfl⟩ : ∃ f, fuel = f + 1 := ⟨fuel - 1, by omega⟩
    refine ⟨st, ?_, by simpa using hat⟩
    rw [digitsLoop, h.last hat (by simpa using hsmall), ok_bind]
    exact congrArg (fun v => Except.ok (v, st)) addDigits_nil.symm
  | cons c r ih =>
    rw [List.length_cons] at hsmall hf
    obtain ⟨fuel, rfl⟩ : ∃ f, fuel = f + 1 := ⟨fuel - 1, by omega⟩
    obtain ⟨st', hget, hback, hnext⟩ := h.next hat hsmall
    rw [digitsLoop, hget, ok_bind]
    simp only [assert_ok (decide_eq_true hb), ok_bind]
    by_cases hd : isDigit v.base c = true
    · rw [if_pos hd, readDigits_cons hroom hd]
      by_cases hend : v.len + 1 = m
      · rw [if_pos hend]
        refine ⟨st', ?_, ?_⟩
        · exact congrArg (fun v => Except.ok (v, st')) (addDigits_full hend).symm
        · simp only [readDigits, addDigits_full (v := { v with chars := v.chars ++ [c], len := v.len + 1 }) hend,
            Nat.sub_self, Nat.zero_add, List.drop_succ_cons, List.drop_zero]
          exact hnext
      · rw [if_neg hend]
        exact ih hnext (v := { v with chars := v.chars ++ [c], len := v.len + 1 }) hb (by simp only; omega)
          (by simp only; omega) (by omega) (by simp only [List.length_append, List.length_singleton, hc]; omega)
          (by simp only; omega)
    · rw [if_neg hd, hback, ok_bind, assert_ok (by simpa using hc), ok_bind]
      refine ⟨st, ?_, ?_⟩
      · exact congrArg (fun v => Except.ok (v, st)) (addDigits_neg hd).symm
      · simp only [readDigits, addDigits_neg hd, Nat.sub_self, List.drop_zero]
        exact hat

theorem digits_stream (h : StreamReads src Left) (hat : Left st r) (hb : v.base ≤ 36) (hroom : v.len < m)
    (hsmall : offset + v.whitespaceLen + v.len + r.length < 2 ^ 32) (hc : v.chars = []) (hp : v.prefixLength = v.len) :
    Takes Left r (digits src offset m v st) (readDigits v m r) :=
  digitsLoop_stream h hat hb hroom hsmall (by omega) (by simp [hc, hp]) hp.le

theorem Takes.congr {p q : IntScan × ℕ} (h : Takes Left r x p) (heq : p = q) : Takes Left r x q :=
  heq ▸ h

/-- after a character that has been taken -/
theorem Takes.after {p : IntScan × ℕ} (h : Takes Left r x p) :
    Takes Left (c :: r) x (p.1, p.2 + 1) := h

/-- digits after `k` more characters of a prefix -/
theorem readDigits_more {v v' : IntScan} {k : ℕ} (hlen : v'.len = v.len + k) :
    ((readDigits v' m r).1, (readDigits v' m r).2 + k) = (v'.addDigits m r, (v'.addDigits m r).len - v.len) := by
  have hle := addDigits_len_le v' m r
  unfold readDigits
  simp only [Prod.mk.injEq, true_and]
  omega

/-! ### The cases of a prefix -/

theorem readPrefix_plain (h : ¬((v.base = 8 ∨ v.base = 16) ∧ isZero (r.headD 0) = true)) :
    readPrefix v m r = readDigits v m r := by
  have h8 : ¬(v.base = 8 ∧ isZero (r.headD 0) = true ∧ v.len + 1 ≠ m) := fun h' => h ⟨.inl h'.1, h'.2.1⟩
  unfold readPrefix IntScan.addPrefix
  rw [if_neg h8, if_neg h]
  rfl

theorem readPrefix_cut (h : (v.base = 8 ∨ v.base = 16) ∧ isZero (r.headD 0) = true) (hend : v.len + 1 = m) :
    readPrefix v m r = ({ v with len := v.len + 1 }, 1) := by
  have h8 : ¬(v.base = 8 ∧ isZero (r.headD 0) = true ∧ v.len + 1 ≠ m) := fun h' => h'.2.2 hend
  unfold readPrefix IntScan.addPrefix
  rw [if_neg h8, if_pos h, if_pos hend]
  simp only [Nat.add_sub_cancel_left]

theorem readPrefix_octal (h8 : v.base = 8) (hz : isZero (r.headD 0) = true) (hend : v.len + 1 ≠ m) :
    readPrefix v m r = readDigits { v with len := v.len + 1, prefixLength := v.prefixLength + 1 } m r := if_pos ⟨h8, hz, hend⟩

theorem readPrefix_hexZero (h16 : v.base = 16) (hz : isZero (r.headD 0) = true) (hend : v.len + 1 ≠ m)
    (hx : ¬isX (r.tail.headD 0) = true) :
    readPrefix v m r = ((readDigits { v with len := v.len + 1, prefixLength := v.prefixLength + 1 } m r.tail).1,
      (readDigits { v with len := v.len + 1, prefixLength := v.prefixLength + 1 } m r.tail).2 + 1) := by
  have h8 : ¬(v.base = 8 ∧ isZero (r.headD 0) = true ∧ v.len + 1 ≠ m) := fun h' => absurd (h16.symm.trans h'.1) (by decide)
  rw [readDigits_more (v := v) (k := 1) rfl]
  unfold readPrefix IntScan.addPrefix
  rw [if_neg h8, if_pos ⟨.inr h16, hz⟩, if_neg hend, if_neg fun h => hx h.2]

theorem readPrefix_hexCut (h16 : v.base = 16) (hz : isZero (r.headD 0) = true) (hx : isX (r.tail.headD 0) = true)
    (hend : v.len + 2 = m) : readPrefix v m r = ({ v with len := v.len + 2, prefixLength := v.prefixLength + 1 }, 2) := by
  have h8 : ¬(v.base = 8 ∧ isZero (r.headD 0) = true ∧ v.len + 1 ≠ m) := fun h' => absurd (h16.symm.trans h'.1) (by decide)
  unfold readPrefix IntScan.addPrefix
  rw [if_neg h8, if_pos ⟨.inr h16, hz⟩, if_neg (by omega), if_pos ⟨h16, hx⟩, if_pos hend]
  simp only [Nat.add_sub_cancel_left]

theorem readPrefix_hex (h16 : v.base = 16) (hz : isZero (r.headD 0) = true) (hx : isX (r.tail.headD 0) = true)
    (hend : v.len + 2 < m) :
    readPrefix v m r = ((readDigits { v with len := v.len + 2, prefixLength := v.prefixLength + 2 } m (r.drop 2)).1,
      (readDigits { v with len := v.len + 2, prefixLength := v.prefixLength + 2 } m (r.drop 2)).2 + 2) := by
  have h8 : ¬(v.base = 8 ∧ isZero (r.headD 0) = true ∧ v.len + 1 ≠ m) := fun h' => absurd (h16.symm.trans h'.1) (by decide)
  rw [readDigits_more (v := v) (k := 2) rfl]
  unfold readPrefix IntScan.addPrefix
  rw [if_neg h8, if_pos ⟨.inr h16, hz⟩, if_neg (by omega), if_pos ⟨h16, hx⟩, if_neg (by omega)]

theorem readDigits_nil : readDigits v m [] = (v, 0) := by
  unfold readDigits
  rw [addDigits_nil, Nat.sub_self]

theorem skipPrefix_stream (h : StreamReads src Left) (hat : Left st r) (hb : v.base ≤ 36) (hroom : v.len < m)
    (hsmall : offset + v.whitespaceLen + v.len + r.length + 1 < 2 ^ 32) (hc : v.chars = []) (hp : v.prefixLength = v.len) :
    Takes Left r (skipPrefix src offset m v st) (readPrefix v m r) := by
  have hsmall₀ : offset + v.whitespaceLen + v.len + r.length < 2 ^ 32 := by omega
  have hdigits := digits_stream h hat hb hroom hsmall₀ hc hp
  unfold skipPrefix
  by_cases hbase : v.base = 8 ∨ v.base = 16
  swap
  · rw [if_neg hbase, readPrefix_plain fun h => hbase h.1]
    exact hdigits
  rw [if_pos hbase]
  cases r with
  | nil =>
    rw [h.last hat (by simp only [List.length_nil] at hsmall; omega), ok_bind, readPrefix_plain fun h => absurd h.2 (by decide),
      readDigits_nil]
    exact ⟨st, rfl, hat⟩
  | cons c rest =>
    rw [List.length_cons] at hsmall
    have hidx : offset + v.whitespaceLen + v.len + (rest.length + 1) < 2 ^ 32 := by omega
    obtain ⟨st', hget, hback, hnext⟩ := h.next hat hidx
    rw [hget, ok_bind]
    simp only
    by_cases hz : isZero c = true
    swap
    · rw [if_neg hz, readPrefix_plain (r := c :: rest) fun h => hz h.2, hback, ok_bind]
      exact hdigits
    rw [if_pos hz]
    have hzero : isZero ((c :: rest).headD 0) = true := hz
    by_cases hend : v.len + 1 = m
    · rw [if_pos hend, readPrefix_cut ⟨hbase, hzero⟩ hend]
      exact ⟨st', rfl, hnext⟩
    rw [if_neg hend]
    have hroom₁ : v.len + 1 < m := by omega
    by_cases h16 : v.base = 16
    swap
    · rw [if_neg h16, readPrefix_octal (hbase.resolve_right h16) hzero hend, hback, ok_bind]
      exact digits_stream (v := { v with len := v.len + 1, prefixLength := v.prefixLength + 1 }) h hat hb hroom₁
        (by simp only [List.length_cons]; omega) hc (by simp only [hp])
    rw [if_pos h16]
    have hsmall₁ : offset + v.whitespaceLen + (v.len + 1) + rest.length < 2 ^ 32 := by omega
    have hrest := digits_stream (v := { v with len := v.len + 1, prefixLength := v.prefixLength + 1 }) h
      hnext hb hroom₁ hsmall₁ hc (by simp only [hp])
    cases rest with
    | nil =>
      rw [readPrefix_hexZero (r := [c]) h16 hzero hend (by exact Bool.false_ne_true), List.tail_cons, readDigits_nil]
      simp only
      rw [h.last hnext (by omega), ok_bind]
      exact ⟨st', rfl, hnext⟩
    | cons x rest' =>
      rw [List.length_cons] at hsmall
      have hidx' : offset + v.whitespaceLen + (v.len + 1) + (rest'.length + 1) < 2 ^ 32 := by omega
      obtain ⟨st'', hget', hback', hnext'⟩ := h.next hnext hidx'
      rw [hget', ok_bind]
      simp only
      by_cases hx : isX x = true
      swap
      · have hx' : ¬isX ((c :: x :: rest').tail.headD 0) = true := hx
        rw [if_neg hx, hback', ok_bind, readPrefix_hexZero h16 hzero hend hx']
        exact hrest.after
      · have hx' : isX ((c :: x :: rest').tail.headD 0) = true := hx
        rw [if_pos hx]
        by_cases hend2 : v.len + 1 + 1 = m
        · rw [if_pos hend2, readPrefix_hexCut h16 hzero hx' hend2]
          exact ⟨st'', rfl, hnext'⟩
        · have hroom₂ : v.len + 2 < m := by omega
          have hsmall₂ : offset + v.whitespaceLen + (v.len + 2) + rest'.length < 2 ^ 32 := by omega
          rw [if_neg hend2, readPrefix_hex h16 hzero hx' hroom₂]
          have htakes := digits_stream (v := { v with len := v.len + 2, prefixLength := v.prefixLength + 2 })
            h hnext' hb hroom₂ hsmall₂ hc (by simp only [hp])
          exact htakes.after.after

/-! ### Base and sign -/

theorem readBase_given (hb : v.base ≠ 0) : readBase v m r = readPrefix v m r := by
  unfold readBase
  rw [if_neg fun h => hb h.1, if_neg hb]

theorem readBase_found (hb : v.base = 0) (hr : ¬(r = [] ∨ isZero (r.headD 0) = true ∧ r.tail = [])) :
    readBase v m r = readPrefix { v with base := prefixBase r } m r := by
  unfold readBase
  rw [if_neg fun h => hr h.2, if_pos hb]

theorem prefixBase_le (r : List UInt8) : prefixBase r ≤ 36 := by
  unfold prefixBase
  split_ifs <;> decide

theorem detectBase_stream (h : StreamReads src Left) (hat : Left st r) (hb : v.base ≤ 36) (hroom : v.len < m)
    (hsmall : offset + v.whitespaceLen + v.len + r.length + 1 < 2 ^ 32) (hc : v.chars = []) (hp : v.prefixLength = v.len) :
    Takes Left r (detectBase src offset m v st) (readBase v m r) := by
  unfold detectBase
  by_cases hbase : v.base = 0
  swap
  · rw [if_neg hbase, readBase_given hbase]
    exact skipPrefix_stream h hat hb hroom hsmall hc hp
  rw [if_pos hbase]
  have hfound := fun hr => skipPrefix_stream (v := { v with base := prefixBase r }) h hat (prefixBase_le r)
    hroom hsmall hc hp |>.congr (readBase_found hbase hr).symm
  cases r with
  | nil =>
    rw [h.last hat (by simp only [List.length_nil] at hsmall; omega), ok_bind, readBase, if_pos ⟨hbase, .inl rfl⟩]
    exact ⟨st, rfl, hat⟩
  | cons c rest =>
    rw [List.length_cons] at hsmall
    have hidx : offset + v.whitespaceLen + v.len + (rest.length + 1) < 2 ^ 32 := by omega
    obtain ⟨st', hget, hback, hnext⟩ := h.next hat hidx
    rw [hget, ok_bind]
    simp only
    by_cases hz : isZero c = true
    swap
    · have htakes := hfound fun hr => hr.elim (fun hnil => (nomatch hnil)) fun hzero => hz hzero.1
      rw [prefixBase_nonzero (r := c :: rest) (by simpa using hz)] at htakes
      rw [if_neg hz, hback, ok_bind]
      exact htakes
    rw [if_pos hz]
    cases rest with
    | nil =>
      rw [h.last hnext (by omega), ok_bind, readBase, if_pos ⟨hbase, .inr ⟨hz, rfl⟩⟩]
      exact ⟨st', rfl, hnext⟩
    | cons next rest' =>
      rw [List.length_cons] at hsmall
      have hidx' : offset + v.whitespaceLen + v.len + 1 + (rest'.length + 1) < 2 ^ 32 := by omega
      obtain ⟨st'', hget', hback', -⟩ := h.next hnext hidx'
      have htakes := hfound fun hr => hr.elim (fun hnil => (nomatch hnil)) fun hzero => (nomatch hzero.2)
      have hbase₀ : prefixBase (c :: next :: rest') = if isX next = true then 16 else 8 := if_pos hz
      rw [hbase₀] at htakes
      rw [hget', ok_bind]
      simp only
      rw [hback', ok_bind, hback, ok_bind]
      exact htakes

theorem skipSign_stream (h : StreamReads src Left) (hat : Left st r) (hb : v.base ≤ 36) (hroom : v.len < m)
    (hsmall : offset + v.whitespaceLen + v.len + r.length + 1 < 2 ^ 32) (hc : v.chars = []) (hp : v.prefixLength = v.len)
    (hr : r ≠ []) : Takes Left r (skipSign src offset m v st) (readSign v m r) := by
  unfold skipSign readSign
  cases r with
  | nil => exact absurd rfl hr
  | cons c rest =>
    have hbase := detectBase_stream h hat hb hroom hsmall hc hp
    rw [List.length_cons] at hsmall
    have hidx : offset + v.whitespaceLen + v.len + (rest.length + 1) < 2 ^ 32 := by omega
    obtain ⟨st', hget, hback, hnext⟩ := h.next hat hidx
    rw [hget, ok_bind]
    simp only [List.headD_cons, List.head?_cons, List.tail_cons]
    by_cases hs : isSign c = true
    swap
    · simp only [hs, Bool.false_eq_true, if_false, hback, ok_bind]
      exact hbase
    simp only [hs, if_true]
    by_cases hend : v.len + 1 = m
    · simp only [hend, if_true]
      exact ⟨st', rfl, hnext⟩
    · simp only [hend, if_false]
      have hroom₁ : v.len + 1 < m := by omega
      exact (detectBase_stream (v := { v with sign := some c, prefixLength := v.prefixLength + 1, len := v.len + 1 })
        h hnext hb hroom₁ (by simp only; omega) hc (by simp only [hp])).after

/-- **The conversion on a stream** finds what `streamInt` finds in what is left of it, and takes as much. -/
theorem strToInt_stream (h : StreamReads src Left) (hat : Left st r) (hr : r ≠ []) (hspace : r.takeWhile isspaceInner = [])
    {base : ℕ} (hb : base ≤ 36) (hm : 0 < m) (hsmall : offset + r.length + 1 < 2 ^ 32) (ty : IntType) :
    ∃ st', Left st' (r.drop (streamInt base m r).2) ∧
      strToIntInnerGeneric src offset m ty base st = (fun res => (res, st')) <$> (streamInt base m r).1.finish ty := by
  have hcount : src.countWhitespaceGeneric st offset = .ok (.ok 0, st) :=
    countWhitespace_reads h ⟨hat, by omega⟩ hspace (.inl hr)
  obtain ⟨st', hscan, hleft⟩ := skipSign_stream (v := ⟨0, 0, none, 0, base, []⟩) h hat hb hm
    (by simpa using hsmall) rfl rfl hr
  refine ⟨st', hleft, ?_⟩
  unfold strToIntInnerGeneric scanStages
  rw [hcount, ok_bind]
  simp only
  rw [hscan, ok_bind]
  show (do
    let res ← (streamInt base m r).1.finish ty
    pure (res, st')) = _
  cases (streamInt base m r).1.finish ty <;> rfl

end

/-! ## Beside a string -/

/-- The conversion finds the same in a string and in a stream, which is left after it: where nothing is found, nothing
is taken. -/
def SameFound (ty : IntType) (v v' : IntScan) (n : ℕ) : Prop :=
  (v.finish ty = .ok none ∧ v'.finish ty = .ok none ∧ n = 0) ∨
    ∃ val len', v.finish ty = .ok (some (val, n)) ∧ v'.finish ty = .ok (some (val, len'))

/-- when it does, after a sign of length `k`: there is nothing to take, or a number that does not end with a lone zero
of base 0 and is not an octal one that the width cuts off -/
def UnsignedStreams (base k m : ℕ) (t : List UInt8) : Prop :=
  let b := if base = 0 then 10 else base
  (k = 0 ∧ isDigit b (t.headD 0) = false) ∨
    if hexStart base t then m = k + 1 ∨ m = k + 2 ∨ isDigit 16 ((t.drop 2).headD 0) = true
    else if base = 16 ∧ isZero (t.headD 0) = true then m = k + 1 ∨ isDigit 16 (t.tail.headD 0) = true
    else if base = 0 ∧ isZero (t.headD 0) = true then
      t.tail ≠ [] ∧ (m = k + 1 ∨ k + 2 + (t.tail.takeWhile (isDigit 8)).length ≤ m)
    else isDigit b (t.headD 0) = true

section

variable {base m k : ℕ} {r t : List UInt8} {v v' : IntScan} {ty : IntType} {sg : Option UInt8}

/-- one scan beside itself -/
theorem sameFound_self (hb : 2 ≤ v.base ∧ v.base ≤ 36) (hws : v.whitespaceLen = 0)
    (h8 : v.base = 8 → v.prefixLength < v.len) : SameFound ty v v v.len ↔ v.prefixLength < v.len ∨ v.len = 0 := by
  by_cases hlt : v.prefixLength < v.len
  · obtain ⟨val, hval⟩ := finds_some ty hb hlt
    rw [hws, Nat.zero_add] at hval
    exact iff_of_true (.inr ⟨val, v.len, hval, hval⟩) (.inl hlt)
  · obtain ⟨val, hval⟩ := finds_none ty hb (not_lt.1 hlt) fun h => hlt (h8 h.1)
    constructor
    · rintro (⟨-, -, hlen⟩ | ⟨val', len', h, -⟩)
      · exact .inr hlen
      · rw [hval] at h
        cases h
    · intro h
      exact .inl ⟨hval, hval, h.resolve_left hlt⟩

theorem takeWhile_take_pos (hk : k < m) (b : ℕ) (t : List UInt8) :
    0 < ((t.takeWhile (isDigit b)).take (m - k)).length ↔ isDigit b (t.headD 0) = true := by
  rw [List.length_pos_iff, ne_eq, List.take_takeWhile, takeWhile_eq_nil (isDigit_zero b), headD_take (Nat.sub_pos_of_lt hk),
    Bool.not_eq_false]

/-- without a special case a stream is scanned as a string is -/
theorem readBase_string (hbase : ¬(v.base = 0 ∧ (t = [] ∨ isZero (t.headD 0) = true ∧ t.tail = [])))
    (h8 : ¬((if v.base = 0 then prefixBase t else v.base) = 8 ∧ isZero (t.headD 0) = true ∧ v.len + 1 ≠ m)) :
    readBase v m t = (v.addBase m t, (v.addBase m t).len - v.len) := by
  unfold readBase readPrefix
  rw [if_neg hbase, if_neg h8]
  rfl

/-- digits after a prefix of `k` characters -/
theorem addDigits_same (hb : 2 ≤ base ∧ base ≤ 36) (h8 : base ≠ 8) (hk : k < m) :
    SameFound ty ((afterSignScan k sg base).addDigits m t) ((afterSignScan k sg base).addDigits m t)
        ((afterSignScan k sg base).addDigits m t).len ↔ isDigit base (t.headD 0) = true ∨ k = 0 := by
  have hlen : ((afterSignScan k sg base).addDigits m t).len = k + ((t.takeWhile (isDigit base)).take (m - k)).length := rfl
  have hprefix : ((afterSignScan k sg base).addDigits m t).prefixLength = k := rfl
  rw [sameFound_self hb rfl fun h => absurd h h8, hlen, hprefix, ← takeWhile_take_pos hk]
  omega

/-- a number without a prefix -/
theorem plain_same (hbase : base = 0 ∨ base = 10 ∨ base = 16) (hk : k < m) (hz : base = 10 ∨ isZero (t.headD 0) = false)
    (ht : base = 0 → t ≠ []) :
    SameFound ty ((afterSignScan k sg base).addBase m t) (readBase (afterSignScan k sg base) m t).1
        (k + (readBase (afterSignScan k sg base) m t).2) ↔ UnsignedStreams base k m t := by
  have hread : readBase (afterSignScan k sg base) m t =
      ((afterSignScan k sg base).addBase m t, ((afterSignScan k sg base).addBase m t).len - k) := by
    apply readBase_string
    · rintro ⟨h0, hend⟩
      rcases hend with hnil | ⟨hzero, -⟩
      · exact ht h0 hnil
      · rw [hz.resolve_left fun h10 => absurd (h10.symm.trans h0) (by decide)] at hzero
        cases hzero
    · rintro ⟨h8, hzero, -⟩
      rw [base_plain hz] at h8
      exact not_prefix_plain hbase hz ⟨.inl h8, hzero⟩
  have hle := addDigits_len_le (afterSignScan k sg (if base = 0 then 10 else base)) m t
  have hb : 2 ≤ (if base = 0 then 10 else base) ∧ (if base = 0 then 10 else base) ≤ 36 := by
    rcases hbase with rfl | rfl | rfl <;> decide
  have h8 : (if base = 0 then 10 else base) ≠ 8 := by
    rcases hbase with rfl | rfl | rfl <;> decide
  rw [hread, addBase_plain hbase hz, Nat.add_sub_of_le hle, addDigits_same hb h8 hk]
  have hzero : ∀ b : ℕ, b ≠ 10 → ¬(base = b ∧ isZero (t.headD 0) = true) := by
    rintro b hb10 ⟨rfl, hzero⟩
    rw [hz.resolve_left hb10] at hzero
    cases hzero
  have hhex : ¬hexStart base t = true := by
    intro h
    obtain ⟨h016, -, hzero', -⟩ := hexStart_base h
    rcases h016 with h0 | h16
    · exact hzero 0 (by decide) ⟨h0, hzero'⟩
    · exact hzero 16 (by decide) ⟨h16, hzero'⟩
  simp only [UnsignedStreams, if_neg hhex, if_neg (hzero 16 (by decide)), if_neg (hzero 0 (by decide))]
  cases isDigit (if base = 0 then 10 else base) (t.headD 0) <;> simp

/-- the condition behind a zero -/
theorem unsignedStreams_zero (hbase : base = 0 ∨ base = 16) : UnsignedStreams base k m (48 :: t) ↔
    if isX (t.headD 0) = true then m = k + 1 ∨ m = k + 2 ∨ isDigit 16 (t.tail.headD 0) = true
    else if base = 16 then m = k + 1 ∨ isDigit 16 (t.headD 0) = true
    else t ≠ [] ∧ (m = k + 1 ∨ k + 2 + (t.takeWhile (isDigit 8)).length ≤ m) := by
  have hdigit : ¬(k = 0 ∧ isDigit (if base = 0 then 10 else base) ((48 :: t).headD 0) = false) := by
    rw [List.headD_cons, isDigit_48 (by rcases hbase with rfl | rfl <;> decide)]
    exact fun h => nomatch h.2
  have hzero : isZero ((48 :: t).headD 0) = true := rfl
  have hhex : hexStart base (48 :: t) = isX (t.headD 0) := by
    rw [hexStart, hzero, List.tail_cons, Bool.and_true]
    rcases hbase with rfl | rfl <;> rfl
  simp only [UnsignedStreams, hdigit, false_or, hhex, hzero, and_true, List.tail_cons]
  have hdrop : (48 :: t).drop 2 = t.tail := by rw [List.drop_succ_cons, List.drop_one]
  rw [hdrop]
  rcases hbase with rfl | rfl <;> simp

/-- without the detection of the base at the end a zero is scanned as in a string, but for octal digits -/
theorem readBase_zero (hbase : base = 0 ∨ base = 16) (ht : base = 0 → t ≠ [])
    (h8 : base = 0 → isX (t.headD 0) = true ∨ k + 1 = m) : readBase (afterSignScan k sg base) m (48 :: t) =
      ((afterSignScan k sg base).addBase m (48 :: t), ((afterSignScan k sg base).addBase m (48 :: t)).len - k) := by
  have hzero : isZero ((48 :: t).headD 0) = true := rfl
  apply readBase_string
  · rintro ⟨h0, hend⟩
    rcases hend with hnil | ⟨-, hnil⟩
    · cases hnil
    · exact ht h0 hnil
  · rintro ⟨hcode, -, hne⟩
    rcases hbase with rfl | rfl
    · rcases h8 rfl with hx | hend
      · rw [if_pos rfl, prefixBase, if_pos (by exact hzero), if_pos (by exact hx)] at hcode
        exact absurd hcode (by decide)
      · exact hne hend
    · cases hcode

/-- the conversion behind a zero, where it is scanned as in a string -/
theorem zero_same (hbase : base = 0 ∨ base = 16) (hk : k < m) (ht : base = 0 → t ≠ [])
    (h8 : base = 0 → isX (t.headD 0) = true ∨ k + 1 = m) :
    SameFound ty ((afterSignScan k sg base).addBase m (48 :: t)) (readBase (afterSignScan k sg base) m (48 :: t)).1
        (k + (readBase (afterSignScan k sg base) m (48 :: t)).2) ↔ UnsignedStreams base k m (48 :: t) := by
  rw [readBase_zero hbase ht h8, unsignedStreams_zero hbase]
  by_cases hcut : k + 1 = m
  · subst hcut
    have hb := prefixBase_bounds hbase (48 :: t)
    have hlt : k < k + 1 := Nat.lt_succ_self k
    rw [addBase_cut hbase]
    refine iff_of_true ?_ ?_
    · simp only [Nat.add_sub_cancel_left]
      exact (sameFound_self (v := ⟨0, k + 1, sg, k, if base = 0 then prefixBase (48 :: t) else base, []⟩) hb rfl
        fun _ => hlt).2 (.inl hlt)
    · split_ifs with hx h16
      · exact .inl rfl
      · exact .inl rfl
      · exact ⟨ht (hbase.resolve_right h16), .inl rfl⟩
  by_cases hx : isX (t.headD 0) = true
  · rw [if_pos hx]
    by_cases hcut2 : k + 2 = m
    · subst hcut2
      have hlt : k + 1 < k + 2 := Nat.lt_succ_self (k + 1)
      have hb : 2 ≤ 16 ∧ 16 ≤ 36 := by decide
      rw [addBase_hexCut (hexStart_zero hbase hx)]
      refine iff_of_true ?_ (.inr (.inl rfl))
      simp only [Nat.add_sub_cancel_left]
      exact (sameFound_self (v := ⟨0, k + 2, sg, k + 1, 16, []⟩) hb rfl fun _ => hlt).2 (.inl hlt)
    · have hk2 : k + 2 < m := by omega
      have hle := addDigits_len_le (afterSignScan (k + 2) sg 16) m t.tail
      rw [addBase_hex (hexStart_zero hbase hx) hk2, List.drop_succ_cons, List.drop_one, Nat.add_sub_of_le ((Nat.le_add_right k 2).trans hle),
        addDigits_same (by decide) (by decide) hk2]
      simp [Ne.symm hcut, Ne.symm hcut2]
  · have h16 : base = 16 := by
      refine hbase.resolve_left fun h0 => ?_
      exact (h8 h0).elim hx hcut
    subst h16
    have hk1 : k + 1 < m := by omega
    have hle := addDigits_len_le (afterSignScan (k + 1) sg 16) m t
    rw [if_neg hx, if_pos rfl, addBase_zero (.inr rfl) (by simpa using hx) hk1, if_neg (by decide),
      Nat.add_sub_of_le ((Nat.le_add_right k 1).trans hle), addDigits_same (by decide) (by decide) hk1]
    simp [Ne.symm hcut]

/-- the value of digits with a sign -/
def signedValue (ty : IntType) (sg : Option UInt8) (base : ℕ) (ds : List UInt8) : ℤ :=
  if sg = some 45 then ty.negation (ty.fromStrRadix ds base) else ty.fromStrRadix ds base

/-- an octal number: a zero and digits, which may be none -/
theorem octal_finish (k : ℕ) (sg : Option UInt8) (hzero : ty.negation 0 = 0) (hmax : 0 ≤ ty.max) (ds : List UInt8) :
    IntScan.finish ty ⟨0, k + 1 + ds.length, sg, k + 1, 8, ds⟩ =
      .ok (some (signedValue ty sg 8 (48 :: ds), k + 1 + ds.length)) := by
  have hb : 2 ≤ 8 ∧ 8 ≤ 36 := by decide
  unfold IntScan.finish signedValue
  rw [assert_base hb, ok_bind]
  cases ds with
  | nil =>
    have hvalue : ty.fromStrRadix [48] 8 = 0 := by
      have hdigits : digitsValue 8 [48] = 0 := by decide
      rw [fromStrRadix_eq (List.cons_ne_nil _ _), hdigits]
      exact if_neg (not_lt.2 hmax)
    rw [if_neg (by simp), if_pos ⟨rfl, Nat.succ_pos k⟩, hvalue, hzero, ite_self]
    simp
  | cons c ds =>
    have hvalue : ty.fromStrRadix (48 :: c :: ds) 8 = ty.fromStrRadix (c :: ds) 8 := by
      rw [fromStrRadix_eq (List.cons_ne_nil _ _), fromStrRadix_eq (List.cons_ne_nil _ _), digitsValue_zero_cons]
    rw [if_pos (by simp), hvalue, Nat.zero_add]
    rfl

/-- the octal digits of a stream start with the zero, which counts twice in the width -/
theorem octal_same (hzero : ty.negation 0 = 0) (hmax : 0 ≤ ty.max) (ht : t ≠ []) (hx : ¬isX (t.headD 0) = true)
    (hk : k + 1 < m) :
    SameFound ty ((afterSignScan k sg 0).addBase m (48 :: t)) (readBase (afterSignScan k sg 0) m (48 :: t)).1
        (k + (readBase (afterSignScan k sg 0) m (48 :: t)).2) ↔ UnsignedStreams 0 k m (48 :: t) := by
  have hz : isZero ((48 :: t).headD 0) = true := rfl
  have hcode : prefixBase (48 :: t) = 8 := by
    rw [prefixBase, if_pos (by exact hz), if_neg (by exact hx)]
  obtain ⟨j, rfl⟩ : ∃ j, m = k + 1 + (j + 1) := ⟨m - (k + 2), by omega⟩
  have hsub : k + 1 + (j + 1) - (k + 1) = j + 1 := Nat.add_sub_cancel_left _ _
  have hread : readBase (afterSignScan k sg 0) (k + 1 + (j + 1)) (48 :: t) =
      readDigits (afterSignScan (k + 1) sg 8) (k + 1 + (j + 1)) (48 :: t) := by
    rw [readBase_found rfl (by
      rintro (hnil | ⟨-, hnil⟩)
      · cases hnil
      · exact ht hnil), readPrefix_octal hcode hz (by simp only; omega)]
    rw [hcode]
  generalize hD : t.takeWhile (isDigit 8) = D
  have hstring : (afterSignScan (k + 1) sg 8).addDigits (k + 1 + (j + 1)) t =
      ⟨0, k + 1 + (D.take (j + 1)).length, sg, k + 1, 8, D.take (j + 1)⟩ := by
    simp only [IntScan.addDigits, hsub, hD, List.nil_append]
  have h48 : isDigit 8 48 = true := isDigit_48 (by decide)
  have hstream : (afterSignScan (k + 1) sg 8).addDigits (k + 1 + (j + 1)) (48 :: t) =
      ⟨0, k + 1 + (48 :: D.take j).length, sg, k + 1, 8, 48 :: D.take j⟩ := by
    simp only [IntScan.addDigits, hsub, List.takeWhile_cons_of_pos h48, hD, List.take_succ_cons,
      List.nil_append]
  have hstreamValue : signedValue ty sg 8 (48 :: 48 :: D.take j) = signedValue ty sg 8 (48 :: D.take j) := by
    unfold signedValue
    rw [fromStrRadix_eq (List.cons_ne_nil _ _), fromStrRadix_eq (List.cons_ne_nil _ _), digitsValue_zero_cons]
  rw [addBase_zero (.inl rfl) (by simpa using hx) hk, if_pos rfl, unsignedStreams_zero (.inl rfl), if_neg hx, if_neg (by decide), hD,
    hread, readDigits, hstring, hstream]
  have hn : k + (k + 1 + (48 :: D.take j).length - (k + 1)) = k + 1 + (D.take j).length := by
    rw [Nat.add_sub_cancel_left, List.length_cons]
    omega
  have hfin := octal_finish k sg hzero hmax (D.take (j + 1))
  have hfin' := octal_finish k sg hzero hmax (48 :: D.take j)
  rw [hstreamValue] at hfin'
  simp only
  rw [hn]
  constructor
  · rintro (⟨hnone, -⟩ | ⟨val, len', hsome, -⟩)
    · rw [hfin] at hnone
      cases hnone
    · rw [hfin] at hsome
      simp only [Except.ok.injEq, Option.some.injEq, Prod.mk.injEq] at hsome
      have hlen := hsome.2
      rw [List.length_take, List.length_take] at hlen
      exact ⟨ht, .inr (by omega)⟩
  · rintro ⟨-, hend⟩
    have hD' : D.length ≤ j := by omega
    rw [List.take_of_length_le (hD'.trans (Nat.le_succ j))] at hfin ⊢
    rw [List.take_of_length_le hD'] at hfin' ⊢
    exact .inr ⟨_, _, hfin, hfin'⟩

/-- at the end of the input the base is not detected, and the conversion panics -/
theorem undetected_same (hend : t = [] ∧ k ≠ 0 ∨ t = [48]) :
    ¬SameFound ty ((afterSignScan k sg 0).addBase m t) (readBase (afterSignScan k sg 0) m t).1
        (k + (readBase (afterSignScan k sg 0) m t).2) ∧ ¬UnsignedStreams 0 k m t := by
  have hcond : t = [] ∨ isZero (t.headD 0) = true ∧ t.tail = [] := by
    rcases hend with ⟨rfl, -⟩ | rfl
    · exact .inl rfl
    · exact .inr ⟨rfl, rfl⟩
  have hread : readBase (afterSignScan k sg 0) m t = (afterSignScan k sg 0, t.length) := if_pos ⟨rfl, hcond⟩
  rw [hread]
  constructor
  · rintro (⟨-, hnone, -⟩ | ⟨val, len', -, hsome⟩)
    · cases hnone
    · cases hsome
  · rcases hend with ⟨rfl, hk⟩ | rfl
    · rintro (⟨h0, -⟩ | hdigit)
      · exact hk h0
      · cases hdigit
    · rw [unsignedStreams_zero (.inl rfl), if_neg (by decide), if_neg (by decide)]
      exact fun h => h.1 rfl

/-- the conversion after the sign -/
theorem readBase_same (hzero : ty.negation 0 = 0) (hmax : 0 ≤ ty.max) (hbase : base = 0 ∨ base = 10 ∨ base = 16) (hk : k < m)
    (ht : t = [] → k ≠ 0) :
    SameFound ty ((afterSignScan k sg base).addBase m t) (readBase (afterSignScan k sg base) m t).1
        (k + (readBase (afterSignScan k sg base) m t).2) ↔ UnsignedStreams base k m t := by
  by_cases hend : base = 0 ∧ (t = [] ∨ t = [48])
  · obtain ⟨rfl, hend⟩ := hend
    obtain ⟨hsame, hstreams⟩ := undetected_same (m := m) (hend.imp_left fun h => ⟨h, ht h⟩)
    exact iff_of_false hsame hstreams
  have hnil : base = 0 → t ≠ [] := fun h0 hnil => hend ⟨h0, .inl hnil⟩
  by_cases hplain : base = 10 ∨ isZero (t.headD 0) = false
  · exact plain_same hbase hk hplain hnil
  push Not at hplain
  have hz : isZero (t.headD 0) = true := by simpa using hplain.2
  have hbase' : base = 0 ∨ base = 16 := hbase.imp_right fun h => h.resolve_left hplain.1
  rw [isZero_head hz] at hend ⊢
  have htail : base = 0 → t.tail ≠ [] := fun h0 htail => hend ⟨h0, .inr (by rw [htail])⟩
  by_cases hoctal : base = 0 ∧ ¬isX (t.tail.headD 0) = true ∧ k + 1 ≠ m
  · obtain ⟨rfl, hx, hne⟩ := hoctal
    exact octal_same hzero hmax (htail rfl) hx (by omega)
  · refine zero_same hbase' hk htail fun h0 => ?_
    by_contra h
    push Not at h
    exact hoctal ⟨h0, h⟩

end

/-- when a conversion on a stream does what it does on a string, where there is something to read: see
`UnsignedStreams` for what follows the sign -/
def IntStreams (base w : ℕ) (r : List UInt8) : Prop :=
  ¬(signLength r = 1 ∧ w = 1) ∧ UnsignedStreams base (signLength r) (widthLimit w) (r.drop (signLength r))

/-- what a stage finds is at most one longer than what it takes -/
structure NearlyTaken (v : IntScan) (p : IntScan × ℕ) : Prop where
  spaces : p.1.whitespaceLen = v.whitespaceLen
  prefixed : p.1.prefixLength ≤ p.1.len
  taken : p.1.len ≤ v.len + p.2 + 1

theorem readPrefix_near {v : IntScan} {m : ℕ} {r : List UInt8} (h : v.prefixLength ≤ v.len) :
    NearlyTaken v (readPrefix v m r) := by
  unfold readPrefix
  split_ifs
  · obtain ⟨hspaces, hprefixed, -⟩ := addDigits_within (m := m) (r := r)
      (v := { v with len := v.len + 1, prefixLength := v.prefixLength + 1 }) (Nat.succ_le_succ h)
    refine ⟨hspaces, hprefixed, ?_⟩
    simp only [readDigits]
    omega
  · obtain ⟨hspaces, hprefixed, -⟩ := addPrefix_within (m := m) (r := r) h
    refine ⟨hspaces, hprefixed, ?_⟩
    simp only
    omega

theorem readBase_near {v : IntScan} {m : ℕ} {r : List UInt8} (h : v.prefixLength ≤ v.len) : NearlyTaken v (readBase v m r) := by
  unfold readBase
  split_ifs
  · exact ⟨rfl, h, by simp only; omega⟩
  · obtain ⟨hspaces, hprefixed, htaken⟩ := readPrefix_near (m := m) (r := r) (v := { v with base := prefixBase r }) h
    exact ⟨hspaces, hprefixed, htaken⟩
  · exact readPrefix_near h

theorem readPrefix_inside {v : IntScan} {m : ℕ} {r : List UInt8} (h : v.prefixLength ≤ v.len) :
    (readPrefix v m r).2 ≤ r.length := by
  unfold readPrefix
  split_ifs
  · have htaken := (addDigits_within (m := m) (r := r)
      (v := { v with len := v.len + 1, prefixLength := v.prefixLength + 1 }) (Nat.succ_le_succ h)).taken
    exact Nat.sub_le_iff_le_add'.2 htaken
  · exact Nat.sub_le_iff_le_add'.2 (addPrefix_within (m := m) (r := r) h).taken

theorem readBase_inside {v : IntScan} {m : ℕ} {r : List UInt8} (h : v.prefixLength ≤ v.len) :
    (readBase v m r).2 ≤ r.length := by
  unfold readBase
  split_ifs
  · exact le_rfl
  · exact readPrefix_inside (v := { v with base := prefixBase r }) h
  · exact readPrefix_inside h

/-- what is taken is there -/
theorem streamInt_inside (base m : ℕ) (r : List UInt8) : (streamInt base m r).2 ≤ r.length := by
  unfold streamInt readSign
  by_cases hs : isSign (r.headD 0) = true
  · have hlen : r.length = r.tail.length + 1 := by
      cases r with
      | nil => exact absurd hs (by decide)
      | cons => rfl
    rw [if_pos hs, hlen]
    simp only
    split_ifs
    · exact Nat.le_add_left 1 _
    · exact Nat.succ_le_succ (readBase_inside le_rfl)
  · rw [if_neg hs]
    exact readBase_inside le_rfl

/-- the length that is found, which the code adds to an index that a stream ignores -/
theorem streamInt_len {base m : ℕ} {r : List UInt8} {ty : IntType} {val : ℤ} {len : ℕ}
    (h : (streamInt base m r).1.finish ty = .ok (some (val, len))) : len ≤ (streamInt base m r).2 + 1 := by
  have hnear : NearlyTaken ⟨0, 0, none, 0, base, []⟩ (streamInt base m r) := by
    unfold streamInt readSign
    simp only
    split_ifs
    · exact ⟨rfl, le_rfl, Nat.le_succ 1⟩
    · obtain ⟨hspaces, hprefixed, htaken⟩ := readBase_near (m := m) (r := r.tail)
        (v := ⟨0, 0 + 1, r.head?, 0 + 1, base, []⟩) le_rfl
      exact ⟨hspaces, hprefixed, by simp only at htaken ⊢; omega⟩
    · exact readBase_near le_rfl
  obtain ⟨hspaces, hprefixed, htaken⟩ := hnear
  generalize streamInt base m r = p at h hspaces hprefixed htaken
  unfold IntScan.finish at h
  obtain ⟨-, -, h⟩ := bind_eq_ok.1 h
  simp only at hspaces htaken
  by_cases h1 : 0 < p.1.len - p.1.prefixLength
  · rw [if_pos h1] at h
    cases h
    omega
  · rw [if_neg h1] at h
    by_cases h2 : p.1.base = 8 ∧ 0 < p.1.prefixLength
    · rw [if_pos h2] at h
      cases h
      omega
    · rw [if_neg h2] at h
      cases h

/-- **The conversion of integers** on a stream and on a string: they find the same, and the stream is left after it,
exactly when `IntStreams` says so. -/
theorem streamInt_same_iff {base w : ℕ} {r : List UInt8} {ty : IntType} (hzero : ty.negation 0 = 0) (hmax : 0 ≤ ty.max)
    (hbase : base = 0 ∨ base = 10 ∨ base = 16) (hspace : r.takeWhile isspaceInner = []) (hr : r ≠ []) :
    SameFound ty (scanInt base (widthLimit w) r) (streamInt base (widthLimit w) r).1 (streamInt base (widthLimit w) r).2 ↔
      IntStreams base w r := by
  have hone : widthLimit w = 1 ↔ w = 1 := by unfold widthLimit; split_ifs <;> omega
  have hm : 0 < widthLimit w := by unfold widthLimit; split_ifs <;> omega
  rw [scanInt_eq hspace]
  unfold IntStreams streamInt readSign
  rcases signLength_cases r with ⟨hs, hg⟩ | ⟨hs, hg⟩
  · simp only [hs, hg, true_and, if_true, Nat.zero_add, List.drop_one]
    by_cases hcut : widthLimit w = 1
    · simp only [hcut, if_true]
      refine iff_of_false ?_ fun h => h.1 (hone.1 hcut)
      rintro (⟨-, -, hn⟩ | ⟨val, len', hsome, -⟩)
      · cases hn
      · rcases hbase with rfl | rfl | rfl <;> exact nomatch hsome
    · have hw : ¬w = 1 := fun h => hcut (hone.2 h)
      simp only [hcut, eq_comm (a := 1), if_false, hw, not_false_eq_true, true_and]
      rw [Nat.add_comm (readBase _ _ _).2 1]
      exact readBase_same hzero hmax hbase (by omega) fun _ => Nat.one_ne_zero
  · simp only [hs, hg, Nat.zero_ne_one, false_and, if_false, Bool.false_eq_true, not_false_eq_true, true_and, List.drop_zero]
    rw [← Nat.zero_add (readBase _ _ _).2]
    exact readBase_same hzero hmax hbase hm fun h => absurd h hr

end TouchHLE.Scanf
