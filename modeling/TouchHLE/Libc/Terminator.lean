/-
How far the scanning functions read a C string: `sscanf` (`libc/stdio/printf.rs`), `strtol`, `strtoul`, `strtod` and `atof`
(`libc/stdlib.rs`).

- `fenced`: the characters up to the terminator, and anything at all behind it. `strtolFrom` and its like: the functions over
  a source.
- `fenced_isString`: what they have in common with the callbacks of the model. `strtoFrom_fenced`: the functions of `strtol`.
- `scanStep_ends`: a turn over a format of supported directives ends or shortens what is left.
- `reads_to_terminator`: no function depends on what is behind the terminator, and all of them come to an end.
-/
import TouchHLE.Libc.Atof
import TouchHLE.Libc.Fscanf

namespace TouchHLE.Scanf

open Machine Words Abi

/-! ## Fenced strings -/

/-- the callbacks for a string of `len` characters, where `beyond` is what reading behind the terminator does -/
def fenced (ptr len : ℕ) (beyond : Mem → ℕ → Except Panic (Option UInt8 × Mem)) : Source Mem where
  getc m idx := if idx ≤ len then (cString ptr).getc m idx else beyond m idx
  ungetc m _ := pure m

/-- `strto` over a source -/
def strtoFrom (src : Source Mem) (t : IntType) (m : Mem) (str endptr base : ℕ) : Except Panic (ℤ × Mem) := do
  let (parseRes, m) ← strToIntInnerGeneric src 0 (2 ^ 32 - 1) t base m
  match parseRes with
  | some (res, len) => do
    let m ← writeEnd m endptr str len
    pure (res, m)
  | none => do
    let m ← writeEnd m endptr str 0
    pure (0, m)

def strtolFrom (src : Source Mem) (m : Mem) (str endptr : ℕ) (base : Int32) : Except Panic (ℤ × Mem) :=
  strtoFrom src i32Type m str endptr (base.toInt % 2 ^ 32).toNat

def strtoulFrom (src : Source Mem) (m : Mem) (str endptr : ℕ) (base : Int32) : Except Panic (ℤ × Mem) := do
  let base ← baseToU32 base
  strtoFrom src u32Type m str endptr base

def strtodFrom (src : Source Mem) (number : List UInt8 → F64) (m : Mem) (nptr endptr : ℕ) : Except Panic (F64 × Mem) := do
  let (parsed, _) ← atofInnerGeneric src (Atof.f64FromStr number) 0 m
  let (res, len) := parsed.getD (⟨0⟩, 0)
  let m ← writeEnd m endptr nptr len
  pure (res, m)

def atofFrom (src : Source Mem) (number : List UInt8 → F64) (m : Mem) (s : ℕ) : Except Panic F64 := do
  let (res, _) ← strtodFrom src number m s 0
  pure res

theorem strtolFrom_cString (m : Mem) (str endptr : ℕ) (base : Int32) :
    strtolFrom (cString str) m str endptr base = strtol m str endptr base := rfl

theorem strtoulFrom_cString (m : Mem) (str endptr : ℕ) (base : Int32) :
    strtoulFrom (cString str) m str endptr base = strtoul m str endptr base := rfl

theorem strtodFrom_cString (number : List UInt8 → F64) (m : Mem) (str endptr : ℕ) :
    strtodFrom (cString str) number m str endptr = Atof.strtod number m str endptr := by
  unfold strtodFrom Atof.strtod Atof.atofInner
  cases atofInnerGeneric (cString str) (Atof.f64FromStr number) 0 m <;> rfl

theorem atofFrom_cString (number : List UInt8 → F64) (m : Mem) (str : ℕ) :
    atofFrom (cString str) number m str = Atof.atof number m str := by
  unfold atofFrom Atof.atof
  rw [strtodFrom_cString]

/-! ## What the functions should do -/

/-- whatever reading behind the terminator of a string of `len` characters would do, the functions do the same -/
structure ReadsToTerminator (m : Mem) (ptr len : ℕ) : Prop where
  sscanf : ∀ (R : Type) (parse : List UInt8 → Option R) format beyond,
    scan (fenced ptr len beyond) parse format m = scan (cString ptr) parse format m
  strtol : ∀ endptr base beyond, strtolFrom (fenced ptr len beyond) m ptr endptr base = strtol m ptr endptr base
  strtoul : ∀ endptr base beyond, strtoulFrom (fenced ptr len beyond) m ptr endptr base = strtoul m ptr endptr base
  strtod : ∀ number endptr beyond, strtodFrom (fenced ptr len beyond) number m ptr endptr = Atof.strtod number m ptr endptr
  atof : ∀ number beyond, atofFrom (fenced ptr len beyond) number m ptr = Atof.atof number m ptr

/-- the functions return; only the assertions on the base panic -/
structure ComesToEnd (m : Mem) (ptr : ℕ) : Prop where
  sscanf : ∀ (R : Type) (parse : List UInt8 → Option R) format, Supported format →
    Ends (· = .base) (fun t => t.done = true) (scan (cString ptr) parse format m)
  strtol : ∀ endptr base, EndPlace m endptr → Ends (· = .base) (fun _ => True) (strtol m ptr endptr base)
  strtoul : ∀ endptr base, EndPlace m endptr →
    Ends (fun e => e = .base ∨ e = .conversion) (fun _ => True) (strtoul m ptr endptr base)
  strtod : ∀ number endptr, EndPlace m endptr → Ends (fun _ => False) (fun _ => True) (Atof.strtod number m ptr endptr)
  atof : ∀ number, Ends (fun _ => False) (fun _ => True) (Atof.atof number m ptr)

/-! ## Integers and floating-point numbers -/

section

variable {σ R : Type} {src src' : Source σ} {st : σ} {s input r format : List UInt8} {offset maxLength base : ℕ} {v : IntScan}
  {parse : List UInt8 → Option R}

/-- a base that is too large panics at the first character -/
theorem detectBase_base (hs : src.IsString st s) (hinside : offset + v.whitespaceLen + v.len ≤ s.length)
    (hlen : v.len < 2 ^ 32) (hb : 36 < v.base) : detectBase src offset maxLength v st = .error .base := by
  obtain ⟨fuel, hfuel⟩ : ∃ n, 2 ^ 32 - v.len = n + 1 := ⟨2 ^ 32 - v.len - 1, by omega⟩
  have hbase : assert (v.base ≤ 36 : Bool) Panic.base = .error .base := if_neg (by simpa using hb)
  unfold detectBase skipPrefix digits
  rw [if_neg (by omega), if_neg (by omega), hfuel, digitsLoop, hs.getcAt hinside, ok_bind]
  simp only [hbase]
  rfl

theorem strToInt_base (hs : src.IsString st s) (hb : 36 < base) (t : IntType) :
    strToIntInnerGeneric src 0 (2 ^ 32 - 1) t base st = .error .base := by
  have hspace := hs.countWhitespace (Nat.zero_le s.length)
  rw [List.drop_zero] at hspace
  have hle : (s.takeWhile isspaceInner).length ≤ s.length := takeWhile_length_le _ s
  generalize (s.takeWhile isspaceInner).length = n at hspace hle
  have hinside : 0 + n + 0 ≤ s.length := by omega
  unfold strToIntInnerGeneric scanStages
  simp only [hspace, ok_bind]
  unfold skipSign
  simp only [hs.getcAt hinside, ok_bind]
  by_cases hsign : isSign (s.getD (0 + n + 0) 0) = true
  · have hlt : n < s.length := by
      by_contra hge
      have hnone : s.getD (0 + n + 0) 0 = 0 := by
        rw [List.getD_eq_getElem?_getD, List.getElem?_eq_none (by omega), Option.getD_none]
      rw [hnone] at hsign
      exact absurd hsign (by decide)
    rw [if_pos hsign, if_neg (by decide), detectBase_base hs (by simp only; omega) (by simp only; omega) hb]
    rfl
  · rw [if_neg hsign, hs.ungetc, ok_bind, detectBase_base hs hinside (by simp only; omega) hb]
    rfl

/-- the conversion of integers over two sources of one string -/
theorem strToInt_same (hs : src.IsString st s) (hs' : src'.IsString st s) (t : IntType) (base : ℕ) :
    strToIntInnerGeneric src 0 (2 ^ 32 - 1) t base st = strToIntInnerGeneric src' 0 (2 ^ 32 - 1) t base st := by
  by_cases hb : base ≤ 36
  · rw [strToInt_string hs (Nat.zero_le _) hb (by decide) (by decide), strToInt_string hs' (Nat.zero_le _) hb (by decide) (by decide)]
  · rw [strToInt_base hs (by omega), strToInt_base hs' (by omega)]

end

/-! ## Turns over two sources -/

section

variable {σ R : Type} {src src' : Source σ} {st : σ} {input r format : List UInt8} {parse : List UInt8 → Option R}
  {s s' : ScanState σ R} {d : ScanDirective}

theorem scanSet_same (hs : src.IsString st input) (hs' : src'.IsString st input) (hr : Reading st input s r) :
    scanSet src d s = scanSet src' d s := by
  by_cases hw : d.maxWidth = 0
  swap
  · simp [scanSet, hw, assert]
  by_cases hl : d.lengthModifier = none
  swap
  · simp [scanSet, hw, hl, assert]
  cases hset : parseSet s.rest with
  | error e => simp only [scanSet, hset]; rfl
  | ok p => rw [scanSet_string hs hr hw hl hset, scanSet_string hs' hr hw hl hset]

theorem scanString_same (hs : src.IsString st input) (hs' : src'.IsString st input) (hr : Reading st input s r) :
    scanString src d s = scanString src' d s := by
  by_cases hw : d.maxWidth = 0
  swap
  · simp [scanString, hw, assert]
  by_cases hl : d.lengthModifier = none
  swap
  · simp [scanString, hw, hl, assert]
  rw [scanString_string hs hr hw hl, scanString_string hs' hr hw hl]

theorem scanFloat_same (hs : src.IsString st input) (hs' : src'.IsString st input) (hr : Reading st input s r)
    (hspace : r.takeWhile isspaceInner = []) : scanFloat src parse d s = scanFloat src' parse d s := by
  by_cases hw : d.maxWidth = 0
  · rw [(scanFloat_string hs hr hspace hw).2, (scanFloat_string hs' hr hspace hw).2]
  · simp [scanFloat, hw, assert]

/-- a conversion; the others have no white space before them -/
theorem scanConversion_same (hs : src.IsString st input) (hs' : src'.IsString st input) (hr : Reading st input s r)
    (hspace : d.specifier = 102 → r.takeWhile isspaceInner = []) (hwidth : d.maxWidth < 2 ^ 32) :
    scanConversion src parse d s = scanConversion src' parse d s := by
  have hinteger : ∀ (t : IntType) (base : ℕ) (store : ℤ → Stored R), base ≤ 36 →
      scanInteger src t base d.maxWidth store s = scanInteger src' t base d.maxWidth store s := by
    intro t base store hb
    rw [scanInteger_string hs hr hb hwidth, scanInteger_string hs' hr hb hwidth]
  unfold scanConversion
  by_cases hd : d.specifier = 100 ∨ d.specifier = 105
  · have hb : (if d.specifier = 100 then 10 else 0) ≤ 36 := by split_ifs <;> decide
    simp only [if_pos hd, hinteger _ _ _ hb]
  rw [if_neg hd, if_neg hd]
  by_cases hf : d.specifier = 102
  · rw [if_pos hf, if_pos hf, scanFloat_same hs hs' hr (hspace hf)]
  rw [if_neg hf, if_neg hf]
  by_cases hx : d.specifier = 120 ∨ d.specifier = 88 ∨ d.specifier = 117
  · have hb : (if d.specifier = 117 then 10 else 16) ≤ 36 := by split_ifs <;> decide
    rw [if_pos hx, if_pos hx, hinteger _ _ _ hb]
  rw [if_neg hx, if_neg hx, scanSet_same hs hs' hr, scanString_same hs hs' hr]

theorem scanDirective_same (hs : src.IsString st input) (hs' : src'.IsString st input) (hr : Reading st input s r)
    (g : List UInt8) : scanDirective src parse s g = scanDirective src' parse s g := by
  cases hp : parseScan g with
  | error e => simp only [scanDirective, hp]; rfl
  | ok p =>
    obtain ⟨d, f⟩ := p
    by_cases hne : d.specifier ≠ 91 ∧ d.specifier ≠ 99 ∧ d.specifier ≠ 110
    · rw [scanDirective_string hs hr hp hne, scanDirective_string hs' hr hp hne]
      exact scanConversion_same hs hs' (hr.skipped f) (fun _ => takeWhile_dropWhile_self _ r) (parseScan_width hp)
    · rw [scanDirective_set hp hne, scanDirective_set hp hne]
      have hstart : Reading st input { s with rest := f } r := ⟨hr.src, hr.inside, hr.left⟩
      refine scanConversion_same hs hs' hstart (fun hf => absurd ?_ hne) (parseScan_width hp)
      rw [hf]
      decide

/-- **A turn** is the same over two sources of one string. -/
theorem scanStep_same (hs : src.IsString st input) (hs' : src'.IsString st input) (hr : Reading st input s r) :
    scanStep src parse s () = scanStep src' parse s () := by
  unfold scanStep
  by_cases hd : s.done = true
  · rw [if_pos hd, if_pos hd]
  rw [if_neg hd, if_neg hd]
  cases hrest : s.rest with
  | nil => rfl
  | cons c g =>
    simp only
    by_cases h0 : c = 0
    · rw [if_pos h0, if_pos h0]
    rw [if_neg h0, if_neg h0]
    by_cases hc : c = 37
    · subst hc
      exact scanDirective_same hs hs' hr g
    rw [if_pos hc, if_pos hc]
    by_cases hspace : isspaceInner c = true
    · rw [scanLiteral_space hs hr hspace, scanLiteral_space hs' hr hspace]
    · have hspace' : isspaceInner c = false := by simpa using hspace
      rw [scanLiteral_other hs hr hspace' h0, scanLiteral_other hs' hr hspace' h0]

theorem run_same (hs : src.IsString st input) (hs' : src'.IsString st input) (ops : List Unit)
    (hr : Reading st input s (input.drop s.srcIdx)) : run (scanStep src parse) s ops = run (scanStep src' parse) s ops := by
  induction ops generalizing s with
  | nil => rfl
  | cons o ops ih =>
    have hstep : scanStep src parse s () = scanStep src' parse s () := scanStep_same hs hs' hr
    rw [run_cons, run_cons, ← hstep]
    cases hok : scanStep src parse s () with
    | error e => rfl
    | ok s₁ => exact ih (step_reading hs hr hok)

/-! ## The end of a scan -/

/-- the integers fail with the assertion on the base only -/
theorem finish_ends (t : IntType) (v : IntScan) : Ends (· = .base) (fun _ => True) (v.finish t) := by
  unfold IntScan.finish
  refine Ends.bind (P := fun _ => True) ?_ fun _ _ => ?_
  · unfold assert
    split_ifs
    · exact trivial
    · exact rfl
  · split_ifs <;> exact trivial

/-- a state that ends the scan, or has less of the format left -/
def Progress (s s' : ScanState σ R) : Prop := s'.done = true ∨ Supported s'.rest ∧ s'.rest.length < s.rest.length

theorem progress_of_length {f g : List UInt8} (hrest : s.rest = 37 :: g) (hf : Supported f) (hlen : f.length ≤ g.length)
    (h : s'.rest = f) : Progress s s' := by
  right
  rw [h, hrest, List.length_cons]
  exact ⟨hf, Nat.lt_succ_of_le hlen⟩

/-- a directive that is not a set -/
theorem directive_ends (hs : src.IsString st input) (hr : Reading st input s r) {g f : List UInt8} {k : Kind}
    (hrest : s.rest = 37 :: g) (hp : parseScan g = .ok (d, f)) (hk : d.kind = some k) (hne : k ≠ .set) (hf : Supported f) :
    Ends (· = .base) (Progress s) (scanDirective src parse s g) := by
  have hlen := parseScan_length hp
  have hr' := hr.skipped f
  have hgoes : ∀ s' : ScanState σ R, s'.rest = f → Progress s s' := fun s' h => progress_of_length hrest hf hlen h
  rw [scanDirective_string hs hr hp (skips_space hk hne)]
  cases k with
  | integer =>
    have hbase := intBase_cases d.specifier
    rw [scanConversion_integer hk, scanInteger_string hs hr' (by omega) (parseScan_width hp)]
    have hends := finish_ends (intType d) (scanInt (intBase d.specifier) (widthLimit d.maxWidth) (r.dropWhile isspaceInner))
    cases hfin : (scanInt (intBase d.specifier) (widthLimit d.maxWidth) (r.dropWhile isspaceInner)).finish (intType d) with
    | error e => exact hends.error hfin
    | ok res =>
      cases res with
      | none => exact .inl rfl
      | some p => exact hgoes _ rfl
  | float =>
    obtain ⟨hsp, hw, hl⟩ := kind_spec hk
    rw [scanConversion_float hsp, (scanFloat_string hs hr' (takeWhile_dropWhile_self _ r) hw).2]
    cases parse (floatChars (r.dropWhile isspaceInner)) with
    | none => exact .inl rfl
    | some v =>
      simp only [if_pos hl]
      exact hgoes _ rfl
  | string =>
    obtain ⟨hsp, hw, hl⟩ := kind_spec hk
    rw [scanConversion_string hsp, scanString_string hs hr' hw hl]
    exact hgoes _ rfl
  | set => exact absurd rfl hne

theorem set_ends (hs : src.IsString st input) (hr : Reading st input s r) {g f f' : List UInt8} {set : CharSet}
    (hrest : s.rest = 37 :: g) (hp : parseScan g = .ok (d, f)) (hk : d.kind = some .set) (hset : parseSet f = .ok (set, f'))
    (hf : Supported f') : Ends (· = .base) (Progress s) (scanDirective src parse s g) := by
  obtain ⟨hsp, hw, hl⟩ := kind_spec hk
  have hstart : Reading st input { s with rest := f } r := ⟨hr.src, hr.inside, hr.left⟩
  have hlen : f'.length ≤ g.length := (parseSet_length hset).trans (parseScan_length hp)
  rw [scanDirective_set hp fun h => h.1 hsp, scanConversion_set hsp, scanSet_string hs hstart hw hl hset]
  split_ifs
  · exact progress_of_length hrest hf hlen rfl
  · exact progress_of_length hrest hf hlen rfl

/-- **A turn** over a format of supported directives ends the scan or shortens what is left. -/
theorem scanStep_ends (hs : src.IsString st input) (hr : Reading st input s r) (hd : s.done = false) (hf : Supported s.rest) :
    Ends (· = .base) (Progress s) (scanStep src parse s ()) := by
  generalize hrest : s.rest = l at hf
  have hgoing : ¬s.done = true := by rw [hd]; decide
  have hstops : l.headD 0 = 0 → Ends (· = .base) (Progress s) (scanStep src parse s ()) := by
    intro h
    have hstop : scanStep src parse s () = .ok (s.stop s.src) := by
      unfold scanStep
      rw [if_neg hgoing, hrest]
      cases l with
      | nil => rfl
      | cons c l => exact if_pos h
    rw [hstop]
    exact .inl rfl
  cases hf with
  | nil => exact hstops rfl
  | ended f => exact hstops rfl
  | @literal c g h37 hf =>
    by_cases h0 : c = 0
    · exact hstops h0
    have hstep : scanStep src parse s () = scanLiteral src s c g := by
      unfold scanStep
      rw [if_neg hgoing, hrest]
      simp only [if_neg h0, if_pos h37]
    have hgoes : ∀ s' : ScanState σ R, s'.rest = g → Progress s s' := by
      intro s' h
      right
      rw [h, hrest, List.length_cons]
      exact ⟨hf, Nat.lt_succ_self _⟩
    rw [hstep]
    by_cases hspace : isspaceInner c = true
    · rw [scanLiteral_space hs hr hspace]
      exact hgoes _ rfl
    · rw [scanLiteral_other hs hr (by simpa using hspace) h0]
      split_ifs
      · exact hgoes _ rfl
      · exact .inl rfl
  | @directive g f d k hp hk hne hf =>
    have hstep : scanStep src parse s () = scanDirective src parse s g := by
      unfold scanStep
      rw [if_neg hgoing, hrest]
      rfl
    rw [hstep]
    exact directive_ends hs hr hrest hp hk hne hf
  | @set g f f' d set hp hk hset hf =>
    have hstep : scanStep src parse s () = scanDirective src parse s g := by
      unfold scanStep
      rw [if_neg hgoing, hrest]
      rfl
    rw [hstep]
    exact set_ends hs hr hrest hp hk hset hf

/-- **A scan** comes to its end within the turns that it has. -/
theorem run_ends (hs : src.IsString st input) {n : ℕ} (hr : Reading st input s (input.drop s.srcIdx))
    (hf : s.done = true ∨ Supported s.rest ∧ s.rest.length < n) :
    Ends (· = .base) (fun t => t.done = true) (run (scanStep src parse) s (List.replicate n ())) := by
  induction n generalizing s with
  | zero => exact hf.resolve_right fun h => Nat.not_lt_zero _ h.2
  | succ n ih =>
    by_cases hd : s.done = true
    · rw [run_done hd]
      exact hd
    obtain ⟨hsup, hlen⟩ := hf.resolve_left hd
    have hends : Ends (· = .base) (Progress s) (scanStep src parse s ()) := scanStep_ends hs hr (by simpa using hd) hsup
    rw [List.replicate_succ, run_cons]
    cases hok : scanStep src parse s () with
    | error e => exact hends.error hok
    | ok s₁ =>
      refine ih (step_reading hs hr hok) ?_
      rcases hends.ok hok with hdone | ⟨hsup', hlt⟩
      · exact .inl hdone
      · exact .inr ⟨hsup', by omega⟩

end

/-! ## Strings in memory -/

section

variable {m : Mem} {ptr str endptr base : ℕ} {s : List UInt8} {t : IntType}
  {beyond : Mem → ℕ → Except Panic (Option UInt8 × Mem)}

theorem fenced_isString (h : HoldsString m ptr s) : (fenced ptr s.length beyond).IsString m s where
  getc i hi := by
    show (if i ≤ s.length then _ else _) = _
    rw [if_pos hi]
    exact h.isString.getc i hi
  ungetc _ := rfl
  noNul := h.noNul
  size := h.isString.size

theorem strtoFrom_fenced (h : HoldsString m ptr s) :
    strtoFrom (fenced ptr s.length beyond) t m str endptr base = strtoFrom (cString ptr) t m str endptr base := by
  unfold strtoFrom
  rw [strToInt_same (fenced_isString h) h.isString]

theorem writeEnd_ends (h : HoldsString m ptr s) (he : EndPlace m endptr) {len : ℕ} (hlen : len ≤ s.length) {α : Type}
    (f : Mem → α) : Ends (fun _ => False) (fun _ => True) (writeEnd m endptr ptr len >>= fun m => Except.ok (f m) : Except Panic α) := by
  rw [writeEnd_ok h he hlen]
  exact trivial

theorem strto_ends (h : HoldsString m ptr s) (he : EndPlace m endptr) :
    Ends (· = .base) (fun _ => True) (strto t m ptr endptr base) := by
  have hs := h.isString
  unfold strto
  by_cases hb : base ≤ 36
  · have hends := finish_ends t (scanInt base (2 ^ 32 - 1) s)
    rw [strToInt_string hs (Nat.zero_le _) hb (by decide) (by decide), List.drop_zero]
    cases hfin : (scanInt base (2 ^ 32 - 1) s).finish t with
    | error e => exact hends.error hfin
    | ok res =>
      cases res with
      | none => exact (writeEnd_ends h he (Nat.zero_le _) _).imp fun _ hfalse => hfalse.elim
      | some p => exact (writeEnd_ends h he (scanInt_len hfin) _).imp fun _ hfalse => hfalse.elim
  · rw [strToInt_base hs (by omega)]
    exact rfl

end

theorem strtod_ends {m : Mem} {ptr endptr : ℕ} {s : List UInt8} {number : List UInt8 → F64} (h : HoldsString m ptr s)
    (he : EndPlace m endptr) : Ends (fun _ => False) (fun _ => True) (Atof.strtod number m ptr endptr) := by
  unfold Atof.strtod
  rw [Atof.atofInner_string h, ok_bind]
  cases hfound : Atof.found number s with
  | none => exact writeEnd_ends h he (Nat.zero_le _) _
  | some p => exact writeEnd_ends h he (Atof.found_length p.1 hfound) _

/-- **C strings.** The functions read a string up to its terminator, whatever may be behind it, and come to an end. -/
theorem reads_to_terminator {m : Mem} {ptr : ℕ} {s : List UInt8} (h : HoldsString m ptr s) :
    ReadsToTerminator m ptr s.length ∧ ComesToEnd m ptr := by
  have hs := h.isString
  have hstart : ∀ (R : Type) (format : List UInt8), Reading m s (scanStart (R := R) format m) (s.drop 0) :=
    fun R format => ⟨rfl, Nat.zero_le _, rfl⟩
  refine ⟨⟨?_, ?_, ?_, ?_, ?_⟩, ⟨?_, ?_, ?_, ?_, ?_⟩⟩
  · intro R parse format beyond
    exact run_same (fenced_isString h) hs (scanTurns format) (hstart R format)
  · intro endptr base beyond
    exact strtoFrom_fenced h
  · intro endptr base beyond
    rw [← strtoulFrom_cString]
    unfold strtoulFrom
    simp only [strtoFrom_fenced h]
  · intro number endptr beyond
    rw [← strtodFrom_cString]
    unfold strtodFrom
    rw [Atof.atofInnerGeneric_string (fenced_isString h), Atof.atofInnerGeneric_string hs]
  · intro number beyond
    rw [← atofFrom_cString]
    unfold atofFrom strtodFrom
    rw [Atof.atofInnerGeneric_string (fenced_isString h), Atof.atofInnerGeneric_string hs]
  · intro R parse format hf
    exact run_ends hs (hstart R format) (.inr ⟨hf, Nat.lt_succ_self _⟩)
  · intro endptr base he
    exact strto_ends h he
  · intro endptr base he
    unfold strtoul baseToU32
    split_ifs
    · exact (strto_ends h he).imp fun e he => .inl he
    · exact .inr rfl
  · intro number endptr he
    exact strtod_ends h he
  · intro number
    exact (strtod_ends h (.inl rfl)).bind fun _ _ => trivial

/-- "7" -/
def sevenText : List UInt8 := [55]

theorem reads_to_terminator_seven :
    ReadsToTerminator (Atof.textAt sevenText) 4096 1 ∧ ComesToEnd (Atof.textAt sevenText) 4096 :=
  reads_to_terminator (s := sevenText)
    (holdsString_store (m := ⟨fun _ => 0, 4096⟩) ⟨le_rfl, by decide⟩ (by simp [sevenText]))

end TouchHLE.Scanf
