/-
The formatter behind `printf`, `NSLog` and their like (`printf_inner` in `libc/stdio/printf.rs`).

- `parseDirective`: what stands between '%' and the conversion specifier. `Directive` is what it says, `Conversion` the
  same with the values of '*'.
- `convert`: one conversion. Integers are formatted by `formatDecimal`, `formatHex` and `formatPointer`; `Formats` has
  the conversions of strings, floating-point numbers and objects, the last of which runs guest code.
- `step`: one turn of the loop of `printf_inner`; `printfInner`: the loop, `printf_done`: it comes to the end.

The words of the variadic arguments come from a function `word`, so that reading them from the current registers can be
compared with other ways.
-/
import TouchHLE.Abi.Args

namespace TouchHLE.Printf

open Machine Abi

/-! ## Directives -/

/-- `ALL_SPECIFIERS` -/
inductive Specifier where
  | d | i | o | u | x | X | f | F | e | E | g | G | a | A | c | s | p | n | C | S | percent | object | D | U | O
deriving DecidableEq, Repr

def allSpecifiers : List (UInt8 × Specifier) :=
  [(100, .d), (105, .i), (111, .o), (117, .u), (120, .x), (88, .X), (102, .f), (70, .F), (101, .e), (69, .E), (103, .g),
    (71, .G), (97, .a), (65, .A), (99, .c), (115, .s), (112, .p), (110, .n), (67, .C), (83, .S), (37, .percent),
    (64, .object), (68, .D), (85, .U), (79, .O)]

def integerSpecifiers : List Specifier := [.d, .i, .o, .u, .x, .X]

def floatSpecifiers : List Specifier := [.f, .e, .g]

inductive LengthModifier where
  | l
  | ll
deriving DecidableEq, Repr

/-- a width or a precision: a number, or '*' -/
inductive Amount where
  | star
  | number (n : ℕ)
deriving DecidableEq, Repr

/-- a directive up to its specifier -/
structure Directive where
  prependSign : Bool
  padZero : Bool
  leftJustified : Bool
  padWidth : Amount
  precision : Option Amount
  lengthModifier : Option LengthModifier
deriving DecidableEq, Repr

/-- a directive with its specifier and the values of '*' -/
structure Conversion where
  prependSign : Bool
  padZero : Bool
  leftJustified : Bool
  padWidth : ℕ
  precision : Option ℕ
  lengthModifier : Option LengthModifier
  specifier : Specifier
deriving DecidableEq, Repr

/-- an optional character -/
def skipChar (c : UInt8) (r : List UInt8) : Bool × List UInt8 := if r.headD 0 = c then (true, r.tail) else (false, r)

/-- a number, which must stay below `limit` -/
def parseNumber (limit : ℕ) : List UInt8 → ℕ → Except Panic (ℕ × List UInt8)
  | [], n => pure (n, [])
  | c :: r, n =>
    if 48 ≤ c ∧ c ≤ 57 then
      let n := n * 10 + (c.toNat - 48)
      if n < limit then parseNumber limit r n else throw .overflow
    else pure (n, c :: r)

def parseAmount (limit : ℕ) (r : List UInt8) : Except Panic (Amount × List UInt8) :=
  if r.headD 0 = 42 then pure (.star, r.tail)
  else do
    let (n, r) ← parseNumber limit r 0
    pure (.number n, r)

/-- '#', which is accepted in front of a precision of one character and 'd' -/
def parseAlternative (r : List UInt8) : Except Panic (List UInt8) :=
  if r.headD 0 = 35 then do
    assert (r.tail.headD 0 == 46) .formatFlags
    assert (r.tail.getD 2 0 == 100) .formatFlags
    pure r.tail
  else pure r

def parsePrecision (r : List UInt8) : Except Panic (Option Amount × List UInt8) :=
  if r.headD 0 = 46 then do
    let (amount, r) ← parseAmount (2 ^ 64) r.tail
    pure (some amount, r)
  else pure (none, r)

def parseLength (r : List UInt8) : Option LengthModifier × List UInt8 :=
  if r.headD 0 = 108 then
    if r.tail.headD 0 = 108 then (some .ll, r.tail.tail) else (some .l, r.tail)
  else if r.headD 0 = 113 then (some .ll, r.tail)
  else (none, r)

/-- what follows '%' -/
def parseDirective (r : List UInt8) : Except Panic (Directive × List UInt8) := do
  let (prependSign, r) := skipChar 43 r
  let r ← parseAlternative r
  let (padZero, r) := skipChar 48 r
  let (leftJustified, r) := skipChar 45 r
  let (padWidth, r) ← parseAmount (2 ^ 31) r
  let (precision, r) ← parsePrecision r
  let (lengthModifier, r) := parseLength r
  pure ({ prependSign, padZero, leftJustified, padWidth, precision, lengthModifier }, r)

/-! ## Numbers -/

/-- the digits of a number, in lower case -/
def digits (base n : ℕ) : List UInt8 := (Nat.toDigits base n).map fun c => UInt8.ofNat c.toNat

def toUpper (c : UInt8) : UInt8 := if 97 ≤ c ∧ c ≤ 122 then c - 32 else c

def padLeft (fill : UInt8) (width : ℕ) (s : List UInt8) : List UInt8 := List.replicate (width - s.length) fill ++ s

def sign (int : ℤ) : List UInt8 := if int < 0 then [45] else []

/-- `{int}` -/
def display (int : ℤ) : List UInt8 := sign int ++ digits 10 int.natAbs

/-- `{int:01$}`: zeros between the sign and the digits, up to the width -/
def displayZeroPadded (int : ℤ) (width : ℕ) : List UInt8 :=
  sign int ++ padLeft 48 (width - (sign int).length) (digits 10 int.natAbs)

/-- the integer conversions in base 10 -/
def formatDecimal (c : Conversion) (int : ℤ) : Except Panic (List UInt8) :=
  let intWithPrecision := if 0 < c.precision.getD 0 then displayZeroPadded int (c.precision.getD 0) else display int
  if 0 < c.padWidth then
    if c.padZero ∧ c.precision = none then
      if c.prependSign then do
        assert (int != 0) .formatFlags
        if 0 < int then pure (43 :: padLeft 48 (c.padWidth - 1) (display int))
        else do
          let abs ← i64 (-int)
          pure (45 :: padLeft 48 (c.padWidth - 1) (display abs))
      else pure (padLeft 48 c.padWidth (display int))
    else do
      assert (!c.prependSign) .formatFlags
      pure (padLeft 32 c.padWidth intWithPrecision)
  else do
    assert (!c.prependSign) .formatFlags
    pure intWithPrecision

/-- 'x' -/
def formatHex (c : Conversion) (uint : ℕ) : Except Panic (List UInt8) :=
  if 0 < c.padWidth then do
    assert (c.precision == none) .formatFlags
    pure (padLeft (if c.padZero then 48 else 32) c.padWidth (digits 16 uint))
  else if 0 < c.precision.getD 0 then pure (padLeft 48 (c.precision.getD 0) (digits 16 uint))
  else do
    assert (c.precision == none || uint != 0) .formatFlags
    pure (digits 16 uint)

/-- 'X' -/
def formatHexUpper (c : Conversion) (uint : ℕ) : Except Panic (List UInt8) :=
  let s := (digits 16 uint).map toUpper
  if 0 < c.padWidth then pure (padLeft (if c.padZero then 48 else 32) c.padWidth s) else pure s

/-- 'p' -/
def formatPointer (c : Conversion) (ptr : ℕ) : Except Panic (List UInt8) :=
  let s := 48 :: 120 :: digits 16 ptr
  if 0 < c.padWidth then do
    assert (!c.padZero) .formatFlags
    pure (padLeft 32 c.padWidth s)
  else pure s

/-- `char::from_u32(c).unwrap()` in UTF-8 -/
def formatUnichar (c : ℕ) : Except Panic (List UInt8) :=
  if c < 0x80 then pure [UInt8.ofNat c]
  else if c < 0x800 then pure [UInt8.ofNat (0xc0 + c / 0x40), UInt8.ofNat (0x80 + c % 0x40)]
  else if 0xd800 ≤ c ∧ c < 0xe000 then throw .conversion
  else pure [UInt8.ofNat (0xe0 + c / 0x1000), UInt8.ofNat (0x80 + c / 0x40 % 0x40), UInt8.ofNat (0x80 + c % 0x40)]

/-! ## Conversions -/

/-- the registers and the memory of the guest -/
structure Guest where
  regs : Regs
  mem : Mem

/-- what is not about integers -/
structure Formats where
  /-- 's' for a string that is not NULL -/
  string : Conversion → Ptr → Mem → Except Panic (List UInt8)
  /-- 'S' for a string that is not NULL -/
  wideString : Ptr → Mem → Except Panic (List UInt8)
  /-- 'f', 'e' and 'g' -/
  float : Conversion → F64 → Except Panic (List UInt8)
  /-- '@': the message `description`, which guest code may implement -/
  description : Ptr → Guest → Except Panic (List UInt8 × Guest)

section

variable (F : Formats) (nsLog : Bool) (word : ℕ → Guest → Except Panic UInt32)

/-- consecutive words of the arguments -/
def nextWords : ℕ → ℕ → Guest → Except Panic (List UInt32)
  | 0, _, _ => pure []
  | n + 1, off, g => do
    let w ← word off g
    let ws ← nextWords n (off + 1) g
    pure (w :: ws)

/-- `args.next()`: the argument, and the offset of the one after it -/
def next (α : Type) [GuestArg α] (off : ℕ) (g : Guest) : Except Panic (α × ℕ) := do
  let ws ← nextWords word (GuestArg.regCount α) off g
  pure (GuestArg.fromRegs ws, off + GuestArg.regCount α)

/-- the value of a width or a precision -/
def takeAmount (a : Amount) (off : ℕ) (g : Guest) : Except Panic (ℕ × ℕ) :=
  match a with
  | .number n => pure (n, off)
  | .star => do
    let (n, off) ← next word Int32 off g
    assert (0 ≤ n.toInt) .negativeStar
    pure (n.toInt.toNat, off)

def takePrecision (a : Option Amount) (off : ℕ) (g : Guest) : Except Panic (Option ℕ × ℕ) :=
  match a with
  | none => pure (none, off)
  | some a => do
    let (n, off) ← takeAmount word a off g
    pure (some n, off)

/-- the width and the precision of a directive, and the offset of the argument to convert -/
def takeAmounts (d : Directive) (off : ℕ) (g : Guest) : Except Panic (ℕ × Option ℕ × ℕ) := do
  let (padWidth, off) ← takeAmount word d.padWidth off g
  let (precision, off) ← takePrecision word d.precision off g
  pure (padWidth, precision, off)

def Directive.toConversion (d : Directive) (padWidth : ℕ) (precision : Option ℕ) (specifier : Specifier) : Conversion :=
  { prependSign := d.prependSign, padZero := d.padZero, leftJustified := d.leftJustified, padWidth, precision,
    lengthModifier := d.lengthModifier, specifier }

/-- the argument of 'd', 'i' or 'u' as an `i64` -/
def nextInt (c : Conversion) (off : ℕ) (g : Guest) : Except Panic (ℤ × ℕ) :=
  if c.specifier = .u then
    if c.lengthModifier = some .ll then do
      let (uint, off) ← next word UInt64 off g
      if uint.toNat < 2 ^ 63 then pure (uint.toNat, off) else throw .conversion
    else do
      let (uint, off) ← next word UInt32 off g
      pure (uint.toNat, off)
  else if c.lengthModifier = some .ll then do
    let (int, off) ← next word Int64 off g
    pure (int.toInt, off)
  else do
    let (int, off) ← next word Int32 off g
    pure (int.toInt, off)

/-- the assertions that most conversions start with -/
def plain (c : Conversion) : Except Panic Unit := do
  assert (!c.prependSign) .formatFlags
  assert (!c.leftJustified) .formatFlags

/-- "(null)" -/
def nullString : List UInt8 := [40, 110, 117, 108, 108, 41]

/-- the argument at the offset `off`: the bytes, the offset of the next argument, and the guest afterwards -/
def convert (c : Conversion) (off : ℕ) (g : Guest) : Except Panic (List UInt8 × ℕ × Guest) := do
  assert (c.precision == none || c.specifier ∈ integerSpecifiers || c.specifier ∈ floatSpecifiers || c.specifier == .s)
    .formatFlags
  match c.specifier with
  | .c => do
    plain c
    assert (c.lengthModifier == none) .formatFlags
    let (ch, off) ← next word UInt8 off g
    assert (!c.padZero && c.padWidth == 0) .formatFlags
    pure ([ch], off, g)
  | .C => do
    plain c
    assert (c.lengthModifier == none) .formatFlags
    let (ch, off) ← next word UInt16 off g
    assert (!c.padZero && c.padWidth == 0) .formatFlags
    let bytes ← formatUnichar ch.toNat
    pure (bytes, off, g)
  | .s => do
    assert (!c.prependSign) .formatFlags
    assert (c.lengthModifier == none) .formatFlags
    let (cString, off) ← next word Ptr off g
    assert (!c.padZero) .formatFlags
    if cString.bits ≠ 0 then do
      assert (c.precision == none || !c.leftJustified) .formatFlags
      let bytes ← F.string c cString g.mem
      pure (bytes, off, g)
    else do
      assert (!c.leftJustified) .formatFlags
      assert (c.precision == none) .formatFlags
      pure (nullString, off, g)
  | .S => do
    plain c
    assert (c.lengthModifier == none) .formatFlags
    let (wString, off) ← next word Ptr off g
    assert (!c.padZero && c.padWidth == 0) .formatFlags
    if wString.bits ≠ 0 then do
      let bytes ← F.wideString wString g.mem
      pure (bytes, off, g)
    else pure (nullString, off, g)
  | .d | .i | .u => do
    assert (!c.leftJustified) .formatFlags
    let (int, off) ← nextInt word c off g
    let bytes ← formatDecimal c int
    pure (bytes, off, g)
  | .object => do
    assert nsLog .todo
    plain c
    assert (c.lengthModifier == none) .formatFlags
    let (object, off) ← next word Ptr off g
    let (description, g) ← F.description object g
    pure (description, off, g)
  | .x => do
    plain c
    let (uint, off) ← next word UInt32 off g
    let bytes ← formatHex c uint.toNat
    pure (bytes, off, g)
  | .X => do
    plain c
    assert (c.precision == none) .formatFlags
    let (uint, off) ← next word UInt32 off g
    let bytes ← formatHexUpper c uint.toNat
    pure (bytes, off, g)
  | .p => do
    plain c
    assert (c.lengthModifier == none) .formatFlags
    let (ptr, off) ← next word Ptr off g
    let bytes ← formatPointer c ptr.bits.toNat
    pure (bytes, off, g)
  | .f | .e | .g => do
    plain c
    let (float, off) ← next word F64 off g
    let bytes ← F.float c float
    pure (bytes, off, g)
  | _ => throw .todo

/-! ## The loop -/

/-- what is left of the format string, the offset of the next argument, the guest, and the output so far -/
structure PrintfState where
  rest : List UInt8
  off : ℕ
  guest : Guest
  res : List UInt8
  done : Bool

/-- the branches for a directive, where `r` is what follows '%' -/
def directiveStep (s : PrintfState) (r : List UInt8) : Except Panic PrintfState := do
  let (d, r) ← parseDirective r
  let (padWidth, precision, off) ← takeAmounts word d s.off s.guest
  match allSpecifiers.lookup (r.headD 0) with
  -- '%' is skipped, and the character after it is read again; the end of the format string is such a character
  | none => pure { s with rest := r, off }
  | some .percent => pure { s with rest := r.tail, off, res := s.res ++ [37] }
  | some specifier => do
    let (bytes, off, guest) ← convert F nsLog word (d.toConversion padWidth precision specifier) off s.guest
    pure { s with rest := r.tail, off, guest, res := s.res ++ bytes }

/-- one turn of the loop -/
def step (s : PrintfState) (_ : Unit) : Except Panic PrintfState :=
  if s.done then pure s
  else
    match s.rest with
    | [] => pure { s with done := true }
    | c :: r =>
      if c = 0 then pure { s with done := true }
      else if c ≠ 37 then pure { s with rest := r, res := s.res ++ [c] }
      else directiveStep F nsLog word s r

/-- the directive that a turn meets, and what follows it -/
def PrintfState.directive (s : PrintfState) : Option (Directive × Specifier × List UInt8) :=
  if s.done then none
  else
    match s.rest with
    | [] => none
    | c :: r =>
      if c = 37 then
        match parseDirective r with
        | .ok (d, r) => (allSpecifiers.lookup (r.headD 0)).map fun specifier => (d, specifier, r.tail)
        | .error _ => none
      else none

def start (format : List UInt8) (off : ℕ) (g : Guest) : PrintfState :=
  { rest := format, off, guest := g, res := [], done := false }

/-- enough turns for every format string -/
def turns (format : List UInt8) : List Unit := List.replicate (format.length + 1) ()

/-- the output, and the guest afterwards -/
def printfInner (format : List UInt8) (off : ℕ) (g : Guest) : Except Panic (List UInt8 × Guest) := do
  let s ← run (step F nsLog word) (start format off g) (turns format)
  pure (s.res, s.guest)

end

/-- `VaList::next` reads the registers and the stack as they are -/
def liveWord (stackPointer : ℕ) (off : ℕ) (g : Guest) : Except Panic UInt32 := readWord off g.regs stackPointer g.mem

/-! ## Turns -/

section

variable {F : Formats} {nsLog : Bool} {word : ℕ → Guest → Except Panic UInt32} {s s' : PrintfState} {d : Directive}
  {sp : Specifier} {r : List UInt8}

theorem directive_cases (h : s.directive = some (d, sp, r)) :
    s.done = false ∧ ∃ r₀ r₁, s.rest = 37 :: r₀ ∧ parseDirective r₀ = .ok (d, r₁) ∧
      allSpecifiers.lookup (r₁.headD 0) = some sp ∧ r = r₁.tail := by
  unfold PrintfState.directive at h
  cases hdone : s.done with
  | true => simp [hdone] at h
  | false =>
    refine ⟨rfl, ?_⟩
    rw [hdone, if_neg (by decide)] at h
    cases hrest : s.rest with
    | nil => simp [hrest] at h
    | cons c r₀ =>
      simp only [hrest] at h
      split_ifs at h with hc
      cases hparse : parseDirective r₀ with
      | error e => simp [hparse] at h
      | ok p =>
        simp only [hparse] at h
        obtain ⟨sp', hsp, h⟩ := Option.map_eq_some_iff.1 h
        cases h
        exact ⟨r₀, p.2, by rw [hc], hparse, hsp, rfl⟩

/-- a turn that meets a directive -/
theorem step_directive (h : s.directive = some (d, sp, r)) :
    step F nsLog word s () =
      takeAmounts word d s.off s.guest >>= fun a =>
        if sp = .percent then .ok { s with rest := r, off := a.2.2, res := s.res ++ [37] }
        else convert F nsLog word (d.toConversion a.1 a.2.1 sp) a.2.2 s.guest >>= fun out =>
          .ok { s with rest := r, off := out.2.1, guest := out.2.2, res := s.res ++ out.1 } := by
  obtain ⟨hdone, r₀, r₁, hrest, hparse, hsp, rfl⟩ := directive_cases h
  have hstep : step F nsLog word s () = directiveStep F nsLog word s r₀ := by
    simp [step, hdone, hrest]
  simp only [hstep, directiveStep, hparse, ok_bind, hsp]
  cases takeAmounts word d s.off s.guest with
  | error e => rfl
  | ok a =>
    simp only [ok_bind]
    cases sp <;> rfl

/-- **What a turn does**, when it succeeds -/
inductive Turn (F : Formats) (nsLog : Bool) (word : ℕ → Guest → Except Panic UInt32) (s : PrintfState) :
    PrintfState → Prop
  | idle (hdone : s.done = true) : Turn F nsLog word s s
  | stop (hdone : s.done = false) (hrest : s.rest = [] ∨ s.rest.headD 0 = 0) : Turn F nsLog word s { s with done := true }
  | char {c : UInt8} {r : List UInt8} (hdone : s.done = false) (hrest : s.rest = c :: r) (h0 : c ≠ 0) (h37 : c ≠ 37) :
    Turn F nsLog word s { s with rest := r, res := s.res ++ [c] }
  | unknown {r₀ r₁ : List UInt8} {d : Directive} {a : ℕ × Option ℕ × ℕ} (hdone : s.done = false) (hrest : s.rest = 37 :: r₀)
    (hparse : parseDirective r₀ = .ok (d, r₁)) (hsp : allSpecifiers.lookup (r₁.headD 0) = none)
    (ha : takeAmounts word d s.off s.guest = .ok a) : Turn F nsLog word s { s with rest := r₁, off := a.2.2 }
  | percent {d : Directive} {r : List UInt8} {a : ℕ × Option ℕ × ℕ} (hd : s.directive = some (d, .percent, r))
    (ha : takeAmounts word d s.off s.guest = .ok a) :
    Turn F nsLog word s { s with rest := r, off := a.2.2, res := s.res ++ [37] }
  | conversion {d : Directive} {sp : Specifier} {r : List UInt8} {a : ℕ × Option ℕ × ℕ} {out : List UInt8 × ℕ × Guest}
    (hd : s.directive = some (d, sp, r)) (hsp : sp ≠ .percent) (ha : takeAmounts word d s.off s.guest = .ok a)
    (hout : convert F nsLog word (d.toConversion a.1 a.2.1 sp) a.2.2 s.guest = .ok out) :
    Turn F nsLog word s { s with rest := r, off := out.2.1, guest := out.2.2, res := s.res ++ out.1 }

theorem directive_of_parse {r₀ r₁ : List UInt8} (hdone : s.done = false) (hrest : s.rest = 37 :: r₀)
    (hparse : parseDirective r₀ = .ok (d, r₁)) (hsp : allSpecifiers.lookup (r₁.headD 0) = some sp) :
    s.directive = some (d, sp, r₁.tail) := by
  unfold PrintfState.directive
  simp only [hdone, hrest, hparse, hsp, Bool.false_eq_true, if_false, if_true, Option.map_some]

theorem step_cases (h : step F nsLog word s () = .ok s') : Turn F nsLog word s s' := by
  cases hdone : s.done with
  | true =>
    obtain rfl : s = s' := by
      unfold step at h
      rw [if_pos hdone] at h
      exact Except.ok.inj h
    exact .idle hdone
  | false =>
    have hstep := h
    unfold step at h
    rw [if_neg (by rw [hdone]; decide)] at h
    cases hrest : s.rest with
    | nil =>
      simp only [hrest, pure_eq_ok] at h
      cases h
      rw [← hrest]
      exact .stop hdone (.inl hrest)
    | cons c r₀ =>
      simp only [hrest, pure_eq_ok] at h
      split_ifs at h with h0 h37
      · cases h
        rw [← hrest]
        exact .stop hdone (.inr (by rw [hrest, h0]; rfl))
      · cases h
        exact .char hdone hrest h0 h37
      · push Not at h37
        subst h37
        obtain ⟨⟨d, r₁⟩, hparse, h⟩ := bind_eq_ok.1 h
        obtain ⟨a, ha, h⟩ := bind_eq_ok.1 h
        cases hsp : allSpecifiers.lookup (r₁.headD 0) with
        | none =>
          simp only [hsp, pure_eq_ok] at h
          cases h
          exact .unknown hdone hrest hparse hsp ha
        | some sp =>
          have hd := directive_of_parse hdone hrest hparse hsp
          rw [step_directive hd, ha, ok_bind] at hstep
          by_cases hp : sp = .percent
          · rw [if_pos hp] at hstep
            cases hstep
            subst hp
            exact .percent hd ha
          · rw [if_neg hp] at hstep
            obtain ⟨out, hout, hstep⟩ := bind_eq_ok.1 hstep
            cases hstep
            exact .conversion hd hp ha hout

/-! ## The end of the loop -/

theorem skipChar_length (c : UInt8) (r : List UInt8) : (skipChar c r).2.length ≤ r.length := by
  unfold skipChar
  split_ifs
  · exact (List.length_tail ▸ Nat.sub_le _ _)
  · exact le_rfl

theorem parseNumber_length {limit n : ℕ} {r : List UInt8} {p : ℕ × List UInt8} (h : parseNumber limit r n = .ok p) :
    p.2.length ≤ r.length := by
  induction r generalizing n with
  | nil =>
    cases h
    exact le_rfl
  | cons c r ih =>
    simp only [parseNumber] at h
    split_ifs at h
    · exact (ih h).trans (Nat.le_succ _)
    · cases h
      exact le_rfl

theorem parseAmount_length {limit : ℕ} {r : List UInt8} {p : Amount × List UInt8} (h : parseAmount limit r = .ok p) :
    p.2.length ≤ r.length := by
  unfold parseAmount at h
  split_ifs at h
  · cases h
    exact (List.length_tail ▸ Nat.sub_le _ _)
  · obtain ⟨q, hq, h⟩ := bind_eq_ok.1 h
    cases h
    exact parseNumber_length hq

theorem parseAlternative_length {r r' : List UInt8} (h : parseAlternative r = .ok r') : r'.length ≤ r.length := by
  unfold parseAlternative at h
  split_ifs at h
  · obtain ⟨_, -, h⟩ := bind_eq_ok.1 h
    obtain ⟨_, -, h⟩ := bind_eq_ok.1 h
    cases h
    exact (List.length_tail ▸ Nat.sub_le _ _)
  · cases h
    exact le_rfl

theorem parsePrecision_length {r : List UInt8} {p : Option Amount × List UInt8} (h : parsePrecision r = .ok p) :
    p.2.length ≤ r.length := by
  unfold parsePrecision at h
  split_ifs at h
  · obtain ⟨q, hq, h⟩ := bind_eq_ok.1 h
    cases h
    exact (parseAmount_length hq).trans (List.length_tail ▸ Nat.sub_le _ _)
  · cases h
    exact le_rfl

theorem parseLength_length (r : List UInt8) : (parseLength r).2.length ≤ r.length := by
  unfold parseLength
  split_ifs <;> simp only [List.length_tail] <;> omega

theorem parseDirective_length {r r' : List UInt8} (h : parseDirective r = .ok (d, r')) : r'.length ≤ r.length := by
  obtain ⟨r₁, h1, h⟩ := bind_eq_ok.1 h
  obtain ⟨⟨w, r₂⟩, h2, h⟩ := bind_eq_ok.1 h
  obtain ⟨⟨p, r₃⟩, h3, h⟩ := bind_eq_ok.1 h
  cases h
  calc (parseLength r₃).2.length
      ≤ r₃.length := parseLength_length r₃
    _ ≤ r₂.length := parsePrecision_length h3
    _ ≤ (skipChar 45 (skipChar 48 r₁).2).2.length := parseAmount_length h2
    _ ≤ (skipChar 48 r₁).2.length := skipChar_length _ _
    _ ≤ r₁.length := skipChar_length _ _
    _ ≤ (skipChar 43 r).2.length := parseAlternative_length h1
    _ ≤ r.length := skipChar_length _ _

theorem directive_length (h : s.directive = some (d, sp, r)) : r.length < s.rest.length := by
  obtain ⟨-, r₀, r₁, hrest, hparse, -, rfl⟩ := directive_cases h
  have hlen := parseDirective_length hparse
  rw [hrest, List.length_cons, List.length_tail]
  omega

/-- a turn ends the loop or shortens what is left -/
theorem step_shorter (h : step F nsLog word s () = .ok s') : s'.done = true ∨ s'.rest.length < s.rest.length := by
  cases step_cases h with
  | idle hdone => exact Or.inl hdone
  | stop => exact Or.inl rfl
  | char _ hrest =>
    rw [hrest, List.length_cons]
    exact Or.inr (Nat.lt_succ_self _)
  | unknown _ hrest hparse =>
    rw [hrest, List.length_cons]
    exact Or.inr (Nat.lt_succ_of_le (parseDirective_length hparse))
  | percent hd => exact Or.inr (directive_length hd)
  | conversion hd => exact Or.inr (directive_length hd)

/-- a finished loop stays as it is -/
theorem step_done (h : s.done = true) : step F nsLog word s () = .ok s := if_pos h

/-- **The loop comes to its end** within the turns that `printfInner` gives it. -/
theorem printf_done {n : ℕ} (hn : s.rest.length < n) (h : run (step F nsLog word) s (List.replicate n ()) = .ok s') :
    s'.done = true := by
  induction n generalizing s with
  | zero => exact absurd hn (Nat.not_lt_zero _)
  | succ n ih =>
    obtain ⟨s₁, h1, h2⟩ := run_cons_ok.1 h
    rcases step_shorter h1 with hdone | hlt
    · have hinv : ∀ t o t', t.done = true → step F nsLog word t o = .ok t' → t'.done = true := by
        intro t o t' ht hstep
        rw [step_done ht] at hstep
        cases hstep
        exact ht
      exact run_inv (P := fun t : PrintfState => t.done = true) hinv hdone h2
    · exact ih (by omega) h2

end

end TouchHLE.Printf
