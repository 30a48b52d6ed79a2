/-
The scanner behind `sscanf` and `fscanf` (`sscanf_common_generic` in `libc/stdio/printf.rs`), over any source.

- `ScanDirective`, `parseScan`: a width, a length modifier and a specifier; `parseSet`: the characters of "%[...]".
- `scanInteger`, `scanFloat`, `scanSet`, `scanString`: the conversions; a float is read from its characters by a function
  `parse`.
- `scanStep`: one turn of the loop; `scan`: the loop.

What is stored is kept in a list, by the number of the argument that points to it: as the `restrict` in their
declarations says, the input and the format string do not overlap what is stored.
-/
import TouchHLE.Libc.StrToInt
import TouchHLE.Libc.Printf

namespace TouchHLE.Scanf

open Machine

/-! ## Directives -/

inductive ScanLength where
  | hh
  | h
  | l
  | ll
deriving DecidableEq, Repr

/-- what stands between '%' and what a specifier says -/
structure ScanDirective where
  maxWidth : ℕ
  lengthModifier : Option ScanLength
  specifier : UInt8
deriving DecidableEq, Repr

def parseLength (r : List UInt8) : Option ScanLength × List UInt8 :=
  if r.headD 0 = 104 then
    if r.tail.headD 0 = 104 then (some .hh, r.tail.tail) else (some .h, r.tail)
  else if r.headD 0 = 108 then
    if r.tail.headD 0 = 108 then (some .ll, r.tail.tail) else (some .l, r.tail)
  else if r.headD 0 = 113 then (some .ll, r.tail)
  else (none, r)

/-- what follows '%', up to the specifier -/
def parseScan (r : List UInt8) : Except Panic (ScanDirective × List UInt8) := do
  let (maxWidth, r) ← Printf.parseNumber (2 ^ 32) r 0
  let (lengthModifier, r) := parseLength r
  pure ({ maxWidth, lengthModifier, specifier := r.headD 0 }, r.tail)

/-- a set of characters, as ranges, and whether it is inverted -/
structure CharSet where
  inverted : Bool
  ranges : List (UInt8 × UInt8)
deriving DecidableEq, Repr

def CharSet.accepts (set : CharSet) (c : UInt8) : Bool := (set.ranges.any fun p => p.1 ≤ c && c ≤ p.2) ^^ set.inverted

/-- the characters and ranges up to ']'; without it the source reads what follows the format string -/
def parseRanges : List UInt8 → Except Panic (List (UInt8 × UInt8) × List UInt8)
  | [] => throw .notEnabled
  | c :: r =>
    if c = 93 then pure ([], r)
    else
      match r with
      | 45 :: cc :: r' => do
        assert (cc != 93) .scanFlags
        let (ranges, rest) ← parseRanges r'
        pure ((c, cc) :: ranges, rest)
      | r => do
        let (ranges, rest) ← parseRanges r
        pure ((c, c) :: ranges, rest)

/-- what follows '[' -/
def parseSet (r : List UInt8) : Except Panic (CharSet × List UInt8) := do
  assert (r.headD 0 != 93) .scanFlags
  let (inverted, r) := Printf.skipChar 94 r
  assert (r.headD 0 != 93) .scanFlags
  let (ranges, r) ← parseRanges r
  pure ({ inverted, ranges }, r)

/-! ## States -/

/-- a value that is stored; `R` has the floating-point numbers -/
inductive Stored (R : Type) where
  | i16 (v : ℤ)
  | i32 (v : ℤ)
  | u32 (v : ℤ)
  | f32 (v : R)
  | f64 (v : R)
  /-- the characters and their terminator -/
  | text (bytes : List UInt8)
deriving DecidableEq, Repr

/-- what is left of the format string, the index of the next character, the number of the next argument, what has been
stored, the count, and the source -/
structure ScanState (σ R : Type) where
  rest : List UInt8
  srcIdx : ℕ
  argIdx : ℕ
  stores : List (ℕ × Stored R)
  matched : ℤ
  src : σ
  done : Bool

section

variable {σ R : Type} (src : Source σ) (parse : List UInt8 → Option R)

namespace ScanState

/-- the end of the scan -/
def stop (s : ScanState σ R) (st : σ) : ScanState σ R := { s with src := st, done := true }

/-- an assignment that took `len` characters -/
def assign (s : ScanState σ R) (v : Stored R) (len : ℕ) (st : σ) : Except Panic (ScanState σ R) := do
  let srcIdx ← add32 s.srcIdx len
  pure { s with srcIdx, argIdx := s.argIdx + 1, stores := s.stores ++ [(s.argIdx, v)], matched := s.matched + 1, src := st }

end ScanState

/-- the loops over white space, which start with a character that has been read already -/
def spacesLoop : ℕ → ℕ → UInt8 → σ → Except Panic (ℕ × Option UInt8 × σ)
  | 0, _, _, _ => .error .overflow
  | fuel + 1, idx, cc, st =>
    if isspaceInner cc then do
      let (x, st) ← src.getcAt st (idx + 1)
      match x with
      | none => pure (idx + 1, none, st)
      | some cc => spacesLoop fuel (idx + 1) cc st
    else pure (idx, some cc, st)

/-! ## Integers -/

/-- 'd', 'i', 'u', 'x' and 'X' -/
def scanInteger (t : IntType) (base maxWidth : ℕ) (store : ℤ → Stored R) (s : ScanState σ R) :
    Except Panic (ScanState σ R) := do
  let maxLength := if 0 < maxWidth then maxWidth else 2 ^ 32 - 1
  let (res, st) ← strToIntInnerGeneric src s.srcIdx maxLength t base s.src
  match res with
  | some (val, len) => s.assign (store val) len st
  | none => pure (s.stop st)

/-! ## Floating-point numbers -/

/-- digits, where `curr` has been read already; without a next character the helper closure returns -/
def floatDigits (offset : ℕ) : ℕ → List UInt8 → UInt8 → σ → Except Panic (List UInt8 × Option UInt8 × σ)
  | 0, _, _, _ => .error .overflow
  | fuel + 1, chars, curr, st =>
    if isDigit 10 curr then do
      let chars := chars ++ [curr]
      let (x, st) ← src.getcAt st (offset + chars.length)
      match x with
      | none => pure (chars, none, st)
      | some curr => floatDigits offset fuel chars curr st
    else pure (chars, some curr, st)

/-- a character that may be a sign or a digit -/
def floatSign (offset : ℕ) (chars : List UInt8) (st : σ) : Except Panic (List UInt8 × Option UInt8 × σ) := do
  let (x, st) ← src.getcAt st (offset + chars.length)
  match x with
  | none => pure (chars, none, st)
  | some maybeSign =>
    let signed := isSign maybeSign || isDigit 10 maybeSign
    let chars := if signed then chars ++ [maybeSign] else chars
    let st ← if signed then pure st else src.ungetc st maybeSign
    let (x, st) ← src.getcAt st (offset + chars.length)
    match x with
    | none => pure (chars, none, st)
    | some curr => floatDigits src offset (2 ^ 32) chars curr st

def floatFraction (offset : ℕ) (chars : List UInt8) (curr : UInt8) (st : σ) :
    Except Panic (List UInt8 × Option UInt8 × σ) :=
  if curr = 46 then do
    let chars := chars ++ [curr]
    let (x, st) ← src.getcAt st (offset + chars.length)
    match x with
    | none => pure (chars, none, st)
    | some curr => floatDigits src offset (2 ^ 32) chars curr st
  else pure (chars, some curr, st)

def floatExponent (offset : ℕ) (chars : List UInt8) (curr : UInt8) (st : σ) :
    Except Panic (List UInt8 × Option UInt8 × σ) :=
  if curr = 101 ∨ curr = 69 then floatSign src offset (chars ++ [curr]) st else pure (chars, some curr, st)

/-- the helper closure after white space: the characters of the number -/
def floatStages (offset : ℕ) (st : σ) : Except Panic (List UInt8 × σ) := do
  let (chars, curr, st) ← floatSign src offset [] st
  match curr with
  | none => pure (chars, st)
  | some curr => do
    let (chars, curr, st) ← floatFraction src offset chars curr st
    match curr with
    | none => pure (chars, st)
    | some curr => do
      let (chars, curr, st) ← floatExponent src offset chars curr st
      match curr with
      | none => pure (chars, st)
      | some curr => do
        let st ← src.ungetc st curr
        pure (chars, st)

/-- `atof_inner_generic`; `none` is the error -/
def atofInnerGeneric (offset : ℕ) (st : σ) : Except Panic (Option (R × ℕ) × σ) := do
  let (whitespace, st) ← src.countWhitespaceGeneric st offset
  match whitespace with
  | .error count => pure ((parse []).map fun v => (v, count), st)
  | .ok count => do
    let (chars, st) ← floatStages src (offset + count) st
    pure ((parse chars).map fun v => (v, count + chars.length), st)

/-- 'f' -/
def scanFloat (d : ScanDirective) (s : ScanState σ R) : Except Panic (ScanState σ R) := do
  assert (d.maxWidth == 0) .scanFlags
  let (res, st) ← atofInnerGeneric src parse s.srcIdx s.src
  match res with
  | some (val, len) =>
    match d.lengthModifier with
    | none => s.assign (.f32 val) len st
    | some .l => s.assign (.f64 val) len st
    | some _ => throw .todo
  | none => pure (s.stop st)

/-! ## Texts -/

/-- the characters that a set accepts, and the index after them -/
def setLoop (set : CharSet) : ℕ → ℕ → List UInt8 → σ → Except Panic (List UInt8 × ℕ × σ)
  | 0, _, _, _ => .error .overflow
  | fuel + 1, idx, chars, st => do
    let (x, st) ← src.getcAt st idx
    match x with
    | none => throw .endOfInput
    | some cc =>
      if set.accepts cc && cc != 0 then setLoop set fuel (idx + 1) (chars ++ [cc]) st
      else do
        let st ← src.ungetc st cc
        pure (chars, idx, st)

/-- '[', where `s.rest` starts with the set -/
def scanSet (d : ScanDirective) (s : ScanState σ R) : Except Panic (ScanState σ R) := do
  assert (d.maxWidth == 0) .scanFlags
  assert (d.lengthModifier == none) .scanFlags
  let (set, rest) ← parseSet s.rest
  let (chars, srcIdx, st) ← setLoop src set (2 ^ 32 - s.srcIdx) s.srcIdx [] s.src
  let s := { s with rest, argIdx := s.argIdx + 1, srcIdx, src := st }
  if chars ≠ [] then
    pure { s with stores := s.stores ++ [(s.argIdx - 1, .text (chars ++ [0]))], matched := s.matched + 1 }
  -- one less, and one more at the end of the turn
  else pure s

/-- the characters up to white space -/
def stringLoop : ℕ → ℕ → List UInt8 → σ → Except Panic (List UInt8 × ℕ × σ)
  | 0, _, _, _ => .error .overflow
  | fuel + 1, idx, chars, st => do
    let (x, st) ← src.getcAt st idx
    match x with
    | none => pure (chars, idx, st)
    | some cc =>
      if isspaceInner cc then do
        let st ← src.ungetc st cc
        pure (chars, idx, st)
      else if cc = 0 then pure (chars, idx, st)
      else stringLoop fuel (idx + 1) (chars ++ [cc]) st

/-- 's' -/
def scanString (d : ScanDirective) (s : ScanState σ R) : Except Panic (ScanState σ R) := do
  assert (d.maxWidth == 0) .scanFlags
  assert (d.lengthModifier == none) .scanFlags
  let (chars, srcIdx, st) ← stringLoop src (2 ^ 32 - s.srcIdx) s.srcIdx [] s.src
  pure { s with
    srcIdx, argIdx := s.argIdx + 1, stores := s.stores ++ [(s.argIdx, .text (chars ++ [0]))], matched := s.matched + 1,
    src := st }

/-! ## The loop -/

def scanConversion (d : ScanDirective) (s : ScanState σ R) : Except Panic (ScanState σ R) :=
  if d.specifier = 100 ∨ d.specifier = 105 then
    let base := if d.specifier = 100 then 10 else 0
    match d.lengthModifier with
    | some .h => scanInteger src i16Type base d.maxWidth .i16 s
    | some _ => throw .todo
    | none => scanInteger src i32Type base d.maxWidth .i32 s
  else if d.specifier = 102 then scanFloat src parse d s
  else if d.specifier = 120 ∨ d.specifier = 88 ∨ d.specifier = 117 then do
    assert (d.lengthModifier == none) .scanFlags
    scanInteger src u32Type (if d.specifier = 117 then 10 else 16) d.maxWidth .u32 s
  else if d.specifier = 91 then scanSet src d s
  else if d.specifier = 115 then scanString src d s
  else throw .todo

/-- the branch for a directive, where `r` is what follows '%' -/
def scanDirective (s : ScanState σ R) (r : List UInt8) : Except Panic (ScanState σ R) := do
  let (d, rest) ← parseScan r
  let s := { s with rest }
  if d.specifier ≠ 91 ∧ d.specifier ≠ 99 ∧ d.specifier ≠ 110 then do
    let (x, st) ← src.getcAt s.src s.srcIdx
    match x with
    | none => pure (s.stop st)
    | some cc => do
      let (srcIdx, x, st) ← spacesLoop src (2 ^ 32 - s.srcIdx) s.srcIdx cc st
      match x with
      | none => pure { s.stop st with srcIdx }
      | some cc => do
        let st ← src.ungetc st cc
        scanConversion src parse d { s with srcIdx, src := st }
  else scanConversion src parse d s

/-- the branch for other characters of the format string -/
def scanLiteral (s : ScanState σ R) (c : UInt8) (r : List UInt8) : Except Panic (ScanState σ R) := do
  let (x, st) ← src.getcAt s.src s.srcIdx
  match x with
  | none => throw .endOfInput
  | some cc =>
    if isspaceInner c then do
      let (srcIdx, x, st) ← spacesLoop src (2 ^ 32 - s.srcIdx) s.srcIdx cc st
      match x with
      | none => throw .endOfInput
      | some cc => do
        let st ← src.ungetc st cc
        pure { s with rest := r, srcIdx, src := st }
    else if c ≠ cc then pure ({ s with rest := r }.stop st)
    else do
      let srcIdx ← add32 s.srcIdx 1
      pure { s with rest := r, srcIdx, src := st }

/-- one turn of the loop -/
def scanStep (s : ScanState σ R) (_ : Unit) : Except Panic (ScanState σ R) :=
  if s.done then pure s
  else
    match s.rest with
    | [] => pure (s.stop s.src)
    | c :: r =>
      if c = 0 then pure (s.stop s.src)
      else if c ≠ 37 then scanLiteral src s c r
      else scanDirective src parse s r

def scanStart (format : List UInt8) (st : σ) : ScanState σ R :=
  { rest := format, srcIdx := 0, argIdx := 0, stores := [], matched := 0, src := st, done := false }

/-- enough turns for every format string -/
def scanTurns (format : List UInt8) : List Unit := List.replicate (format.length + 1) ()

/-- `sscanf_common_generic`: the final state, whose `matched` is returned -/
def scan (format : List UInt8) (st : σ) : Except Panic (ScanState σ R) :=
  run (scanStep src parse) (scanStart format st) (scanTurns format)

end

/-! ## The end of the loop -/

theorem parseLength_length (r : List UInt8) : (parseLength r).2.length ≤ r.length := by
  unfold parseLength
  split_ifs <;> simp only [List.length_tail] <;> omega

theorem parseScan_length {r f : List UInt8} {d : ScanDirective} (h : parseScan r = .ok (d, f)) : f.length ≤ r.length := by
  obtain ⟨⟨w, r₁⟩, hw, h⟩ := bind_eq_ok.1 h
  cases h
  calc (parseLength r₁).2.tail.length
      ≤ (parseLength r₁).2.length := List.length_tail ▸ Nat.sub_le _ _
    _ ≤ r₁.length := parseLength_length r₁
    _ ≤ r.length := Printf.parseNumber_length hw

theorem parseRanges_length {r : List UInt8} {p : List (UInt8 × UInt8) × List UInt8} (h : parseRanges r = .ok p) :
    p.2.length ≤ r.length := by
  induction r using parseRanges.induct generalizing p with
  | case1 => cases h
  | case2 r =>
    unfold parseRanges at h
    rw [if_pos rfl] at h
    cases h
    exact Nat.le_succ _
  | case3 c hc cc r' ih =>
    rw [parseRanges, if_neg hc] at h
    obtain ⟨-, -, h⟩ := bind_eq_ok.1 h
    obtain ⟨q, hq, h⟩ := bind_eq_ok.1 h
    cases h
    exact (ih hq).trans (Nat.le_add_right r'.length 3)
  | case4 c hc r hne ih =>
    rw [parseRanges.eq_3 c r hne, if_neg hc] at h
    obtain ⟨q, hq, h⟩ := bind_eq_ok.1 h
    cases h
    exact (ih hq).trans (Nat.le_succ _)

theorem parseSet_length {r f : List UInt8} {set : CharSet} (h : parseSet r = .ok (set, f)) : f.length ≤ r.length := by
  obtain ⟨-, -, h⟩ := bind_eq_ok.1 h
  obtain ⟨-, -, h⟩ := bind_eq_ok.1 h
  obtain ⟨p, hp, h⟩ := bind_eq_ok.1 h
  cases h
  exact (parseRanges_length hp).trans (Printf.skipChar_length 94 r)

variable {σ R : Type} {src : Source σ} {parse : List UInt8 → Option R} {s : ScanState σ R}

/-- a finished scan stays as it is -/
theorem step_done (h : s.done = true) : scanStep src parse s () = .ok s := if_pos h

theorem run_done (h : s.done = true) (n : ℕ) : run (scanStep src parse) s (List.replicate n ()) = .ok s := by
  induction n with
  | zero => rfl
  | succ n ih => rw [List.replicate_succ, run_cons, step_done h, ok_bind, ih]

end TouchHLE.Scanf
