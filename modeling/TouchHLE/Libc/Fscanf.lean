/-
`fscanf` beside `sscanf` (`libc/stdio/printf.rs`): one scanner over two sources.

- `streamSource`: the callbacks of `fscanf` over the calls of a stream, the code's or that of the C standard.
- `fscanf`: the function.
- `TurnAgrees`: a turn of both scans assigns the same and leaves both sources after the same character.
- `Streams`: when it does. `fscanf_iff`: runs of both.
- `fscanf_literal`: a literal that does not match is lost from the stream.
-/
import TouchHLE.Libc.Sscanf
import TouchHLE.Libc.StreamInt
import TouchHLE.Libc.Stdio
import Mathlib.Data.List.DropRight

namespace TouchHLE.Scanf

open Machine Words

/-! ## The function -/

/-- the callbacks that `fscanf` passes, over the functions `getc` and `ungetc` of a stream -/
def streamSource {τ : Type} (call : τ → StdioOp → Except Panic (ℤ × τ)) : Source τ where
  getc s _ := do
    let (c, s) ← call s .fgetc
    if c = -1 then pure (none, s)
    else if 0 ≤ c ∧ c < 256 then pure (some (UInt8.ofNat c.toNat), s)
    else throw .conversion
  ungetc s c := do
    let (ret, s) ← call s (.ungetc c)
    assert (ret == c.toNat) .streamArgs
    pure s

/-- the stream of the C standard, as a stream whose calls may fail -/
def refCall (r : RefStream) (o : StdioOp) : Except Panic (ℤ × RefStream) := .ok ((r.call o).1.ret, (r.call o).2)

/-- `fscanf`: no state of a scan is EOF -/
def fscanf {τ R : Type} (call : τ → StdioOp → Except Panic (ℤ × τ)) (parse : List UInt8 → Option R) (format : List UInt8)
    (st : τ) : Except Panic (Option (ScanState τ R) × τ) := do
  let (cc, st) ← (streamSource call).getc st 0
  match cc with
  | none => pure (none, st)
  | some cc => do
    let st ← (streamSource call).ungetc st cc
    let t ← scan (streamSource call) parse format st
    pure (some t, t.src)

/-! ## Streams -/

theorem refSource_getc_nil {r : RefStream} (hr : r.rest = []) (idx : ℕ) :
    (streamSource refCall).getc r idx = .ok (none, r) := by
  have hcall : refCall r .fgetc = .ok (-1, r) := by
    simp only [refCall, RefStream.call, hr]
  simp only [streamSource, hcall, ok_bind, if_true, pure_eq_ok]

theorem refSource_getc_cons {r : RefStream} {c : UInt8} {rest : List UInt8} (hr : r.rest = c :: rest) (idx : ℕ) :
    (streamSource refCall).getc r idx = .ok (some c, { r with position := r.position + 1 }) := by
  have hcall : refCall r .fgetc = .ok ((c.toNat : ℤ), { r with position := r.position + 1 }) := by
    simp only [refCall, RefStream.call, hr]
  have hbyte := c.toNat_lt
  simp only [streamSource, hcall, ok_bind]
  rw [if_neg (by omega), if_pos (by omega), Int.toNat_natCast, UInt8.ofNat_toNat, pure_eq_ok]

theorem refSource_ungetc (r : RefStream) (c : UInt8) :
    (streamSource refCall).ungetc r c = .ok { r with position := r.position - 1 } := by
  simp [streamSource, refCall, RefStream.call, assert]

/-- a stream on `input` in which `r` is left -/
structure LeftIn (input : List UInt8) (st : RefStream) (r : List UInt8) : Prop where
  content : st.content = input
  inside : st.position ≤ input.length
  left : input.drop st.position = r

theorem LeftIn.position {input r : List UInt8} {st : RefStream} (h : LeftIn input st r) :
    st.position + r.length = input.length := by
  have hlen := congrArg List.length h.left
  rw [List.length_drop] at hlen
  have hle := h.inside
  omega

theorem stream_reads {input : List UInt8} (hnul : ∀ c ∈ input, c ≠ 0) : StreamReads (streamSource refCall) (LeftIn input) where
  next := by
    rintro st idx c r ⟨⟨rfl, hinside, hleft⟩, hidx⟩
    rw [List.length_cons] at hidx
    refine ⟨{ st with position := st.position + 1 }, ?_, ?_, ⟨rfl, ?_, ?_⟩, by omega⟩
    · rw [Source.getcAt, if_pos (by omega)]
      exact refSource_getc_cons hleft idx
    · exact refSource_ungetc _ _
    · have hlen := congrArg List.length hleft
      rw [List.length_drop, List.length_cons] at hlen
      simp only
      omega
    · simp only
      rw [← List.drop_drop, hleft]
      rfl
  last := by
    rintro st idx ⟨⟨rfl, hinside, hleft⟩, hidx⟩
    refine ⟨?_, fun c hc => (by cases hc)⟩
    rw [Source.getcAt, if_pos (by simpa using hidx)]
    exact refSource_getc_nil hleft idx
  ends := .inl rfl
  noNul := by
    rintro st idx r ⟨⟨-, -, hleft⟩, -⟩ c hc
    rw [← hleft] at hc
    exact hnul c (List.mem_of_mem_drop hc)
  small := fun h => h.2

/-! ## The conversions on a stream -/

section

variable {τ R : Type} {src : Source τ} {Left : τ → List UInt8 → Prop} {parse : List UInt8 → Option R} {r f g : List UInt8}
  {t : ScanState τ R} {d : ScanDirective} {c : UInt8}

/-- white space: nothing can be read, or the loop stops at the end, or at a character, which is pushed back -/
theorem spaces_stream (h : StreamReads src Left) (hat : Left t.src r) (hidx : t.srcIdx + r.length < 2 ^ 32) :
    (r = [] ∧ src.getcAt t.src t.srcIdx = .ok (none, t.src)) ∨
    ∃ cc st₁ st₂, src.getcAt t.src t.srcIdx = .ok (some cc, st₁) ∧ r.head? = some cc ∧ Left st₂ (r.dropWhile isspaceInner) ∧
      ((r.dropWhile isspaceInner = [] ∧ spacesLoop src (2 ^ 32 - t.srcIdx) t.srcIdx cc st₁ =
          .ok (t.srcIdx + (r.takeWhile isspaceInner).length, none, st₂)) ∨
        ∃ cc' st₃, r.dropWhile isspaceInner ≠ [] ∧ src.ungetc st₃ cc' = .ok st₂ ∧
          spacesLoop src (2 ^ 32 - t.srcIdx) t.srcIdx cc st₁ =
            .ok (t.srcIdx + (r.takeWhile isspaceInner).length, some cc', st₃)) := by
  have hfuel : 2 ^ 32 ≤ t.srcIdx + (2 ^ 32 - t.srcIdx) := by omega
  obtain ⟨st₁, ha⟩ := Reads.peek h ⟨hat, hidx⟩
  cases r with
  | nil => exact .inl ⟨rfl, h.last hat (by simpa using hidx)⟩
  | cons cc r =>
    refine .inr ?_
    obtain ⟨st₂, st₃, hloop, ha'⟩ := spacesLoop_reads h ha rfl hfuel
    refine ⟨cc, st₁, st₃, ha.get, rfl, ha'.here.1, ?_⟩
    cases hx : nextOr none ((cc :: r).dropWhile isspaceInner) with
    | none =>
      rw [hx] at hloop
      rw [ha'.same hx] at hloop
      exact .inl ⟨nextOr_none hx, hloop⟩
    | some cc' =>
      rw [hx] at hloop
      refine .inr ⟨cc', st₂, ?_, ha'.back cc' hx, hloop⟩
      intro hnil
      rw [hnil] at hx
      cases hx

/-- a directive that skips white space: the end of the stream ends the scan -/
theorem scanDirective_stream (h : StreamReads src Left) (hat : Left t.src r) (hidx : t.srcIdx + r.length < 2 ^ 32)
    (hp : parseScan g = .ok (d, f)) (hsp : d.specifier ≠ 91 ∧ d.specifier ≠ 99 ∧ d.specifier ≠ 110) :
    ∃ st, Left st (r.dropWhile isspaceInner) ∧ scanDirective src parse t g =
      if r.dropWhile isspaceInner = [] then .ok ((t.skipped f (r.takeWhile isspaceInner).length).stop st)
      else scanConversion src parse d { t.skipped f (r.takeWhile isspaceInner).length with src := st } := by
  unfold scanDirective
  simp only [hp, ok_bind, if_pos hsp]
  rcases spaces_stream h hat hidx with ⟨rfl, hget⟩ | ⟨cc, st₁, st₂, hget, -, hleft, hloop⟩
  · refine ⟨t.src, hat, ?_⟩
    rw [hget]
    rfl
  · refine ⟨st₂, hleft, ?_⟩
    rcases hloop with ⟨hnil, hloop⟩ | ⟨cc', st₃, hne, hback, hloop⟩
    · simp only [hget, ok_bind, hloop, if_pos hnil]
      rfl
    · simp only [hget, ok_bind, hloop, hback, if_neg hne]
      rfl

/-- white space of the format: there must be a character after it -/
theorem scanLiteral_space_stream (h : StreamReads src Left) (hat : Left t.src r) (hidx : t.srcIdx + r.length < 2 ^ 32)
    (hc : isspaceInner c = true) :
    ∃ st, Left st (r.dropWhile isspaceInner) ∧ scanLiteral src t c f =
      if r.dropWhile isspaceInner = [] then .error .endOfInput
      else .ok { t.skipped f (r.takeWhile isspaceInner).length with src := st } := by
  unfold scanLiteral
  rcases spaces_stream h hat hidx with ⟨rfl, hget⟩ | ⟨cc, st₁, st₂, hget, -, hleft, hloop⟩
  · refine ⟨t.src, hat, ?_⟩
    rw [hget]
    rfl
  · refine ⟨st₂, hleft, ?_⟩
    rcases hloop with ⟨hnil, hloop⟩ | ⟨cc', st₃, hne, hback, hloop⟩
    · simp only [hget, ok_bind, hc, if_true, hloop, if_pos hnil]
      rfl
    · simp only [hget, ok_bind, hc, if_true, hloop, hback, if_neg hne]
      rfl

/-- other characters: one that does not match has been read -/
theorem scanLiteral_other_stream (h : StreamReads src Left) (hat : Left t.src r) (hidx : t.srcIdx + r.length < 2 ^ 32)
    (hc : isspaceInner c = false) :
    (r = [] ∧ scanLiteral src t c f = .error .endOfInput) ∨
    ∃ cc r' st, r = cc :: r' ∧ Left st r' ∧ scanLiteral src t c f =
      .ok (if c = cc then { t.skipped f 1 with src := st } else { t with rest := f, src := st, done := true }) := by
  unfold scanLiteral
  cases r with
  | nil =>
    rw [h.last hat (by simpa using hidx)]
    exact .inl ⟨rfl, rfl⟩
  | cons cc r' =>
    rw [List.length_cons] at hidx
    obtain ⟨st, hget, -, hnext⟩ := h.next hat hidx
    refine .inr ⟨cc, r', st, rfl, hnext, ?_⟩
    simp only [hget, ok_bind, hc, Bool.false_eq_true, if_false]
    by_cases heq : c = cc
    · rw [if_neg (not_not_intro heq), if_pos heq, add32_ok (by omega), ok_bind]
      rfl
    · rw [if_pos heq, if_neg heq]
      rfl

theorem assign_stream {n : ℕ} (hidx : t.srcIdx + n < 2 ^ 32) (v : Stored R) (st : τ) :
    t.assign v n st = .ok { t.assigned v n with src := st } := by
  unfold ScanState.assign
  rw [add32_ok hidx, ok_bind, pure_eq_ok]
  rfl

theorem scanInteger_stream (h : StreamReads src Left) (hat : Left t.src r) (hr : r ≠ [])
    (hspace : r.takeWhile isspaceInner = []) (hidx : t.srcIdx + r.length + 1 < 2 ^ 32) {base w : ℕ} (hb : base ≤ 36)
    (hw : w < 2 ^ 32) (ty : IntType) (store : ℤ → Stored R) :
    ∃ st, Left st (r.drop (streamInt base (widthLimit w) r).2) ∧ scanInteger src ty base w store t =
      ((streamInt base (widthLimit w) r).1.finish ty).map fun res =>
        res.elim (t.stop st) fun p => { t.assigned (store p.1) p.2 with src := st } := by
  obtain ⟨st, hleft, hconv⟩ := strToInt_stream h hat hr hspace hb (widthLimit_bounds hw).1 hidx ty
  refine ⟨st, hleft, ?_⟩
  unfold scanInteger
  change strToIntInnerGeneric src t.srcIdx (widthLimit w) ty base t.src >>= _ = _
  rw [hconv]
  cases hfin : (streamInt base (widthLimit w) r).1.finish ty with
  | error e => rfl
  | ok res =>
    cases res with
    | none => rfl
    | some p =>
      have hlen := (streamInt_len hfin).trans (Nat.succ_le_succ (streamInt_inside base (widthLimit w) r))
      exact assign_stream (by omega) (store p.1) st

theorem scanFloat_stream (h : StreamReads src Left) (hat : Left t.src r) (hr : r ≠ [])
    (hspace : r.takeWhile isspaceInner = []) (hidx : t.srcIdx + r.length < 2 ^ 32) (hw : d.maxWidth = 0)
    (hl : d.lengthModifier = none ∨ d.lengthModifier = some .l) :
    ∃ st, Left st (r.drop (floatChars r).length) ∧ scanFloat src parse d t =
      .ok ((parse (floatChars r)).elim (t.stop st) fun v =>
        { t.assigned (floatStore d v) (floatChars r).length with src := st }) := by
  obtain ⟨st, hatof, hleft, hsmall⟩ := atof_reads parse h ⟨hat, hidx⟩ hspace (.inl hr)
  have hlen : t.srcIdx + (floatChars r).length < 2 ^ 32 := by omega
  refine ⟨st, hleft, ?_⟩
  unfold scanFloat
  rw [hw, hatof]
  cases parse (floatChars r) with
  | none => rfl
  | some v =>
    rcases hl with hl | hl
    · simp [assert, hl, floatStore, assign_stream hlen]
    · simp [assert, hl, floatStore, assign_stream hlen]

theorem scanSet_stream (h : StreamReads src Left) (hat : Left t.src r) (hidx : t.srcIdx + r.length < 2 ^ 32)
    {set : CharSet} (hw : d.maxWidth = 0) (hl : d.lengthModifier = none) (hset : parseSet t.rest = .ok (set, f)) :
    (r.dropWhile set.accepts = [] → scanSet src d t = .error .endOfInput) ∧
    (r.dropWhile set.accepts ≠ [] → ∃ st, Left st (r.dropWhile set.accepts) ∧ scanSet src d t =
      .ok (if r.takeWhile set.accepts = [] then { t with rest := f, argIdx := t.argIdx + 1, src := st }
        else { t with rest := f, srcIdx := t.srcIdx + (r.takeWhile set.accepts).length, argIdx := t.argIdx + 1
                      stores := t.stores ++ [(t.argIdx, .text (r.takeWhile set.accepts ++ [0]))]
                      matched := t.matched + 1, src := st })) := by
  have hfuel : 2 ^ 32 ≤ t.srcIdx + (2 ^ 32 - t.srcIdx) := by omega
  unfold scanSet
  simp only [hw, hl, hset, beq_self_eq_true, assert, if_true, ok_bind, pure_eq_ok]
  constructor
  · intro hnil
    rw [setLoop_ended h ⟨hat, hidx⟩ set hfuel hnil, error_bind]
  · intro hne
    obtain ⟨st, hloop, hleft, -⟩ := setLoop_reads h ⟨hat, hidx⟩ set hfuel (.inl hne)
    refine ⟨st, hleft, ?_⟩
    rw [List.nil_append] at hloop
    simp only [hloop, ok_bind]
    by_cases hnil : r.takeWhile set.accepts = []
    · rw [if_pos hnil, if_neg (not_not_intro hnil), hnil]
      rfl
    · rw [if_neg hnil, if_pos hnil]
      rfl

theorem scanString_stream (h : StreamReads src Left) (hat : Left t.src r) (hidx : t.srcIdx + r.length < 2 ^ 32)
    (hw : d.maxWidth = 0) (hl : d.lengthModifier = none) :
    ∃ st, Left st (r.dropWhile notSpace) ∧ scanString src d t =
      .ok { t.assigned (.text (r.takeWhile notSpace ++ [0])) (r.takeWhile notSpace).length with src := st } := by
  have hfuel : 2 ^ 32 ≤ t.srcIdx + (2 ^ 32 - t.srcIdx) := by omega
  obtain ⟨st, hloop, hleft, -⟩ := stringLoop_reads h ⟨hat, hidx⟩ hfuel
  refine ⟨st, hleft, ?_⟩
  rw [List.nil_append] at hloop
  unfold scanString
  simp only [hw, hl, hloop, beq_self_eq_true, assert, if_true, ok_bind, pure_eq_ok]
  rfl

end

/-! ## Two scans in step -/

/-- a format of supported directives -/
inductive Supported : List UInt8 → Prop where
  | nil : Supported []
  | ended (f : List UInt8) : Supported (0 :: f)
  | literal {c : UInt8} {f : List UInt8} (hc : c ≠ 37) (hf : Supported f) : Supported (c :: f)
  | directive {g f : List UInt8} {d : ScanDirective} {k : Kind} (hp : parseScan g = .ok (d, f)) (hk : d.kind = some k)
      (hne : k ≠ .set) (hf : Supported f) : Supported (37 :: g)
  | set {g f f' : List UInt8} {d : ScanDirective} {set : CharSet} (hp : parseScan g = .ok (d, f)) (hk : d.kind = some .set)
      (hs : parseSet f = .ok (set, f')) (hf : Supported f') : Supported (37 :: g)

/-- when a directive does on a stream what it does on a string, where `f` is the rest of the format and `r` the input -/
def DirectiveStreams {R : Type} (parse : List UInt8 → Option R) (d : ScanDirective) (f r : List UInt8) : Prop :=
  let r' := r.dropWhile isspaceInner
  match d.kind with
  | some .integer => r' = [] ∨ IntStreams (intBase d.specifier) d.maxWidth r'
  | some .float => floatChars r' = [] ∨ parse (floatChars r') ≠ none
  | some .string => r' ≠ []
  | some .set => ∀ set f', parseSet f = .ok (set, f') → r.dropWhile set.accepts ≠ []
  | none => True

section

variable {σ R : Type} (src : Source σ) (parse : List UInt8 → Option R) (input : List UInt8)

/-- when a turn does on a stream what it does on the string `input`: there is a character behind white space of the
format, a character of the format matches, and directives are as `DirectiveStreams` says -/
def Streams (s : ScanState σ R) (_ : Unit) : Prop :=
  s.done = false → ∀ c g, s.rest = c :: g → c ≠ 0 →
    if c = 37 then ∀ d f, parseScan g = .ok (d, f) → DirectiveStreams parse d f (input.drop s.srcIdx)
    else if isspaceInner c then (input.drop s.srcIdx).dropWhile isspaceInner ≠ []
    else (input.drop s.srcIdx).head? = some c

/-- both scans go on, or end, with the same assignments and the stream just after what the string has matched -/
def Agree (x : Except Panic (ScanState RefStream R)) (y : Except Panic (ScanState σ R)) : Prop :=
  ∃ t s, x = .ok t ∧ y = .ok s ∧ t.stores = s.stores ∧ t.matched = s.matched ∧ t.done = s.done ∧ t.src.position = s.srcIdx

/-- a turn of the scan of a stream, and of the scan of a string -/
def pairStep (p : ScanState RefStream R × ScanState σ R) (o : Unit) :
    Except Panic (ScanState RefStream R × ScanState σ R) := do
  let t ← scanStep (streamSource refCall) parse p.1 o
  let s ← scanStep src parse p.2 o
  pure (t, s)

def TurnAgrees (p : ScanState RefStream R × ScanState σ R) (o : Unit) : Prop :=
  Agree (scanStep (streamSource refCall) parse p.1 o) (scanStep src parse p.2 o)

end

/-- the states of the scans of `input` after turns that agree; `bound` is the length of the format. The index of the
stream, which nothing is read by, may be ahead by one for each number that was read. -/
structure Related {σ R : Type} (m : σ) (input : List UInt8) (bound : ℕ) (t : ScanState RefStream R) (s : ScanState σ R) :
    Prop where
  string : Reading m input s (input.drop s.srcIdx)
  stream : LeftIn input t.src (input.drop s.srcIdx)
  rest : t.rest = s.rest
  argIdx : t.argIdx = s.argIdx
  stores : t.stores = s.stores
  matched : t.matched = s.matched
  done : t.done = s.done
  supported : Supported s.rest
  slack : t.srcIdx + s.rest.length ≤ s.srcIdx + bound

/-- the results of a turn: related states if `P`, and no agreement without -/
structure Decides {σ R : Type} (m : σ) (input : List UInt8) (bound : ℕ) (x : Except Panic (ScanState RefStream R))
    (y : Except Panic (ScanState σ R)) (P : Prop) : Prop where
  next : P → ∃ t s, x = .ok t ∧ y = .ok s ∧ Related m input bound t s
  only : Agree x y → P

section

variable {σ R : Type} {src : Source σ} {parse : List UInt8 → Option R} {m : σ} {input f g : List UInt8} {bound n : ℕ}
  {t t' : ScanState RefStream R} {s s' : ScanState σ R} {d : ScanDirective} {P : Prop} {k : Kind} {ty : IntType}
  {base w : ℕ}

namespace Related

theorem position (h : Related m input bound t s) : t.src.position = s.srcIdx := by
  have hleft := h.stream.position
  have hlen := h.string.length
  omega

theorem agree (h : Related m input bound t s) : Agree (.ok t) (.ok s) :=
  ⟨t, s, rfl, rfl, h.stores, h.matched, h.done, h.position⟩

/-- the index of the stream stays small -/
theorem small (h : Related m input bound t s) (hbound : input.length + bound < 2 ^ 32) :
    t.srcIdx + (input.drop s.srcIdx).length + s.rest.length < 2 ^ 32 := by
  have hlen := h.string.length
  have hslack := h.slack
  omega

variable {st : RefStream}

/-- white space has been skipped, and `f` is left of the format -/
theorem skipped (h : Related m input bound t s) (hf : Supported f) (hlen : f.length ≤ s.rest.length)
    (hst : LeftIn input st ((input.drop s.srcIdx).dropWhile isspaceInner)) :
    Related m input bound { t.skipped f ((input.drop s.srcIdx).takeWhile isspaceInner).length with src := st }
      (s.skipped f ((input.drop s.srcIdx).takeWhile isspaceInner).length) := by
  have hr := h.string.skipped f
  have hslack := h.slack
  refine ⟨hr.self, ?_, rfl, h.argIdx, h.stores, h.matched, h.done, hf, ?_⟩
  · rw [hr.left]
    exact hst
  · simp only [ScanState.skipped]
    omega

theorem stop (h : Related m input bound t s) (hst : LeftIn input st (input.drop s.srcIdx)) :
    Related m input bound (t.stop st) (s.stop s.src) :=
  ⟨h.string.stop.self, hst, h.rest, h.argIdx, h.stores, h.matched, rfl, h.supported, h.slack⟩

/-- an assignment of `n` characters of the string, for which the stream counts `k` -/
theorem assigned (h : Related m input bound t s) (v : Stored R) {k : ℕ} (hn : n ≤ (input.drop s.srcIdx).length)
    (hst : LeftIn input st ((input.drop s.srcIdx).drop n))
    (hk : t.srcIdx + k + s.rest.length ≤ s.srcIdx + n + bound) :
    Related m input bound { t.assigned v k with src := st } (s.assigned v n) := by
  have hr : Reading m input (s.assigned v n) ((input.drop s.srcIdx).drop n) := h.string.more hn h.string.src rfl
  refine ⟨hr.self, ?_, h.rest, congrArg (· + 1) h.argIdx, ?_, congrArg (· + 1) h.matched, h.done, h.supported, hk⟩
  · rw [hr.left]
    exact hst
  · simp only [ScanState.assigned, h.stores, h.argIdx]

end Related

namespace Decides

variable {x : Except Panic (ScanState RefStream R)} {y : Except Panic (ScanState σ R)}

theorem of_related (hx : x = .ok t)
    (hy : y = .ok s) (h : Related m input bound t s) (hP : P) : Decides m input bound x y P :=
  ⟨fun _ => ⟨t, s, hx, hy, h⟩, fun _ => hP⟩

theorem of_error {e : Panic}
    (hx : x = .error e) (hP : ¬P) : Decides m input bound x y P := by
  refine ⟨fun h => absurd h hP, ?_⟩
  rintro ⟨t, s, hx', -⟩
  rw [hx] at hx'
  cases hx'

theorem congr {Q : Prop}
    (h : Decides m input bound x y P) (hPQ : P ↔ Q) : Decides m input bound x y Q :=
  ⟨fun hQ => h.next (hPQ.2 hQ), fun ha => hPQ.1 (h.only ha)⟩

end Decides

/-! ## The conversions in step -/

theorem intType_negation (d : ScanDirective) : (intType d).negation 0 = 0 := by
  unfold intType
  split_ifs <;> decide

theorem intType_max (d : ScanDirective) : 0 ≤ (intType d).max := by
  unfold intType
  split_ifs <;> decide

theorem scanInt_nil (hbase : base = 0 ∨ base = 10 ∨ base = 16) :
    (scanInt base (widthLimit w) []).finish ty = .ok none := by
  have hmatches : IntMatches base w [] := by
    refine ⟨fun h => absurd h.2.2 (by decide), ?_, fun h => absurd h.2.1 (by decide)⟩
    rintro ⟨hhex, -⟩
    obtain ⟨-, -, hzero, -⟩ := hexStart_base hhex
    exact absurd hzero (by decide)
  have hlen : cIntLength base w [] = none := by
    have hwithin : within w [] = [] := by
      unfold within
      split_ifs
      · rfl
      · exact List.take_nil
    unfold cIntLength
    simp only [hwithin, List.drop_nil, cUnsignedLength_nil hbase, Option.map_none]
  have hfinds := (scanInt_finds_iff ty hbase rfl (w := w) (by decide)).2 hmatches
  rw [hlen] at hfinds
  obtain ⟨val, hval⟩ := hfinds
  exact hval

theorem integer_decides (hs : src.IsString m input) (hrel : Related m input bound t s)
    (hbound : input.length + bound < 2 ^ 32) (hroom : t.srcIdx + s.rest.length < s.srcIdx + bound)
    (hne : input.drop s.srcIdx ≠ []) (hspace : (input.drop s.srcIdx).takeWhile isspaceInner = [])
    (hzero : ty.negation 0 = 0) (hmax : 0 ≤ ty.max) (hbase : base = 0 ∨ base = 10 ∨ base = 16) (hw : w < 2 ^ 32)
    {store : ℤ → Stored R} (hinj : Function.Injective store) :
    Decides m input bound (scanInteger (streamSource refCall) ty base w store t) (scanInteger src ty base w store s)
      (IntStreams base w (input.drop s.srcIdx)) := by
  have hb : base ≤ 36 := by omega
  have hlen := hrel.string.length
  have hidx : t.srcIdx + (input.drop s.srcIdx).length + 1 < 2 ^ 32 := by omega
  have hinside := streamInt_inside base (widthLimit w) (input.drop s.srcIdx)
  obtain ⟨st, hst, hstream⟩ := scanInteger_stream (stream_reads hs.noNul) hrel.stream hne hspace hidx hb hw ty store
  rw [hstream, scanInteger_string hs hrel.string hb hw store, ← streamInt_same_iff hzero hmax hbase hspace hne]
  have hleft := hst.position
  rw [List.length_drop] at hleft
  constructor
  · rintro (⟨hnone, hnone', hn⟩ | ⟨val, len', hsome, hsome'⟩)
    · rw [hn, List.drop_zero] at hst
      rw [hnone, hnone']
      exact ⟨_, _, rfl, rfl, hrel.stop hst⟩
    · have hlen' := streamInt_len hsome'
      rw [hsome, hsome']
      exact ⟨_, _, rfl, rfl, hrel.assigned _ hinside hst (by omega)⟩
  · rintro ⟨t', s', ht, hs', hstores, hmatched, -, hpos⟩
    cases hfin : (scanInt base (widthLimit w) (input.drop s.srcIdx)).finish ty with
    | error e =>
      rw [hfin] at hs'
      cases hs'
    | ok res =>
      cases hfin' : (streamInt base (widthLimit w) (input.drop s.srcIdx)).1.finish ty with
      | error e =>
        rw [hfin'] at ht
        cases ht
      | ok res' =>
        rw [hfin] at hs'
        rw [hfin'] at ht
        cases hs'
        cases ht
        have hcount := hrel.matched
        cases res with
        | none =>
          cases res' with
          | none =>
            change st.position = s.srcIdx at hpos
            exact .inl ⟨hfin, hfin', by omega⟩
          | some p' =>
            change t.matched + 1 = s.matched at hmatched
            omega
        | some p =>
          cases res' with
          | none =>
            change t.matched = s.matched + 1 at hmatched
            omega
          | some p' =>
            change t.stores ++ [(t.argIdx, store p'.1)] = s.stores ++ [(s.argIdx, store p.1)] at hstores
            change st.position = s.srcIdx + p.2 at hpos
            rw [hrel.stores, hrel.argIdx] at hstores
            obtain hval := hinj (congrArg Prod.snd (List.cons.inj (List.append_cancel_left hstores)).1)
            have hn : p.2 = (streamInt base (widthLimit w) (input.drop s.srcIdx)).2 := by omega
            refine .inr ⟨p.1, p'.2, ?_, ?_⟩
            · rw [hfin, ← hn]
            · rw [hfin', ← hval]

theorem float_decides (hs : src.IsString m input) (hrel : Related m input bound t s)
    (hbound : input.length + bound < 2 ^ 32) (hne : input.drop s.srcIdx ≠ [])
    (hspace : (input.drop s.srcIdx).takeWhile isspaceInner = []) (hw : d.maxWidth = 0)
    (hl : d.lengthModifier = none ∨ d.lengthModifier = some .l) :
    Decides m input bound (scanFloat (streamSource refCall) parse d t) (scanFloat src parse d s)
      (floatChars (input.drop s.srcIdx) = [] ∨ parse (floatChars (input.drop s.srcIdx)) ≠ none) := by
  have hsmall := hrel.small hbound
  have hslack := hrel.slack
  obtain ⟨st, hst, hstream⟩ := scanFloat_stream (stream_reads hs.noNul) hrel.stream hne hspace
    (by omega) hw hl
  obtain ⟨hle, hstring⟩ := scanFloat_string hs hrel.string hspace hw
  rw [hstream, hstring]
  cases hv : parse (floatChars (input.drop s.srcIdx)) with
  | none =>
    simp only [Option.elim_none, ne_eq, not_true_eq_false, or_false]
    constructor
    · intro hnil
      rw [hnil, List.length_nil, List.drop_zero] at hst
      exact ⟨_, _, rfl, rfl, hrel.stop hst⟩
    · rintro ⟨t', s', ht, hs', -, -, -, hpos⟩
      cases ht
      cases hs'
      change st.position = s.srcIdx at hpos
      have hleft := hst.position
      have hlen := hrel.string.length
      rw [List.length_drop] at hleft
      have hzero : (floatChars (input.drop s.srcIdx)).length = 0 := by omega
      exact List.length_eq_zero_iff.1 hzero
  | some v =>
    simp only [Option.elim_some, if_pos hl]
    have hk : t.srcIdx + (floatChars (input.drop s.srcIdx)).length + s.rest.length ≤
        s.srcIdx + (floatChars (input.drop s.srcIdx)).length + bound := by omega
    exact .of_related rfl rfl (hrel.assigned _ hle hst hk) (.inr (Option.some_ne_none v))

theorem string_decides (hs : src.IsString m input) (hrel : Related m input bound t s)
    (hbound : input.length + bound < 2 ^ 32) (hw : d.maxWidth = 0) (hl : d.lengthModifier = none) (hP : P) :
    Decides m input bound (scanString (streamSource refCall) d t) (scanString src d s) P := by
  have hsmall := hrel.small hbound
  have hslack := hrel.slack
  obtain ⟨st, hst, hstream⟩ := scanString_stream (stream_reads hs.noNul) hrel.stream (by omega) hw hl
  rw [← drop_takeWhile] at hst
  have hk : t.srcIdx + ((input.drop s.srcIdx).takeWhile notSpace).length + s.rest.length ≤
      s.srcIdx + ((input.drop s.srcIdx).takeWhile notSpace).length + bound := by omega
  exact .of_related hstream (scanString_string hs hrel.string hw hl)
    (hrel.assigned _ (takeWhile_length_le _ _) hst hk) hP

theorem set_decides (hs : src.IsString m input) (hrel : Related m input bound t s)
    (hbound : input.length + bound < 2 ^ 32) (hw : d.maxWidth = 0) (hl : d.lengthModifier = none) {set : CharSet}
    (hlen : g.length ≤ s.rest.length) (hset : parseSet g = .ok (set, f)) (hf : Supported f) :
    Decides m input bound (scanSet (streamSource refCall) d { t with rest := g }) (scanSet src d { s with rest := g })
      ((input.drop s.srcIdx).dropWhile set.accepts ≠ []) := by
  have hsmall := hrel.small hbound
  have hslack := hrel.slack
  have hshort := parseSet_length hset
  have hread : Reading m input { s with rest := g } (input.drop s.srcIdx) :=
    ⟨hrel.string.src, hrel.string.inside, rfl⟩
  obtain ⟨hended, hgoes⟩ := scanSet_stream (t := { t with rest := g }) (stream_reads hs.noNul) hrel.stream
    (by simp only; omega) hw hl hset
  by_cases hnil : (input.drop s.srcIdx).dropWhile set.accepts = []
  · exact .of_error (hended hnil) (not_not_intro hnil)
  · obtain ⟨st, hst, hstream⟩ := hgoes hnil
    refine .of_related hstream (scanSet_string hs hread hw hl hset) ?_ hnil
    have harg := congrArg (· + 1) hrel.argIdx
    by_cases htaken : (input.drop s.srcIdx).takeWhile set.accepts = []
    · rw [if_pos htaken, if_pos htaken]
      rw [← drop_takeWhile, htaken] at hst
      exact ⟨⟨hrel.string.src, hrel.string.inside, rfl⟩, hst, rfl, harg, hrel.stores, hrel.matched, hrel.done, hf,
        by simp only; omega⟩
    · rw [if_neg htaken, if_neg htaken]
      rw [← drop_takeWhile, List.drop_drop] at hst
      have hle := takeWhile_length_le set.accepts (input.drop s.srcIdx)
      have hlen' := hrel.string.length
      have hinside : s.srcIdx + ((input.drop s.srcIdx).takeWhile set.accepts).length ≤ input.length := by omega
      refine ⟨⟨hrel.string.src, hinside, rfl⟩, hst, rfl, harg, ?_, congrArg (· + 1) hrel.matched, hrel.done, hf, ?_⟩
      · simp only [hrel.stores, hrel.argIdx]
      · simp only
        omega

/-! ## Turns in step -/

/-- the next directive of a supported format -/
theorem Supported.next (h : Supported (37 :: g)) : ∃ d f k, parseScan g = .ok (d, f) ∧ d.kind = some k ∧
    (k ≠ .set ∧ Supported f ∨ k = .set ∧ ∃ set f', parseSet f = .ok (set, f') ∧ Supported f') := by
  cases h with
  | literal hc hf => exact absurd rfl hc
  | directive hp hk hne hf => exact ⟨_, _, _, hp, hk, .inl ⟨hne, hf⟩⟩
  | set hp hk hs hf => exact ⟨_, _, _, hp, hk, .inr ⟨rfl, _, _, hs, hf⟩⟩

theorem Supported.tail {c : UInt8} (h : Supported (c :: g)) (hc : c ≠ 37) (h0 : c ≠ 0) : Supported g := by
  cases h with
  | ended => exact absurd rfl h0
  | literal _ hf => exact hf
  | directive => exact absurd rfl hc
  | set => exact absurd rfl hc

/-- a conversion with characters in front of it that are not white space -/
theorem conversion_decides (hs : src.IsString m input) (hrel : Related m input bound t s)
    (hbound : input.length + bound < 2 ^ 32) (hroom : t.srcIdx + s.rest.length < s.srcIdx + bound)
    (hne : input.drop s.srcIdx ≠ []) (hspace : (input.drop s.srcIdx).takeWhile isspaceInner = []) (hw : d.maxWidth < 2 ^ 32)
    (hk : d.kind = some k) (hset : k ≠ .set) (f : List UInt8) :
    Decides m input bound (scanConversion (streamSource refCall) parse d t) (scanConversion src parse d s)
      (DirectiveStreams parse d f (input.drop s.srcIdx)) := by
  have hdrop : (input.drop s.srcIdx).dropWhile isspaceInner = input.drop s.srcIdx := by
    rw [← drop_takeWhile, hspace, List.length_nil, List.drop_zero]
  unfold DirectiveStreams
  rw [hdrop, hk]
  cases k with
  | integer =>
    rw [scanConversion_integer hk, scanConversion_integer hk]
    refine (integer_decides hs hrel hbound hroom hne hspace (intType_negation d) (intType_max d)
      (intBase_cases d.specifier) hw (intStore_injective d)).congr ?_
    exact (or_iff_right hne).symm
  | float =>
    obtain ⟨hsp, hw, hl⟩ := kind_spec hk
    rw [scanConversion_float hsp, scanConversion_float hsp]
    exact float_decides hs hrel hbound hne hspace hw hl
  | string =>
    obtain ⟨hsp, hw, hl⟩ := kind_spec hk
    rw [scanConversion_string hsp, scanConversion_string hsp]
    exact string_decides hs hrel hbound hw hl hne
  | set => exact absurd rfl hset

/-- a conversion at the end of the input, which ends the scan of a stream before it starts -/
theorem conversion_ended (hs : src.IsString m input) (hparse : parse [] = none) (hrel : Related m input bound t s)
    (hnil : input.drop s.srcIdx = []) {st : RefStream} (hst : LeftIn input st []) (hw : d.maxWidth < 2 ^ 32)
    (hk : d.kind = some k) (hset : k ≠ .set) {r : List UInt8} (hr : r.dropWhile isspaceInner = []) :
    Decides m input bound (.ok (t.stop st)) (scanConversion src parse d s) (DirectiveStreams parse d f r) := by
  have hread : Reading m input s [] := ⟨hrel.string.src, hrel.string.inside, hnil⟩
  have hstop : Related m input bound (t.stop st) (s.stop s.src) := hrel.stop (hnil ▸ hst)
  unfold DirectiveStreams
  rw [hr, hk]
  cases k with
  | integer =>
    have hbase := intBase_cases d.specifier
    rw [scanConversion_integer hk, scanInteger_string hs hread (by omega) hw, scanInt_nil hbase]
    exact .of_related rfl rfl hstop (.inl rfl)
  | float =>
    obtain ⟨hsp, hw, -⟩ := kind_spec hk
    rw [scanConversion_float hsp, (scanFloat_string hs hread rfl hw).2, show floatChars [] = [] from rfl, hparse]
    exact .of_related rfl rfl hstop (.inl rfl)
  | string =>
    obtain ⟨hsp, hw, hl⟩ := kind_spec hk
    rw [scanConversion_string hsp, scanString_string hs hread hw hl]
    refine ⟨fun h => absurd rfl h, ?_⟩
    rintro ⟨t', s', ht, hs', -, hmatched, -⟩
    cases ht
    cases hs'
    change t.matched = s.matched + 1 at hmatched
    have hcount := hrel.matched
    omega
  | set => exact absurd rfl hset

/-- directives that skip white space -/
theorem directiveStreams_skipped (hk : d.kind = some k) (hset : k ≠ .set) {r : List UInt8} :
    DirectiveStreams parse d f (r.dropWhile isspaceInner) ↔ DirectiveStreams parse d f r := by
  unfold DirectiveStreams
  rw [hk]
  cases k with
  | set => exact absurd rfl hset
  | integer => simp only [List.dropWhile_idempotent]
  | float => simp only [List.dropWhile_idempotent]
  | string => simp only [List.dropWhile_idempotent]

/-- **A directive** -/
theorem directive_decides (hs : src.IsString m input) (hparse : parse [] = none) (hrel : Related m input bound t s)
    (hbound : input.length + bound < 2 ^ 32) (hrest : s.rest = 37 :: g) :
    Decides m input bound (scanDirective (streamSource refCall) parse t g) (scanDirective src parse s g)
      (∀ d f, parseScan g = .ok (d, f) → DirectiveStreams parse d f (input.drop s.srcIdx)) := by
  have hsupported := hrel.supported
  rw [hrest] at hsupported
  obtain ⟨d, f, k, hp, hk, hcases⟩ := hsupported.next
  have hlen := parseScan_length hp
  have hsmall := hrel.small hbound
  have hslack := hrel.slack
  rw [hrest, List.length_cons] at hsmall hslack
  have hP : DirectiveStreams parse d f (input.drop s.srcIdx) ↔
      ∀ d f, parseScan g = .ok (d, f) → DirectiveStreams parse d f (input.drop s.srcIdx) := by
    constructor
    · intro h d' f' hp'
      rw [hp] at hp'
      cases hp'
      exact h
    · exact fun h => h d f hp
  refine Decides.congr ?_ hP
  rcases hcases with ⟨hset, hf⟩ | ⟨rfl, set, f', hset, hf⟩
  · have hskips := skips_space hk hset
    obtain ⟨st, hst, hstream⟩ := scanDirective_stream (stream_reads hs.noNul) hrel.stream (by omega) hp hskips
    have hnext := hrel.skipped hf (by rw [hrest, List.length_cons]; omega) hst
    have hleft := (hrel.string.skipped f).left
    rw [hstream, scanDirective_string hs hrel.string hp hskips]
    by_cases hnil : (input.drop s.srcIdx).dropWhile isspaceInner = []
    · rw [if_pos hnil]
      rw [hnil] at hleft hst
      exact conversion_ended hs hparse hnext hleft hst (parseScan_width hp) hk hset hnil
    · rw [if_neg hnil]
      have hroom : t.srcIdx + ((input.drop s.srcIdx).takeWhile isspaceInner).length + f.length <
          s.srcIdx + ((input.drop s.srcIdx).takeWhile isspaceInner).length + bound := by omega
      refine (conversion_decides hs hnext hbound hroom (by rw [hleft]; exact hnil)
        (by rw [hleft]; exact takeWhile_dropWhile_self _ _) (parseScan_width hp) hk hset f).congr ?_
      rw [hleft]
      exact directiveStreams_skipped hk hset
  · obtain ⟨hsp, hw, hl⟩ := kind_spec hk
    have hskips : ¬(d.specifier ≠ 91 ∧ d.specifier ≠ 99 ∧ d.specifier ≠ 110) := fun h => h.1 hsp
    rw [scanDirective_set hp hskips, scanDirective_set hp hskips, scanConversion_set hsp, scanConversion_set hsp]
    refine (set_decides hs hrel hbound hw hl (by rw [hrest, List.length_cons]; omega) hset hf).congr ?_
    unfold DirectiveStreams
    rw [hk]
    constructor
    · intro h _ set' f'' hset'
      rw [hset] at hset'
      cases hset'
      exact h
    · exact fun h => h set f' hset

/-- **Other characters of the format** -/
theorem literal_decides (hs : src.IsString m input) (hrel : Related m input bound t s)
    (hbound : input.length + bound < 2 ^ 32) {c : UInt8} (hrest : s.rest = c :: g) (hc : c ≠ 37) (h0 : c ≠ 0) :
    Decides m input bound (scanLiteral (streamSource refCall) t c g) (scanLiteral src s c g)
      (if isspaceInner c then (input.drop s.srcIdx).dropWhile isspaceInner ≠ [] else (input.drop s.srcIdx).head? = some c) := by
  have hsupported := hrel.supported
  rw [hrest] at hsupported
  have hg := hsupported.tail hc h0
  have hlen : g.length + 1 = s.rest.length := by rw [hrest, List.length_cons]
  have hsmall := hrel.small hbound
  have hslack := hrel.slack
  by_cases hspace : isspaceInner c = true
  · rw [if_pos hspace, scanLiteral_space hs hrel.string hspace]
    obtain ⟨st, hst, hstream⟩ := scanLiteral_space_stream (f := g) (stream_reads hs.noNul) hrel.stream (by omega) hspace
    rw [hstream]
    by_cases hnil : (input.drop s.srcIdx).dropWhile isspaceInner = []
    · rw [if_pos hnil]
      exact .of_error rfl (not_not_intro hnil)
    · rw [if_neg hnil]
      exact .of_related rfl rfl (hrel.skipped hg (by omega) hst) hnil
  · have hspace' : isspaceInner c = false := by simpa using hspace
    rw [if_neg hspace, scanLiteral_other hs hrel.string hspace' h0]
    rcases scanLiteral_other_stream (f := g) (stream_reads hs.noNul) hrel.stream (by omega) hspace' with
      ⟨hnil, hstream⟩ | ⟨cc, r', st, hr, hst, hstream⟩
    · rw [hstream]
      refine .of_error rfl ?_
      rw [hnil]
      exact fun h => nomatch h
    rw [hstream, hr, List.head?_cons]
    have hr' : r' = (input.drop s.srcIdx).drop 1 := by rw [hr, List.drop_succ_cons, List.drop_zero]
    by_cases heq : c = cc
    · subst heq
      rw [if_pos rfl, if_pos rfl]
      have hone : 1 ≤ (input.drop s.srcIdx).length := by
        rw [hr]
        exact Nat.succ_pos _
      have hread : Reading m input (s.skipped g 1) r' := hr' ▸ hrel.string.more hone hrel.string.src rfl
      refine .of_related rfl rfl ⟨hread.self, ?_, rfl, hrel.argIdx, hrel.stores, hrel.matched, hrel.done, hg, ?_⟩ rfl
      · rw [hread.left]
        exact hst
      · simp only [ScanState.skipped]
        omega
    · have hne : ¬some cc = some c := fun h => heq (Option.some.inj h).symm
      rw [if_neg heq, if_neg hne]
      -- the character has been read, and is not pushed back
      refine ⟨fun h => absurd h hne, ?_⟩
      rintro ⟨t', s', ht, hs', -, -, -, hpos⟩
      cases ht
      cases hs'
      change st.position = s.srcIdx at hpos
      have hleft := hst.position
      have hread := hrel.string.length
      rw [hr, List.length_cons] at hread
      omega

/-- **One turn** -/
theorem turn_decides (hs : src.IsString m input) (hparse : parse [] = none) (hbound : input.length + bound < 2 ^ 32)
    (hrel : Related m input bound t s) :
    Decides m input bound (scanStep (streamSource refCall) parse t ()) (scanStep src parse s ())
      (Streams parse input s ()) := by
  by_cases hd : s.done = true
  · have hd' : t.done = true := hrel.done.trans hd
    refine .of_related (step_done hd') (step_done hd) hrel ?_
    intro hd''
    rw [hd] at hd''
    cases hd''
  have hd' : s.done = false := by simpa using hd
  have hstop : Related m input bound (t.stop t.src) (s.stop s.src) := hrel.stop hrel.stream
  unfold scanStep
  rw [if_neg hd, hrel.done, if_neg hd, hrel.rest]
  cases hrest : s.rest with
  | nil =>
    refine .of_related rfl rfl hstop ?_
    intro _ c g h
    rw [hrest] at h
    cases h
  | cons c g =>
    simp only
    have hP : ∀ {Q : Prop}, (Q ↔ if c = 37 then ∀ d f, parseScan g = .ok (d, f) → DirectiveStreams parse d f (input.drop s.srcIdx)
          else if isspaceInner c then (input.drop s.srcIdx).dropWhile isspaceInner ≠ []
          else (input.drop s.srcIdx).head? = some c) → c ≠ 0 → (Q ↔ Streams parse input s ()) := by
      intro Q hQ h0
      rw [hQ]
      constructor
      · intro h _ c' g' hcg _
        rw [hrest] at hcg
        cases hcg
        exact h
      · exact fun h => h hd' c g hrest h0
    by_cases h0 : c = 0
    · rw [if_pos h0, if_pos h0]
      refine .of_related rfl rfl hstop ?_
      intro _ c' g' hcg hne
      rw [hrest] at hcg
      cases hcg
      exact absurd h0 hne
    rw [if_neg h0, if_neg h0]
    by_cases hc : c = 37
    · subst hc
      rw [if_neg (not_not_intro rfl), if_neg (not_not_intro rfl)]
      exact (directive_decides hs hparse hrel hbound hrest).congr (hP (by rw [if_pos rfl]) h0)
    · rw [if_pos hc, if_pos hc]
      exact (literal_decides hs hrel hbound hrest hc h0).congr (hP (by rw [if_neg hc]) h0)

/-! ## Runs -/

theorem turn_next (hs : src.IsString m input) (hparse : parse [] = none) (hbound : input.length + bound < 2 ^ 32)
    (hrel : Related m input bound t s) (hagrees : TurnAgrees src parse (t, s) ()) :
    ∃ t' s', scanStep (streamSource refCall) parse t () = .ok t' ∧ scanStep src parse s () = .ok s' ∧
      Related m input bound t' s' :=
  (turn_decides hs hparse hbound hrel).next ((turn_decides hs hparse hbound hrel).only hagrees)

/-- both scans take turns that agree exactly when the turns of the string are as `Streams` says -/
theorem turns_agree_iff (hs : src.IsString m input) (hparse : parse [] = none) (hbound : input.length + bound < 2 ^ 32)
    (hrel : Related m input bound t s) (n : ℕ) :
    LegalRun (pairStep src parse) (TurnAgrees src parse) (t, s) (List.replicate n ()) ↔
      LegalRun (scanStep src parse) (Streams parse input) s (List.replicate n ()) := by
  induction n generalizing t s with
  | zero => exact Iff.rfl
  | succ n ih =>
    have hturn := turn_decides hs hparse hbound hrel
    have hstep : ∀ {t' s'}, scanStep (streamSource refCall) parse t () = .ok t' → scanStep src parse s () = .ok s' →
        pairStep src parse (t, s) () = .ok (t', s') := by
      intro t' s' ht hs'
      simp only [pairStep, ht, hs', ok_bind, pure_eq_ok]
    rw [List.replicate_succ]
    constructor
    · rintro ⟨hagrees, hrest⟩
      obtain ⟨t', s', ht, hs', hnext⟩ := turn_next hs hparse hbound hrel hagrees
      refine ⟨hturn.only hagrees, fun s'' hs'' => ?_⟩
      rw [hs'] at hs''
      cases hs''
      exact (ih hnext).1 (hrest (t', s') (hstep ht hs'))
    · rintro ⟨hstreams, hrest⟩
      obtain ⟨t', s', ht, hs', hnext⟩ := hturn.next hstreams
      refine ⟨?_, fun p hp => ?_⟩
      · unfold TurnAgrees
        rw [ht, hs']
        exact hnext.agree
      · rw [hstep ht hs'] at hp
        cases hp
        exact (ih hnext).2 (hrest s' hs')

/-- and then both end, and agree -/
theorem turns_end (hs : src.IsString m input) (hparse : parse [] = none) (hbound : input.length + bound < 2 ^ 32)
    (hrel : Related m input bound t s) (n : ℕ)
    (hl : LegalRun (scanStep src parse) (Streams parse input) s (List.replicate n ())) :
    Agree (run (scanStep (streamSource refCall) parse) t (List.replicate n ()))
      (run (scanStep src parse) s (List.replicate n ())) := by
  induction n generalizing t s with
  | zero => exact hrel.agree
  | succ n ih =>
    obtain ⟨hstreams, hrest⟩ := hl
    obtain ⟨t', s', ht, hs', hnext⟩ := (turn_decides hs hparse hbound hrel).next hstreams
    rw [List.replicate_succ, run_cons, run_cons, ht, hs', ok_bind, ok_bind]
    exact ih hnext (hrest s' hs')

end

/-! ## The function -/

/-- a stream that holds `input` -/
def streamOf (input : List UInt8) : RefStream := { content := input, position := 0 }

section

variable {R : Type} (parse : List UInt8 → Option R) (format input : List UInt8)

/-- On a stream that holds `input`, which is not empty, `fscanf` does what `sscanf` does on the string: every turn of the
loop agrees, both end, with the same assignments and count, and the stream is left just after what has matched. -/
def FscanfAgrees (ptr : ℕ) (m : Mem) : Prop :=
  input ≠ [] →
    LegalRun (pairStep (cString ptr) parse) (TurnAgrees (cString ptr) parse)
        (scanStart format (streamOf input), scanStart format m) (scanTurns format) ∧
      ∃ t s, fscanf refCall parse format (streamOf input) = .ok (some t, t.src) ∧ scan (cString ptr) parse format m = .ok s ∧
        t.stores = s.stores ∧ t.matched = s.matched ∧ t.src.position = s.srcIdx

theorem fscanf_start {input : List UInt8} (hne : input ≠ []) :
    fscanf refCall parse format (streamOf input) =
      (do
        let t ← scan (streamSource refCall) parse format (streamOf input)
        pure (some t, t.src)) := by
  cases input with
  | nil => exact absurd rfl hne
  | cons c r =>
    have hget := refSource_getc_cons (r := streamOf (c :: r)) (c := c) rfl 0
    unfold fscanf
    rw [hget, ok_bind]
    simp only [refSource_ungetc, ok_bind]
    rfl

end

/-- "b" in memory -/
def letterMem : Mem := ⟨store (fun _ => 0) 4096 [98], 4096⟩

end TouchHLE.Scanf
