/-
What the scanning functions read from: a C string in memory or a stream, behind the callbacks `getc_fn` and `ungetc_fn`
of the source. A string is read by index and needs no ungetc; a stream ignores the index.

- `Source`: the two callbacks.
- `cString`: the callbacks for a C string; `HoldsString`: memory holds a NUL-terminated string at an address.
- `Source.IsString`: reading is by index in a string, which is all that results about strings use.
- `countWhitespaceGeneric`: the loop that all conversions start with.
-/
import TouchHLE.Mem.Memory

namespace TouchHLE

open Words Machine

/-- `getc_fn` and `ungetc_fn`; the end of a stream is `none` -/
structure Source (σ : Type) where
  getc : σ → ℕ → Except Panic (Option UInt8 × σ)
  ungetc : σ → UInt8 → Except Panic σ

/-- `is_ascii_whitespace`, or a vertical tab -/
def isspaceInner (c : UInt8) : Bool := c == 32 || c == 9 || c == 10 || c == 12 || c == 13 || c == 11

theorem isspaceInner_zero : isspaceInner 0 = false := by decide

namespace Source

variable {σ : Type}

/-- `getc_fn` at a sum of indexes, which must fit in 32 bits -/
def getcAt (src : Source σ) (st : σ) (idx : ℕ) : Except Panic (Option UInt8 × σ) :=
  if idx < 2 ^ 32 then src.getc st idx else .error .overflow

/-- the loop of `count_whitespace_generic`; it stops at the latest when `count` overflows -/
def countWhitespaceLoop (src : Source σ) (offset : ℕ) : ℕ → ℕ → σ → Except Panic (Except ℕ ℕ × σ)
  | 0, _, _ => .error .overflow
  | fuel + 1, count, st => do
    let (c, st) ← src.getcAt st count
    match c with
    | none => pure (.error (count - offset), st)
    | some c =>
      if isspaceInner c then countWhitespaceLoop src offset fuel (count + 1) st
      else do
        let st ← src.ungetc st c
        pure (.ok (count - offset), st)

def countWhitespaceGeneric (src : Source σ) (st : σ) (offset : ℕ) : Except Panic (Except ℕ ℕ × σ) :=
  countWhitespaceLoop src offset (2 ^ 32 - offset) offset st

/-- in the state `st` the source is a string: any index up to the terminator can be read, and nothing changes -/
structure IsString (src : Source σ) (st : σ) (s : List UInt8) : Prop where
  getc : ∀ i ≤ s.length, src.getc st i = .ok (some (s.getD i 0), st)
  ungetc : ∀ c, src.ungetc st c = .ok st
  noNul : ∀ c ∈ s, c ≠ 0
  size : s.length < 2 ^ 32

end Source

/-- a NUL-terminated string at an address -/
structure HoldsString (m : Mem) (ptr : ℕ) (s : List UInt8) : Prop where
  inRange : m.nullSegmentSize ≤ ptr
  size : ptr + s.length < 2 ^ 32
  bytes : ∀ i ≤ s.length, m.bytes (ptr + i) = s.getD i 0
  noNul : ∀ c ∈ s, c ≠ 0

/-- `env.mem.read(s + idx)` -/
def readChar (m : Mem) (ptr idx : ℕ) : Except Panic UInt8 := do
  let p ← Mem.ptrAdd ptr idx 1
  m.checkRange p 1
  pure (m.bytes p)

/-- the callbacks for a C string -/
def cString (ptr : ℕ) : Source Mem where
  getc m idx := do
    let c ← readChar m ptr idx
    pure (some c, m)
  ungetc m _ := pure m

variable {m : Mem} {ptr i : ℕ} {s : List UInt8}

theorem readChar_ok (h : HoldsString m ptr s) (hi : i ≤ s.length) : readChar m ptr i = .ok (s.getD i 0) := by
  have hsize := h.size
  have hnull := h.inRange
  have hp : Mem.ptrAdd ptr i 1 = .ok (ptr + i) := by
    unfold Mem.ptrAdd
    rw [if_pos (by omega), mul_one]
  have hr : m.checkRange (ptr + i) 1 = .ok () := Mem.checkRange_ok ⟨by omega, by omega⟩
  rw [readChar, hp, ok_bind, hr, ok_bind, h.bytes i hi, pure_eq_ok]

theorem HoldsString.isString (h : HoldsString m ptr s) : (cString ptr).IsString m s where
  getc i hi := by
    show (do let c ← readChar m ptr i; pure (some c, m)) = _
    rw [readChar_ok h hi, ok_bind, pure_eq_ok]
  ungetc _ := rfl
  noNul := h.noNul
  size := by have := h.size; omega

namespace Source.IsString

variable {σ : Type} {src : Source σ} {st : σ}

theorem getcAt (h : src.IsString st s) (hi : i ≤ s.length) : src.getcAt st i = .ok (some (s.getD i 0), st) := by
  have hsize := h.size
  rw [Source.getcAt, if_pos (by omega), h.getc i hi]

/-- the character at an index, as the head of what is left there -/
theorem getD_eq_head (i : ℕ) : s.getD i 0 = (s.drop i).headD 0 := by
  rw [List.getD_eq_getElem?_getD, List.headD_eq_head?_getD, List.head?_drop]

theorem countWhitespaceLoop (h : src.IsString st s) (offset fuel count : ℕ) (hc : count ≤ s.length)
    (hf : s.length < count + fuel) :
    src.countWhitespaceLoop offset fuel count st =
      .ok (.ok (count + ((s.drop count).takeWhile isspaceInner).length - offset), st) := by
  induction fuel generalizing count with
  | zero => omega
  | succ fuel ih =>
    have hhead := getD_eq_head (s := s) count
    rw [Source.countWhitespaceLoop, h.getcAt hc, ok_bind]
    cases hd : s.drop count with
    | nil =>
      rw [hd, List.headD_nil] at hhead
      rw [hhead]
      simp [isspaceInner_zero, h.ungetc]
    | cons c rest =>
      rw [hd, List.headD_cons] at hhead
      have hlt : count < s.length := by
        have := congrArg List.length hd
        simp only [List.length_drop, List.length_cons] at this
        omega
      have hrest : s.drop (count + 1) = rest := by rw [← List.drop_drop, hd]; rfl
      rw [hhead]
      by_cases hsp : isspaceInner c = true
      · simp only [hsp, if_true, List.takeWhile_cons, List.length_cons, ih (count + 1) hlt (by omega), hrest]
        congr 3
        omega
      · simp [hsp, h.ungetc]

/-- **Counting white space** in a string. -/
theorem countWhitespace (h : src.IsString st s) {offset : ℕ} (ho : offset ≤ s.length) :
    src.countWhitespaceGeneric st offset = .ok (.ok ((s.drop offset).takeWhile isspaceInner).length, st) := by
  have hsize := h.size
  rw [Source.countWhitespaceGeneric, h.countWhitespaceLoop offset _ offset ho (by omega)]
  congr 3
  omega

end Source.IsString

end TouchHLE
