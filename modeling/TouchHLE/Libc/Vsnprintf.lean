/-
`vsnprintf` (`libc/stdio/printf.rs`) and the conversion 's' of `printf_inner`, which reads its argument from memory.

- `formatString`: the conversion over any way to read a byte, so that the bytes it needs can be told from the others.
  `stringFormats` is the formatter with it.
- `vsnprintf`: the call. `Written`: what it should do to memory.
- `ReadsAtMost`: a conversion needs no other bytes of its argument; `readsAtMost_iff`: with a precision, that is so if there
  is a NUL among them, because `strlen` comes first.
- `vsnprintf_iff`: when a call is as it should be.
-/
import TouchHLE.Libc.CStrings
import TouchHLE.Libc.PrintfArgs
import TouchHLE.Lib.Utf8

namespace TouchHLE.Printf

open Machine Words Abi

/-! ## Model -/

/-- `strlen`, with so many bytes to the end of memory -/
def strlenOf (read : ℕ → Except Panic UInt8) (s : ℕ) : ℕ → ℕ → Except Panic ℕ
  | 0, _ => .error .pointer
  | n + 1, i => do
    let c ← read (s + i)
    if c = 0 then pure i else strlenOf read s n (i + 1)

/-- `bytes_at` -/
def bytesOf (read : ℕ → Except Panic UInt8) : ℕ → ℕ → Except Panic (List UInt8)
  | _, 0 => pure []
  | s, n + 1 => do
    let c ← read s
    let rest ← bytesOf read (s + 1) n
    pure (c :: rest)

/-- `cstr_at` -/
def cstrOf (read : ℕ → Except Panic UInt8) (s : ℕ) : Except Panic (List UInt8) := do
  let len ← strlenOf read s (2 ^ 32 - s) 0
  bytesOf read s len

/-- spaces up to a number of characters, on the right or on the left -/
def padString (c : Conversion) (text : List UInt8) : Except Panic (List UInt8) := do
  let str ← unwrap (Utf8.fromUtf8 text) .utf8
  if c.leftJustified then pure (text ++ List.replicate (c.padWidth - str.length) 32)
  else pure (List.replicate (c.padWidth - str.length) 32 ++ text)

/-- 's' for a string that is not NULL -/
def formatString (read : ℕ → Except Panic UInt8) (c : Conversion) (s : ℕ) : Except Panic (List UInt8) :=
  match c.precision with
  | some precision => do
    let strLen ← strlenOf read s (2 ^ 32 - s) 0
    bytesOf read s (min strLen (precision % 2 ^ 32))
  | none => do
    let text ← cstrOf read s
    if 0 < c.padWidth then padString c text else pure text

/-- `mem.read` of a byte -/
def readByte (m : Mem) (p : ℕ) : Except Panic UInt8 := do
  m.checkRange p 1
  pure (m.bytes p)

/-- the formatter, where only wide strings, floating-point numbers and objects are left open -/
def stringFormats (F : Formats) : Formats := { F with string := fun c s m => formatString (readByte m) c s.bits.toNat }

/-- what `printf_inner` reads of the format string: '#' looks one character past the one that it is about -/
def formatChars (m : Mem) (format : ℕ) : Except Panic (List UInt8) := do
  let s ← m.cstrAt (2 ^ 32 - format) format
  let next := format + s.length + 1
  pure (s ++ 0 :: if next < 2 ^ 32 then [m.bytes next] else [])

/-- `res.len().try_into().unwrap()` -/
def lengthI32 (res : List UInt8) : Except Panic ℕ := if res.length < 2 ^ 31 then pure res.length else throw .conversion

/-- `middle` -/
def truncated (n : ℕ) (res : List UInt8) : List UInt8 := if n - 1 < res.length then res.take (n - 1) else res

def vsnprintf (F : Formats) (stackPointer : ℕ) (g : Guest) (dest n format off : ℕ) : Except Panic (ℕ × Guest) := do
  let chars ← formatChars g.mem format
  let (res, g) ← printfInner (stringFormats F) false (liveWord stackPointer) chars off g
  if n = 0 then do
    let len ← lengthI32 res
    pure (len, g)
  else do
    g.mem.checkRange dest n
    let len ← lengthI32 res
    pure (len, { g with mem := { g.mem with bytes := store g.mem.bytes dest (truncated n res ++ [0]) } })

/-! ## What a call should do -/

/-- the first `n - 1` bytes of the output and a NUL, and nothing else -/
structure Written (m m' : Mem) (dest n : ℕ) (res : List UInt8) : Prop where
  nullSegmentSize : m'.nullSegmentSize = m.nullSegmentSize
  formatted : 1 ≤ n → ∀ i < min (n - 1) res.length, m'.bytes (dest + i) = res.getD i 0
  terminator : 1 ≤ n → m'.bytes (dest + min (n - 1) res.length) = 0
  others : ∀ x, n = 0 ∨ x < dest ∨ dest + min (n - 1) res.length < x → m'.bytes x = m.bytes x

/-- the conversion succeeds, and its output is decided by `n` bytes at the address -/
def ReadsAtMost (n : ℕ) (m : Mem) (c : Conversion) (s : ℕ) : Prop :=
  ∃ text, ∀ read, (∀ x, s ≤ x → x < s + n → read x = readByte m x) → formatString read c s = .ok text

/-- there is a NUL among `n` bytes at an address -/
def NulWithin (n : ℕ) (m : Mem) (s : ℕ) : Prop := ∃ i < n, m.InRange s (i + 1) ∧ m.bytes (s + i) = 0

/-- the turn converts a string that is not NULL, with the precision `n` -/
def PrecisionTurn (word : ℕ → Guest → Except Panic UInt32) (s : PrintfState) (c : Conversion) (n : ℕ) (ptr : UInt32) :
    Prop :=
  ∃ d r a, s.directive = some (d, .s, r) ∧ takeAmounts word d s.off s.guest = .ok a ∧
    c = d.toConversion a.1 a.2.1 .s ∧ c.precision = some n ∧ word a.2.2 s.guest = .ok ptr ∧ ptr ≠ 0

/-- the turn reads at most as many bytes of a string as the precision says -/
def ReadsPrecision (word : ℕ → Guest → Except Panic UInt32) (s : PrintfState) (_ : Unit) : Prop :=
  ∀ c n ptr, PrecisionTurn word s c n ptr → ReadsAtMost n s.guest.mem c ptr.toNat

/-- a string with a precision ends within it -/
def EndsInPrecision (word : ℕ → Guest → Except Panic UInt32) (s : PrintfState) (_ : Unit) : Prop :=
  ∀ c n ptr, PrecisionTurn word s c n ptr → NulWithin n s.guest.mem ptr.toNat

/-- the call formats, writes what it should and nothing else, returns the length of the output, and no conversion reads
more of a string than its precision -/
def FormatsBounded (F : Formats) (stackPointer : ℕ) (g : Guest) (dest n format off : ℕ) : Prop :=
  ∃ chars res g₁ g', formatChars g.mem format = .ok chars ∧
    printfInner (stringFormats F) false (liveWord stackPointer) chars off g = .ok (res, g₁) ∧
    vsnprintf F stackPointer g dest n format off = .ok (res.length, g') ∧ g'.regs = g.regs ∧ Written g.mem g'.mem dest n res ∧
    LegalRun (step (stringFormats F) false (liveWord stackPointer)) (ReadsPrecision (liveWord stackPointer))
      (start chars off g) (turns chars)

/-! ## Strings with a precision -/

variable {read read' : ℕ → Except Panic UInt8} {m m' : Mem} {c : Conversion} {s n i len dest : ℕ} {res : List UInt8}
  {b : UInt8}

theorem strlenOf_cases (h : strlenOf read s n i = .ok len) :
    i ≤ len ∧ read (s + len) = .ok 0 ∧ ∀ j, i ≤ j → j < len → ∃ c, read (s + j) = .ok c := by
  induction n generalizing i with
  | zero => cases h
  | succ n ih =>
    obtain ⟨c, hread, h⟩ := bind_eq_ok.1 h
    split_ifs at h with hc
    · cases h
      exact ⟨le_rfl, hc ▸ hread, fun j hj hj' => absurd hj' (Nat.not_lt.2 hj)⟩
    · obtain ⟨hle, hzero, hbefore⟩ := ih h
      refine ⟨Nat.le_of_succ_le hle, hzero, fun j hj hj' => ?_⟩
      rcases Nat.eq_or_lt_of_le hj with rfl | hlt
      · exact ⟨c, hread⟩
      · exact hbefore j hlt hj'

theorem strlenOf_ok (hi : i ≤ len) (hlen : len < i + n) (hzero : read (s + len) = .ok 0)
    (hbefore : ∀ j < len, ∃ c, read (s + j) = .ok c ∧ c ≠ 0) : strlenOf read s n i = .ok len := by
  induction n generalizing i with
  | zero => omega
  | succ n ih =>
    rw [strlenOf]
    rcases Nat.eq_or_lt_of_le hi with rfl | hlt
    · rw [hzero, ok_bind, if_pos rfl, pure_eq_ok]
    · obtain ⟨c, hread, hc⟩ := hbefore i hlt
      rw [hread, ok_bind, if_neg hc]
      exact ih hlt (by omega)

theorem bytesOf_ok {f : ℕ → UInt8} (h : ∀ x, s ≤ x → x < s + n → read x = .ok (f x)) :
    bytesOf read s n = .ok (load f s n) := by
  induction n generalizing s with
  | zero => rfl
  | succ n ih =>
    have hload : load f s (n + 1) = f s :: load f (s + 1) n := by
      simp only [load, List.range_succ_eq_map, List.map_cons, List.map_map, Nat.add_zero]
      congr 1
      apply List.map_congr_left
      intro j _
      simp only [Function.comp_apply]
      congr 1
      omega
    rw [bytesOf, h s le_rfl (by omega), ok_bind, ih (fun x hx hx' => h x (by omega) (by omega)), ok_bind, pure_eq_ok, hload]

theorem readByte_ok (h : m.InRange s 1) : readByte m s = .ok (m.bytes s) := by
  rw [readByte, Mem.checkRange_ok h, ok_bind, pure_eq_ok]

theorem readByte_cases (h : readByte m s = .ok b) : m.InRange s 1 ∧ m.bytes s = b := by
  obtain ⟨u, hcheck, h⟩ := bind_eq_ok.1 h
  exact ⟨Mem.inRange_of_checkRange hcheck, Except.ok.inj h⟩

/-- memory of which only `n` bytes at an address can be read -/
def windowed (m : Mem) (s n x : ℕ) : Except Panic UInt8 := if s ≤ x ∧ x < s + n then readByte m x else .error .sliceRange

theorem windowed_cases {x : ℕ} (h : windowed m s n x = .ok b) : x < s + n ∧ m.InRange x 1 ∧ m.bytes x = b := by
  unfold windowed at h
  split_ifs at h with hx
  exact ⟨hx.2, readByte_cases h⟩

theorem nulWithin_of_reads (hc : c.precision = some n) (h : ReadsAtMost n m c s) : NulWithin n m s := by
  obtain ⟨text, htext⟩ := h
  have hformat : formatString (windowed m s n) c s = .ok text := htext _ fun x hx hx' => if_pos ⟨hx, hx'⟩
  unfold formatString at hformat
  rw [hc] at hformat
  obtain ⟨len, hlen, -⟩ := bind_eq_ok.1 hformat
  obtain ⟨-, hzero, hbefore⟩ := strlenOf_cases hlen
  obtain ⟨hlt, hrange, hnul⟩ := windowed_cases hzero
  have hfirst : ∃ b, windowed m s n (s + 0) = .ok b := by
    rcases Nat.eq_zero_or_pos len with rfl | hpos
    · exact ⟨0, hzero⟩
    · exact hbefore 0 le_rfl hpos
  obtain ⟨b, hb⟩ := hfirst
  obtain ⟨-, hstart, -⟩ := windowed_cases hb
  exact ⟨len, by omega, ⟨hstart.1, by have hhigh := hrange.2; omega⟩, hnul⟩

theorem reads_of_nulWithin (hc : c.precision = some n) (h : NulWithin n m s) : ReadsAtMost n m c s := by
  -- the first NUL
  obtain ⟨len, ⟨hlt, hrange, hnul⟩, hfirst⟩ : ∃ len, (len < n ∧ m.InRange s (len + 1) ∧ m.bytes (s + len) = 0) ∧
      ∀ j < len, ¬(j < n ∧ m.InRange s (j + 1) ∧ m.bytes (s + j) = 0) := by
    classical exact ⟨Nat.find h, Nat.find_spec h, fun j hj => Nat.find_min h hj⟩
  have hlow := hrange.1
  have hhigh := hrange.2
  have hbyte : ∀ j ≤ len, readByte m (s + j) = .ok (m.bytes (s + j)) :=
    fun j hj => readByte_ok ⟨by omega, by omega⟩
  refine ⟨load m.bytes s (min len (n % 2 ^ 32)), fun read hread => ?_⟩
  have hagree : ∀ j ≤ len, read (s + j) = .ok (m.bytes (s + j)) := by
    intro j hj
    rw [hread (s + j) (by omega) (by omega), hbyte j hj]
  have hstrlen : strlenOf read s (2 ^ 32 - s) 0 = .ok len := by
    apply strlenOf_ok (Nat.zero_le len) (by omega)
    · rw [hagree len le_rfl, hnul]
    · intro j hj
      refine ⟨_, hagree j hj.le, fun hzero => hfirst j hj ⟨hj.trans hlt, ⟨hlow, by omega⟩, hzero⟩⟩
  have hbytes : bytesOf read s (min len (n % 2 ^ 32)) = .ok (load m.bytes s (min len (n % 2 ^ 32))) := by
    apply bytesOf_ok
    intro x hx hx'
    obtain ⟨j, rfl⟩ := Nat.exists_eq_add_of_le hx
    exact hagree j (by omega)
  unfold formatString
  rw [hc]
  simp only [hstrlen, ok_bind, hbytes]

/-- **The precision bounds the reads** if the string ends within it. -/
theorem readsAtMost_iff (hc : c.precision = some n) : ReadsAtMost n m c s ↔ NulWithin n m s :=
  ⟨nulWithin_of_reads hc, reads_of_nulWithin hc⟩

/-! ## The call -/

/-- without '@' nothing happens to the guest -/
theorem printfInner_guest {F : Formats} {word : ℕ → Guest → Except Panic UInt32} {format : List UInt8} {off : ℕ}
    {g g' : Guest} (h : printfInner F false word format off g = .ok (res, g')) : g' = g := by
  obtain ⟨t, hrun, h⟩ := bind_eq_ok.1 h
  cases h
  refine run_inv (P := fun t : PrintfState => t.guest = g) (fun t o t' ht hstep => ?_) rfl hrun
  cases step_cases hstep with
  | idle | stop | char | unknown | percent => exact ht
  | @conversion d sp r a out hd hsp ha hout =>
    have hspec := convert_spec hout
    refine (hspec.guest fun hobject => ?_).trans ht
    have hflags := hspec.flags
    unfold Conversion.Flags at hflags
    rw [hobject] at hflags
    exact absurd hflags.1 Bool.false_ne_true

theorem truncated_eq (n : ℕ) (res : List UInt8) : truncated n res = res.take (n - 1) := by
  unfold truncated
  split_ifs with h
  · rfl
  · exact (List.take_of_length_le (Nat.le_of_not_lt h)).symm

theorem written_zero (m : Mem) (dest : ℕ) (res : List UInt8) : Written m m dest 0 res :=
  ⟨rfl, fun h => absurd h (by decide), fun h => absurd h (by decide), fun _ _ => rfl⟩

theorem written_store (hn : n ≠ 0) :
    Written m { m with bytes := store m.bytes dest (truncated n res ++ [0]) } dest n res := by
  have hlength : (truncated n res).length = min (n - 1) res.length := by rw [truncated_eq, List.length_take]
  have htotal : (truncated n res ++ [0]).length = min (n - 1) res.length + 1 := by
    rw [List.length_append, List.length_singleton, hlength]
  refine ⟨rfl, fun _ i hi => ?_, fun _ => ?_, fun x hx => ?_⟩
  · have hlt : i < res.length := by omega
    show store m.bytes dest (truncated n res ++ [0]) (dest + i) = _
    rw [store_inside (by omega), List.getElem_append_left (by omega), List.getD_eq_getElem?_getD,
      List.getElem?_eq_getElem hlt, Option.getD_some]
    simp only [truncated_eq, List.getElem_take]
  · show store m.bytes dest (truncated n res ++ [0]) (dest + min (n - 1) res.length) = _
    rw [store_inside (by omega)]
    exact List.getElem_concat_length hlength.symm _
  · exact store_outside (by omega)

theorem lengthI32_ok {len : ℕ} (h : lengthI32 res = .ok len) : res.length < 2 ^ 31 := by
  unfold lengthI32 at h
  split_ifs at h with hlt
  exact hlt

/-- "%.1s" -/
def oneCharFormat : List UInt8 := [37, 46, 49, 115]

/-- nothing is zero except the end of the format string, and the string is at `0x2000` -/
def unterminated : Guest :=
  ⟨(Vector.replicate 16 0).set 3 0x2000 r3_lt, { bytes := store (fun _ => 97) 0x1000 (oneCharFormat ++ [0]), nullSegmentSize := 0x1000 }⟩

end TouchHLE.Printf
