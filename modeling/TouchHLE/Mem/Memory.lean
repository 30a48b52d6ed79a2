/-
Guest memory (`mem.rs`) as far as reads and writes of it go: 4 GiB of bytes with an inaccessible segment at the bottom,
and pointer arithmetic, which is checked.

- `Mem.checkRange`: the null-page check and the bounds check that every access makes first.
- `readU32`, `writeU32`, `readBytes`, `writeBytes`: `Mem::read` and `Mem::write` at the type `u32` and at the bytes of
  any other type.
- `writeU32_cases`: an access either passes the check and does what it says, or it panics.
-/
import TouchHLE.Lib.Machine
import TouchHLE.Lib.Words
import TouchHLE.Panic

namespace TouchHLE

open Words Machine

structure Mem where
  bytes : Bytes
  nullSegmentSize : ℕ

namespace Mem

/-- `ptr + n` for a pointer to values of `size` bytes -/
def ptrAdd (ptr n size : ℕ) : Except Panic ℕ := if ptr + n * size < 2 ^ 32 then .ok (ptr + n * size) else .error .pointer

/-- `ptr - n` for a pointer to values of `size` bytes -/
def ptrSub (ptr n size : ℕ) : Except Panic ℕ :=
  if n * size < 2 ^ 32 ∧ n * size ≤ ptr then .ok (ptr - n * size) else .error .pointer

/-- the checks of `bytes_at` and `bytes_at_mut` -/
def checkRange (m : Mem) (ptr count : ℕ) : Except Panic Unit :=
  if ptr < m.nullSegmentSize then .error .nullPage
  else if 2 ^ 32 < ptr + count then .error .sliceRange
  else .ok ()

def readU32 (m : Mem) (ptr : ℕ) : Except Panic UInt32 := do
  m.checkRange ptr 4
  pure (loadWord m.bytes ptr)

def writeU32 (m : Mem) (ptr : ℕ) (value : UInt32) : Except Panic Mem := do
  m.checkRange ptr 4
  pure { m with bytes := storeWord m.bytes ptr value }

def readBytes (m : Mem) (ptr size : ℕ) : Except Panic (List UInt8) := do
  m.checkRange ptr size
  pure (load m.bytes ptr size)

def writeBytes (m : Mem) (ptr : ℕ) (value : List UInt8) : Except Panic Mem := do
  m.checkRange ptr value.length
  pure { m with bytes := store m.bytes ptr value }

/-- `cstr_at`, where so many bytes are left to the end of memory -/
def cstrAt (m : Mem) : ℕ → ℕ → Except Panic (List UInt8)
  | 0, _ => .error .pointer
  | n + 1, ptr => do
    m.checkRange ptr 1
    if m.bytes ptr = 0 then pure []
    else do
      let rest ← cstrAt m n (ptr + 1)
      pure (m.bytes ptr :: rest)

/-- an access that passes the checks -/
def InRange (m : Mem) (ptr count : ℕ) : Prop := m.nullSegmentSize ≤ ptr ∧ ptr + count ≤ 2 ^ 32

variable {m m' : Mem} {ptr count : ℕ} {w : UInt32}

theorem checkRange_ok (h : m.InRange ptr count) : m.checkRange ptr count = .ok () := by
  unfold checkRange
  rw [if_neg (Nat.not_lt.2 h.1), if_neg (Nat.not_lt.2 h.2)]

theorem inRange_of_checkRange {u : Unit} (h : m.checkRange ptr count = .ok u) : m.InRange ptr count := by
  unfold checkRange at h
  split_ifs at h with h1 h2
  exact ⟨Nat.le_of_not_lt h1, Nat.le_of_not_lt h2⟩

theorem readU32_ok (h : m.InRange ptr 4) : m.readU32 ptr = .ok (loadWord m.bytes ptr) := by
  rw [readU32, checkRange_ok h, ok_bind, pure_eq_ok]

theorem writeU32_ok (h : m.InRange ptr 4) : m.writeU32 ptr w = .ok { m with bytes := storeWord m.bytes ptr w } := by
  rw [writeU32, checkRange_ok h, ok_bind, pure_eq_ok]

theorem writeU32_cases (h : m.writeU32 ptr w = .ok m') :
    m.InRange ptr 4 ∧ m' = { m with bytes := storeWord m.bytes ptr w } := by
  obtain ⟨u, h1, h2⟩ := bind_eq_ok.1 h
  exact ⟨inRange_of_checkRange h1, (Except.ok.inj h2).symm⟩

theorem writeBytes_cases {value : List UInt8} (h : m.writeBytes ptr value = .ok m') :
    m.InRange ptr value.length ∧ m' = { m with bytes := store m.bytes ptr value } := by
  obtain ⟨u, h1, h2⟩ := bind_eq_ok.1 h
  exact ⟨inRange_of_checkRange h1, (Except.ok.inj h2).symm⟩

end Mem

end TouchHLE
