/-
Streams of `stdio.h` (`libc/stdio.rs`): bytes are read from the file behind the descriptor of the stream, and
`ungetc` keeps the bytes that are pushed back beside the offset of the descriptor, which it moves as well.

- `fgetc`, `ungetc`, `fread`, `fgets`, `fseek`, `ftell`: the functions, over `read` and `lseek` of `libc/posix_io.rs`.
- `RefStream`: the stream of the C standard, a position in a file.
- `InStep`: the two are at the same position, and the pushed-back bytes are the ones that follow it.
- `Settled`: the calls that keep them in step. `compared_run`: runs of such calls return and deliver the same.
- `fread_pushback`: the defect, a `fread` that does not move the offset for the pushed-back bytes it delivers.
-/
import TouchHLE.Libc.Descriptors
import TouchHLE.Libc.Source
import TouchHLE.Mem.Heap

namespace TouchHLE

open Machine Words

/-! ## The file behind a descriptor -/

namespace GuestFile

/-- the file that can be read and sought in -/
def openFile : GuestFile → Except Panic OpenFile
  | .file f | .ipaBundleFile f | .resourceFile f => .ok f
  | .directory | .socket => .error .notAFile

def withOpenFile (g : GuestFile) (f : OpenFile) : GuestFile :=
  match g with
  | .file _ => .file f
  | .ipaBundleFile _ => .ipaBundleFile f
  | .resourceFile _ => .resourceFile f
  | g => g

def isSeekable : GuestFile → Bool
  | .socket => false
  | _ => true

end GuestFile

namespace PosixFileHostObject

/-- `posix_io::read` for a descriptor that is open: the return value, memory and the file afterwards -/
def read (o : PosixFileHostObject) (h : Heap) (buffer size : ℕ) : Except Panic (ℤ × Heap × PosixFileHostObject) :=
  if buffer = 0 then pure (-1, h, o)
  else do
    h.toMem.checkRange buffer size
    let f ← o.file.openFile
    let bytes := (f.content.drop f.position).take size
    let bytesRead ← if bytes.length < 2 ^ 31 then pure (bytes.length : ℤ) else throw .conversion
    pure (bytesRead, { h with bytes := store h.bytes buffer bytes }, { o with
      file := o.file.withOpenFile { f with position := f.position + bytes.length }
      reachedEof := o.reachedEof || (bytes.length == 0 && size != 0) })

/-- SEEK_SET, SEEK_CUR and SEEK_END -/
def startPosition (o : PosixFileHostObject) (whence : ℤ) : Except Panic (Option ℕ) :=
  if whence = 0 then pure (some 0)
  else if whence = 1 then do
    let f ← o.file.openFile
    pure (some f.position)
  else if whence = 2 then do
    let f ← o.file.openFile
    pure (some f.content.length)
  else pure none

/-- `posix_io::lseek` for a descriptor that is open -/
def lseek (o : PosixFileHostObject) (offset whence : ℤ) : Except Panic (ℤ × PosixFileHostObject) :=
  if !o.file.isSeekable then pure (-1, o)
  else do
    match ← o.startPosition whence with
    | none => pure (-1, o)
    | some start =>
      let seekPosition := start + offset
      if seekPosition < 0 ∨ 2 ^ 64 ≤ seekPosition then pure (-1, o)
      else if 2 ^ 63 - 1 < seekPosition then pure (-1, o)
      else do
        let f ← o.file.openFile
        pure (seekPosition, { o with
          file := o.file.withOpenFile { f with position := seekPosition.toNat }
          reachedEof := false })

end PosixFileHostObject

/-! ## The functions -/

/-- an open stream: memory, the file behind its descriptor, and the bytes pushed back, the last pushed one last -/
structure Stream where
  heap : Heap
  file : PosixFileHostObject
  pushbacks : List UInt8

namespace Stream

/-- the end of `fread`, which reads from the file -/
def freadRest (s : Stream) (buffer itemSize totalSize alreadyRead : ℕ) : Except Panic (ℕ × Stream) := do
  let (bytesRead, heap, file) ← s.file.read s.heap buffer totalSize
  let s := { s with heap, file }
  if bytesRead = -1 then pure (alreadyRead / itemSize, s)
  else pure ((bytesRead.toNat + alreadyRead) / itemSize, s)

def fread (s : Stream) (buffer itemSize nItems : ℕ) : Except Panic (ℕ × Stream) :=
  if itemSize = 0 then pure (0, s)
  else do
    let totalSize ← mul32 itemSize nItems
    if s.pushbacks ≠ [] then do
      let toCopy := min s.pushbacks.length totalSize
      let offset := s.pushbacks.length - toCopy
      let m ← s.heap.toMem.writeBytes buffer (s.pushbacks.drop offset).reverse
      let s := { s with heap := { s.heap with toMem := m }, pushbacks := s.pushbacks.take offset }
      if totalSize = toCopy then pure (totalSize, s)
      else do
        let buffer ← Mem.ptrAdd buffer toCopy 1
        s.freadRest buffer itemSize (totalSize - toCopy) toCopy
    else s.freadRest buffer itemSize totalSize 0

def fgetc (s : Stream) : Except Panic (ℤ × Stream) :=
  match s.pushbacks.getLast? with
  | some pushback => do
    let (newOffset, file) ← s.file.lseek 1 1
    assert (0 < newOffset) .streamArgs
    pure (pushback.toNat, { s with file, pushbacks := s.pushbacks.dropLast })
  | none => do
    let (buffer, heap) ← s.heap.alloc 1
    let (bytesRead, heap, file) ← s.file.read heap buffer 1
    let s := { s with heap, file }
    if bytesRead = -1 then pure (-1, s)
    else if bytesRead < 1 then pure (-1, s)
    else do
      -- the buffer of one byte is read as an `i32`
      let c ← s.heap.toMem.readU32 buffer
      pure (c.toInt32.toInt, s)

def ungetc (s : Stream) (c : ℤ) : Except Panic (ℤ × Stream) := do
  assert (c != -1) .streamArgs
  let (currOffset, file) ← s.file.lseek 0 1
  assert (0 < currOffset) .streamArgs
  let (newOffset, file) ← file.lseek (-1) 1
  assert (0 ≤ newOffset) .streamArgs
  if 0 ≤ c ∧ c < 256 then pure (c, { s with file, pushbacks := s.pushbacks ++ [UInt8.ofNat c.toNat] })
  else throw .conversion

/-- the loop of `fgets`, where `remaining` is `size - read`; it returns `tmp` -/
def fgetsLoop (s : Stream) : (remaining tmp : ℕ) → Except Panic (ℕ × Stream)
  | 0, tmp => pure (tmp, s)
  | remaining + 1, tmp => do
    let (n, s) ← s.fread tmp 1 1
    if n = 0 then pure (tmp, s)
    else do
      let next ← Mem.ptrAdd tmp 1 1
      let c ← readChar s.heap.toMem tmp 0
      if c = 10 then pure (next, s) else s.fgetsLoop remaining next

def fgets (s : Stream) (str size : ℕ) : Except Panic (ℕ × Stream) := do
  let (tmp, s) ← s.fgetsLoop size str
  if tmp = str then pure (0, s)
  else do
    let m ← s.heap.toMem.writeBytes tmp [0]
    pure (str, { s with heap := { s.heap with toMem := m } })

def fseek (s : Stream) (offset whence : ℤ) : Except Panic (ℤ × Stream) := do
  assert (whence == 0 || whence == 1 || whence == 2) .streamArgs
  let (curPos, file) ← s.file.lseek offset whence
  if curPos = -1 then pure (-1, { s with file })
  else pure (0, { s with file, pushbacks := [] })

def ftell (s : Stream) : Except Panic (ℤ × Stream) := do
  let (curPos, file) ← s.file.lseek 0 1
  if curPos = -1 then pure (-1, { s with file })
  else if curPos < 2 ^ 31 then pure (curPos, { s with file })
  else throw .conversion

end Stream

/-! ## The stream of the C standard -/

inductive Whence where
  | set
  | cur
  | fromEnd
deriving DecidableEq, Repr

def Whence.toInt : Whence → ℤ
  | .set => 0
  | .cur => 1
  | .fromEnd => 2

/-- the calls of a program, and what it does to its memory in between -/
inductive StdioOp where
  | fgetc
  | ungetc (c : UInt8)
  | fread (buffer itemSize nItems : UInt32)
  | fgets (str size : UInt32)
  | fseek (offset : Int32) (whence : Whence)
  | ftell
  | memory (o : Heap.Op)

/-- what a call returns, and the bytes that it leaves at an address -/
structure Reply where
  ret : ℤ
  address : ℕ
  bytes : List UInt8
deriving DecidableEq, Repr

/-- the first line, with its newline -/
def firstLine : List UInt8 → List UInt8
  | [] => []
  | c :: rest => if c = 10 then [c] else c :: firstLine rest

structure RefStream where
  content : List UInt8
  position : ℕ
deriving DecidableEq, Repr

namespace RefStream

def rest (r : RefStream) : List UInt8 := r.content.drop r.position

def seek (r : RefStream) (offset : ℤ) : Whence → ℤ
  | .set => offset
  | .cur => r.position + offset
  | .fromEnd => r.content.length + offset

/-- a stream is a position in the file; pushing back the byte before it goes back by one -/
def call (r : RefStream) : StdioOp → Reply × RefStream
  | .fgetc =>
    match r.rest with
    | [] => (⟨-1, 0, []⟩, r)
    | c :: _ => (⟨c.toNat, 0, []⟩, { r with position := r.position + 1 })
  | .ungetc c => (⟨c.toNat, 0, []⟩, { r with position := r.position - 1 })
  | .fread buffer itemSize nItems =>
    let bytes := r.rest.take (itemSize.toNat * nItems.toNat)
    (⟨(bytes.length / itemSize.toNat : ℕ), buffer.toNat, bytes⟩, { r with position := r.position + bytes.length })
  | .fgets str size =>
    if size = 0 then (⟨0, 0, []⟩, r)
    else if size = 1 then (⟨str.toNat, str.toNat, [0]⟩, r)
    else
      let line := firstLine (r.rest.take (size.toNat - 1))
      if line = [] then (⟨0, 0, []⟩, r)
      else (⟨str.toNat, str.toNat, line ++ [0]⟩, { r with position := r.position + line.length })
  | .fseek offset whence =>
    let target := r.seek offset.toInt whence
    if 0 ≤ target ∧ target < 2 ^ 63 then (⟨0, 0, []⟩, { r with position := target.toNat }) else (⟨-1, 0, []⟩, r)
  | .ftell => if r.position < 2 ^ 31 then (⟨r.position, 0, []⟩, r) else (⟨-1, 0, []⟩, r)
  | .memory _ => (⟨0, 0, []⟩, r)

end RefStream

/-! ## Calls on both -/

def Stream.call (s : Stream) : StdioOp → Except Panic (ℤ × Stream)
  | .fgetc => s.fgetc
  | .ungetc c => s.ungetc c.toNat
  | .fread buffer itemSize nItems => do
    let (n, s) ← s.fread buffer.toNat itemSize.toNat nItems.toNat
    pure (n, s)
  | .fgets str size => do
    let (p, s) ← s.fgets str.toNat size.toNat
    pure (p, s)
  | .fseek offset whence => s.fseek offset.toInt whence.toInt
  | .ftell => s.ftell
  | .memory o => do
    let heap ← Heap.step s.heap o
    pure (0, { s with heap })

inductive Disagreement where
  | panic (p : Panic)
  | reply
deriving DecidableEq, Repr

/-- the same call on both streams; it fails if the code panics, or if it returns or delivers something else -/
def comparedStep (p : Stream × RefStream) (o : StdioOp) : Except Disagreement (Stream × RefStream) :=
  match p.1.call o with
  | .error e => .error (.panic e)
  | .ok (ret, s) =>
    let (reply, r) := p.2.call o
    if ret = reply.ret ∧ load s.heap.bytes reply.address reply.bytes.length = reply.bytes then .ok (s, r)
    else .error .reply

/-- a valid pointer to `n` bytes that the program owns -/
def ValidBuffer (h : Heap) (p n : ℕ) : Prop := p ≠ 0 ∧ h.nullSegmentSize ≤ p ∧ ∀ i < n, h.Owned (p + i)

/-- what the C standard asks of the caller; only the byte before the position is pushed back -/
def LegalCall (p : Stream × RefStream) : StdioOp → Prop
  | .ungetc c => 0 < p.2.position ∧ p.2.content[p.2.position - 1]? = some c
  | .fread buffer itemSize nItems => ValidBuffer p.1.heap buffer.toNat (itemSize.toNat * nItems.toNat)
  | .fgets str size => ValidBuffer p.1.heap str.toNat size.toNat
  | .memory o => ∃ h, Heap.step p.1.heap o = .ok h
  | _ => True

/-- The calls that do what C says: no bytes are read in bulk while some are pushed back, the line of a `fgets` is
shorter than its buffer, and the counts and the positions fit, and there is memory for the buffer of `fgetc`. -/
def Settled (p : Stream × RefStream) : StdioOp → Prop
  | .fgetc => p.1.pushbacks ≠ [] ∨
      ∃ buffer h, p.1.heap.alloc 1 = .ok (buffer, h) ∧ buffer ≠ 0 ∧ h.nullSegmentSize ≤ buffer
  | .fread _ itemSize nItems =>
    itemSize.toNat * nItems.toNat = 0 ∨
      p.1.pushbacks = [] ∧ (p.2.rest.take (itemSize.toNat * nItems.toNat)).length < 2 ^ 31
  | .fgets _ size => size = 0 ∨ size ≠ 1 ∧ p.1.pushbacks = [] ∧ (firstLine p.2.rest).length < size.toNat
  | .ftell => p.2.position < 2 ^ 31
  | _ => True

/-- **The invariant**: both are at the same position, and the pushed-back bytes are the ones that follow it. -/
structure InStep (s : Stream) (r : RefStream) : Prop where
  sound : s.heap.Sound
  file : s.file.file.openFile = .ok ⟨r.content, r.position⟩
  pushed : s.pushbacks.reverse = r.rest.take s.pushbacks.length
  position : r.position < 2 ^ 63
  size : r.content.length < 2 ^ 63

variable {s s' : Stream} {r : RefStream} {o : PosixFileHostObject} {f f' : OpenFile} {h : Heap} {buffer size n p : ℕ}
  {line : List UInt8} {c : UInt8} {l : List UInt8} {itemSize nItems : ℕ} {whence : Whence} {g : GuestFile} {offset : ℤ}

/-! ## Reading and seeking -/

theorem openFile_withOpenFile (hg : g.openFile = .ok f) : (g.withOpenFile f').openFile = .ok f' := by
  cases g with
  | directory => cases hg
  | socket => cases hg
  | file _ | ipaBundleFile _ | resourceFile _ => rfl

theorem isSeekable_of_openFile (hg : g.openFile = .ok f) : g.isSeekable = true := by
  cases g with
  | socket => cases hg
  | directory | file _ | ipaBundleFile _ | resourceFile _ => rfl

theorem startPosition_ok (ho : o.file.openFile = .ok ⟨r.content, r.position⟩) (offset : ℤ) (whence : Whence) :
    ∃ start : ℕ, o.startPosition whence.toInt = .ok (some start) ∧ (start : ℤ) + offset = r.seek offset whence := by
  unfold PosixFileHostObject.startPosition
  rw [ho]
  cases whence with
  | set => exact ⟨0, rfl, by simp [RefStream.seek]⟩
  | cur => exact ⟨r.position, rfl, rfl⟩
  | fromEnd => exact ⟨r.content.length, rfl, rfl⟩

theorem lseek_ok (ho : o.file.openFile = .ok ⟨r.content, r.position⟩) {target : ℕ}
    (ht : r.seek offset whence = target) (hlt : target < 2 ^ 63) :
    ∃ o', o.lseek offset whence.toInt = .ok (target, o') ∧ o'.file.openFile = .ok ⟨r.content, target⟩ := by
  obtain ⟨start, hstart, htarget⟩ := startPosition_ok ho offset whence
  unfold PosixFileHostObject.lseek
  rw [isSeekable_of_openFile ho, hstart]
  simp only [Bool.not_true, Bool.false_eq_true, if_false, ok_bind, htarget, ht, ho]
  rw [if_neg (by omega), if_neg (by omega)]
  exact ⟨_, rfl, openFile_withOpenFile ho⟩

/-- seeking to a negative position, or to one that does not fit -/
theorem lseek_fails (ho : o.file.openFile = .ok ⟨r.content, r.position⟩)
    (ht : ¬(0 ≤ r.seek offset whence ∧ r.seek offset whence < 2 ^ 63)) :
    o.lseek offset whence.toInt = .ok (-1, o) := by
  obtain ⟨start, hstart, htarget⟩ := startPosition_ok ho offset whence
  unfold PosixFileHostObject.lseek
  rw [isSeekable_of_openFile ho, hstart]
  simp only [Bool.not_true, Bool.false_eq_true, if_false, ok_bind, htarget]
  split_ifs with h1 h2
  · rfl
  · rfl
  · omega

theorem read_ok (ho : o.file.openFile = .ok ⟨r.content, r.position⟩) (hb : buffer ≠ 0) (hr : h.toMem.InRange buffer size)
    (hlen : (r.rest.take size).length < 2 ^ 31) :
    ∃ o', o.read h buffer size =
        .ok ((r.rest.take size).length, { h with bytes := store h.bytes buffer (r.rest.take size) }, o') ∧
      o'.file.openFile = .ok ⟨r.content, r.position + (r.rest.take size).length⟩ := by
  unfold PosixFileHostObject.read
  rw [if_neg hb, Mem.checkRange_ok hr, ok_bind, ho, ok_bind]
  simp only
  have hlen' : ((r.content.drop r.position).take size).length < 2 ^ 31 := hlen
  rw [if_pos hlen', pure_eq_ok, ok_bind]
  exact ⟨_, rfl, openFile_withOpenFile ho⟩

/-! ## Memory -/

theorem owned_lt (hs : h.Sound) {x : ℕ} (hx : h.Owned x) : x < 2 ^ 32 := by
  obtain ⟨d, hd, hin⟩ := hx
  exact lt_of_lt_of_le hin.2 (hs.inv.tiles.inside _ (Mem.Allocator.mem_span (Mem.Allocator.Inv.mem_used hd)))

theorem ValidBuffer.inRange (hv : ValidBuffer h p n) (hs : h.Sound) (hp : p < 2 ^ 32) : h.toMem.InRange p n := by
  refine ⟨hv.2.1, ?_⟩
  rcases Nat.eq_zero_or_pos n with rfl | hn
  · exact hp.le
  · have := owned_lt hs (hv.2.2 (n - 1) (by omega))
    omega

theorem ValidBuffer.stored (hv : ValidBuffer h p n) (hs : h.Sound) (hl : l.length ≤ n) :
    Heap.Sound { h with bytes := store h.bytes p l } :=
  hs.store fun i hi => hv.2.2 i (lt_of_lt_of_le hi hl)

/-! ## Each call -/

theorem InStep.moved (hi : InStep s r) {heap : Heap} (hs : heap.Sound) {bytes : List UInt8}
    (hb : bytes.length ≤ r.rest.length)
    (ho : o.file.openFile = .ok ⟨r.content, r.position + bytes.length⟩) :
    InStep ⟨heap, o, []⟩ { r with position := r.position + bytes.length } := by
  refine ⟨hs, ho, rfl, ?_, hi.size⟩
  have h1 := hi.position
  have h2 := hi.size
  have h3 : r.rest.length = r.content.length - r.position := List.length_drop
  show r.position + bytes.length < 2 ^ 63
  omega

/-- reading from the file into the buffer, with nothing pushed back -/
theorem fread_ok (hi : InStep s r) (hp : s.pushbacks = []) (hitem : itemSize ≠ 0)
    (hb : buffer < 2 ^ 32) (hv : ValidBuffer s.heap buffer (itemSize * nItems))
    (hlen : (r.rest.take (itemSize * nItems)).length < 2 ^ 31) (hmul : itemSize * nItems < 2 ^ 32) :
    let bytes := r.rest.take (itemSize * nItems)
    ∃ o', s.fread buffer itemSize nItems =
        .ok (bytes.length / itemSize, ⟨{ s.heap with bytes := store s.heap.bytes buffer bytes }, o', []⟩) ∧
      InStep ⟨{ s.heap with bytes := store s.heap.bytes buffer bytes }, o', []⟩
        { r with position := r.position + bytes.length } := by
  intro bytes
  obtain ⟨o', hread, ho'⟩ := read_ok hi.file hv.1 (hv.inRange hi.sound hb) hlen
  refine ⟨o', ?_, hi.moved (hv.stored hi.sound (List.length_take_le _ _)) (List.take_sublist _ _).length_le ho'⟩
  unfold Stream.fread Stream.freadRest
  rw [if_neg hitem, mul32_ok hmul, ok_bind, if_neg (not_not.2 hp), hread, ok_bind]
  simp only
  rw [if_neg (by omega), Int.toNat_natCast, add_zero, hp, pure_eq_ok]

/-- a `fread` of nothing -/
theorem fread_nothing (hi : InStep s r) (hb : buffer < 2 ^ 32) (hzero : itemSize * nItems = 0)
    (hv : ValidBuffer s.heap buffer 0) : ∃ s', s.fread buffer itemSize nItems = .ok (0, s') ∧ InStep s' r := by
  by_cases hitem : itemSize = 0
  · refine ⟨s, ?_, hi⟩
    unfold Stream.fread
    rw [if_pos hitem, pure_eq_ok]
  by_cases hp : s.pushbacks = []
  · rw [← hzero] at hv
    obtain ⟨o', h1, h2⟩ := fread_ok hi hp hitem hb hv (by rw [hzero, List.take_zero]; decide) (by rw [hzero]; decide)
    rw [hzero, List.take_zero, List.length_nil, Nat.zero_div] at h1
    rw [hzero, List.take_zero] at h2
    exact ⟨_, h1, h2⟩
  · have hw : s.heap.toMem.writeBytes buffer [] = .ok { s.heap.toMem with bytes := store s.heap.bytes buffer [] } := by
      have hc : s.heap.toMem.checkRange buffer ([] : List UInt8).length = .ok () :=
        Mem.checkRange_ok (hv.inRange hi.sound hb)
      unfold Mem.writeBytes
      rw [hc, ok_bind, pure_eq_ok]
    refine ⟨⟨{ s.heap with bytes := store s.heap.bytes buffer [] }, s.file, s.pushbacks⟩, ?_,
      ⟨hv.stored hi.sound (l := []) (Nat.le_refl 0), hi.file, hi.pushed, hi.position, hi.size⟩⟩
    unfold Stream.fread
    rw [if_neg hitem, mul32_ok (by rw [hzero]; decide), ok_bind, if_pos hp, hzero]
    simp only [Nat.min_zero, Nat.sub_zero, List.drop_length, List.reverse_nil, hw, ok_bind, List.take_length, if_true,
      pure_eq_ok]

/-! ## Lines -/

theorem firstLine_length_le (l : List UInt8) : (firstLine l).length ≤ l.length := by
  induction l with
  | nil => exact Nat.le_refl 0
  | cons c l ih =>
    unfold firstLine
    split_ifs
    · simp
    · simpa using ih

/-- The first line is not cut off where there is room for it. -/
theorem firstLine_take {k : ℕ} (h : (firstLine l).length ≤ k) : firstLine (l.take k) = firstLine l := by
  induction l generalizing k with
  | nil => rw [List.take_nil]
  | cons c l ih =>
    unfold firstLine at h
    cases k with
    | zero => split_ifs at h <;> simp at h
    | succ k =>
      rw [List.take_succ_cons]
      unfold firstLine
      split_ifs at h ⊢ with hc
      · rfl
      · rw [ih (by simpa using h)]

theorem RefStream.rest_cons {rest : List UInt8} (h : r.rest = c :: rest) :
    ({ r with position := r.position + 1 } : RefStream).rest = rest := by
  unfold RefStream.rest at *
  rw [← List.drop_drop, h, List.drop_one, List.tail_cons]

theorem ValidBuffer.next (hv : ValidBuffer h p (n + 1)) :
    ValidBuffer { h with bytes := store h.bytes p l } (p + 1) n := by
  refine ⟨by omega, hv.2.1.trans (Nat.le_succ p), fun i hi => ?_⟩
  rw [add_assoc, add_comm 1 i]
  exact hv.2.2 (i + 1) (by omega)

/-- **The loop of `fgets`** where the line is shorter than the buffer; the induction is on the room that is left. -/
theorem fgetsLoop_ok {remaining tmp : ℕ} (hi : InStep s r) (hp : s.pushbacks = [])
    (hv : ValidBuffer s.heap tmp remaining) (hlt : (firstLine r.rest).length < remaining) :
    let line := firstLine r.rest
    ∃ o', s.fgetsLoop remaining tmp =
        .ok (tmp + line.length, ⟨{ s.heap with bytes := store s.heap.bytes tmp line }, o', []⟩) ∧
      InStep ⟨{ s.heap with bytes := store s.heap.bytes tmp line }, o', []⟩
        { r with position := r.position + line.length } := by
  induction remaining generalizing s r tmp with
  | zero => omega
  | succ remaining ih =>
    have hown := owned_lt hi.sound (hv.2.2 remaining (Nat.lt_succ_self _))
    have hv1 : ValidBuffer s.heap tmp (1 * 1) := ⟨hv.1, hv.2.1, fun i hi => hv.2.2 i (by omega)⟩
    obtain ⟨o1, h1, hi1⟩ := fread_ok hi hp Nat.one_ne_zero (by omega) hv1
      (lt_of_le_of_lt (List.length_take_le _ _) (by decide)) (by decide)
    simp only [mul_one, Nat.div_one] at h1 hi1
    cases hr : r.rest with
    | nil =>
      simp only [hr, List.take_nil] at h1 hi1
      refine ⟨o1, ?_, hi1⟩
      unfold Stream.fgetsLoop
      rw [h1, ok_bind]
      rfl
    | cons c rest =>
      simp only [hr, List.take_succ_cons, List.take_zero, List.length_singleton] at h1 hi1
      have hnext : Mem.ptrAdd tmp 1 1 = .ok (tmp + 1) := by
        have hlen : 1 ≤ (firstLine r.rest).length := by
          rw [hr]
          unfold firstLine
          split_ifs <;> simp
        unfold Mem.ptrAdd
        rw [if_pos (by omega), mul_one]
      have hread : ∀ b : Bytes, readChar ⟨store b tmp [c], s.heap.nullSegmentSize⟩ tmp 0 = .ok c := by
        intro b
        have h0 : Mem.ptrAdd tmp 0 1 = .ok tmp := by
          unfold Mem.ptrAdd
          rw [if_pos (by omega)]
          rfl
        have hc : Mem.checkRange ⟨store b tmp [c], s.heap.nullSegmentSize⟩ tmp 1 = .ok () :=
          Mem.checkRange_ok ⟨hv.2.1, by omega⟩
        unfold readChar
        rw [h0, ok_bind, hc, ok_bind, pure_eq_ok]
        exact congrArg Except.ok (store_inside (l := [c]) (i := 0) Nat.one_pos)
      unfold Stream.fgetsLoop
      rw [h1, ok_bind]
      simp only [hnext, ok_bind, hread, Nat.one_ne_zero, if_false]
      by_cases hnl : c = 10
      · rw [if_pos hnl]
        have hline : firstLine (c :: rest) = [c] := by rw [firstLine, if_pos hnl]
        rw [hline]
        exact ⟨o1, rfl, hi1⟩
      · rw [if_neg hnl]
        have hline : firstLine (c :: rest) = c :: firstLine rest := by rw [firstLine, if_neg hnl]
        have hrest := RefStream.rest_cons hr
        obtain ⟨o2, h2, hi2⟩ := ih hi1 rfl hv.next (by rw [hrest]; rw [hr, hline, List.length_cons] at hlt; omega)
        rw [hrest] at h2 hi2
        have hstore : store (store s.heap.bytes tmp [c]) (tmp + 1) (firstLine rest) =
            store s.heap.bytes tmp (c :: firstLine rest) := store_append (l := [c]) _
        simp only [hstore] at h2 hi2
        rw [hline, List.length_cons]
        refine ⟨o2, ?_, ?_⟩
        · rw [h2]
          congr 2
          omega
        · rw [show r.position + ((firstLine rest).length + 1) = r.position + 1 + (firstLine rest).length by omega]
          exact hi2

theorem fgets_ok {str : ℕ} (hi : InStep s r) (hp : s.pushbacks = [])
    (hv : ValidBuffer s.heap str size) (hlt : (firstLine r.rest).length < size) :
    ∃ s', s.fgets str size = .ok (if firstLine r.rest = [] then 0 else str, s') ∧
      (firstLine r.rest ≠ [] →
        load s'.heap.bytes str (firstLine r.rest ++ [0]).length = firstLine r.rest ++ [0]) ∧
      InStep s' { r with position := r.position + (firstLine r.rest).length } := by
  obtain ⟨o', h1, h2⟩ := fgetsLoop_ok hi hp hv hlt
  by_cases hline : firstLine r.rest = []
  · refine ⟨_, ?_, fun h => absurd hline h, h2⟩
    unfold Stream.fgets
    rw [h1, ok_bind, if_pos hline]
    simp only
    rw [if_pos (by rw [hline]; rfl), pure_eq_ok]
  · have hpos := List.length_pos_iff.2 hline
    have hown := hv.2.2 (firstLine r.rest).length hlt
    have hend := owned_lt hi.sound hown
    -- the terminator goes behind the line
    have hstore : store (store s.heap.bytes str (firstLine r.rest)) (str + (firstLine r.rest).length) [0] =
        store s.heap.bytes str (firstLine r.rest ++ [0]) := store_append _
    have hsound : Heap.Sound { s.heap with bytes := store s.heap.bytes str (firstLine r.rest ++ [0]) } :=
      hv.stored hi.sound (by simpa using hlt)
    refine ⟨⟨{ s.heap with bytes := store s.heap.bytes str (firstLine r.rest ++ [0]) }, o', []⟩, ?_,
      fun _ => load_store, ⟨hsound, h2.file, h2.pushed, h2.position, h2.size⟩⟩
    unfold Stream.fgets
    rw [h1, ok_bind, if_neg hline]
    simp only
    have hw : Mem.writeBytes ⟨store s.heap.bytes str (firstLine r.rest), s.heap.nullSegmentSize⟩
        (str + (firstLine r.rest).length) [0] =
        .ok ⟨store s.heap.bytes str (firstLine r.rest ++ [0]), s.heap.nullSegmentSize⟩ := by
      have hc : Mem.checkRange ⟨store s.heap.bytes str (firstLine r.rest), s.heap.nullSegmentSize⟩
          (str + (firstLine r.rest).length) [(0 : UInt8)].length = .ok () :=
        Mem.checkRange_ok ⟨hv.2.1.trans (Nat.le_add_right _ _), Nat.succ_le_of_lt hend⟩
      unfold Mem.writeBytes
      rw [hc, ok_bind, hstore, pure_eq_ok]
    rw [if_neg (by omega), hw, ok_bind, pure_eq_ok]

/-! ## Single characters -/

/-- A byte in memory that is zero otherwise is read as the number that it is. -/
theorem loadWord_byte {m : Bytes} {a : ℕ} (h1 : m (a + 1) = 0) (h2 : m (a + 2) = 0) (h3 : m (a + 3) = 0) :
    (loadWord (store m a [c]) a).toInt32.toInt = c.toNat := by
  have hc := c.toNat_lt
  have hload : load (store m a [c]) a 4 = [c, 0, 0, 0] := by
    have h0 : store m a [c] (a + 0) = c := store_inside (l := [c]) (i := 0) Nat.one_pos
    have hout : ∀ i, 1 ≤ i → store m a [c] (a + i) = m (a + i) := fun i hi => store_outside (.inr (by simp [hi]))
    calc load (store m a [c]) a 4
        = [store m a [c] (a + 0), store m a [c] (a + 1), store m a [c] (a + 2), store m a [c] (a + 3)] := rfl
      _ = [c, 0, 0, 0] := by
        rw [h0, hout 1 (by decide), hout 2 (by decide), hout 3 (by decide), h1, h2, h3]
  have hword : loadWord (store m a [c]) a = UInt32.ofNat c.toNat := by
    rw [loadWord, hload, leWord]
    simp
  have hnat : (UInt32.ofNat c.toNat).toBitVec.toNat = c.toNat := UInt32.toNat_ofNat_of_lt' (hc.trans (by decide))
  rw [hword]
  change (UInt32.ofNat c.toNat).toBitVec.toInt = _
  rw [BitVec.toInt_eq_toNat_of_lt (by rw [hnat]; omega), hnat]

/-- the pushed-back bytes, with the last one in front -/
theorem InStep.pushed_cons (hi : InStep s r) {pushbacks : List UInt8} (hp : s.pushbacks = pushbacks ++ [c]) :
    ∃ rest, r.rest = c :: rest ∧ pushbacks.reverse = rest.take pushbacks.length := by
  have hpushed := hi.pushed
  rw [hp, List.reverse_append, List.reverse_singleton, List.singleton_append, List.length_append,
    List.length_singleton] at hpushed
  cases hr : r.rest with
  | nil =>
    rw [hr, List.take_nil] at hpushed
    exact absurd hpushed (List.cons_ne_nil _ _)
  | cons d rest =>
    rw [hr, List.take_succ_cons] at hpushed
    obtain ⟨rfl, htail⟩ := List.cons.inj hpushed
    exact ⟨rest, rfl, htail⟩

theorem rest_ne_nil (h : r.rest ≠ []) : r.position < r.content.length := by
  by_contra hge
  exact h (List.drop_eq_nil_iff.2 (Nat.le_of_not_lt hge))

theorem fgetc_ok (hi : InStep s r) (hs : Settled (s, r) .fgetc) :
    ∃ s', s.fgetc = .ok ((r.call .fgetc).1.ret, s') ∧ InStep s' (r.call .fgetc).2 := by
  rcases List.eq_nil_or_concat' s.pushbacks with hp | ⟨pushbacks, c, hp⟩
  · obtain ⟨buffer, h1, halloc, hb, hnull⟩ := hs.resolve_left (not_not.2 hp)
    obtain ⟨hs1, d, hd, hbase, hsize, hzero, -⟩ := Heap.alloc_fresh hi.sound (by decide) halloc
    have hmin : 16 ≤ d.size := (le_max_right _ _).trans hsize
    have hlast : buffer + 15 < 2 ^ 32 := owned_lt hs1 ⟨d, hd, by simp only [Mem.Chunk.span, Tiling.Span.Has]; omega⟩
    have hv : ValidBuffer h1 buffer 1 := ⟨hb, hnull, fun i hi =>
      ⟨d, hd, by simp only [Mem.Chunk.span, Tiling.Span.Has]; omega⟩⟩
    obtain ⟨o', hread, ho'⟩ := read_ok (o := s.file) hi.file hb (hv.inRange hs1 (by omega))
      (lt_of_le_of_lt (List.length_take_le 1 _) (by decide))
    have hmoved := hi.moved (hv.stored hs1 (List.length_take_le 1 r.rest)) (List.take_sublist 1 _).length_le ho'
    refine ⟨⟨{ h1 with bytes := store h1.bytes buffer (r.rest.take 1) }, o', []⟩, ?_, ?_⟩
    · unfold Stream.fgetc
      rw [hp]
      simp only [List.getLast?_nil, halloc, ok_bind, hread]
      cases hr : r.rest with
      | nil =>
        simp only [RefStream.call, hr]
        rfl
      | cons c rest =>
        have hword := loadWord_byte (m := h1.bytes) (a := buffer) (c := c)
          (hzero _ (by simp only [Mem.Chunk.span, Tiling.Span.Has]; omega))
          (hzero _ (by simp only [Mem.Chunk.span, Tiling.Span.Has]; omega))
          (hzero _ (by simp only [Mem.Chunk.span, Tiling.Span.Has]; omega))
        have hrd : Mem.readU32 ⟨store h1.bytes buffer [c], h1.nullSegmentSize⟩ buffer =
            .ok (loadWord (store h1.bytes buffer [c]) buffer) := Mem.readU32_ok ⟨hnull, by omega⟩
        simp only [RefStream.call, hr, List.take_succ_cons, List.take_zero, List.length_singleton, Nat.cast_one, hrd,
          ok_bind, hword]
        rfl
    · cases hr : r.rest with
      | nil =>
        simp only [RefStream.call, hr, List.take_nil] at hmoved ⊢
        exact hmoved
      | cons c rest =>
        have hcall : (r.call .fgetc).2 = { r with position := r.position + 1 } := by simp only [RefStream.call, hr]
        have htake : (c :: rest).take 1 = [c] := List.take_succ_cons
        rw [hcall, htake]
        rw [hr, htake] at hmoved
        exact hmoved
  · obtain ⟨rest, hr, hpushed⟩ := hi.pushed_cons hp
    have hlt := rest_ne_nil (r := r) (by rw [hr]; exact List.cons_ne_nil _ _)
    have hsize := hi.size
    have htarget : r.seek 1 .cur = ((r.position + 1 : ℕ) : ℤ) := by simp [RefStream.seek]
    obtain ⟨o', h1, h2⟩ := lseek_ok hi.file htarget (by omega)
    have hrest := RefStream.rest_cons hr
    simp only [RefStream.call, hr]
    refine ⟨⟨s.heap, o', pushbacks⟩, ?_, hi.sound, h2, ?_, ?_, hi.size⟩
    · unfold Stream.fgetc
      rw [hp, List.getLast?_append, List.getLast?_singleton]
      simp only [Option.some_or]
      change (do let (newOffset, file) ← s.file.lseek 1 Whence.cur.toInt; _) = _
      rw [h1, ok_bind]
      simp only
      rw [assert_ok (by simp), ok_bind, List.dropLast_concat, pure_eq_ok]
    · rw [hrest]
      exact hpushed
    · show r.position + 1 < 2 ^ 63
      omega

theorem ungetc_ok (hi : InStep s r) (hpos : 0 < r.position) (hc : r.content[r.position - 1]? = some c) :
    ∃ s', s.ungetc c.toNat = .ok (c.toNat, s') ∧ InStep s' { r with position := r.position - 1 } := by
  have hlt := hi.position
  have hbyte := c.toNat_lt
  have hstay : r.seek 0 .cur = r.position := add_zero _
  obtain ⟨o1, h1, h2⟩ := lseek_ok hi.file hstay hlt
  have htarget : ({ r with position := r.position } : RefStream).seek (-1) .cur = ((r.position - 1 : ℕ) : ℤ) := by
    simp only [RefStream.seek]
    omega
  obtain ⟨o2, h3, h4⟩ := lseek_ok (r := r) (o := o1) h2 htarget (by omega)
  refine ⟨⟨s.heap, o2, s.pushbacks ++ [c]⟩, ?_, hi.sound, h4, ?_, ?_, hi.size⟩
  · have h1' : s.file.lseek 0 1 = .ok (r.position, o1) := h1
    have h3' : o1.lseek (-1) 1 = .ok ((r.position - 1 : ℕ), o2) := h3
    unfold Stream.ungetc
    rw [assert_ok (by simp), ok_bind, h1', ok_bind]
    simp only
    rw [assert_ok (by simpa using hpos), ok_bind, h3', ok_bind]
    simp only
    rw [assert_ok (by simp), ok_bind, if_pos (by omega), Int.toNat_natCast, UInt8.ofNat_toNat, pure_eq_ok]
  · -- the byte is the one before the position
    have hrest : ({ r with position := r.position - 1 } : RefStream).rest = c :: r.rest := by
      have hidx : r.position - 1 < r.content.length := (List.getElem?_eq_some_iff.1 hc).1
      have hget : r.content[r.position - 1] = c := (List.getElem?_eq_some_iff.1 hc).2
      unfold RefStream.rest
      rw [List.drop_eq_getElem_cons hidx, hget, Nat.sub_add_cancel hpos]
    rw [hrest, List.reverse_append, List.reverse_singleton, List.singleton_append, List.length_append,
      List.length_singleton, List.take_succ_cons, hi.pushed]
  · show r.position - 1 < 2 ^ 63
    omega

theorem fseek_ok (hi : InStep s r) (offset : Int32) (whence : Whence) :
    ∃ s', s.fseek offset.toInt whence.toInt = .ok ((r.call (.fseek offset whence)).1.ret, s') ∧
      InStep s' (r.call (.fseek offset whence)).2 := by
  have hwhence : (whence.toInt == 0 || whence.toInt == 1 || whence.toInt == 2) = true := by cases whence <;> rfl
  unfold Stream.fseek
  simp only [RefStream.call]
  rw [assert_ok hwhence, ok_bind]
  by_cases ht : 0 ≤ r.seek offset.toInt whence ∧ r.seek offset.toInt whence < 2 ^ 63
  · obtain ⟨o', h1, h2⟩ := lseek_ok hi.file
      (Int.toNat_of_nonneg ht.1).symm (by omega)
    rw [if_pos ht, h1, ok_bind]
    simp only
    rw [if_neg (by omega), pure_eq_ok]
    refine ⟨_, rfl, hi.sound, h2, rfl, ?_, hi.size⟩
    show (r.seek offset.toInt whence).toNat < 2 ^ 63
    omega
  · rw [if_neg ht, lseek_fails hi.file ht, ok_bind]
    exact ⟨s, rfl, hi⟩

theorem ftell_ok (hi : InStep s r) (hlt : r.position < 2 ^ 31) :
    ∃ s', s.ftell = .ok (r.position, s') ∧ InStep s' r := by
  have hstay : r.seek 0 .cur = r.position := add_zero _
  obtain ⟨o', h1, h2⟩ := lseek_ok hi.file hstay hi.position
  have h1' : s.file.lseek 0 1 = .ok (r.position, o') := h1
  refine ⟨⟨s.heap, o', s.pushbacks⟩, ?_, hi.sound, h2, hi.pushed, hi.position, hi.size⟩
  unfold Stream.ftell
  rw [h1', ok_bind]
  simp only
  rw [if_neg (by omega), if_pos (by omega), pure_eq_ok]

/-! ## Runs -/

theorem comparedStep_ok {o : StdioOp} {ret : ℤ} (hc : s.call o = .ok (ret, s')) (hret : ret = (r.call o).1.ret)
    (hbytes : load s'.heap.bytes (r.call o).1.address (r.call o).1.bytes.length = (r.call o).1.bytes) :
    comparedStep (s, r) o = .ok (s', (r.call o).2) := by
  unfold comparedStep
  simp only [hc]
  exact if_pos ⟨hret, hbytes⟩

theorem Settled.fgets {str size : UInt32} (hs : Settled (s, r) (.fgets str size)) (hzero : size ≠ 0) :
    size ≠ 1 ∧ s.pushbacks = [] ∧ (firstLine r.rest).length < size.toNat := hs.resolve_left hzero

/-- **Step rule.** A settled call returns and delivers what C says, and the two stay in step. -/
theorem settled_step (hi : InStep s r) {o : StdioOp} (hl : LegalCall (s, r) o) (hs : Settled (s, r) o) :
    ∃ t, comparedStep (s, r) o = .ok t ∧ InStep t.1 t.2 := by
  cases o with
  | fgetc =>
    obtain ⟨s', h1, h2⟩ := fgetc_ok hi hs
    refine ⟨_, comparedStep_ok (o := .fgetc) h1 rfl ?_, h2⟩
    simp only [RefStream.call]
    split <;> rfl
  | ungetc c =>
    obtain ⟨s', h1, h2⟩ := ungetc_ok hi hl.1 hl.2
    exact ⟨_, comparedStep_ok (o := .ungetc c) h1 rfl rfl, h2⟩
  | fread buffer itemSize nItems =>
    have hcall : s.call (.fread buffer itemSize nItems) = (do
        let (n, s) ← s.fread buffer.toNat itemSize.toNat nItems.toNat
        pure ((n : ℤ), s)) := rfl
    by_cases hzero : itemSize.toNat * nItems.toNat = 0
    · have hv : ValidBuffer s.heap buffer.toNat 0 := by
        have h : ValidBuffer s.heap buffer.toNat (itemSize.toNat * nItems.toNat) := hl
        rwa [hzero] at h
      obtain ⟨s', h1, h2⟩ := fread_nothing hi buffer.toNat_lt hzero hv
      rw [h1, ok_bind] at hcall
      simp only [pure_eq_ok] at hcall
      have hr : r.call (.fread buffer itemSize nItems) = (⟨0, buffer.toNat, []⟩, r) := by
        simp only [RefStream.call, hzero, List.take_zero, List.length_nil, Nat.zero_div, add_zero]
        rfl
      refine ⟨_, comparedStep_ok hcall ?_ ?_, ?_⟩
      · rw [hr]
        rfl
      · rw [hr]
        rfl
      · rw [hr]
        exact h2
    · obtain ⟨hp, hlen⟩ := hs.resolve_left hzero
      have hitem : itemSize.toNat ≠ 0 := fun h => hzero (by rw [h, zero_mul])
      have hlast := owned_lt hi.sound (hl.2.2 (itemSize.toNat * nItems.toNat - 1) (by omega))
      have hnull : buffer.toNat ≠ 0 := hl.1
      obtain ⟨o', h1, h2⟩ := fread_ok hi hp hitem buffer.toNat_lt hl hlen (by omega)
      rw [h1, ok_bind] at hcall
      simp only [pure_eq_ok] at hcall
      exact ⟨_, comparedStep_ok hcall rfl load_store, h2⟩
  | fgets str size =>
    have hcall : s.call (.fgets str size) = (do
        let (p, s) ← s.fgets str.toNat size.toNat
        pure ((p : ℤ), s)) := rfl
    by_cases hzero : size = 0
    · subst hzero
      have h0 : s.fgets str.toNat (0 : UInt32).toNat = .ok (0, s) := by
        show (do let (tmp, s) ← s.fgetsLoop 0 str.toNat; _) = _
        unfold Stream.fgetsLoop
        rw [pure_eq_ok, ok_bind]
        simp only [if_true, pure_eq_ok]
      rw [h0, ok_bind] at hcall
      simp only [pure_eq_ok] at hcall
      exact ⟨_, comparedStep_ok hcall rfl rfl, hi⟩
    · obtain ⟨hone, hp, hlt⟩ := hs.fgets hzero
      obtain ⟨s', h1, h2, h3⟩ := fgets_ok hi hp hl hlt
      rw [h1, ok_bind] at hcall
      simp only [pure_eq_ok] at hcall
      have hline : firstLine (r.rest.take (size.toNat - 1)) = firstLine r.rest := firstLine_take (by omega)
      by_cases hempty : firstLine r.rest = []
      · have hr : r.call (.fgets str size) = (⟨0, 0, []⟩, r) := by
          simp only [RefStream.call, if_neg hzero, if_neg hone, hline, if_pos hempty]
        rw [hempty] at h3
        refine ⟨_, comparedStep_ok hcall ?_ ?_, ?_⟩
        · rw [hr, if_pos hempty]
          rfl
        · rw [hr]
          rfl
        · rw [hr]
          exact h3
      · have hr : r.call (.fgets str size) = (⟨str.toNat, str.toNat, firstLine r.rest ++ [0]⟩,
            { r with position := r.position + (firstLine r.rest).length }) := by
          simp only [RefStream.call, if_neg hzero, if_neg hone, hline, if_neg hempty]
        refine ⟨_, comparedStep_ok hcall ?_ ?_, ?_⟩
        · rw [hr, if_neg hempty]
        · rw [hr]
          exact h2 hempty
        · rw [hr]
          exact h3
  | fseek offset whence =>
    obtain ⟨s', h1, h2⟩ := fseek_ok hi offset whence
    refine ⟨_, comparedStep_ok (o := .fseek offset whence) h1 rfl ?_, h2⟩
    simp only [RefStream.call]
    split_ifs <;> rfl
  | ftell =>
    have hlt : r.position < 2 ^ 31 := hs
    obtain ⟨s', h1, h2⟩ := ftell_ok hi hlt
    have hr : r.call .ftell = (⟨r.position, 0, []⟩, r) := if_pos hlt
    refine ⟨_, comparedStep_ok (o := .ftell) h1 ?_ ?_, ?_⟩
    · rw [hr]
    · rw [hr]
      rfl
    · rw [hr]
      exact h2
  | memory o =>
    obtain ⟨h, ho⟩ := hl
    have hcall : s.call (.memory o) = (do
        let heap ← Heap.step s.heap o
        pure (0, { s with heap })) := rfl
    rw [ho, ok_bind] at hcall
    simp only [pure_eq_ok] at hcall
    exact ⟨_, comparedStep_ok hcall rfl rfl,
      ⟨Heap.step_sound _ _ _ hi.sound ho, hi.file, hi.pushed, hi.position, hi.size⟩⟩

/-- a stream that has just been opened on a file -/
theorem opened_inStep (hs : h.Sound) (ho : o.file.openFile = .ok ⟨r.content, 0⟩) (hsize : r.content.length < 2 ^ 63) :
    InStep ⟨h, o, []⟩ ⟨r.content, 0⟩ :=
  ⟨hs, ho, rfl, Nat.two_pow_pos 63, hsize⟩

instance (h : Heap) (p n : ℕ) : Decidable (ValidBuffer h p n) := inferInstanceAs (Decidable (_ ∧ _ ∧ _))

instance (p : Stream × RefStream) : (o : StdioOp) → Decidable (LegalCall p o)
  | .ungetc _ => inferInstanceAs (Decidable (_ ∧ _))
  | .fread _ _ _ | .fgets _ _ => inferInstanceAs (Decidable (ValidBuffer _ _ _))
  | .memory o =>
    match hstep : Heap.step p.1.heap o with
    | .ok h => isTrue ⟨h, hstep⟩
    | .error _ => isFalse fun ⟨_, h⟩ => nomatch hstep.symm.trans h
  | .fgetc | .fseek _ _ | .ftell => isTrue trivial

instance (p : Stream × RefStream) : (o : StdioOp) → Decidable (Settled p o)
  | .fgetc =>
    match halloc : p.1.heap.alloc 1 with
    | .ok (buffer, h) =>
      decidable_of_iff (p.1.pushbacks ≠ [] ∨ buffer ≠ 0 ∧ h.nullSegmentSize ≤ buffer) (by
        refine or_congr Iff.rfl ⟨fun hb => ⟨buffer, h, halloc, hb⟩, ?_⟩
        rintro ⟨buffer', h', ha, hb⟩
        cases halloc.symm.trans ha
        exact hb)
    | .error _ =>
      decidable_of_iff (p.1.pushbacks ≠ []) (by
        refine ⟨Or.inl, ?_⟩
        rintro (hp | ⟨buffer', h', ha, -⟩)
        · exact hp
        · cases halloc.symm.trans ha)
  | .fread _ _ _ => inferInstanceAs (Decidable (_ ∨ _ ∧ _))
  | .fgets _ _ => inferInstanceAs (Decidable (_ ∨ _ ∧ _ ∧ _))
  | .ftell => inferInstanceAs (Decidable (_ < _))
  | .ungetc _ | .fseek _ _ | .memory _ => isTrue trivial

/-- a stream on the file "ab\ncd", whose program has 16 bytes of memory -/
def sampleStream : Stream :=
  { heap := ((Heap.step Heap.sampleStart (.alloc 16)).toOption).getD Heap.sampleStart
    file := { file := .file ⟨[97, 98, 10, 99, 100], 0⟩, needsFlush := false, reachedEof := false, flags := 0 }
    pushbacks := [] }

def sampleRef : RefStream := ⟨[97, 98, 10, 99, 100], 0⟩

/-- the stack of the main thread as a buffer -/
def sampleBuffer : UInt32 := UInt32.ofNat Mem.mainThreadStackLowEnd

def settledOps : List StdioOp :=
  [.fgetc, .fgetc, .ungetc 98, .ungetc 97, .ftell, .fgetc, .fgetc, .fgets sampleBuffer 8, .fread sampleBuffer 2 2,
    .fgetc, .fseek (-5) .fromEnd, .fread sampleBuffer 1 4, .ftell]

/-- after a byte has been read and pushed back -/
def pushedBack : Stream × RefStream :=
  (run comparedStep (sampleStream, sampleRef) [.fgetc, .ungetc 97]).toOption.getD (sampleStream, sampleRef)

end TouchHLE
