/-
Guest memory together with its allocator (`mem.rs`), and what is in the bytes that no allocation owns.

- `alloc`, `calloc`, `realloc`, `free`, `refurbish`, `write`: the operations on `Mem`.
- `Clean`: every byte outside the used chunks is zero.
- `allocated`, `freed`: what an allocation and a free do to the used chunks, whatever they are called with.
- `unused_bytes_zero`: memory is clean after every run, fresh allocations read as zero and a refurbished memory is zero.
-/
import TouchHLE.Mem.AddressSpace
import TouchHLE.Mem.Memory

namespace TouchHLE

open Words Machine Mem

/-- `Mem` with all its fields -/
structure Heap extends Mem where
  allocator : Allocator
  zeroMemoryOnFree : Bool

namespace Heap

def new : Except Panic Heap := do
  let allocator ← Allocator.new
  pure { bytes := fun _ => 0, nullSegmentSize := 0, allocator, zeroMemoryOnFree := true }

/-- `bytes_at_mut(ptr, count).fill(0)` -/
def zero (h : Heap) (ptr count : ℕ) : Except Panic Heap := do
  let m ← h.toMem.writeBytes ptr (List.replicate count 0)
  pure { h with toMem := m }

/-- `copy_within`, which is bounds-checked but does not know about null pages -/
def memmove (h : Heap) (dest src size : ℕ) : Except Panic Heap :=
  if src + size ≤ 2 ^ 32 ∧ dest + size ≤ 2 ^ 32 then
    pure { h with bytes := store h.bytes dest (load h.bytes src size) }
  else throw .sliceRange

def alloc (h : Heap) (size : ℕ) : Except Panic (ℕ × Heap) := do
  let (ptr, allocator) ← h.allocator.alloc size
  let h := { h with allocator }
  if !h.zeroMemoryOnFree then do
    let h ← h.zero ptr size
    pure (ptr, h)
  else pure (ptr, h)

def calloc (h : Heap) (size : ℕ) : Except Panic (ℕ × Heap) := do
  let (ptr, h) ← h.alloc size
  let h ← h.zero ptr size
  pure (ptr, h)

def free (h : Heap) (ptr : ℕ) : Except Panic Heap := do
  let (size, allocator) ← h.allocator.free ptr
  let h := { h with allocator }
  if h.zeroMemoryOnFree then h.zero ptr size else pure h

def realloc (h : Heap) (oldPtr size : ℕ) : Except Panic (ℕ × Heap) :=
  if oldPtr = 0 then h.alloc size
  else do
    let oldSize ← h.allocator.findAllocatedSize oldPtr
    if oldSize ≥ size then pure (oldPtr, h)
    else do
      let (newPtr, h) ← h.alloc size
      let h ← h.memmove newPtr oldPtr oldSize
      let h ← h.free oldPtr
      pure (newPtr, h)

/-- `bytes_mut()[base..][..size].fill(0)` for a drained chunk -/
def zeroChunk (bytes : Bytes) (c : Chunk) : Except Panic Bytes :=
  if c.base + c.size ≤ 2 ^ 32 then .ok (store bytes c.base (List.replicate c.size 0)) else .error .sliceRange

def refurbish (h : Heap) : Except Panic Heap := do
  let (usedChunks, allocator) ← h.allocator.resetAndDrainUsedChunks
  let bytes ← usedChunks.foldlM zeroChunk h.bytes
  pure { h with bytes, allocator, nullSegmentSize := 0 }

/-! ## Runs -/

inductive Op where
  | alloc (size : UInt32)
  | calloc (size : UInt32)
  | realloc (oldPtr size : UInt32)
  | free (ptr : UInt32)
  | refurbish
  /-- the guest writes -/
  | write (ptr : UInt32) (value : List UInt8)
deriving DecidableEq, Repr

/-- the address belongs to a used chunk -/
def Owned (h : Heap) (x : ℕ) : Prop := ∃ c ∈ h.allocator.usedChunks.chunks, c.span.Has x

instance (h : Heap) (x : ℕ) : Decidable (h.Owned x) := inferInstanceAs (Decidable (∃ c ∈ _, _))

def step (h : Heap) : Op → Except Panic Heap
  | .alloc size => Prod.snd <$> h.alloc size.toNat
  | .calloc size => Prod.snd <$> h.calloc size.toNat
  | .realloc oldPtr size => Prod.snd <$> h.realloc oldPtr.toNat size.toNat
  | .free ptr => h.free ptr.toNat
  | .refurbish => h.refurbish
  | .write ptr value => do
    -- only writes that stay inside used chunks are considered
    assert (∀ i < value.length, h.Owned (ptr.toNat + i)) .notEnabled
    let m ← h.toMem.writeBytes ptr.toNat value
    pure { h with toMem := m }

end Heap

/-! ## What the allocator gives and takes -/

namespace Mem.Allocator

open Tiling

variable {a a' : Allocator} {c d : Chunk} {size base p n : ℕ}

/-- an allocation adds a chunk that is large enough and that no used chunk overlaps -/
theorem allocated (hi : a.Inv) (hlt : size < 2 ^ 32) (h : a.alloc size = .ok (p, a')) : ∃ c, c.base = p ∧
    max size minChunkSize ≤ c.size ∧ a'.Inv ∧ a'.usedChunks.chunks.Perm (c :: a.usedChunks.chunks) ∧
    ∀ x, c.span.Has x → ∀ d ∈ a.usedChunks.chunks, ¬ d.span.Has x := by
  rcases alloc_cases hi hlt with ⟨existing, c, a₁, h1, h2, h3, h4, -, h5, h6⟩ | ⟨⟨e, h1, -⟩, -⟩
  · obtain ⟨rfl, rfl⟩ := Prod.mk.inj (Except.ok.inj (h1.symm.trans h))
    have hneed : max size minChunkSize ≤ neededSize size := by
      rcases alignedSize_cases hlt with ⟨-, h7, h8⟩ | ⟨-, h7⟩
      · exact max_le h8 h7.min
      · have hmin : minChunkSize ≤ 2 ^ 32 := by decide
        exact max_le (hlt.le.trans h7) (hmin.trans h7)
    have hsize : c.size = neededSize size := congrArg Prod.snd h5.1
    refine ⟨c, rfl, hsize ▸ hneed, h2, h6, fun x hx d hd => ?_⟩
    have hperm : a₁.chunks.Perm (c :: (a.usedChunks.chunks ++ a₁.unusedChunks.list)) := h6.append_right _
    exact (tiles_perm hperm h2.tiles).not_both (mem_span (List.mem_append_left _ hd)) hx
  · cases h1.symm.trans h

/-- the main thread's stack cannot be freed: the address after it does not exist -/
theorem free_stack (hi : a.Inv) : a.free mainThreadStackLowEnd = .error .overflow := by
  obtain ⟨used, h1, -, -⟩ := ChunkMap.removeWithBase_some hi.used hi.stack rfl
  have hover : add32 mainThreadStack.lastByte 1 = .error .overflow := by decide
  have hadj : removeAdjacent a.unusedChunks mainThreadStack = .error .overflow := by
    unfold removeAdjacent
    rw [hover, error_bind]
  have hbase : mainThreadStack.base = mainThreadStackLowEnd := rfl
  rw [hbase] at h1
  unfold free
  simp only [h1, hadj, error_bind]

/-- a free takes away the used chunk at the address, if there is one -/
theorem freed (hi : a.Inv) (h : a.free base = .ok (n, a')) : (n = 0 ∧ a' = a) ∨
    ∃ c, c.base = base ∧ n = c.size ∧ a'.Inv ∧ a.usedChunks.chunks.Perm (c :: a'.usedChunks.chunks) := by
  rcases ChunkMap.removeWithBase_cases hi.used base with ⟨h1, -⟩ | ⟨c, used, -, rfl, -, h3⟩
  · left
    unfold free at h
    simp only [h1, pure_eq_ok] at h
    cases h
    exact ⟨rfl, rfl⟩
  · right
    have hc : c ∈ a.usedChunks.chunks := h3.mem_iff.2 List.mem_cons_self
    have hne : c ≠ mainThreadStack := by
      rintro rfl
      cases (free_stack hi).symm.trans h
    obtain ⟨a₁, h4, h5, h6⟩ := free_ok hi hc hne
    cases h4.symm.trans h
    exact ⟨c, rfl, rfl, h5, h6⟩

end Mem.Allocator

/-! ## Clean memory -/

namespace Heap

open Tiling

/-- every byte outside the used chunks is zero -/
def Clean (h : Heap) : Prop := ∀ x < 2 ^ 32, ¬ h.Owned x → h.bytes x = 0

structure Sound (h : Heap) : Prop where
  inv : h.allocator.Inv
  zeroing : h.zeroMemoryOnFree = true
  clean : h.Clean

variable {h h' : Heap} {p ptr size count : ℕ} {l : List UInt8}

/-- writing inside used chunks -/
theorem Sound.store (hs : h.Sound) (hin : ∀ i < l.length, h.Owned (p + i)) :
    Sound { h with bytes := store h.bytes p l } := by
  refine ⟨hs.inv, hs.zeroing, fun x hx hno => ?_⟩
  have hout : x < p ∨ p + l.length ≤ x := by
    by_contra hc
    push Not at hc
    have hxp := hin (x - p) (by omega)
    rw [Nat.add_sub_cancel' hc.1] at hxp
    exact hno hxp
  exact (store_outside hout).trans (hs.clean x hx hno)

theorem zero_cases (hz : h.zero p count = .ok h') :
    p + count ≤ 2 ^ 32 ∧ h' = { h with bytes := Words.store h.bytes p (List.replicate count 0) } := by
  obtain ⟨m, h1, h2⟩ := bind_eq_ok.1 hz
  obtain ⟨hr, rfl⟩ := Mem.writeBytes_cases h1
  cases h2
  exact ⟨by simpa using hr.2, rfl⟩

theorem zeroed {b : Bytes} {x : ℕ} (h1 : p ≤ x) (h2 : x < p + count) :
    Words.store b p (List.replicate count 0) x = 0 := by
  obtain ⟨i, rfl⟩ := Nat.exists_eq_add_of_le h1
  rw [store_inside (by simp; omega), List.getElem_replicate]

/-- a range that starts at the base of a used chunk and is not longer than it -/
theorem owned_of_chunk {c : Chunk} (hc : c ∈ h.allocator.usedChunks.chunks) (hle : size ≤ c.size) :
    ∀ i < size, h.Owned (c.base + i) := fun _ hi =>
  ⟨c, hc, Nat.le_add_right _ _, Nat.add_lt_add_left (hi.trans_le hle) _⟩

/-- **Allocation.** The new chunk reads as zero, and memory stays clean. -/
theorem alloc_fresh (hs : h.Sound) (hlt : size < 2 ^ 32) (ha : h.alloc size = .ok (p, h')) : h'.Sound ∧
    ∃ c ∈ h'.allocator.usedChunks.chunks, c.base = p ∧ max size minChunkSize ≤ c.size ∧
      (∀ x, c.span.Has x → h'.bytes x = 0) ∧ ∀ d ∈ h.allocator.usedChunks.chunks, d ∈ h'.allocator.usedChunks.chunks := by
  obtain ⟨⟨q, a⟩, h1, h2⟩ := bind_eq_ok.1 ha
  obtain ⟨c, hb, hsize, hinv, hperm, hapart⟩ := Allocator.allocated hs.inv hlt h1
  have hflag := hs.zeroing
  simp only [hflag, Bool.not_true, Bool.false_eq_true, if_false, pure_eq_ok] at h2
  cases h2
  have hc : c ∈ a.usedChunks.chunks := hperm.mem_iff.2 List.mem_cons_self
  have hkeep : ∀ d ∈ h.allocator.usedChunks.chunks, d ∈ a.usedChunks.chunks := fun d hd =>
    hperm.mem_iff.2 (List.mem_cons_of_mem _ hd)
  refine ⟨⟨hinv, rfl, fun x hx hno => hs.clean x hx ?_⟩, c, hc, hb, hsize, fun x hx => ?_, hkeep⟩
  · rintro ⟨d, hd, hdx⟩
    exact hno ⟨d, hkeep d hd, hdx⟩
  · have hin := hinv.tiles.inside _ (Allocator.mem_span (Allocator.Inv.mem_used hc))
    refine hs.clean x (lt_of_lt_of_le hx.2 hin) ?_
    rintro ⟨d, hd, hdx⟩
    exact hapart x hx d hd hdx

theorem calloc_fresh (hs : h.Sound) (hlt : size < 2 ^ 32) (ha : h.calloc size = .ok (p, h')) : h'.Sound ∧
    ∃ c ∈ h'.allocator.usedChunks.chunks, c.base = p ∧ size ≤ c.size ∧ ∀ x, c.span.Has x → h'.bytes x = 0 := by
  obtain ⟨⟨q, h1⟩, e1, e2⟩ := bind_eq_ok.1 ha
  obtain ⟨h2, e3, e4⟩ := bind_eq_ok.1 e2
  cases e4
  obtain ⟨hs1, c, hc, rfl, hmax, hz, -⟩ := alloc_fresh hs hlt e1
  have hsize : size ≤ c.size := (le_max_left _ _).trans hmax
  obtain ⟨-, rfl⟩ := zero_cases e3
  refine ⟨hs1.store (by simpa using owned_of_chunk hc hsize), c, hc, rfl, hsize, fun x hx => ?_⟩
  by_cases hin : x < c.base + size
  · exact zeroed hx.1 hin
  · exact (store_outside (by simp; omega)).trans (hz x hx)

/-- **Freeing.** What was in the chunk is gone. -/
theorem free_sound (hs : h.Sound) (hf : h.free ptr = .ok h') : h'.Sound := by
  obtain ⟨⟨n, a⟩, h1, h2⟩ := bind_eq_ok.1 hf
  have hz : Heap.zero { h with allocator := a } ptr n = .ok h' := by
    rw [← h2]
    exact (if_pos hs.zeroing).symm
  obtain ⟨-, rfl⟩ := zero_cases hz
  rcases Allocator.freed hs.inv h1 with ⟨rfl, rfl⟩ | ⟨c, rfl, rfl, hinv, hperm⟩
  · exact hs.store (by simp)
  · refine ⟨hinv, hs.zeroing, fun x hx hno => ?_⟩
    by_cases hin : c.span.Has x
    · exact zeroed hin.1 hin.2
    · have hout : x < c.base ∨ c.base + (List.replicate c.size (0 : UInt8)).length ≤ x := by
        simp only [Chunk.span, Span.Has] at hin
        simp only [List.length_replicate]
        omega
      refine (store_outside hout).trans (hs.clean x hx ?_)
      rintro ⟨d, hd, hdx⟩
      rcases List.mem_cons.1 (hperm.mem_iff.1 hd) with rfl | hd'
      · exact hin hdx
      · exact hno ⟨d, hd', hdx⟩

theorem realloc_sound (hs : h.Sound) (hlt : size < 2 ^ 32) (hr : h.realloc ptr size = .ok (p, h')) : h'.Sound := by
  unfold realloc at hr
  split_ifs at hr with hnull
  · exact (alloc_fresh hs hlt hr).1
  obtain ⟨oldSize, -, h2⟩ := bind_eq_ok.1 hr
  split_ifs at h2 with hbig
  · cases h2
    exact hs
  obtain ⟨⟨q, h3⟩, e1, e2⟩ := bind_eq_ok.1 h2
  obtain ⟨h4, e3, e4⟩ := bind_eq_ok.1 e2
  obtain ⟨h5, e5, e6⟩ := bind_eq_ok.1 e4
  cases e6
  obtain ⟨hs3, c, hc, rfl, hsize, -, -⟩ := alloc_fresh hs hlt e1
  unfold memmove at e3
  split_ifs at e3
  cases e3
  -- the contents move into the new chunk, which is longer
  refine free_sound (hs3.store ?_) e5
  rw [load_length]
  exact owned_of_chunk hc (by omega)

/-! ## Refurbishing -/

theorem zeroChunks {b b' : Bytes} {cs : List Chunk} (hz : cs.foldlM zeroChunk b = .ok b') (x : ℕ) :
    (∃ c ∈ cs, c.span.Has x) ∧ b' x = 0 ∨ (¬ ∃ c ∈ cs, c.span.Has x) ∧ b' x = b x := by
  induction cs generalizing b with
  | nil =>
    cases hz
    exact Or.inr ⟨by simp, rfl⟩
  | cons c cs ih =>
    rw [List.foldlM_cons] at hz
    obtain ⟨b1, h1, h2⟩ := bind_eq_ok.1 hz
    unfold zeroChunk at h1
    split_ifs at h1
    cases h1
    have hstep : c.span.Has x ∧ Words.store b c.base (List.replicate c.size 0) x = 0 ∨
        ¬ c.span.Has x ∧ Words.store b c.base (List.replicate c.size 0) x = b x := by
      by_cases hin : c.span.Has x
      · exact Or.inl ⟨hin, zeroed hin.1 hin.2⟩
      · refine Or.inr ⟨hin, store_outside ?_⟩
        simp only [Chunk.span, Span.Has] at hin
        simp only [List.length_replicate]
        omega
    rcases ih h2 with ⟨⟨d, hd, hdx⟩, hz⟩ | ⟨hno, hz⟩
    · exact Or.inl ⟨⟨d, List.mem_cons_of_mem _ hd, hdx⟩, hz⟩
    · rcases hstep with ⟨hin, h0⟩ | ⟨hin, h0⟩
      · exact Or.inl ⟨⟨c, List.mem_cons_self, hin⟩, hz.trans h0⟩
      · refine Or.inr ⟨?_, hz.trans h0⟩
        rintro ⟨d, hd, hdx⟩
        rcases List.mem_cons.1 hd with rfl | hd
        · exact hin hdx
        · exact hno ⟨d, hd, hdx⟩

/-- **Refurbishing.** All of memory is zero afterwards. -/
theorem refurbish_zero (hs : h.Sound) (hr : h.refurbish = .ok h') : h'.Sound ∧ ∀ x < 2 ^ 32, h'.bytes x = 0 := by
  obtain ⟨⟨cs, a⟩, h1, h2⟩ := bind_eq_ok.1 hr
  obtain ⟨b, h3, h4⟩ := bind_eq_ok.1 h2
  cases h4
  obtain ⟨a', h5, h6⟩ := bind_eq_ok.1 h1
  obtain ⟨rfl, rfl⟩ := Prod.mk.inj (Except.ok.inj h6)
  obtain ⟨a₀, hnew, hinv, -⟩ := Allocator.new_ok
  obtain rfl : a₀ = a' := Except.ok.inj (hnew.symm.trans h5)
  have hzero : ∀ x < 2 ^ 32, b x = 0 := fun x hx => by
    rcases zeroChunks h3 x with ⟨-, hz⟩ | ⟨hno, hz⟩
    · exact hz
    · exact hz.trans (hs.clean x hx hno)
  exact ⟨⟨hinv, hs.zeroing, fun x hx _ => hzero x hx⟩, hzero⟩

/-! ## Runs -/

theorem new_sound (hn : Heap.new = .ok h) : h.Sound := by
  obtain ⟨a, h1, h2⟩ := bind_eq_ok.1 hn
  cases h2
  obtain ⟨a₀, hnew, hinv, -⟩ := Allocator.new_ok
  obtain rfl : a₀ = a := Except.ok.inj (hnew.symm.trans h1)
  exact ⟨hinv, rfl, fun _ _ _ => rfl⟩

theorem map_snd_ok {α : Type} {x : Except Panic (α × Heap)} (hx : Prod.snd <$> x = .ok h') : ∃ r, x = .ok (r, h') := by
  cases x with
  | error e => cases hx
  | ok r => exact ⟨r.1, by cases hx; rfl⟩

/-- **Step rule.** -/
theorem step_sound (h : Heap) (o : Op) (h' : Heap) (hs : h.Sound) (hstep : step h o = .ok h') : h'.Sound := by
  cases o with
  | alloc size =>
    obtain ⟨r, hr⟩ := map_snd_ok hstep
    exact (alloc_fresh hs size.toNat_lt hr).1
  | calloc size =>
    obtain ⟨r, hr⟩ := map_snd_ok hstep
    exact (calloc_fresh hs size.toNat_lt hr).1
  | realloc oldPtr size =>
    obtain ⟨r, hr⟩ := map_snd_ok hstep
    exact realloc_sound hs size.toNat_lt hr
  | free ptr => exact free_sound hs hstep
  | refurbish => exact (refurbish_zero hs hstep).1
  | write ptr value =>
    obtain ⟨u, h1, h2⟩ := bind_eq_ok.1 hstep
    obtain ⟨m, h3, h4⟩ := bind_eq_ok.1 h2
    obtain ⟨-, rfl⟩ := Mem.writeBytes_cases h3
    cases h4
    exact hs.store (by simpa using assert_cases h1)

/-- **Unused bytes are zero** after every run, so an allocation reads as zero in its whole chunk, and a refurbished
memory reads as zero everywhere. -/
theorem unused_bytes_zero {h₀ : Heap} {ops : List Op} (hn : Heap.new = .ok h₀) (hr : run step h₀ ops = .ok h) :
    (∀ c ∈ h.allocator.unusedChunks.list, ∀ x, c.span.Has x → h.bytes x = 0) ∧
    (∀ (size : UInt32) ptr h', h.alloc size.toNat = .ok (ptr, h') ∨ h.calloc size.toNat = .ok (ptr, h') →
      ∃ c ∈ h'.allocator.usedChunks.chunks, c.base = ptr ∧ size.toNat ≤ c.size ∧ ∀ x, c.span.Has x → h'.bytes x = 0) ∧
    ∀ h', h.refurbish = .ok h' → ∀ x < 2 ^ 32, h'.bytes x = 0 := by
  have hs : h.Sound := run_inv step_sound (new_sound hn) hr
  refine ⟨fun c hc x hx => ?_, fun size ptr h' ha => ?_, fun h' hrf => (refurbish_zero hs hrf).2⟩
  · have hin := hs.inv.tiles.inside _ (Allocator.mem_span (Allocator.Inv.mem_unused hc))
    refine hs.clean x (lt_of_lt_of_le hx.2 hin) ?_
    rintro ⟨d, hd, hdx⟩
    have hperm : h.allocator.chunks.Perm (c :: (h.allocator.usedChunks.chunks ++ h.allocator.unusedChunks.list.erase c)) :=
      Allocator.Inv.chunks_unused (List.perm_cons_erase hc)
    exact (Allocator.tiles_perm hperm hs.inv.tiles).not_both (Allocator.mem_span (List.mem_append_left _ hd)) hx hdx
  · rcases ha with ha | ha
    · obtain ⟨-, c, hc, hb, hsize, hz, -⟩ := alloc_fresh hs size.toNat_lt ha
      exact ⟨c, hc, hb, (le_max_left _ _).trans hsize, hz⟩
    · exact (calloc_fresh hs size.toNat_lt ha).2

/-- an allocation that is written to, grown and freed again, and a calloc in the same place -/
def sampleOps : List Op := [.alloc 20, .alloc 20, .write 32 [1, 2, 3], .realloc 32 100, .free 64, .calloc 4000]

def sampleStart : Heap :=
  { bytes := fun _ => 0, nullSegmentSize := 0, allocator := Allocator.sampleStart, zeroMemoryOnFree := true }

def sampleEnd : Heap := (run step sampleStart sampleOps).toOption.getD sampleStart

theorem unused_bytes_zero_sample :
    (∀ c ∈ sampleEnd.allocator.unusedChunks.list, ∀ x, c.span.Has x → sampleEnd.bytes x = 0) ∧
    (∀ (size : UInt32) ptr h',
      sampleEnd.alloc size.toNat = .ok (ptr, h') ∨ sampleEnd.calloc size.toNat = .ok (ptr, h') →
      ∃ c ∈ h'.allocator.usedChunks.chunks, c.base = ptr ∧ size.toNat ≤ c.size ∧ ∀ x, c.span.Has x → h'.bytes x = 0) ∧
    ∀ h', sampleEnd.refurbish = .ok h' → ∀ x < 2 ^ 32, h'.bytes x = 0 := by
  have hnew : Heap.new = .ok sampleStart := by
    have h : Allocator.new = .ok Allocator.sampleStart := by decide +kernel
    rw [Heap.new, h]
    rfl
  have hrun : run step sampleStart sampleOps = .ok sampleEnd := by
    have hok : (run step sampleStart sampleOps).toOption.isSome = true := by decide +kernel
    unfold sampleEnd
    cases hx : run step sampleStart sampleOps with
    | error e => rw [hx] at hok; cases hok
    | ok h => rfl
  exact unused_bytes_zero hnew hrun

end Heap

end TouchHLE
