/-
What `Mem::realloc` does to the allocations, in both modes of zeroing.

- `Valid`: the states of guest memory, with or without a null segment. `Live`: an allocation that was not given back.
- `alloc_frame`, `free_frame`: what an allocation and a free leave alone. `Allocated`, `Freed`: what they do to every byte.
- `realloc_moves`: the contents move and everything else stays. `realloc_null`: an allocation at address zero.
-/
import TouchHLE.Mem.Heap

namespace TouchHLE.Heap

open Words Machine Mem Tiling

/-- `set_null_segment_size` -/
def setNullSegmentSize (h : Heap) (size : ℕ) : Except Panic Heap := do
  assert (h.nullSegmentSize == 0) .nullPage
  assert (size % 0x1000 == 0) .misaligned
  let chunk ← Chunk.new 0 size
  let allocator ← h.allocator.reserve chunk
  pure { h with allocator, nullSegmentSize := size }

/-- **The invariant of guest memory.** The null segment, if there is one, is reserved. -/
structure Valid (h : Heap) : Prop where
  inv : h.allocator.Inv
  null : 0 < h.nullSegmentSize → ∃ c ∈ h.allocator.usedChunks.chunks, c.base = 0 ∧ c.size = h.nullSegmentSize

/-- the address is that of an allocation of so many bytes; the main thread's stack and the null segment are none -/
def Live (h : Heap) (p size : ℕ) : Prop :=
  ∃ c ∈ h.allocator.usedChunks.chunks, c.base = p ∧ c.size = size ∧ c ≠ Allocator.mainThreadStack ∧ h.nullSegmentSize ≤ p

instance (h : Heap) (p size : ℕ) : Decidable (h.Live p size) := inferInstanceAs (Decidable (∃ c ∈ _, _))

variable {h h' : Heap} {p size oldSize : ℕ} {c : Chunk}

theorem zero_ok (hlo : h.nullSegmentSize ≤ p) (hhi : p + size ≤ 2 ^ 32) :
    h.zero p size = .ok { h with bytes := store h.bytes p (List.replicate size 0) } := by
  have hrange : h.toMem.InRange p (List.replicate size (0 : UInt8)).length := ⟨hlo, by rwa [List.length_replicate]⟩
  rw [zero, Mem.writeBytes, Mem.checkRange_ok hrange]
  rfl

/-- a used chunk that shares no byte with the null segment lies above it -/
theorem Valid.above_null (hv : h.Valid) (hapart : ∀ d ∈ h.allocator.usedChunks.chunks, ¬d.span.Has p) : h.nullSegmentSize ≤ p := by
  by_contra hlt
  obtain ⟨d, hd, hbase, hsize⟩ := hv.null (by omega)
  refine hapart d hd ⟨?_, ?_⟩ <;> simp only [Chunk.span] <;> omega

theorem new_valid (hnew : Heap.new = .ok h) : h.Valid := by
  obtain ⟨a, ha, hh⟩ := bind_eq_ok.1 hnew
  obtain ⟨a₀, ha₀, hinv, -⟩ := Allocator.new_ok
  cases ha.symm.trans ha₀
  cases hh
  exact ⟨hinv, fun hpos => absurd hpos (lt_irrefl 0)⟩

theorem setNullSegmentSize_valid {u : Chunk} (hv : h.Valid) (hnone : h.nullSegmentSize = 0) (hpos : 0 < size)
    (hpage : size % pageSize = 0) (hu : u ∈ h.allocator.unusedChunks.list) (hbase : u.base = 0) (hle : size ≤ u.size) :
    ∃ h', h.setNullSegmentSize size = .ok h' ∧ h'.Valid := by
  have hchunk : Chunk.new 0 size = .ok ⟨0, size, hpos⟩ := Chunk.new_ok hpos fun _ => rfl
  obtain ⟨a, hreserve, hinv, hperm⟩ := Allocator.reserve_ok (c := ⟨0, size, hpos⟩) hv.inv hu rfl hpage (by rw [hbase])
    (by dsimp only; omega)
  refine ⟨{ h with allocator := a, nullSegmentSize := size }, ?_, hinv, fun _ => ⟨_, hperm.mem_iff.2 List.mem_cons_self, rfl, rfl⟩⟩
  have hmultiple : (size % 0x1000 == 0) = true := beq_iff_eq.2 hpage
  unfold setNullSegmentSize
  rw [assert_ok (by rw [hnone]; rfl), ok_bind, assert_ok hmultiple, ok_bind, hchunk, ok_bind, hreserve]
  rfl

/-- **Allocation.** A new chunk is taken and no byte outside it changes. -/
theorem alloc_frame (hv : h.Valid) (hlt : size < 2 ^ 32) :
    (∃ c h', h.alloc size = .ok (c.base, h') ∧ h'.Valid ∧ h'.nullSegmentSize = h.nullSegmentSize ∧ size ≤ c.size ∧
      h'.allocator.usedChunks.chunks.Perm (c :: h.allocator.usedChunks.chunks) ∧
      (∀ x, c.span.Has x → ∀ d ∈ h.allocator.usedChunks.chunks, ¬d.span.Has x) ∧
      ∀ x, ¬c.span.Has x → h'.bytes x = h.bytes x) ∨
    (∃ e, h.alloc size = .error e ∧ (e = .outOfMemory ∨ e = .overflow)) ∧ h.allocator.Exhausted size := by
  rcases Allocator.alloc_cases hv.inv hlt with ⟨-, taken, a, hok, -⟩ | ⟨⟨e, herror, hcause⟩, hexhausted⟩
  · left
    obtain ⟨c, hbase, hsize, hinv, hperm, hapart⟩ := Allocator.allocated hv.inv hlt hok
    rw [← hbase] at hok
    have hlow : h.nullSegmentSize ≤ c.base := hv.above_null (hapart c.base c.span_has_base)
    have hle : size ≤ c.size := (le_max_left _ _).trans hsize
    have hmem : c ∈ a.usedChunks.chunks := hperm.mem_iff.2 List.mem_cons_self
    have hhigh : c.base + c.size ≤ 2 ^ 32 := hinv.tiles.inside _ (Allocator.mem_span (Allocator.Inv.mem_used hmem))
    have hnull : 0 < h.nullSegmentSize → ∃ c ∈ a.usedChunks.chunks, c.base = 0 ∧ c.size = h.nullSegmentSize := fun hpos =>
      let ⟨d, hd, hdbase⟩ := hv.null hpos
      ⟨d, hperm.mem_iff.2 (List.mem_cons_of_mem _ hd), hdbase⟩
    unfold alloc
    rw [hok, ok_bind]
    dsimp only
    split_ifs with hmode
    · rw [zero_ok (h := { h with allocator := a }) hlow (by omega)]
      refine ⟨c, _, rfl, ⟨hinv, hnull⟩, rfl, hle, hperm, hapart, fun x hx => store_outside ?_⟩
      rw [List.length_replicate]
      simp only [Chunk.span, Span.Has] at hx
      omega
    · exact ⟨c, _, rfl, ⟨hinv, hnull⟩, rfl, hle, hperm, hapart, fun x _ => rfl⟩
  · right
    refine ⟨⟨e, ?_, hcause⟩, hexhausted⟩
    rw [alloc, herror]
    rfl

/-- **Freeing.** The chunk is given back and no byte outside it changes. -/
theorem free_frame (hv : h.Valid) (hc : c ∈ h.allocator.usedChunks.chunks) (hne : c ≠ Allocator.mainThreadStack)
    (hlow : h.nullSegmentSize ≤ c.base) : ∃ h', h.free c.base = .ok h' ∧ h'.Valid ∧ h'.nullSegmentSize = h.nullSegmentSize ∧
      h.allocator.usedChunks.chunks.Perm (c :: h'.allocator.usedChunks.chunks) ∧
      ∀ x, ¬c.span.Has x → h'.bytes x = h.bytes x := by
  obtain ⟨a, hfree, hinv, hperm⟩ := Allocator.free_ok hv.inv hc hne
  have hhigh : c.base + c.size ≤ 2 ^ 32 := hv.inv.tiles.inside _ (Allocator.mem_span (Allocator.Inv.mem_used hc))
  have hnull : 0 < h.nullSegmentSize → ∃ c ∈ a.usedChunks.chunks, c.base = 0 ∧ c.size = h.nullSegmentSize := by
    intro hpos
    obtain ⟨d, hd, hbase, hsize⟩ := hv.null hpos
    rcases List.mem_cons.1 (hperm.mem_iff.1 hd) with rfl | hd
    · omega
    · exact ⟨d, hd, hbase, hsize⟩
  unfold free
  rw [hfree, ok_bind]
  dsimp only
  split_ifs with hmode
  · rw [zero_ok (h := { h with allocator := a }) hlow hhigh]
    refine ⟨_, rfl, ⟨hinv, hnull⟩, rfl, hperm, fun x hx => store_outside ?_⟩
    rw [List.length_replicate]
    simp only [Chunk.span, Span.Has] at hx
    omega
  · exact ⟨_, rfl, ⟨hinv, hnull⟩, rfl, hperm, fun x _ => rfl⟩

/-! ## What a free and an allocation do to bytes -/

/-- what giving back a chunk does to memory -/
structure Freed (h : Heap) (c : Chunk) (h' : Heap) : Prop where
  valid : h'.Valid
  null : h'.nullSegmentSize = h.nullSegmentSize
  mode : h'.zeroMemoryOnFree = h.zeroMemoryOnFree
  chunks : h.allocator.usedChunks.chunks.Perm (c :: h'.allocator.usedChunks.chunks)
  outside : ∀ x, ¬c.span.Has x → h'.bytes x = h.bytes x
  zeroed : h.zeroMemoryOnFree = true → ∀ x, c.span.Has x → h'.bytes x = 0
  left : h.zeroMemoryOnFree = false → h'.bytes = h.bytes

/-- what an allocation does to memory -/
structure Allocated (h : Heap) (size : ℕ) (c : Chunk) (h' : Heap) : Prop where
  valid : h'.Valid
  null : h'.nullSegmentSize = h.nullSegmentSize
  size_le : size ≤ c.size
  chunks : h'.allocator.usedChunks.chunks.Perm (c :: h.allocator.usedChunks.chunks)
  apart : ∀ x, c.span.Has x → ∀ d ∈ h.allocator.usedChunks.chunks, ¬d.span.Has x
  outside : ∀ x, x < c.base ∨ c.base + size ≤ x → h'.bytes x = h.bytes x
  left : h.zeroMemoryOnFree = true → h'.bytes = h.bytes
  zeroed : h.zeroMemoryOnFree = false → ∀ i < size, h'.bytes (c.base + i) = 0

theorem freed_of_free (hv : h.Valid) (hlive : h.Live p size) (hfree : h.free p = .ok h') :
    ∃ c ∈ h.allocator.usedChunks.chunks, c.base = p ∧ Freed h c h' := by
  obtain ⟨c, hc, rfl, rfl, hne, hlow⟩ := hlive
  obtain ⟨h₁, hfree₁, hvalid, hnull, hperm, hout⟩ := free_frame hv hc hne hlow
  obtain rfl : h₁ = h' := Except.ok.inj (hfree₁.symm.trans hfree)
  obtain ⟨a, hfreed, -, -⟩ := Allocator.free_ok hv.inv hc hne
  have hhigh : c.base + c.size ≤ 2 ^ 32 := hv.inv.tiles.inside _ (Allocator.mem_span (Allocator.Inv.mem_used hc))
  unfold free at hfree
  rw [hfreed, ok_bind] at hfree
  dsimp only at hfree
  split_ifs at hfree with hmode
  · rw [zero_ok (h := { h with allocator := a }) hlow hhigh] at hfree
    cases hfree
    refine ⟨c, hc, rfl, hvalid, hnull, rfl, hperm, hout, fun _ x hx => zeroed hx.1 hx.2, fun hnot => ?_⟩
    exact absurd (hmode.symm.trans hnot) nofun
  · cases hfree
    exact ⟨c, hc, rfl, hvalid, hnull, rfl, hperm, hout, fun h => absurd h hmode, fun _ => rfl⟩

theorem allocated_of_alloc (hv : h.Valid) (hlt : size < 2 ^ 32) (halloc : h.alloc size = .ok (p, h')) :
    ∃ d, d.base = p ∧ Allocated h size d h' := by
  rcases alloc_frame hv hlt with ⟨d, h₁, halloc₁, hvalid, hnull, hle, hperm, hapart, -⟩ | ⟨⟨e, herror, -⟩, -⟩
  · cases halloc₁.symm.trans halloc
    unfold alloc at halloc
    obtain ⟨⟨q, a⟩, halloc, hzero⟩ := bind_eq_ok.1 halloc
    dsimp only at hzero
    split_ifs at hzero with hmode
    · obtain ⟨h₂, hfilled, heq⟩ := bind_eq_ok.1 hzero
      cases heq
      obtain ⟨-, rfl⟩ := zero_cases hfilled
      refine ⟨_, rfl, hvalid, hnull, hle, hperm, hapart, fun x hx => ?_, fun h => ?_, fun _ i hi => ?_⟩
      · exact store_outside (by rwa [List.length_replicate])
      · rw [h] at hmode
        exact absurd hmode nofun
      · exact zeroed (Nat.le_add_right d.base i) (Nat.add_lt_add_left hi d.base)
    · cases hzero
      refine ⟨_, rfl, hvalid, hnull, hle, hperm, hapart, fun _ _ => rfl, fun _ => rfl, fun h => ?_⟩
      rw [h] at hmode
      exact absurd rfl hmode
  · exact absurd (herror.symm.trans halloc) nofun

/-- the bytes of a chunk after they were copied to another one -/
theorem memmove_ok {dest src : ℕ} (hsrc : src + size ≤ 2 ^ 32) (hdest : dest + size ≤ 2 ^ 32) :
    h.memmove dest src size = .ok { h with bytes := store h.bytes dest (load h.bytes src size) } :=
  if_pos ⟨hsrc, hdest⟩

theorem findAllocatedSize_ok {a : Allocator} (hsorted : a.usedChunks.Sorted) (hc : c ∈ a.usedChunks.chunks) :
    a.findAllocatedSize c.base = .ok c.size := by
  obtain ⟨used, hremove, -⟩ := ChunkMap.removeWithBase_some hsorted hc rfl
  obtain ⟨d, hfind, hd⟩ := Option.map_eq_some_iff.1 hremove
  obtain rfl : d = c := congrArg Prod.fst hd
  rw [Allocator.findAllocatedSize, ChunkMap.getSizeWithBase, hfind]
  rfl

/-- in a permutation of used chunks none shares a byte with the first -/
theorem Valid.apart (hv : h.Valid) {r : List Chunk} (hperm : h.allocator.usedChunks.chunks.Perm (c :: r)) {d : Chunk} (hd : d ∈ r)
    {x : ℕ} (hx : c.span.Has x) : ¬d.span.Has x := by
  have htiles := Allocator.tiles_perm (Allocator.Inv.chunks_used hperm) hv.inv.tiles
  exact htiles.not_both (Allocator.mem_span (List.mem_append_left _ hd)) hx

/-- **Reallocation** of an allocation that is not at address zero: the contents are kept, and no other allocation changes; or memory
is exhausted. -/
theorem realloc_moves {n : UInt32} (hv : h.Valid) (hlive : h.Live p oldSize) (hp : p ≠ 0) :
    (∃ q h', h.realloc p n.toNat = .ok (q, h') ∧ h'.Valid ∧ (∃ size, n.toNat ≤ size ∧ h'.Live q size) ∧
      (∀ i < min oldSize n.toNat, h'.bytes (q + i) = h.bytes (p + i)) ∧
      (q ≠ p → ∀ size, ¬h'.Live p size) ∧
      ∀ r size, h.Live r size → r ≠ p → h'.Live r size ∧ ∀ i < size, h'.bytes (r + i) = h.bytes (r + i)) ∨
    (∃ e, h.realloc p n.toNat = .error e ∧ (e = .outOfMemory ∨ e = .overflow)) ∧ oldSize < n.toNat ∧
      h.allocator.Exhausted n.toNat := by
  obtain ⟨c, hc, rfl, rfl, hne, hlow⟩ := hlive
  unfold realloc
  rw [if_neg hp, findAllocatedSize_ok hv.inv.used hc, ok_bind]
  split_ifs with hfits
  · left
    exact ⟨c.base, h, rfl, hv, ⟨c.size, hfits, c, hc, rfl, rfl, hne, hlow⟩, fun _ _ => rfl, fun hq => absurd rfl hq,
      fun r size hr _ => ⟨hr, fun _ _ => rfl⟩⟩
  have hgrows : c.size < n.toNat := Nat.lt_of_not_le hfits
  rcases alloc_frame hv n.toNat_lt with ⟨d, h₁, halloc, hv₁, hnull₁, hsize, hperm₁, hapart, hbytes₁⟩ | ⟨⟨e, herror, hcause⟩, hexhausted⟩
  · left
    have hmem (e : Chunk) (he : e ∈ h.allocator.usedChunks.chunks) : e ∈ h₁.allocator.usedChunks.chunks :=
      hperm₁.mem_iff.2 (List.mem_cons_of_mem _ he)
    have hend (e : Chunk) (he : e ∈ h₁.allocator.usedChunks.chunks) : e.base + e.size ≤ 2 ^ 32 :=
      hv₁.inv.tiles.inside _ (Allocator.mem_span (Allocator.Inv.mem_used he))
    have hdmem : d ∈ h₁.allocator.usedChunks.chunks := hperm₁.mem_iff.2 List.mem_cons_self
    have hdend := hend d hdmem
    have hv₂ : Valid { h₁ with bytes := store h₁.bytes d.base (load h₁.bytes c.base c.size) } := ⟨hv₁.inv, hv₁.null⟩
    obtain ⟨h₃, hfree, hv₃, hnull₃, hperm₃, hbytes₃⟩ := free_frame hv₂ (hmem c hc) hne (by rwa [hnull₁])
    have hkeep (e : Chunk) (he : e ∈ h₁.allocator.usedChunks.chunks) (hec : e.base ≠ c.base) :
        e ∈ h₃.allocator.usedChunks.chunks := by
      rcases List.mem_cons.1 (hperm₃.mem_iff.1 he) with rfl | he
      · exact absurd rfl hec
      · exact he
    have hdc : d.base ≠ c.base := fun heq => hapart d.base d.span_has_base c hc (by rw [heq]; exact c.span_has_base)
    -- a chunk that stays has no byte in the one that is given back
    have hout (e : Chunk) (he : e ∈ h₁.allocator.usedChunks.chunks) (hec : e.base ≠ c.base) {x : ℕ} (hx : e.span.Has x) :
        ¬c.span.Has x := fun hcx =>
      hv₂.apart hperm₃ (hkeep e he hec) hcx hx
    have hdlow : h.nullSegmentSize ≤ d.base := hv.above_null (hapart d.base d.span_has_base)
    have hdstack : d ≠ Allocator.mainThreadStack := by
      rintro rfl
      exact hapart _ (Chunk.span_has_base _) _ hv.inv.stack (Chunk.span_has_base _)
    refine ⟨d.base, h₃, ?_, hv₃, ⟨d.size, hsize, d, hkeep d hdmem hdc, rfl, rfl, hdstack, ?_⟩, ?_, ?_, ?_⟩
    · rw [halloc, ok_bind]
      dsimp only
      rw [memmove_ok (hend c (hmem c hc)) (by omega), ok_bind, hfree]
      rfl
    · rw [hnull₃, hnull₁]
      exact hdlow
    · intro i hi
      have hin : d.span.Has (d.base + i) := by
        simp only [Chunk.span, Span.Has]
        omega
      have hcin : c.span.Has (c.base + i) := by
        simp only [Chunk.span, Span.Has]
        omega
      calc h₃.bytes (d.base + i)
          = store h₁.bytes d.base (load h₁.bytes c.base c.size) (d.base + i) := hbytes₃ _ (hout d hdmem hdc hin)
        _ = h₁.bytes (c.base + i) := store_load (by omega)
        _ = h.bytes (c.base + i) := hbytes₁ _ fun hx => hapart _ hx c hc hcin
    · rintro - size ⟨e, he, hbase, -⟩
      exact hv₂.apart hperm₃ he c.span_has_base (by rw [← hbase]; exact e.span_has_base)
    · rintro r size ⟨e, he, rfl, rfl, hestack, helow⟩ hr
      refine ⟨⟨e, hkeep e (hmem e he) hr, rfl, rfl, hestack, by rwa [hnull₃, hnull₁]⟩, fun i hi => ?_⟩
      have hin : e.span.Has (e.base + i) := by
        simp only [Chunk.span, Span.Has]
        omega
      have hnot : ¬d.span.Has (e.base + i) := fun hx => hapart _ hx e he hin
      calc h₃.bytes (e.base + i)
          = store h₁.bytes d.base (load h₁.bytes c.base c.size) (e.base + i) := hbytes₃ _ (hout e (hmem e he) hr hin)
        _ = h₁.bytes (e.base + i) := by
          refine store_outside ?_
          rw [load_length]
          simp only [Chunk.span, Span.Has] at hnot
          omega
        _ = h.bytes (e.base + i) := hbytes₁ _ hnot
  · right
    refine ⟨⟨e, ?_, hcause⟩, hgrows, hexhausted⟩
    rw [herror]
    rfl

/-- memory without a null segment, with an allocation at address zero and one at 16 -/
def twoAllocations : Heap := (run step sampleStart [.alloc 16, .alloc 16, .write 0 [7]]).toOption.getD sampleStart

theorem twoAllocations_valid : twoAllocations.Valid := by
  have hnew : Heap.new = .ok sampleStart := by
    have halloc : Allocator.new = .ok Allocator.sampleStart := by decide +kernel
    rw [Heap.new, halloc]
    rfl
  have hrun : run step sampleStart [.alloc 16, .alloc 16, .write 0 [7]] = .ok twoAllocations := eq_ok_of_toOption (by decide +kernel)
  have hnull : twoAllocations.nullSegmentSize = 0 := by decide +kernel
  refine ⟨(run_inv step_sound (new_sound hnew) hrun).inv, fun hpos => ?_⟩
  rw [hnull] at hpos
  exact absurd hpos (lt_irrefl 0)

theorem realloc_moves_sample :
    (∃ q h', twoAllocations.realloc 16 (100 : UInt32).toNat = .ok (q, h') ∧ h'.Valid ∧
      (∃ size, (100 : UInt32).toNat ≤ size ∧ h'.Live q size) ∧
      (∀ i < min 16 (100 : UInt32).toNat, h'.bytes (q + i) = twoAllocations.bytes (16 + i)) ∧
      (q ≠ 16 → ∀ size, ¬h'.Live 16 size) ∧
      ∀ r size, twoAllocations.Live r size → r ≠ 16 →
        h'.Live r size ∧ ∀ i < size, h'.bytes (r + i) = twoAllocations.bytes (r + i)) ∨
    (∃ e, twoAllocations.realloc 16 (100 : UInt32).toNat = .error e ∧ (e = .outOfMemory ∨ e = .overflow)) ∧
      16 < (100 : UInt32).toNat ∧ twoAllocations.allocator.Exhausted (100 : UInt32).toNat :=
  realloc_moves twoAllocations_valid (by decide +kernel) (by decide)

/-- An allocation at address zero is the null pointer: it stays where it is and its contents are not copied. And memory can be
exhausted. -/
theorem realloc_null : twoAllocations.Valid ∧
    (twoAllocations.Live 0 16 ∧ ∃ q h', twoAllocations.realloc 0 32 = .ok (q, h') ∧ q ≠ 0 ∧ h'.Live 0 16 ∧
      h'.bytes q ≠ twoAllocations.bytes 0) ∧
      twoAllocations.Live 16 16 ∧ twoAllocations.realloc 16 0xfffff000 = .error .outOfMemory := by
  have hmoved : (twoAllocations.realloc 0 32).toOption.isSome = true := by decide +kernel
  refine ⟨twoAllocations_valid, ⟨by decide +kernel, _, _, eq_ok_of_toOption (d := (0, sampleStart)) hmoved, ?_, ?_, ?_⟩, ?_, ?_⟩
  · decide +kernel
  · decide +kernel
  · decide +kernel
  · decide +kernel
  · rfl

end TouchHLE.Heap
