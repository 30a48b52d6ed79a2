/-
Strings in guest memory and `strdup` (`libc/generic_char.rs`).

- `Inside`: a string in one used chunk. `Owns`: one at the start of an allocation.
- `Freed.inside`, `Allocated.inside`, `withString_inside`: it is still there after a free of another chunk, an allocation, and the
  writing of another string.
- `strdup_ok`: the copy. `strdup_empty`: what is copied if the string does not survive the allocation.
-/
import TouchHLE.Libc.CStrings
import TouchHLE.Mem.Realloc

namespace TouchHLE.Heap

open Machine Words Tiling Mem

def strdup (h : Heap) (src : ℕ) : Except Panic (ℕ × Heap) := do
  let len ← h.toMem.strlen src
  let size ← add32 len 1
  let (new, h) ← h.alloc size
  let m ← Mem.strcpyLoop (2 ^ 32 - 1) new src h.toMem
  pure (new, { h with toMem := m })

/-! ## Strings in chunks -/

/-- a string that lies in one used chunk with its NUL -/
structure Inside (h : Heap) (ptr : ℕ) (s : List UInt8) : Prop where
  holds : HoldsString h.toMem ptr s
  chunk : ∃ c ∈ h.allocator.usedChunks.chunks, c.base ≤ ptr ∧ ptr + s.length < c.base + c.size

/-- a string at the start of an allocation -/
def Owns (h : Heap) (p : ℕ) (s : List UInt8) : Prop := ∃ size, h.Live p size ∧ HoldsString h.toMem p s ∧ s.length < size

variable {h h' freed : Heap} {c d : Chunk} {p ptr new size : ℕ} {s v n : List UInt8} {r : ℕ × Heap}

/-- the string at an allocation lies in it -/
theorem Owns.inside (ho : Owns h p s) : Inside h p s := by
  obtain ⟨size, ⟨c, hc, rfl, rfl, -⟩, hholds, hlt⟩ := ho
  exact ⟨hholds, c, hc, le_rfl, by omega⟩

/-- a string in another chunk is still there when a chunk was given back -/
theorem Freed.inside (hf : Freed h c h') (hs : Inside h ptr s) (hout : ¬c.span.Has ptr) (hv : h.Valid) : Inside h' ptr s := by
  obtain ⟨hholds, e, he, hlow, hhigh⟩ := hs
  have hmem : e ∈ h'.allocator.usedChunks.chunks := by
    rcases List.mem_cons.1 (hf.chunks.mem_iff.1 he) with rfl | hmem
    · exact absurd ⟨hlow, by simp only [Chunk.span]; omega⟩ hout
    · exact hmem
  refine ⟨hholds.of_bytes hf.null fun i hi => hf.outside _ fun hx => ?_, e, hmem, hlow, hhigh⟩
  have hin : e.span.Has (ptr + i) := ⟨by simp only [Chunk.span]; omega, by simp only [Chunk.span]; omega⟩
  exact hv.apart hf.chunks hmem hx hin

/-- a string in a used chunk is still there, and apart from the new chunk, after an allocation -/
theorem Allocated.inside (ha : Allocated h size c h') (hs : Inside h ptr s) :
    Inside h' ptr s ∧ (ptr + s.length < c.base ∨ c.base + c.size ≤ ptr) := by
  obtain ⟨hholds, e, he, hlow, hhigh⟩ := hs
  have hapart : ptr + s.length < c.base ∨ c.base + c.size ≤ ptr := by
    by_contra hnot
    have hpos := c.size_pos
    -- otherwise the later of the two starts is in both chunks
    have hin : e.span.Has (max ptr c.base) := ⟨by simp only [Chunk.span]; omega, by simp only [Chunk.span]; omega⟩
    exact ha.apart _ ⟨by simp only [Chunk.span]; omega, by simp only [Chunk.span]; omega⟩ e he hin
  have hsize := ha.size_le
  refine ⟨⟨hholds.of_bytes ha.null fun i hi => ha.outside _ (by omega), e, ?_, hlow, hhigh⟩, hapart⟩
  exact ha.chunks.mem_iff.2 (List.mem_cons_of_mem c he)

/-- a NUL stays one when a chunk is given back and another one is taken -/
theorem nul_stays (hf : Freed h c freed) (ha : Allocated freed size d h') {x : ℕ} (hx : h.bytes x = 0) :
    freed.bytes x = 0 ∧ h'.bytes x = 0 := by
  have hfreed : freed.bytes x = 0 := by
    by_cases hin : c.span.Has x
    · cases hmode : h.zeroMemoryOnFree with
      | true => exact hf.zeroed hmode x hin
      | false => rw [hf.left hmode, hx]
    · rw [hf.outside x hin, hx]
  refine ⟨hfreed, ?_⟩
  cases hmode : freed.zeroMemoryOnFree with
  | true => rw [ha.left hmode, hfreed]
  | false =>
    by_cases hin : x < d.base ∨ d.base + size ≤ x
    · rw [ha.outside x hin, hfreed]
    · obtain ⟨i, rfl⟩ := Nat.exists_eq_add_of_le (Nat.le_of_not_lt fun hlt => hin (.inl hlt))
      exact ha.zeroed hmode i (by omega)

/-! ## The copy -/

/-- memory with a string written at an address -/
def withString (h : Heap) (p : ℕ) (s : List UInt8) : Heap := { h with bytes := store h.bytes p (s ++ [0]) }

theorem Allocated.inRange (ha : Allocated h size c h') (hv : h.Valid) (hle : n.length + 1 ≤ size) :
    h'.toMem.InRange c.base (n.length + 1) := by
  have hmem : c ∈ h'.allocator.usedChunks.chunks := ha.chunks.mem_iff.2 List.mem_cons_self
  have hhigh : c.base + c.size ≤ 2 ^ 32 := ha.valid.inv.tiles.inside _ (Allocator.mem_span (Allocator.Inv.mem_used hmem))
  have hlow : h.nullSegmentSize ≤ c.base := hv.above_null (ha.apart c.base c.span_has_base)
  have hsize := ha.size_le
  exact ⟨by rw [ha.null]; exact hlow, by omega⟩

/-- a string that the new one does not overlap -/
theorem withString_inside (hs : Inside h ptr s) (hapart : ptr + s.length < p ∨ p + n.length < ptr) :
    Inside (withString h p n) ptr s := by
  refine ⟨hs.holds.of_bytes rfl fun i hi => store_outside ?_, hs.chunk⟩
  rw [List.length_append, List.length_singleton]
  omega

/-- a string of another allocation -/
theorem Freed.owns (hf : Freed h c h') (ho : Owns h p s) (hne : p ≠ c.base) (hv : h.Valid) : Owns h' p s := by
  obtain ⟨size, ⟨e, he, rfl, rfl, hestack, hlow⟩, hholds, hlt⟩ := ho
  have hmem : e ∈ h'.allocator.usedChunks.chunks := by
    rcases List.mem_cons.1 (hf.chunks.mem_iff.1 he) with rfl | hmem
    · exact absurd rfl hne
    · exact hmem
  have hout : ¬c.span.Has e.base := fun hx => hv.apart hf.chunks hmem hx e.span_has_base
  have hinside := hf.inside ⟨hholds, e, he, le_rfl, by omega⟩ hout hv
  exact ⟨e.size, ⟨e, hmem, rfl, rfl, hestack, by rwa [hf.null]⟩, hinside.holds, hlt⟩

/-- a string of another variable after the copy was made -/
theorem Allocated.owns (ha : Allocated h size c h') (hle : v.length + 1 ≤ size) (ho : Owns h p s) :
    Owns (withString h' c.base v) p s ∧ p ≠ c.base := by
  obtain ⟨hinside, hapart⟩ := ha.inside ho.inside
  have hsize := ha.size_le
  have hstring := withString_inside (n := v) hinside (by omega : _ ∨ c.base + v.length < p)
  obtain ⟨size', ⟨e, he, rfl, rfl, hestack, hlow⟩, hholds, hlt⟩ := ho
  refine ⟨⟨e.size, ⟨e, ?_, rfl, rfl, hestack, ?_⟩, hstring.holds, hlt⟩, by omega⟩
  · exact ha.chunks.mem_iff.2 (List.mem_cons_of_mem c he)
  · exact (ha.null ▸ hlow : h'.nullSegmentSize ≤ e.base)

/-- `strdup` where the string survives the allocation -/
theorem strdup_ok (hv : h.Valid) (hvalue : HoldsString h.toMem ptr v) (halloc : h.alloc (v.length + 1) = .ok (new, h'))
    (hvalue' : HoldsString h'.toMem ptr v) (hrange : h'.toMem.InRange new (v.length + 1))
    (hapart : v = [] ∨ ptr + v.length < new ∨ new + v.length < ptr) (hfits : v.length + 1 < 2 ^ 32) :
    strdup h ptr = .ok (new, withString h' new v) := by
  rw [strdup, hvalue.strlen, ok_bind, add32_ok hfits, ok_bind, halloc, ok_bind]
  simp only
  rw [Mem.strcpy_ok hvalue' hrange (by omega) hapart]
  rfl

/-- a chunk does not fill the memory, since there is the stack -/
theorem Inside.fits (hs : Inside h ptr s) (hv : h.Valid) : s.length + 1 < 2 ^ 32 := by
  obtain ⟨-, c, hc, hlow, hhigh⟩ := hs
  have hend : c.base + c.size ≤ 2 ^ 32 := hv.inv.tiles.inside _ (Allocator.mem_span (Allocator.Inv.mem_used hc))
  have hstack : Allocator.mainThreadStack.base < 2 ^ 32 ∧ 0 < Allocator.mainThreadStack.base := by decide
  by_contra hfull
  by_cases heq : c = Allocator.mainThreadStack
  · subst heq
    omega
  · have hrest := (List.perm_cons_erase hc)
    have hmem : Allocator.mainThreadStack ∈ h.allocator.usedChunks.chunks.erase c :=
      (List.mem_erase_of_ne (Ne.symm heq)).2 hv.inv.stack
    refine hv.apart hrest hmem ⟨?_, ?_⟩ Allocator.mainThreadStack.span_has_base
    · simp only [Chunk.span]
      omega
    · simp only [Chunk.span]
      omega

/-- `strdup` where the string starts with a NUL after the allocation, or where it is longer than its distance from the copy: it
does not return, or it returns an empty string -/
theorem strdup_empty (hr : strdup h ptr = .ok r) (hzero : ∀ len p h', h.toMem.strlen ptr = .ok len →
    len + 1 < 2 ^ 32 → h.alloc (len + 1) = .ok (p, h') → h'.bytes ptr = 0 ∨ ptr < p ∧ ∀ x, ptr ≤ x → x < p → h'.bytes x ≠ 0) : HoldsString r.2.toMem r.1 [] := by
  obtain ⟨len, hlen, hr⟩ := bind_eq_ok.1 hr
  obtain ⟨size, hsize, hr⟩ := bind_eq_ok.1 hr
  obtain ⟨⟨p, h'⟩, halloc, hr⟩ := bind_eq_ok.1 hr
  obtain ⟨m, hcopy, hr⟩ := bind_eq_ok.1 hr
  cases hr
  obtain ⟨rfl, hfits⟩ := add32_cases hsize
  rcases hzero len p h' hlen hfits halloc with hnul | ⟨hlt, hne⟩
  · -- one NUL is copied
    have hcopy' := hcopy
    rw [show 2 ^ 32 - 1 = (2 ^ 32 - 2) + 1 by norm_num, Mem.strcpyLoop] at hcopy'
    obtain ⟨u, hcheck, hcopy'⟩ := bind_eq_ok.1 hcopy'
    obtain ⟨m₁, hwrite, hcopy'⟩ := bind_eq_ok.1 hcopy'
    simp only [hnul, if_true] at hcopy' hwrite
    cases hcopy'
    obtain ⟨hrange, rfl⟩ := Mem.writeBytes_cases hwrite
    have hlow := hrange.1
    have hhigh := hrange.2
    refine ⟨hlow, ?_, fun i hi => ?_, fun c hc => absurd hc List.not_mem_nil⟩
    · rw [List.length_singleton] at hhigh
      exact hhigh
    · obtain rfl := Nat.le_zero.1 hi
      exact store_inside (l := [0]) (i := 0) Nat.zero_lt_one
  · obtain ⟨e, he⟩ : ∃ e, Mem.strcpyLoop (2 ^ 32 - 1) p ptr h'.toMem = .error e := Mem.strcpy_fails hlt hne
    exact absurd (hcopy.symm.trans he) (fun h => by cases h)

/-- the copy is at a new address -/
theorem strdup_fresh (hv : h.Valid) (hr : strdup h ptr = .ok r) : ¬Owns h r.1 s := by
  obtain ⟨len, -, hr⟩ := bind_eq_ok.1 hr
  obtain ⟨size, hsize, hr⟩ := bind_eq_ok.1 hr
  obtain ⟨⟨p, h'⟩, halloc, hr⟩ := bind_eq_ok.1 hr
  obtain ⟨m, -, hr⟩ := bind_eq_ok.1 hr
  cases hr
  obtain ⟨rfl, hfits⟩ := add32_cases hsize
  obtain ⟨d, rfl, ha⟩ := allocated_of_alloc hv hfits halloc
  rintro ⟨-, ⟨e, he, hbase, -⟩, -⟩
  have hin : e.span.Has d.base := by
    simp only at hbase
    rw [← hbase]
    exact e.span_has_base
  exact ha.apart d.base d.span_has_base e he hin

end TouchHLE.Heap
