/-
The invariant of the allocator over whole runs: its used and unused chunks tile the 32-bit address space.

- `Inv`: the spans of all chunks tile `[0, 2 ^ 32)`, every chunk is shaped, the indexes are in order, and the main
  thread's stack is in use.
- `tiles_cut`: putting consecutive parts in the place of a chunk, or a chunk in the place of its parts.
- `reserve_ok`, `alloc_cases`, `free_ok`: what each operation does to the two sides, and that it panics in no case
  other than exhaustion.
- `tiled_runs`: every legal run keeps the tiling, and only an allocation can stop it, when memory is exhausted.
- `best_fit`: which chunk the search finds.
-/
import TouchHLE.Mem.BestFit

namespace TouchHLE.Mem.Allocator

open Tiling Machine

def mainThreadStack : Chunk := ⟨mainThreadStackLowEnd, mainThreadStackSize, by decide⟩

/-- everything below the stack -/
def belowStack : Chunk := ⟨0, mainThreadStackLowEnd, by decide⟩

def chunks (a : Allocator) : List Chunk := a.usedChunks.chunks ++ a.unusedChunks.list

/-- **The allocator invariant.** -/
structure Inv (a : Allocator) : Prop where
  tiles : Tiles (spans a.chunks) (2 ^ 32)
  shaped : ∀ c ∈ a.chunks, c.Shaped
  used : a.usedChunks.Sorted
  unused : a.unusedChunks.Agree
  stack : mainThreadStack ∈ a.usedChunks.chunks

variable {a a' : Allocator} {c d : Chunk} {l l' r parts : List Chunk} {n size base : ℕ} {used : ChunkMap}
  {unused : SizeBucketedChunkMap} {u : Chunk} {m : SizeBucketedChunkMap} {existing alloc : Chunk} {freed : Chunk}

/-! ## Consequences of the invariant -/

theorem tiles_perm (h : l.Perm l') (ht : Tiles (spans l) n) : Tiles (spans l') n := ht.perm (h.map _)

/-- **Cutting and joining.** Parts that follow each other take the place of the chunk they fill, and back. -/
theorem tiles_cut (h : l.Perm (c :: r)) (h' : l'.Perm (parts ++ r)) (hne : parts ≠ [])
    (hf : Fills (spans parts) c.base (c.base + c.size)) : Tiles (spans l) n ↔ Tiles (spans l') n := by
  have hcut : Tiles (spans (c :: r)) n ↔ Tiles (spans (parts ++ r)) n := by
    rw [spans_append]
    exact tiles_fill (by simpa [spans] using hne) hf
  exact ⟨fun ht => tiles_perm h'.symm (hcut.1 (tiles_perm h ht)), fun ht => tiles_perm h.symm (hcut.2 (tiles_perm h' ht))⟩

theorem mem_span (hc : c ∈ l) : c.span ∈ spans l := List.mem_map_of_mem hc

namespace Inv

theorem mem_used (hc : c ∈ a.usedChunks.chunks) : c ∈ a.chunks := List.mem_append_left _ hc

theorem mem_unused (hc : c ∈ a.unusedChunks.list) : c ∈ a.chunks := List.mem_append_right _ hc

theorem eq_of_has (h : a.Inv) (hc : c ∈ a.chunks) (hd : d ∈ a.chunks) (hb : c.span.Has d.base) : c = d :=
  Chunk.ext_span (h.tiles.eq_of_has (mem_span hc) (mem_span hd) hb d.span_has_base)

/-- the other chunks start outside a given one -/
theorem outside (h : a.Inv) (hp : a.chunks.Perm (c :: r)) : ∀ d ∈ r, ¬ c.span.Has d.base := fun d hd hin =>
  (tiles_perm hp h.tiles).not_both (mem_span hd) hin d.span_has_base

theorem chunks_unused (hp : a.unusedChunks.list.Perm (c :: r)) : a.chunks.Perm (c :: (a.usedChunks.chunks ++ r)) :=
  (hp.append_left _).trans List.perm_middle

theorem chunks_used (hp : a.usedChunks.chunks.Perm (c :: r)) : a.chunks.Perm (c :: (r ++ a.unusedChunks.list)) :=
  hp.append_right _

/-- a base inside an unused chunk is not that of a used one -/
theorem not_used (h : a.Inv) (hc : c ∈ a.unusedChunks.list) {x : ℕ} (hx : c.span.Has x) :
    ∀ d ∈ a.usedChunks.chunks, d.base ≠ x := by
  rintro d hd rfl
  exact h.outside (chunks_unused (List.perm_cons_erase hc)) d (List.mem_append_left _ hd) hx

theorem stack_ne (h : a.Inv) (hc : c ∈ a.unusedChunks.list) : c ≠ mainThreadStack := by
  rintro rfl
  exact h.not_used hc mainThreadStack.span_has_base _ h.stack rfl

/-- every chunk other than the main thread's stack lies below it -/
theorem below_stack (h : a.Inv) (hc : c ∈ a.chunks) (hne : c ≠ mainThreadStack) :
    c.base + c.size ≤ mainThreadStackLowEnd := by
  by_contra hlt
  have hin := h.tiles.inside _ (mem_span hc)
  have hpos := c.size_pos
  simp only [Chunk.span] at hin
  -- the chunk would share its last byte with the stack
  refine hne (Chunk.ext_span (h.tiles.eq_of_has (a := c.base + c.size - 1) (mem_span hc)
    (mem_span (mem_used h.stack)) ⟨?_, ?_⟩ ⟨?_, ?_⟩)) <;>
  simp only [Chunk.span, mainThreadStack, mainThreadStackLowEnd, mainThreadStackSize] at hlt ⊢ <;> omega

theorem fits (h : a.Inv) (hc : c ∈ a.chunks) (hne : c ≠ mainThreadStack) : c.base + c.size < 2 ^ 32 :=
  lt_of_le_of_lt (h.below_stack hc hne) (by decide)

/-- the unused side is a well-formed collection -/
theorem wf (h : a.Inv) : a.unusedChunks.Wf where
  agree := h.unused
  shaped c hc := h.shaped c (mem_unused hc)
  fits _ hc := h.fits (mem_unused hc) (h.stack_ne hc)
  apart _ hc _ hd hb := h.eq_of_has (mem_unused hc) (mem_unused hd) hb

end Inv

/-! ## A new allocator -/

theorem new_ok : ∃ a, Allocator.new = .ok a ∧ a.Inv ∧ a.usedChunks.chunks = [mainThreadStack] := by
  obtain ⟨used, h1, h2, h3⟩ := ChunkMap.insert_ok (c := mainThreadStack) ChunkMap.sorted_empty (by simp [ChunkMap.empty])
  obtain ⟨unused, h4, h5, h6⟩ := SizeBucketedChunkMap.insert_ok (c := belowStack)
    SizeBucketedChunkMap.agree_empty (by decide) (by decide)
    (by simp [SizeBucketedChunkMap.empty, SizeBucketedChunkMap.list, ChunkMap.empty])
  have hstack : Chunk.new mainThreadStackLowEnd mainThreadStackSize = .ok mainThreadStack :=
    Chunk.new_ok (by decide) fun _ => by decide
  have hlow : Chunk.new 0 mainThreadStackLowEnd = .ok belowStack :=
    Chunk.new_ok (by decide) fun _ => by decide
  have hu : used.chunks = [mainThreadStack] := List.perm_singleton.1 h3
  have hun : unused.list = [belowStack] := List.perm_singleton.1 h6
  refine ⟨⟨used, unused⟩, ?_, ⟨?_, ?_, h2, h5, by rw [hu]; exact List.mem_singleton_self _⟩, hu⟩
  · simp only [Allocator.new, hstack, hlow, h1, h4, ok_bind, pure_eq_ok]
  · rw [chunks, hu, hun]
    have hwhole : Tiles [(0, 2 ^ 32)] (2 ^ 32) := by
      refine ⟨fun x hx => ?_, fun i hi => ?_⟩
      · rw [owners_cons, if_pos ⟨Nat.zero_le _, by simpa using hx⟩]; rfl
      · obtain rfl := List.mem_singleton.1 hi
        exact le_rfl
    have hparts : Fills [(0, mainThreadStackLowEnd), (mainThreadStackLowEnd, mainThreadStackSize)] 0 (0 + 2 ^ 32) :=
      ⟨rfl, rfl, rfl⟩
    exact ((tiles_fill (by simp) hparts).1 hwhole).perm (List.Perm.swap _ _ _)
  · rw [chunks, hu, hun]
    intro c hc
    simp only [List.cons_append, List.nil_append, List.mem_cons, List.not_mem_nil, or_false] at hc
    rcases hc with rfl | rfl
    · exact ⟨by decide, by decide, fun _ => by decide⟩
    · exact ⟨by decide, by decide, fun _ => by decide⟩

/-! ## Allocation -/

/-- `size` rounded up to a multiple of `m` -/
def roundUp (size m : ℕ) : ℕ := (size + (m - 1)) / m * m

/-- the size of the chunk that a request needs -/
def neededSize (size : ℕ) : ℕ :=
  if size < pageSize then roundUp (max size minChunkSize) minChunkSize else roundUp size pageSize

/-- no unused chunk is large enough for the request -/
def Exhausted (a : Allocator) (size : ℕ) : Prop := ∀ c ∈ a.unusedChunks.list, c.size < neededSize size

theorem alignedSize_cases (hlt : size < 2 ^ 32) :
    (alignedSize size = .ok (neededSize size) ∧ FitSize (neededSize size) ∧ size ≤ neededSize size) ∨
      (alignedSize size = .error .overflow ∧ 2 ^ 32 ≤ neededSize size) := by
  unfold alignedSize neededSize
  split_ifs with hpage
  · have hmax : max size minChunkSize < 2 ^ 32 - 16 := by simp only [pageSize, minChunkSize] at hpage ⊢; omega
    generalize hm : max size minChunkSize = s at hmax
    have hs : 16 ≤ s ∧ size ≤ s := by simp only [minChunkSize] at hm; omega
    refine Or.inl ⟨?_, ⟨?_, ?_, ?_⟩, ?_⟩
    · unfold align
      split_ifs with h
      · rw [add32_ok (by simp only [minChunkSize]; omega)]
        simp only [ok_bind, pure_eq_ok, Except.ok.injEq, roundUp, minChunkSize] at h ⊢
        omega
      · simp only [pure_eq_ok, Except.ok.injEq, roundUp, minChunkSize, not_not] at h ⊢
        omega
    · simp only [roundUp, minChunkSize]; omega
    · simp only [roundUp, minChunkSize]; omega
    · simp only [roundUp, minChunkSize, pageSize] at hm hpage ⊢; omega
    · simp only [roundUp, minChunkSize]; omega
  · unfold align
    simp only [pageSize] at hpage
    split_ifs with h
    · simp only [pageSize] at h
      by_cases hfit : size + 4096 < 2 ^ 32
      · left
        rw [add32_ok (by simp only [pageSize]; omega)]
        simp only [ok_bind, pure_eq_ok, Except.ok.injEq, roundUp, pageSize]
        exact ⟨by omega, ⟨by omega, by simp only [minChunkSize]; omega, fun _ => by simp only [pageSize]; omega⟩,
          by omega⟩
      · right
        have hover : add32 size pageSize = .error .overflow := if_neg (by simp only [pageSize]; omega)
        rw [hover]
        simp only [error_bind, roundUp, pageSize, true_and]
        omega
    · left
      simp only [pure_eq_ok, Except.ok.injEq, roundUp, pageSize, not_not] at h ⊢
      exact ⟨by omega, ⟨by omega, by simp only [minChunkSize]; omega, fun _ => by simp only [pageSize]; omega⟩,
        by omega⟩

/-- moving the low end of an unused chunk to the used side keeps the invariant -/
theorem inv_taken (h : a.Inv)
    (ht : SizeBucketedChunkMap.TakenFrom a.unusedChunks unused existing size alloc) (hs : used.Sorted)
    (hu : used.chunks.Perm (alloc :: a.usedChunks.chunks)) : Inv ⟨used, unused⟩ := by
  obtain ⟨-, h2, h3, rest, r, h4, h5, h6, h7⟩ := ht
  have hold := Inv.chunks_unused h4
  have hnew : (chunks ⟨used, unused⟩).Perm ((alloc :: rest) ++ (a.usedChunks.chunks ++ r)) := by
    refine (hu.append h5).trans ?_
    rw [List.cons_append, List.cons_append]
    refine List.Perm.cons _ ?_
    rw [← List.append_assoc, ← List.append_assoc]
    exact List.perm_append_comm.append_right r
  refine ⟨(tiles_cut hold hnew (by simp) h7).1 h.tiles, fun c hc => ?_, hs, h3,
    hu.mem_iff.2 (List.mem_cons_of_mem _ h.stack)⟩
  rcases List.mem_append.1 (hnew.mem_iff.1 hc) with hc | hc
  · rcases List.mem_cons.1 hc with rfl | hc
    · exact h2
    · exact h6 c hc
  · exact h.shaped c (hold.mem_iff.2 (List.mem_cons_of_mem _ hc))

/-- **Allocation.** A request takes the low end of a smallest unused chunk that is large enough, or memory is
exhausted. -/
theorem alloc_cases (h : a.Inv) (hlt : size < 2 ^ 32) :
    (∃ existing alloc a', a.alloc size = .ok (alloc.base, a') ∧ a'.Inv ∧ existing ∈ a.unusedChunks.list ∧
      neededSize size ≤ existing.size ∧
      (∀ d ∈ a.unusedChunks.list, neededSize size ≤ d.size → existing.size ≤ d.size) ∧
      SizeBucketedChunkMap.TakenFrom a.unusedChunks a'.unusedChunks existing (neededSize size) alloc ∧
      a'.usedChunks.chunks.Perm (alloc :: a.usedChunks.chunks)) ∨
    (∃ e, a.alloc size = .error e ∧ (e = .outOfMemory ∨ e = .overflow)) ∧ a.Exhausted size := by
  unfold alloc
  rcases alignedSize_cases hlt with ⟨h1, h2, -⟩ | ⟨h1, h2⟩
  · simp only [h1, ok_bind]
    rcases SizeBucketedChunkMap.allocate_cases h.wf h2 with ⟨h3, h4⟩ | ⟨existing, alloc, unused, h3, h4, h5, h6, h7⟩
    · exact Or.inr ⟨⟨.outOfMemory, by simp only [h3, ok_bind, throw_eq_error], Or.inl rfl⟩, h4⟩
    · have hbase : alloc.base = existing.base := congrArg Prod.fst h7.1
      obtain ⟨used, h8, h9, h10⟩ := ChunkMap.insert_ok (c := alloc) h.used
        (h.not_used h4 (by rw [hbase]; exact existing.span_has_base))
      exact Or.inl ⟨existing, alloc, ⟨used, unused⟩, by simp only [h3, h8, ok_bind, pure_eq_ok],
        inv_taken h h7 h9 h10, h4, h5, h6, h7, h10⟩
  · refine Or.inr ⟨⟨.overflow, by simp only [h1, error_bind], Or.inr rfl⟩, fun c hc => ?_⟩
    have := h.wf.size_lt hc
    omega

/-! ## Freeing -/

/-- the unused neighbour of a used chunk, if there is one -/
theorem removeAdjacent_cases (h : a.Inv) (hf : freed ∈ a.usedChunks.chunks)
    (hne : freed ≠ mainThreadStack) :
    removeAdjacent a.unusedChunks freed = .ok (none, a.unusedChunks) ∨
      ∃ adjacent m, removeAdjacent a.unusedChunks freed = .ok (some adjacent, m) ∧ m.Agree ∧
        a.unusedChunks.list.Perm (adjacent :: m.list) ∧
        (adjacent.base = freed.base + freed.size ∨ freed.base = adjacent.base + adjacent.size) := by
  have hnext : add32 freed.lastByte 1 = .ok (freed.base + freed.size) := by
    rw [add32_ok (by rw [freed.lastByte_add]; exact h.fits (Inv.mem_used hf) hne), freed.lastByte_add]
  unfold removeAdjacent
  simp only [hnext, ok_bind]
  rcases SizeBucketedChunkMap.removeWithBase_cases h.unused (freed.base + freed.size) with
    ⟨h1, -⟩ | ⟨adjacent, m, h1, h2, h3, h4⟩
  · simp only [h1, ok_bind]
    rcases SizeBucketedChunkMap.removeWithEnd_cases h.unused h.wf.fits freed.base with
      h5 | ⟨adjacent, m, h5, h6, h7, h8⟩
    · exact Or.inl h5
    · exact Or.inr ⟨adjacent, m, h5, h7, h8, Or.inr h6.symm⟩
  · exact Or.inr ⟨adjacent, m, by simp only [h1, ok_bind, pure_eq_ok], h3, h4, Or.inl h2⟩

/-- the freed chunk on the unused side -/
theorem inv_back (h : a.Inv)
    (hne : freed ≠ mainThreadStack) (hs : used.Sorted) (hp : a.usedChunks.chunks.Perm (freed :: used.chunks))
    (hu : unused.Agree) (hpu : unused.list.Perm (freed :: a.unusedChunks.list)) : Inv ⟨used, unused⟩ := by
  have hperm : a.chunks.Perm (chunks ⟨used, unused⟩) :=
    (Inv.chunks_used hp).trans (List.perm_middle.symm.trans (hpu.symm.append_left _))
  refine ⟨tiles_perm hperm h.tiles, fun c hc => h.shaped c (hperm.mem_iff.2 hc), hs, hu, ?_⟩
  rcases List.mem_cons.1 (hp.mem_iff.1 h.stack) with heq | hin
  · exact absurd heq.symm hne
  · exact hin

/-- the freed chunk and an unused neighbour joined into one unused chunk -/
theorem inv_joined {freed adjacent both : Chunk} {m unused : SizeBucketedChunkMap} (h : a.Inv)
    (hne : freed ≠ mainThreadStack) (hs : used.Sorted) (hp : a.usedChunks.chunks.Perm (freed :: used.chunks))
    (hpm : a.unusedChunks.list.Perm (adjacent :: m.list)) (hu : unused.Agree)
    (hpu : unused.list.Perm (both :: m.list)) (hshape : both.Shaped)
    (hspan : both.span = (min freed.base adjacent.base, freed.size + adjacent.size))
    (hadj : adjacent.base = freed.base + freed.size ∨ freed.base = adjacent.base + adjacent.size) :
    Inv ⟨used, unused⟩ := by
  obtain ⟨hbase, hsize⟩ := Prod.mk.inj hspan
  have hboth : a.chunks.Perm ([freed, adjacent] ++ (used.chunks ++ m.list)) :=
    (Inv.chunks_used hp).trans (((hpm.append_left _).trans List.perm_middle).cons _)
  have hswap : a.chunks.Perm ([adjacent, freed] ++ (used.chunks ++ m.list)) := hboth.trans (List.Perm.swap _ _ _)
  have hnew : (chunks ⟨used, unused⟩).Perm (both :: (used.chunks ++ m.list)) :=
    (hpu.append_left _).trans List.perm_middle
  refine ⟨?_, fun c hc => ?_, hs, hu, ?_⟩
  · rcases hadj with hafter | hbefore
    · refine (tiles_cut hnew hboth (by simp) ?_).2 h.tiles
      simp only [spans_cons, spans_nil, Fills, Chunk.span]
      refine ⟨?_, ?_, ?_⟩ <;> omega
    · refine (tiles_cut hnew hswap (by simp) ?_).2 h.tiles
      simp only [spans_cons, spans_nil, Fills, Chunk.span]
      refine ⟨?_, ?_, ?_⟩ <;> omega
  · rcases List.mem_cons.1 (hnew.mem_iff.1 hc) with rfl | hc
    · exact hshape
    · exact h.shaped c (hboth.mem_iff.2 (List.mem_append_right _ hc))
  · rcases List.mem_cons.1 (hp.mem_iff.1 h.stack) with heq | hin
    · exact absurd heq.symm hne
    · exact hin

/-- **Freeing.** Freeing a used chunk other than the stack panics in no case: the chunk leaves the used side and the
tiling stays. -/
theorem free_ok (h : a.Inv) (hf : freed ∈ a.usedChunks.chunks) (hne : freed ≠ mainThreadStack) :
    ∃ a', a.free freed.base = .ok (freed.size, a') ∧ a'.Inv ∧
      a.usedChunks.chunks.Perm (freed :: a'.usedChunks.chunks) := by
  obtain ⟨used, h1, h2, h3⟩ := ChunkMap.removeWithBase_some h.used hf rfl
  have hshape := h.shaped freed (Inv.mem_used hf)
  have hfit := h.fits (Inv.mem_used hf) hne
  have hout := h.outside (Inv.chunks_used h3)
  have hnew : ∀ d ∈ a.unusedChunks.list, d.base ≠ freed.base := fun d hd heq =>
    hout d (List.mem_append_right _ hd) (heq ▸ freed.span_has_base)
  unfold free
  simp only [h1]
  rcases removeAdjacent_cases h hf hne with h4 | ⟨adjacent, m, h4, h5, h6, h7⟩
  · obtain ⟨unused, h8, h9, h10⟩ := SizeBucketedChunkMap.insert_ok h.unused hshape.min (by omega) hnew
    exact ⟨⟨used, unused⟩, by simp only [h4, h8, ok_bind, pure_eq_ok], inv_back h hne h2 h3 h9 h10, h3⟩
  · have hadj : adjacent ∈ a.unusedChunks.list := h6.mem_iff.2 List.mem_cons_self
    have hashape := h.shaped adjacent (Inv.mem_unused hadj)
    have hafit := h.fits (Inv.mem_unused hadj) (h.stack_ne hadj)
    have hanew : ∀ d ∈ m.list, d.base ≠ adjacent.base := fun d hd heq =>
      h.outside (Inv.chunks_unused h6) d (List.mem_append_right _ hd) (heq ▸ adjacent.span_has_base)
    have hmnew : ∀ d ∈ m.list, d.base ≠ freed.base := fun d hd => hnew d (h6.mem_iff.2 (List.mem_cons_of_mem _ hd))
    have hsum : add32 freed.size adjacent.size = .ok (freed.size + adjacent.size) := by
      exact add32_ok (by omega)
    simp only [h4, ok_bind, hsum]
    split_ifs with hmis
    · -- not joined: both go back as they are
      obtain ⟨m1, h8, h9, h10⟩ := SizeBucketedChunkMap.insert_ok h5 hashape.min (by omega) hanew
      have hsame : m1.list.Perm a.unusedChunks.list := h10.trans h6.symm
      obtain ⟨m2, h11, h12, h13⟩ := SizeBucketedChunkMap.insert_ok h9 hshape.min (by omega)
        fun d hd => hnew d (hsame.mem_iff.1 hd)
      exact ⟨⟨used, m2⟩, by simp only [h8, h11, ok_bind, pure_eq_ok],
        inv_back h hne h2 h3 h12 (h13.trans (hsame.cons _)), h3⟩
    · have hpos : 0 < freed.size + adjacent.size := Nat.add_pos_left freed.size_pos _
      have hbshape : Chunk.Shaped ⟨min freed.base adjacent.base, freed.size + adjacent.size, hpos⟩ := by
        obtain ⟨hb1, hs1, -⟩ := hshape
        obtain ⟨hb2, hs2, -⟩ := hashape
        simp only [minChunkSize] at hb1 hb2 hs1 hs2
        refine ⟨by simp only [minChunkSize]; omega, by simp only [minChunkSize]; omega, fun hp => ?_⟩
        by_contra hne
        exact hmis ⟨hp, pageAligned_eq_false.2 hne⟩
      have hbnew : ∀ d ∈ m.list, d.base ≠ min freed.base adjacent.base := fun d hd => by
        rcases min_choice freed.base adjacent.base with hmin | hmin
        · rw [hmin]; exact hmnew d hd
        · rw [hmin]; exact hanew d hd
      obtain ⟨m1, h8, h9, h10⟩ := SizeBucketedChunkMap.insert_ok h5 hbshape.min (by simp only; omega) hbnew
      exact ⟨⟨used, m1⟩, by simp only [SizeBucketedChunkMap.new_shaped hpos hbshape, h8, ok_bind, pure_eq_ok],
        inv_joined h hne h2 h3 h6 h9 h10 hbshape rfl h7, h3⟩

/-! ## Reserving -/

theorem leftOf_ok (hu : u.Shaped) (hc : c.base % pageSize = 0) (hlo : u.base ≤ c.base)
    (hhi : c.base ≤ u.base + u.size) :
    ∃ left, u.leftOf c = .ok left ∧ (∀ x ∈ left.toList, x.Shaped) ∧ Fills (spans left.toList) u.base c.base := by
  obtain ⟨hub, hus, hup⟩ := hu
  simp only [minChunkSize, pageSize] at hub hus hup hc
  unfold Chunk.leftOf
  split_ifs with h0
  · exact ⟨none, rfl, by simp, by simp only [Option.toList, spans_nil, Fills]; omega⟩
  · have hpos : 0 < c.base - u.base := Nat.pos_of_ne_zero h0
    refine ⟨some ⟨u.base, c.base - u.base, hpos⟩, ?_, fun x hx => ?_, ?_⟩
    · rw [Chunk.new_ok hpos (by simp only [pageSize]; omega)]; rfl
    · obtain rfl := List.mem_singleton.1 hx
      exact ⟨hub, by simp only [minChunkSize]; omega, by simp only [pageSize]; omega⟩
    · simp only [Option.toList, spans_cons, spans_nil, Chunk.span, Fills]
      exact ⟨trivial, by omega⟩

theorem rightOf_ok (hu : u.Shaped) (hc : c.base % pageSize = 0) (hcs : c.size % pageSize = 0)
    (hfit : u.base + u.size < 2 ^ 32) (hhi : c.base + c.size ≤ u.base + u.size) :
    ∃ right, u.rightOf c = .ok right ∧ (∀ x ∈ right.toList, x.Shaped) ∧
      Fills (spans right.toList) (c.base + c.size) (u.base + u.size) := by
  obtain ⟨hub, hus, hup⟩ := hu
  have hcl := c.lastByte_add
  have hul := u.lastByte_add
  simp only [minChunkSize, pageSize] at hub hus hup hc hcs
  unfold Chunk.rightOf
  split_ifs with h0
  · exact ⟨none, rfl, by simp, by simp only [Option.toList, spans_nil, Fills]; omega⟩
  · have hpos : 0 < u.lastByte - c.lastByte := Nat.pos_of_ne_zero h0
    refine ⟨some ⟨c.base + c.size, u.lastByte - c.lastByte, hpos⟩, ?_, fun x hx => ?_, ?_⟩
    · rw [add32_ok (by omega), hcl, ok_bind, Chunk.new_ok hpos (by simp only [pageSize]; omega)]; rfl
    · obtain rfl := List.mem_singleton.1 hx
      exact ⟨by simp only [minChunkSize]; omega, by simp only [minChunkSize]; omega, by simp only [pageSize]; omega⟩
    · simp only [Option.toList, spans_cons, spans_nil, Chunk.span, Fills]
      exact ⟨trivial, by omega⟩

/-- a range of whole pages inside an unused chunk: what is left of it on both sides -/
theorem trisectBy_inside (hu : u.Shaped) (hc : c.base % pageSize = 0) (hcs : c.size % pageSize = 0)
    (hfit : u.base + u.size < 2 ^ 32) (hlo : u.base ≤ c.base) (hhi : c.base + c.size ≤ u.base + u.size) :
    ∃ before after : Option Chunk, u.trisectBy c = .ok (some (before, after)) ∧
      (∀ x ∈ before.toList ++ c :: after.toList, x.Shaped) ∧
      Fills (spans (before.toList ++ c :: after.toList)) u.base (u.base + u.size) := by
  have hcpos := c.size_pos
  obtain ⟨before, h1, h2, h3⟩ := leftOf_ok hu hc hlo (by omega)
  obtain ⟨after, h4, h5, h6⟩ := rightOf_ok hu hc hcs hfit hhi
  refine ⟨before, after, ?_, ?_, ?_⟩
  · have hin : (!u.contains c.base || !u.contains c.lastByte) = false := by
      have hcl := c.lastByte_add
      have hul := u.lastByte_add
      simp only [Chunk.contains, Bool.or_eq_false_iff, Bool.not_eq_false', Bool.and_eq_true, decide_eq_true_eq]
      omega
    simp only [Chunk.trisectBy, hin, Bool.false_eq_true, if_false, h1, h4, ok_bind, pure_eq_ok]
  · intro x hx
    rcases List.mem_append.1 hx with hx | hx
    · exact h2 x hx
    · rcases List.mem_cons.1 hx with rfl | hx
      · simp only [pageSize] at hc hcs
        exact ⟨by simp only [minChunkSize]; omega, by simp only [minChunkSize]; omega, fun _ => hc⟩
      · exact h5 x hx
  · rw [spans_append, spans_cons]
    exact h3.append ⟨rfl, h6⟩

/-- the search passes over every chunk that does not contain the range -/
theorem findTrisected_ok {r : Option Chunk × Option Chunk} (hu : u ∈ l)
    (hone : ∀ d ∈ l, d.contains c.base = true → d = u) (ht : u.trisectBy c = .ok (some r)) :
    findTrisected c l = .ok (some (u, r)) := by
  induction l with
  | nil => exact absurd hu List.not_mem_nil
  | cons d l ih =>
    by_cases hd : d = u
    · subst hd
      simp only [findTrisected, ht, ok_bind, pure_eq_ok]
    · have hno : d.contains c.base = false := by
        rw [← Bool.not_eq_true]
        exact fun hin => hd (hone d List.mem_cons_self hin)
      have hnone : d.trisectBy c = .ok none := by simp [Chunk.trisectBy, hno]
      simp only [findTrisected, hnone, ok_bind]
      exact ih ((List.mem_cons.1 hu).resolve_left (Ne.symm hd)) fun e he => hone e (List.mem_cons_of_mem _ he)

theorem insertOpt_ok {o : Option Chunk} (h : m.Agree) (hs : ∀ x ∈ o.toList, x.Shaped)
    (hfit : ∀ x ∈ o.toList, x.size < 2 ^ 32) (hnew : ∀ x ∈ o.toList, ∀ d ∈ m.list, d.base ≠ x.base) :
    ∃ m', insertOpt m o = .ok m' ∧ m'.Agree ∧ m'.list.Perm (o.toList ++ m.list) := by
  cases o with
  | none => exact ⟨m, rfl, h, List.Perm.refl _⟩
  | some x =>
    have hx : x ∈ (some x).toList := List.mem_singleton_self x
    exact SizeBucketedChunkMap.insert_ok h (hs x hx).min (hfit x hx) (hnew x hx)

theorem perm_reserved {before after : List Chunk}
    (hu : used.chunks.Perm (c :: a.usedChunks.chunks)) (hm : m.list.Perm (after ++ (before ++ r))) :
    (chunks ⟨used, m⟩).Perm ((before ++ c :: after) ++ (a.usedChunks.chunks ++ r)) := by
  refine (hu.append hm).trans (List.perm_iff_count.2 fun x => ?_)
  simp only [List.count_append, List.count_cons]
  omega

/-- **Reserving.** A range of whole pages inside one unused chunk moves to the used side. -/
theorem reserve_ok (h : a.Inv) (hu : u ∈ a.unusedChunks.list) (hc : c.base % pageSize = 0)
    (hcs : c.size % pageSize = 0) (hlo : u.base ≤ c.base) (hhi : c.base + c.size ≤ u.base + u.size) :
    ∃ a', a.reserve c = .ok a' ∧ a'.Inv ∧ a'.usedChunks.chunks.Perm (c :: a.usedChunks.chunks) := by
  have hcpos := c.size_pos
  have hfit := h.fits (Inv.mem_unused hu) (h.stack_ne hu)
  have hhas : ∀ x, u.base ≤ x → x < u.base + u.size → u.span.Has x := fun x h1 h2 => ⟨h1, h2⟩
  obtain ⟨before, after, h1, h2, h3⟩ := trisectBy_inside (h.shaped u (Inv.mem_unused hu)) hc hcs hfit hlo hhi
  have hfind : findTrisected c a.unusedChunks.iter = .ok (some (u, before, after)) := by
    refine findTrisected_ok (h.unused.mem_iter hu (h.wf.size_lt hu)) (fun d hd hin => ?_) h1
    have hdl := d.lastByte_add
    simp only [Chunk.contains, Bool.and_eq_true, decide_eq_true_eq] at hin
    exact Chunk.ext_span (h.tiles.eq_of_has (a := c.base) (mem_span (Inv.mem_unused (h.unused.of_mem_iter hd)))
      (mem_span (Inv.mem_unused hu)) ⟨hin.1, by simp only [Chunk.span]; omega⟩ (hhas _ hlo (by omega)))
  obtain ⟨m, h4, h5, h6⟩ := SizeBucketedChunkMap.removeWithBase_some h.unused hu rfl
  have hout : ∀ d ∈ m.list, ¬ u.span.Has d.base := fun d hd =>
    h.outside (Inv.chunks_unused h6) d (List.mem_append_right _ hd)
  -- where the parts lie
  have hbefore : ∀ x ∈ before.toList, x.base = u.base ∧ x.base + x.size = c.base := fun x hx => by
    obtain rfl := Option.mem_toList.1 hx
    simp only [Option.toList, List.cons_append, List.nil_append, spans_cons, Fills, Chunk.span] at h3
    omega
  have hafter : ∀ x ∈ after.toList, x.base = c.base + c.size ∧ x.base + x.size = u.base + u.size := fun x hx => by
    obtain rfl := Option.mem_toList.1 hx
    rw [spans_append, spans_cons] at h3
    obtain ⟨e, -, h3⟩ := h3.of_append
    simp only [Option.toList, spans_cons, spans_nil, Fills, Chunk.span] at h3
    omega
  obtain ⟨m1, h7, h8, h9⟩ := insertOpt_ok (o := before) h5 (fun x hx => h2 x (by simp [hx]))
    (fun x hx => by have := hbefore x hx; omega)
    (fun x hx d hd heq => hout d hd (by have := hbefore x hx; have := x.size_pos; exact hhas _ (by omega) (by omega)))
  have hafternew : ∀ x ∈ after.toList, ∀ d ∈ m1.list, d.base ≠ x.base := fun x hx d hd heq => by
    have h10 := hafter x hx
    have h11 := x.size_pos
    rcases List.mem_append.1 (h9.mem_iff.1 hd) with hd | hd
    · have := hbefore d hd
      omega
    · exact hout d hd (hhas _ (by omega) (by omega))
  obtain ⟨m2, h10, h11, h12⟩ := insertOpt_ok (o := after) h8 (fun x hx => h2 x (by simp [hx]))
    (fun x hx => by have := hafter x hx; omega) hafternew
  obtain ⟨used, h13, h14, h15⟩ := ChunkMap.insert_ok (c := c) h.used
    (h.not_used hu (hhas c.base hlo (by omega)))
  refine ⟨⟨used, m2⟩, ?_, ⟨?_, ?_, h14, h11, h15.mem_iff.2 (List.mem_cons_of_mem _ h.stack)⟩, h15⟩
  · simp only [reserve, hfind, h4, h7, h10, h13, ok_bind, pure_eq_ok]
  · have hnew : (chunks ⟨used, m2⟩).Perm ((before.toList ++ c :: after.toList) ++ (a.usedChunks.chunks ++ m.list)) :=
      perm_reserved h15 (h12.trans (h9.append_left _))
    exact (tiles_cut (Inv.chunks_unused h6) hnew (by simp) h3).1 h.tiles
  · intro x hx
    rcases List.mem_append.1 ((perm_reserved h15 (h12.trans (h9.append_left _))).mem_iff.1 hx) with hx | hx
    · exact h2 x hx
    · exact h.shaped x ((Inv.chunks_unused h6).mem_iff.2 (List.mem_cons_of_mem _ hx))

/-! ## Runs -/

/-- what the address space looks like between operations -/
structure Tiled (a : Allocator) : Prop where
  /-- no byte is lost and none is owned twice -/
  one : ∀ addr < 2 ^ 32, owners (spans a.chunks) addr = 1
  inside : ∀ c ∈ a.chunks, c.base + c.size ≤ 2 ^ 32
  disjoint : a.chunks.Pairwise fun c d => ∀ addr, c.span.Has addr → ¬ d.span.Has addr
  size : ∀ c ∈ a.chunks, 0 < c.size ∧ c.size % minChunkSize = 0
  page : ∀ c ∈ a.chunks, pageSize ≤ c.size → c.base % pageSize = 0

theorem Inv.tiled (h : a.Inv) : a.Tiled where
  one := h.tiles.one
  inside _ hc := h.tiles.inside _ (mem_span hc)
  disjoint := List.pairwise_map.1 h.tiles.disjoint
  size _ hc := ⟨Chunk.size_pos _, (h.shaped _ hc).size16⟩
  page _ hc := (h.shaped _ hc).page

/-- an allocation that finds no memory; none of the internal assertions is what stops it -/
def StoppedBy (a : Allocator) : Op → Prop
  | .alloc size => a.Exhausted size ∧ ∃ e, a.alloc size = .error e ∧ (e = .outOfMemory ∨ e = .overflow)
  | _ => False

/-- **Step rule.** A legal operation keeps the invariant, or it is an allocation and memory is exhausted. -/
theorem legal_step (h : a.Inv) {o : Op} (hl : Legal a o) : (∃ a', step a o = .ok a' ∧ a'.Inv) ∨ StoppedBy a o := by
  cases o with
  | reserve c =>
    obtain ⟨hb, hs, u, hu, hlo, hhi⟩ := hl
    obtain ⟨a', h1, h2, -⟩ := reserve_ok h hu hb hs hlo hhi
    exact Or.inl ⟨a', h1, h2⟩
  | alloc size =>
    rcases alloc_cases h hl with ⟨existing, alloc, a', h1, h2, -⟩ | ⟨h1, h2⟩
    · exact Or.inl ⟨a', by simp only [step, h1]; rfl, h2⟩
    · exact Or.inr ⟨h2, h1⟩
  | free base =>
    obtain ⟨hne, freed, hf, rfl⟩ := hl
    obtain ⟨a', h1, h2, -⟩ := free_ok h hf (fun heq => hne (heq ▸ rfl))
    exact Or.inl ⟨a', by simp only [step, h1]; rfl, h2⟩

/-- **The address space stays tiled.** Every legal run from a new allocator completes with the address space tiled by
its chunks, or it is stopped in such a state by an allocation for which no unused chunk is large enough. No other
operation, and no internal assertion, stops it. -/
theorem tiled_runs {a₀ : Allocator} (hnew : Allocator.new = .ok a₀) (ops : List Op) (hl : LegalRun step Legal a₀ ops) :
    (∃ a, run step a₀ ops = .ok a ∧ a.Tiled) ∨
      ∃ pre o post a, ops = pre ++ o :: post ∧ run step a₀ pre = .ok a ∧ a.Tiled ∧ a.StoppedBy o := by
  obtain ⟨a₁, h1, h2, -⟩ := new_ok
  obtain rfl : a₁ = a₀ := Except.ok.inj (h1.symm.trans hnew)
  rcases legal_run_cases (P := Inv) (fun a o h hl => legal_step h hl) h2 hl with
    ⟨a, h3, h4⟩ | ⟨pre, o, post, a, h3, h4, h5, h6⟩
  · exact Or.inl ⟨a, h3, h4.tiled⟩
  · exact Or.inr ⟨pre, o, post, a, h3, h4, h5.tiled, h6⟩

/-- a run with a re-alignment split, a reservation in the middle of a chunk, and a free that joins -/
def sampleOps : List Op :=
  [.alloc 4096, .alloc 20, .alloc 5000, .reserve ⟨0x10000, 0x2000, by decide⟩, .free 0x2000, .free 0x1000,
    .alloc 0xfffff000]

def sampleStart : Allocator :=
  ⟨⟨[mainThreadStack]⟩, ⟨⟨[belowStack]⟩, (List.replicate numBuckets []).set 27 [belowStack]⟩⟩

theorem tiled_runs_sample :
    (∃ a, run step sampleStart sampleOps = .ok a ∧ a.Tiled) ∨
      ∃ pre o post a, sampleOps = pre ++ o :: post ∧ run step sampleStart pre = .ok a ∧ a.Tiled ∧ a.StoppedBy o :=
  tiled_runs (by decide +kernel) sampleOps (by decide +kernel)

/-! ## The search -/

/-- the bytes that are unused after an allocation -/
theorem has_taken {m' : SizeBucketedChunkMap} {x : ℕ} (h : a.Inv)
    (ht : SizeBucketedChunkMap.TakenFrom a.unusedChunks m' existing size alloc) :
    (∃ d ∈ m'.list, d.span.Has x) ↔ (∃ d ∈ a.unusedChunks.list, d.span.Has x) ∧ ¬alloc.span.Has x := by
  obtain ⟨hspan, -, -, rest, r, hperm, hperm', -, hfills⟩ := ht
  have hparts : (∃ d ∈ rest, d.span.Has x) ↔ existing.base + size ≤ x ∧ x < existing.base + existing.size := by
    have hrest := hfills.2
    rw [hspan] at hrest
    rw [← hrest.has]
    simp only [List.mem_map, exists_exists_and_eq_and]
  have hexisting : existing.span.Has x ↔ existing.base ≤ x ∧ x < existing.base + existing.size := Iff.rfl
  have halloc : alloc.span.Has x ↔ existing.base ≤ x ∧ x < existing.base + size := by
    rw [hspan]
    rfl
  -- the other chunks have no byte of the one that is cut
  have hother (hin : existing.span.Has x) : ¬∃ d ∈ r, d.span.Has x := by
    rintro ⟨d, hd, hdx⟩
    have htiles := tiles_perm (Inv.chunks_unused hperm) h.tiles
    exact htiles.not_both (mem_span (List.mem_append_right _ hd)) hin hdx
  have hle : existing.base + size ≤ existing.base + existing.size := by
    have hrest := hfills.2.le
    rwa [hspan] at hrest
  have hold : (∃ d ∈ a.unusedChunks.list, d.span.Has x) ↔ existing.span.Has x ∨ ∃ d ∈ r, d.span.Has x := by
    simp only [hperm.mem_iff, List.mem_cons, exists_eq_or_imp]
  have hnew : (∃ d ∈ m'.list, d.span.Has x) ↔ (∃ d ∈ rest, d.span.Has x) ∨ ∃ d ∈ r, d.span.Has x := by
    simp only [hperm'.mem_iff, List.mem_append, or_and_right, exists_or]
  rw [hexisting] at hother
  rw [hnew, hold, hparts, hexisting, halloc]
  constructor
  · rintro (hin | hr)
    · exact ⟨.inl ⟨by omega, hin.2⟩, by omega⟩
    · exact ⟨.inr hr, fun hin => hother ⟨hin.1, by omega⟩ hr⟩
  · rintro ⟨hin | hr, hout⟩
    · exact .inl (by omega)
    · exact .inr hr

/-- **Best fit.** The search for a size, as `alloc` makes it, finds a chunk if and only if an unused one is large enough. What it
gives out is the low end of a smallest one of those, and the rest stays unused. -/
theorem best_fit {request : UInt32} (h : a.Inv) (hs : alignedSize request.toNat = .ok size) :
    (∃ found m', a.unusedChunks.allocate size = .ok (found, m')) ∧
      ((∃ alloc m', a.unusedChunks.allocate size = .ok (some alloc, m')) ↔ ∃ c ∈ a.unusedChunks.list, size ≤ c.size) ∧
        ∀ alloc m', a.unusedChunks.allocate size = .ok (some alloc, m') → alloc.size = size ∧
          (∃ existing ∈ a.unusedChunks.list, alloc.base = existing.base ∧ size ≤ existing.size ∧
            ∀ d ∈ a.unusedChunks.list, size ≤ d.size → existing.size ≤ d.size) ∧
          ∀ x, (∃ d ∈ m'.list, d.span.Has x) ↔ (∃ d ∈ a.unusedChunks.list, d.span.Has x) ∧ ¬alloc.span.Has x := by
  have hfit : FitSize size := by
    rcases alignedSize_cases request.toNat_lt with ⟨hok, hfit, -⟩ | ⟨herror, -⟩
    · rwa [← Except.ok.inj (hok.symm.trans hs)]
    · exact nomatch herror.symm.trans hs
  rcases SizeBucketedChunkMap.allocate_cases h.wf hfit with ⟨hnone, hsmall⟩ | ⟨existing, alloc, m', hsome, hmem, hle, hmin, htaken⟩
  · refine ⟨⟨_, _, hnone⟩, ⟨?_, ?_⟩, ?_⟩
    · rintro ⟨alloc, m', hsome⟩
      exact nomatch hnone.symm.trans hsome
    · rintro ⟨c, hc, hle⟩
      exact absurd hle (Nat.not_le.2 (hsmall c hc))
    · intro alloc m' hsome
      exact nomatch hnone.symm.trans hsome
  · refine ⟨⟨_, _, hsome⟩, ⟨fun _ => ⟨existing, hmem, hle⟩, fun _ => ⟨alloc, m', hsome⟩⟩, ?_⟩
    intro alloc' m'' hsome'
    obtain ⟨hout, rfl⟩ := Prod.mk.inj (Except.ok.inj (hsome.symm.trans hsome'))
    obtain rfl := Option.some.inj hout
    exact ⟨congrArg Prod.snd htaken.1, ⟨existing, hmem, congrArg Prod.fst htaken.1, hle, hmin⟩, fun x => has_taken h htaken⟩

theorem best_fit_sample :
    (∃ found m', sampleStart.unusedChunks.allocate 8192 = .ok (found, m')) ∧
      ((∃ alloc m', sampleStart.unusedChunks.allocate 8192 = .ok (some alloc, m')) ↔
        ∃ c ∈ sampleStart.unusedChunks.list, 8192 ≤ c.size) ∧
        ∀ alloc m', sampleStart.unusedChunks.allocate 8192 = .ok (some alloc, m') → alloc.size = 8192 ∧
          (∃ existing ∈ sampleStart.unusedChunks.list, alloc.base = existing.base ∧ 8192 ≤ existing.size ∧
            ∀ d ∈ sampleStart.unusedChunks.list, 8192 ≤ d.size → existing.size ≤ d.size) ∧
          ∀ x, (∃ d ∈ m'.list, d.span.Has x) ↔
            (∃ d ∈ sampleStart.unusedChunks.list, d.span.Has x) ∧ ¬alloc.span.Has x := by
  have hnew : Allocator.new = .ok sampleStart := by decide +kernel
  obtain ⟨a, ha, hinv, -⟩ := new_ok
  obtain rfl := Except.ok.inj (ha.symm.trans hnew)
  exact @best_fit _ _ 5000 hinv (by decide)

end TouchHLE.Mem.Allocator
