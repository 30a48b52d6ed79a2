/-
`SizeBucketedChunkMap::allocate` as a best-fit allocation of one collection of chunks.

- `Chunk.Shaped`: the alignment invariant of a single chunk.
- `SizeBucketedChunkMap.Wf`: the indexes agree, the chunks are shaped, inside the address space and apart.
- `splitChunk_ok`: cutting a chunk, with the re-alignment split, panics in no case; what is put back follows the part
  handed out without a gap.
- `allocate_cases`: either every chunk is too small and nothing changes, or a smallest chunk that is large enough
  gives its low end and keeps the rest.
-/
import TouchHLE.Lib.Tiling
import TouchHLE.Mem.ChunkMaps

namespace TouchHLE.Mem

open Tiling Vec Machine

/-! ## Shapes -/

namespace Chunk

/-- the alignment invariant of a chunk: multiples of 16 bytes, and page-aligned from one page on -/
structure Shaped (c : Chunk) : Prop where
  base16 : c.base % minChunkSize = 0
  size16 : c.size % minChunkSize = 0
  page : pageSize ≤ c.size → c.base % pageSize = 0

def span (c : Chunk) : Span := (c.base, c.size)

theorem Shaped.min {c : Chunk} (h : c.Shaped) : minChunkSize ≤ c.size :=
  Nat.le_of_dvd c.size_pos (Nat.dvd_of_mod_eq_zero h.size16)

theorem ext_span {c d : Chunk} (h : c.span = d.span) : c = d := by
  cases c; cases d
  simp only [span, Prod.mk.injEq] at h
  simp [h.1, h.2]

theorem span_has_base (c : Chunk) : c.span.Has c.base :=
  ⟨le_rfl, Nat.lt_add_of_pos_right c.size_pos⟩

end Chunk

/-- the sizes `alloc` hands to `allocate` -/
structure FitSize (size : ℕ) : Prop where
  pos : 0 < size
  mul16 : size % minChunkSize = 0
  page : pageSize ≤ size → size % pageSize = 0

theorem FitSize.min {size : ℕ} (h : FitSize size) : minChunkSize ≤ size :=
  Nat.le_of_dvd h.pos (Nat.dvd_of_mod_eq_zero h.mul16)

def spans (l : List Chunk) : List Span := l.map Chunk.span

@[simp] theorem spans_nil : spans [] = [] := rfl

@[simp] theorem spans_cons (c : Chunk) (l : List Chunk) : spans (c :: l) = c.span :: spans l := rfl

@[simp] theorem spans_append (l r : List Chunk) : spans (l ++ r) = spans l ++ spans r := List.map_append

/-! ## Well-formed collections -/

namespace SizeBucketedChunkMap

structure Wf (m : SizeBucketedChunkMap) : Prop where
  agree : m.Agree
  shaped : ∀ c ∈ m.list, c.Shaped
  fits : ∀ c ∈ m.list, c.base + c.size < 2 ^ 32
  apart : ∀ c ∈ m.list, ∀ d ∈ m.list, c.span.Has d.base → c = d

variable {m : SizeBucketedChunkMap} {c existing : Chunk} {base stop size b : ℕ} {r : List Chunk}

theorem Wf.size_lt (h : m.Wf) (hc : c ∈ m.list) : c.size < 2 ^ 32 := by
  have := h.fits c hc; omega

/-- the other chunks start outside a given one -/
theorem Wf.outside (h : m.Wf) (hp : m.list.Perm (c :: r)) : ∀ d ∈ r, ¬ c.span.Has d.base := by
  intro d hd hin
  obtain rfl := h.apart c (hp.mem_iff.2 List.mem_cons_self) d (hp.mem_iff.2 (List.mem_cons_of_mem c hd)) hin
  -- no base occurs twice
  have hnd := (hp.map Chunk.base).nodup_iff.1 h.agree.sorted.nodup
  rw [List.map_cons, List.nodup_cons] at hnd
  exact hnd.1 (List.mem_map_of_mem hd)

/-! ## Cutting a chunk -/

/-- putting back a part of a chunk that was taken out of the collection -/
theorem insert_inside (h : m.Agree) (hout : ∀ d ∈ m.list, ¬ existing.span.Has d.base)
    (hfit : existing.base + existing.size < 2 ^ 32) (hc : c.Shaped) (hlo : existing.base ≤ c.base)
    (hhi : c.base + c.size ≤ existing.base + existing.size) :
    ∃ m', m.insert c = .ok m' ∧ m'.Agree ∧ m'.list.Perm (c :: m.list) := by
  have hpos := c.size_pos
  refine insert_ok h hc.min (by omega) fun d hd heq => hout d hd ?_
  exact ⟨by rw [heq]; exact hlo, by simp only [Chunk.span]; omega⟩

/-- the chunk that `Chunk::new` makes -/
theorem new_shaped (hpos : 0 < size) (h : Chunk.Shaped ⟨base, size, hpos⟩) :
    Chunk.new base size = .ok ⟨base, size, hpos⟩ :=
  Chunk.new_ok hpos h.page

/-- the rump stays in one piece -/
theorem splitChunk_rump (h : m.Agree) (hsh : existing.Shaped) (hfit : existing.base + existing.size < 2 ^ 32)
    (hout : ∀ d ∈ m.list, ¬ existing.span.Has d.base) (hpos : 0 < size) (h16 : size % minChunkSize = 0)
    (hlt : size < existing.size)
    (hrump : pageSize ≤ existing.size - size → (existing.base + size) % pageSize = 0) :
    ∃ rump m', splitChunk m existing size = .ok (⟨existing.base, size, hpos⟩, m') ∧
      rump.span = (existing.base + size, existing.size - size) ∧ rump.Shaped ∧ m'.Agree ∧
      m'.list.Perm (rump :: m.list) := by
  obtain ⟨hb16, hs16, hpage⟩ := hsh
  have hrpos : 0 < existing.size - size := by omega
  have hshape : Chunk.Shaped ⟨existing.base + size, existing.size - size, hrpos⟩ := by
    simp only [minChunkSize] at hb16 hs16 h16
    exact ⟨by simp only [minChunkSize]; omega, by simp only [minChunkSize]; omega, hrump⟩
  obtain ⟨m', h1, h2, h3⟩ := insert_inside h hout hfit hshape (by simp only; omega) (by simp only; omega)
  refine ⟨⟨existing.base + size, existing.size - size, hrpos⟩, m', ?_, rfl, hshape, h2, h3⟩
  have halloc : Chunk.new existing.base size = .ok ⟨existing.base, size, hpos⟩ :=
    Chunk.new_ok hpos fun hp => hpage (hp.trans hlt.le)
  have hsum : add32 existing.base size = .ok (existing.base + size) := add32_ok (by omega)
  have hno : ¬ (existing.size - size ≥ pageSize ∧ pageAligned (existing.base + size) = false) := fun ⟨h1, h2⟩ =>
    pageAligned_eq_false.1 h2 (hrump h1)
  unfold splitChunk
  simp only [halloc, hsum, ok_bind, if_neg hno, new_shaped hrpos hshape, h1, pure_eq_ok]

/-- the rump would be a misaligned chunk of a page or more: it is cut at the next page boundary -/
theorem splitChunk_realign (h : m.Agree) (hsh : existing.Shaped) (hfit : existing.base + existing.size < 2 ^ 32)
    (hout : ∀ d ∈ m.list, ¬ existing.span.Has d.base) (hpos : 0 < size) (h16 : size % minChunkSize = 0)
    (hsmall : size < pageSize) (hbig : pageSize ≤ existing.size - size)
    (hmis : (existing.base + size) % pageSize ≠ 0) :
    ∃ left right m', splitChunk m existing size = .ok (⟨existing.base, size, hpos⟩, m') ∧
      left.span = (existing.base + size, pageSize - size) ∧
      right.span = (existing.base + pageSize, existing.size - pageSize) ∧ left.Shaped ∧ right.Shaped ∧ m'.Agree ∧
      m'.list.Perm (right :: left :: m.list) := by
  obtain ⟨hb16, hs16, hpage⟩ := hsh
  have hP : pageSize = 4096 := rfl
  have hbase : existing.base % pageSize = 0 := hpage (by omega)
  have hlpos : 0 < pageSize - size := by omega
  have hrpos : 0 < existing.size - pageSize := by omega
  simp only [minChunkSize] at hb16 hs16 h16
  have hls : Chunk.Shaped ⟨existing.base + size, pageSize - size, hlpos⟩ :=
    ⟨by simp only [minChunkSize]; omega, by simp only [minChunkSize]; omega, by simp only; omega⟩
  have hrs : Chunk.Shaped ⟨existing.base + pageSize, existing.size - pageSize, hrpos⟩ :=
    ⟨by simp only [minChunkSize]; omega, by simp only [minChunkSize]; omega,
      fun _ => by simp only [pageSize] at hbase ⊢; omega⟩
  obtain ⟨m1, h1, h2, h3⟩ := insert_inside h hout hfit hls (by simp only; omega) (by simp only; omega)
  have hnew : ∀ d ∈ m1.list, d.base ≠ existing.base + pageSize := fun d hd => by
    rcases List.mem_cons.1 (h3.mem_iff.1 hd) with rfl | hd
    · simp only; omega
    · exact fun heq => hout d hd ⟨by simp only [Chunk.span]; omega, by simp only [Chunk.span]; omega⟩
  obtain ⟨m2, h4, h5, h6⟩ := insert_ok h2 hrs.min (by simp only; omega) hnew
  refine ⟨⟨existing.base + size, pageSize - size, hlpos⟩, ⟨existing.base + pageSize, existing.size - pageSize, hrpos⟩,
    m2, ?_, rfl, rfl, hls, hrs, h5, h6.trans (h3.cons _)⟩
  have halloc : Chunk.new existing.base size = .ok ⟨existing.base, size, hpos⟩ := Chunk.new_ok hpos fun _ => hbase
  have hsum : add32 existing.base size = .ok (existing.base + size) := add32_ok (by omega)
  have hsum2 : add32 existing.base pageSize = .ok (existing.base + pageSize) := add32_ok (by omega)
  have hlast : Chunk.lastByte ⟨existing.base + size, pageSize - size, hlpos⟩ + 1 = existing.base + pageSize := by
    rw [Chunk.lastByte_add]; simp only; omega
  have hnext : add32 (Chunk.lastByte ⟨existing.base + size, pageSize - size, hlpos⟩) 1 =
      .ok (existing.base + pageSize) := by
    rw [add32_ok (by rw [hlast]; omega), hlast]
  have hmore : existing.size - size ≥ pageSize ∧ pageAligned (existing.base + size) = false :=
    ⟨hbig, pageAligned_eq_false.2 hmis⟩
  have hadd : pageSize - size + (existing.size - pageSize) = existing.size - size := by omega
  unfold splitChunk
  simp only [halloc, hsum, ok_bind, if_pos hmore, assert_ok (pageAligned_iff.2 hbase), new_shaped hlpos hls, hsum2,
    new_shaped hrpos hrs, hnext, hadd, assert_ok (beq_self_eq_true _), h1, h4, pure_eq_ok]

/-- **Split rule.** Handing out the low end of a chunk that was taken out of the collection panics in no case, and the
parts put back follow each other up to the end of the chunk. -/
theorem splitChunk_ok (h : m.Agree) (hsh : existing.Shaped) (hfit : existing.base + existing.size < 2 ^ 32)
    (hout : ∀ d ∈ m.list, ¬ existing.span.Has d.base) (hs : FitSize size) (hlt : size < existing.size) :
    ∃ m' rest, splitChunk m existing size = .ok (⟨existing.base, size, hs.pos⟩, m') ∧ m'.Agree ∧
      m'.list.Perm (rest ++ m.list) ∧ (∀ c ∈ rest, c.Shaped) ∧
      Fills (spans rest) (existing.base + size) (existing.base + existing.size) := by
  by_cases hmis : pageSize ≤ existing.size - size ∧ (existing.base + size) % pageSize ≠ 0
  · have hsmall : size < pageSize := by
      by_contra hge
      have h1 := hs.page (Nat.le_of_not_lt hge)
      have h2 := hsh.page (by omega)
      have h3 := hmis.2
      simp only [pageSize] at h1 h2 h3
      omega
    obtain ⟨left, right, m', h1, h2, h3, h4, h5, h6, h7⟩ :=
      splitChunk_realign h hsh hfit hout hs.pos hs.mul16 hsmall hmis.1 hmis.2
    refine ⟨m', [left, right], h1, h6, h7.trans (List.Perm.swap _ _ _), by simp [h4, h5], ?_⟩
    simp only [spans_cons, spans_nil, h2, h3, Fills]
    refine ⟨trivial, ?_, ?_⟩ <;> omega
  · obtain ⟨rump, m', h1, h2, h3, h4, h5⟩ := splitChunk_rump h hsh hfit hout hs.pos hs.mul16 hlt fun hp => by
      by_contra hne
      exact hmis ⟨hp, hne⟩
    refine ⟨m', [rump], h1, h4, h5, by simp [h3], ?_⟩
    simp only [spans_cons, spans_nil, h2, Fills]
    exact ⟨trivial, by omega⟩

/-! ## Allocation -/

/-- what an allocation from `existing` does: its low end is handed out, the rest of it stays -/
def TakenFrom (m m' : SizeBucketedChunkMap) (existing : Chunk) (size : ℕ) (alloc : Chunk) : Prop :=
  alloc.span = (existing.base, size) ∧ alloc.Shaped ∧ m'.Agree ∧
    ∃ rest r, m.list.Perm (existing :: r) ∧ m'.list.Perm (rest ++ r) ∧ (∀ c ∈ rest, c.Shaped) ∧
      Fills (spans (alloc :: rest)) existing.base (existing.base + existing.size)

theorem allocateInBucket_cases (h : m.Wf) (hs : FitSize size) (b : ℕ) :
    (m.allocateInBucket size b = .ok (none, m) ∧ ∀ c ∈ m.bucket b, c.size < size) ∨
      ∃ existing alloc m', m.allocateInBucket size b = .ok (some alloc, m') ∧ existing ∈ m.bucket b ∧
        size ≤ existing.size ∧ (∀ d ∈ m.bucket b, size ≤ d.size → existing.size ≤ d.size) ∧
        TakenFrom m m' existing size alloc := by
  rcases bestChunk_bucket (m := m) size b with ⟨h1, h2⟩ | ⟨idx, existing, h1, h2, h3, h4⟩
  · exact Or.inl ⟨by simp only [allocateInBucket, h1, pure_eq_ok], h2⟩
  · have hin := List.mem_of_getElem? h2
    obtain ⟨hm, rfl⟩ := h.agree.mem_bucket.1 hin
    obtain ⟨ch, h5, h6, h7⟩ := ChunkMap.removeWithBase_some h.agree.sorted hm rfl
    have hagree := agree_swapRemove h.agree h6 h7 h2
    refine Or.inr ⟨existing, ?_⟩
    by_cases heq : existing.size = size
    · refine ⟨existing, _, ?_, hin, h3, h4, by rw [← heq]; rfl, h.shaped _ hm, hagree, [], ch.chunks, h7,
        List.Perm.refl _, by simp, rfl, rfl⟩
      simp only [allocateInBucket, h1, h2, h5, assert_ok (beq_self_eq_true _), ok_bind, if_pos heq, pure_eq_ok]
    · obtain ⟨m', rest, h8, h9, h10, h11, h12⟩ := splitChunk_ok hagree (h.shaped _ hm) (h.fits _ hm)
        (h.outside h7) hs (lt_of_le_of_ne h3 (Ne.symm heq))
      refine ⟨⟨existing.base, size, hs.pos⟩, m', ?_, hin, h3, h4, rfl, ?_, h9, rest, ch.chunks, h7, h10, h11, rfl, h12⟩
      · simp only [allocateInBucket, h1, h2, h5, assert_ok (beq_self_eq_true _), ok_bind, if_neg heq, h8, pure_eq_ok]
      · exact ⟨(h.shaped _ hm).base16, hs.mul16, fun hp => (h.shaped _ hm).page (hp.trans h3)⟩

/-- **Best fit.** Either every chunk is too small and nothing changes, or a smallest chunk that is large enough gives
its low end and keeps the rest. -/
theorem allocate_cases (h : m.Wf) (hs : FitSize size) :
    (m.allocate size = .ok (none, m) ∧ ∀ c ∈ m.list, c.size < size) ∨
      ∃ existing alloc m', m.allocate size = .ok (some alloc, m') ∧ existing ∈ m.list ∧ size ≤ existing.size ∧
        (∀ d ∈ m.list, size ≤ d.size → existing.size ≤ d.size) ∧ TakenFrom m m' existing size alloc := by
  -- a chunk that is large enough lies in the bucket of the size or in a higher one
  have hge : ∀ d ∈ m.list, size ≤ d.size → bucketFor size ≤ bucketFor d.size := fun d _ hd => bucketFor_mono hd
  have hmin : assert (size ≥ minChunkSize) Panic.chunkTooSmall = .ok () := assert_ok (by simpa using hs.min)
  unfold allocate
  simp only [hmin, ok_bind]
  rcases allocateInBucket_cases h hs (bucketFor size) with ⟨h1, h2⟩ | ⟨existing, alloc, m', h1, h2, h3, h4, h5⟩
  · have hup : ∀ d ∈ m.list, size ≤ d.size → bucketFor size < bucketFor d.size := fun d hd hsd => by
      refine lt_of_le_of_ne (hge d hd hsd) fun heq => ?_
      have := h2 d (h.agree.mem_bucket.2 ⟨hd, heq.symm⟩)
      omega
    simp only [h1, ok_bind]
    cases hk : (m.chunksByLog2Size.drop (bucketFor size + 1)).findIdx? (fun b => !b.isEmpty) with
    | none =>
      refine Or.inl ⟨rfl, fun d hd => ?_⟩
      by_contra hsd
      have hb := hup d hd (Nat.le_of_not_lt hsd)
      have hlen : bucketFor d.size < m.chunksByLog2Size.length := h.agree.len ▸ bucketFor_lt (h.size_lt hd)
      have hin := h.agree.mem_bucket.2 ⟨hd, rfl⟩
      rw [bucket, getD_of_lt hlen] at hin
      have hmem : m.chunksByLog2Size[bucketFor d.size] ∈ m.chunksByLog2Size.drop (bucketFor size + 1) := by
        rw [List.mem_drop_iff_getElem]
        exact ⟨bucketFor d.size - (bucketFor size + 1), by omega, by congr 1; omega⟩
      have hempty := List.findIdx?_eq_none_iff.1 hk _ hmem
      simp only [Bool.not_eq_false', List.isEmpty_iff] at hempty
      rw [hempty] at hin
      exact absurd hin List.not_mem_nil
    | some k =>
      obtain ⟨hlt, hne, hfirst⟩ := List.findIdx?_eq_some_iff_getElem.1 hk
      rw [List.length_drop] at hlt
      have hbk : m.bucket (k + bucketFor size + 1) ≠ [] := by
        rw [List.getElem_drop] at hne
        rw [bucket, getD_of_lt (by omega)]
        simpa [Nat.add_comm, Nat.add_left_comm, Nat.add_assoc] using hne
      -- every chunk that is large enough lies in the first nonempty bucket or above it
      have hlow : ∀ d ∈ m.list, size ≤ d.size → k + bucketFor size + 1 ≤ bucketFor d.size := fun d hd hsd => by
        have hb := hup d hd hsd
        by_contra hlt2
        have hin := h.agree.mem_bucket.2 ⟨hd, rfl⟩
        rw [bucket, getD_of_lt (by omega)] at hin
        have hzero := hfirst (bucketFor d.size - (bucketFor size + 1)) (by omega)
        rw [List.getElem_drop] at hzero
        simp only [Bool.not_eq_true, Bool.not_eq_false', List.isEmpty_iff] at hzero
        have hidx : bucketFor size + 1 + (bucketFor d.size - (bucketFor size + 1)) = bucketFor d.size := by omega
        simp only [hidx] at hzero
        rw [hzero] at hin
        exact absurd hin List.not_mem_nil
      rcases allocateInBucket_cases h hs (k + bucketFor size + 1) with
        ⟨-, h7⟩ | ⟨existing, alloc, m', h6, h7, h8, h9, h10⟩
      · -- the chunks of a higher bucket are all large enough
        obtain ⟨c, hc⟩ := List.exists_mem_of_ne_nil _ hbk
        have hsz := h7 c hc
        have hbc := (h.agree.mem_bucket.1 hc).2
        exact absurd (lt_of_bucketFor_lt (s := size) (t := c.size) (by omega)) (by omega)
      · have hm := h.agree.mem_bucket.1 h7
        refine Or.inr ⟨existing, alloc, m', h6, hm.1, h8, fun d hd hsd => ?_, h10⟩
        rcases Nat.lt_or_ge (bucketFor existing.size) (bucketFor d.size) with hlt3 | hge3
        · exact (lt_of_bucketFor_lt hlt3).le
        · have := hlow d hd hsd
          exact h9 d (h.agree.mem_bucket.2 ⟨hd, by omega⟩) hsd
  · obtain ⟨hm, hb⟩ := h.agree.mem_bucket.1 h2
    refine Or.inr ⟨existing, alloc, m', by simp only [h1, ok_bind, pure_eq_ok], hm, h3, fun d hd hsd => ?_, h5⟩
    rcases Nat.lt_or_ge (bucketFor size) (bucketFor d.size) with hlt | hle
    · exact (lt_of_bucketFor_lt (hb ▸ hlt)).le
    · exact h4 d (h.agree.mem_bucket.2 ⟨hd, Nat.le_antisymm hle (hge d hd hsd)⟩) hsd

end SizeBucketedChunkMap

end TouchHLE.Mem
