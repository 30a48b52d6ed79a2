/-
What the two chunk collections do, up to the order in which they store their chunks.

- `ChunkMap.Sorted`: the entries are in strictly increasing order of their bases, so a base is a key.
- `SizeBucketedChunkMap.Agree`: bucket `b` holds exactly the chunks of the map whose size falls into it. Both indexes
  then always find the chunk that the other one found.
- One lemma for each operation: on an agreeing map it panics in no case and adds or removes exactly the chunk it is
  about (`insert_ok`, `removeWithBase_cases`, `removeWithEnd_cases`).
- `bestChunk_spec`: the search loop of `allocate_in_bucket` finds a smallest chunk that is large enough, if there is one.
-/
import TouchHLE.Mem.Allocator

namespace TouchHLE.Mem

open Vec Machine

/-! ## Alignment -/

theorem pageAligned_iff {addr : ℕ} : pageAligned addr = true ↔ addr % pageSize = 0 := by
  have h : addr &&& pageSizeAlignMask = addr % pageSize := Nat.and_two_pow_sub_one_eq_mod addr 12
  simp [pageAligned, h]

theorem pageAligned_eq_false {addr : ℕ} : pageAligned addr = false ↔ addr % pageSize ≠ 0 := by
  rw [← Bool.not_eq_true, pageAligned_iff]

theorem Chunk.new_ok {base size : ℕ} (hpos : 0 < size) (h : pageSize ≤ size → base % pageSize = 0) :
    Chunk.new base size = .ok ⟨base, size, hpos⟩ := by
  unfold Chunk.new
  rw [if_neg, dif_pos hpos]
  rintro ⟨h1, h2⟩
  exact pageAligned_eq_false.1 h2 (h h1)

theorem Chunk.lastByte_add (c : Chunk) : c.lastByte + 1 = c.base + c.size := by
  have := c.size_pos
  unfold Chunk.lastByte; omega

/-! ## Chunks by base -/

namespace ChunkMap

/-- the order of the B-tree -/
def Sorted (m : ChunkMap) : Prop := m.chunks.Pairwise fun c d => c.base < d.base

variable {m : ChunkMap} {c d : Chunk} {base stop : ℕ}

theorem Sorted.nodup (h : m.Sorted) : (m.chunks.map Chunk.base).Nodup :=
  List.pairwise_map.2 (h.imp Nat.ne_of_lt)

theorem Sorted.eq_of_base (h : m.Sorted) (hc : c ∈ m.chunks) (hd : d ∈ m.chunks) (hb : c.base = d.base) : c = d :=
  List.inj_on_of_nodup_map h.nodup hc hd hb

theorem sorted_empty : empty.Sorted := List.Pairwise.nil

theorem pairwise_orderedInsert {l : List Chunk} (h : l.Pairwise fun c d => c.base ≤ d.base) :
    (l.orderedInsert (·.base ≤ ·.base) c).Pairwise fun c d => c.base ≤ d.base := by
  induction l with
  | nil => simp
  | cons e l ih =>
    obtain ⟨h1, h2⟩ := List.pairwise_cons.1 h
    rw [List.orderedInsert_cons]
    split_ifs with hce
    · refine List.Pairwise.cons (fun x hx => ?_) h
      rcases List.mem_cons.1 hx with rfl | hx
      · exact hce
      · exact hce.trans (h1 x hx)
    · refine List.Pairwise.cons (fun x hx => ?_) (ih h2)
      rcases (List.mem_orderedInsert _).1 hx with rfl | hx
      · omega
      · exact h1 x hx

theorem insert_ok (h : m.Sorted) (hnew : ∀ d ∈ m.chunks, d.base ≠ c.base) :
    ∃ m', m.insert c = .ok m' ∧ m'.Sorted ∧ m'.chunks.Perm (c :: m.chunks) := by
  have hp : (m.chunks.orderedInsert (·.base ≤ ·.base) c).Perm (c :: m.chunks) := List.perm_orderedInsert _ _ _
  refine ⟨⟨m.chunks.orderedInsert (·.base ≤ ·.base) c⟩, ?_, ?_, hp⟩
  · unfold insert
    rw [if_neg]
    simpa using hnew
  · -- weakly sorted by construction; strictly, because no base occurs twice
    have hle := pairwise_orderedInsert (c := c) (List.Pairwise.imp Nat.le_of_lt h)
    have hne : (c :: m.chunks).Pairwise (fun c d => c.base ≠ d.base) :=
      List.Pairwise.cons (fun d hd => (hnew d hd).symm) (List.Pairwise.imp Nat.ne_of_lt h)
    exact hle.imp₂ (fun _ _ h1 h2 => lt_of_le_of_ne h1 h2) (hp.symm.pairwise hne Ne.symm)

theorem removeWithBase_some (h : m.Sorted) (hc : c ∈ m.chunks) (hb : c.base = base) :
    ∃ m', m.removeWithBase base = some (c, m') ∧ m'.Sorted ∧ m.chunks.Perm (c :: m'.chunks) := by
  have hex : ∃ d ∈ m.chunks, (d.base == base) = true := ⟨c, hc, by simpa using hb⟩
  obtain ⟨d, hd⟩ := Option.isSome_iff_exists.1 (List.find?_isSome.2 hex)
  have hdb : d.base = base := by simpa using List.find?_some hd
  obtain rfl : d = c := h.eq_of_base (List.mem_of_find?_eq_some hd) hc (hdb.trans hb.symm)
  refine ⟨⟨m.chunks.eraseP (·.base == base)⟩, by simp [removeWithBase, hd], ?_, ?_⟩
  · exact List.Pairwise.sublist List.eraseP_sublist h
  · obtain ⟨x, l1, l2, h1, h2, h3, h4⟩ := List.exists_of_eraseP (p := (·.base == base)) hc (by simpa using hb)
    have hxd : x = d := h.eq_of_base (by rw [h3]; simp) hc (by simpa using (beq_iff_eq.1 h2).trans hb.symm)
    subst hxd
    rw [h4, h3]
    exact List.perm_middle

theorem removeWithBase_cases (h : m.Sorted) (base : ℕ) :
    (m.removeWithBase base = none ∧ ∀ d ∈ m.chunks, d.base ≠ base) ∨
      ∃ c m', m.removeWithBase base = some (c, m') ∧ c.base = base ∧ m'.Sorted ∧ m.chunks.Perm (c :: m'.chunks) := by
  by_cases hex : ∃ d ∈ m.chunks, d.base = base
  · obtain ⟨c, hc, hb⟩ := hex
    obtain ⟨m', h1, h2, h3⟩ := removeWithBase_some h hc hb
    exact Or.inr ⟨c, m', h1, hb, h2, h3⟩
  · push Not at hex
    refine Or.inl ⟨?_, hex⟩
    rw [removeWithBase, Option.map_eq_none_iff, List.find?_eq_none]
    simpa using hex

theorem removeWithEnd_cases (h : m.Sorted) (hfit : ∀ d ∈ m.chunks, d.base + d.size < 2 ^ 32) (stop : ℕ) :
    m.removeWithEnd stop = .ok none ∨
      ∃ c m', m.removeWithEnd stop = .ok (some (c, m')) ∧ c.base + c.size = stop ∧ m'.Sorted ∧
        m.chunks.Perm (c :: m'.chunks) := by
  unfold removeWithEnd
  cases hl : (m.chunks.filter (·.base < stop)).getLast? with
  | none => exact Or.inl rfl
  | some c =>
    have hc : c ∈ m.chunks := (List.mem_filter.1 (List.mem_of_getLast? hl)).1
    have hadd : add32 c.lastByte 1 = .ok (c.base + c.size) := by
      rw [add32_ok (by rw [c.lastByte_add]; exact hfit c hc), c.lastByte_add]
    simp only [hadd, ok_bind, pure_eq_ok]
    split_ifs with hs
    · exact Or.inl rfl
    · obtain ⟨m', h1, h2, h3⟩ := removeWithBase_some h hc rfl
      exact Or.inr ⟨c, m', by rw [h1], not_not.1 hs, h2, h3⟩

end ChunkMap

/-! ## Chunks by base and by size -/

theorem bucketFor_lt {size : ℕ} (h : size < 2 ^ 32) : bucketFor size < numBuckets := by
  have h1 : Nat.log2 size ≤ 31 := by
    rcases Nat.eq_zero_or_pos size with rfl | hpos
    · decide
    · have := (Nat.log2_lt (Nat.ne_of_gt hpos)).2 h
      omega
  have h2 : numBuckets = 28 := by decide
  have h3 : Nat.log2 minChunkSize = 4 := by decide
  unfold bucketFor; omega

theorem bucketFor_mono {s t : ℕ} (h : s ≤ t) : bucketFor s ≤ bucketFor t := by
  have : Nat.log2 s ≤ Nat.log2 t := by
    rw [Nat.log2_eq_log_two, Nat.log2_eq_log_two]; exact Nat.log_mono_right h
  unfold bucketFor; omega

/-- sizes from the minimum on that fall into a lower bucket are smaller -/
theorem lt_of_bucketFor_lt {s t : ℕ} (h : bucketFor s < bucketFor t) : s < t := by
  by_contra hge
  have := bucketFor_mono (Nat.le_of_not_lt hge)
  omega

namespace SizeBucketedChunkMap

/-- the unused chunks, each once -/
def list (m : SizeBucketedChunkMap) : List Chunk := m.chunks.chunks

/-- the two indexes agree -/
structure Agree (m : SizeBucketedChunkMap) : Prop where
  sorted : m.chunks.Sorted
  len : m.chunksByLog2Size.length = numBuckets
  buckets : ∀ b, (m.bucket b).Perm (m.list.filter fun c => bucketFor c.size = b)

variable {m : SizeBucketedChunkMap} {c existing : Chunk} {base stop size b : ℕ} {ch : ChunkMap}

theorem bucket_modify (f : List Chunk → List Chunk) (chunks : ChunkMap) (hb : b < m.chunksByLog2Size.length) (j : ℕ) :
    bucket ⟨chunks, m.chunksByLog2Size.modify b f⟩ j = if j = b then f (m.bucket b) else m.bucket j :=
  getD_modify f hb j

theorem agree_empty : empty.Agree := by
  refine ⟨ChunkMap.sorted_empty, by decide, fun b => ?_⟩
  have h : (List.replicate numBuckets ([] : List Chunk)).getD b [] = [] := by
    rw [List.getD_eq_getElem?_getD, List.getElem?_replicate]
    split_ifs <;> rfl
  show ((List.replicate numBuckets ([] : List Chunk)).getD b []).Perm _
  rw [h]
  exact List.Perm.nil

theorem Agree.mem_bucket (h : m.Agree) : c ∈ m.bucket b ↔ c ∈ m.list ∧ bucketFor c.size = b := by
  rw [(h.buckets b).mem_iff, List.mem_filter]
  simp

/-- every chunk is listed in some bucket -/
theorem Agree.mem_iter (h : m.Agree) (hc : c ∈ m.list) (hlt : c.size < 2 ^ 32) : c ∈ m.iter := by
  have hb : bucketFor c.size < m.chunksByLog2Size.length := h.len ▸ bucketFor_lt hlt
  have hm := h.mem_bucket.2 ⟨hc, rfl⟩
  rw [bucket, getD_of_lt hb] at hm
  exact List.mem_flatten.2 ⟨_, List.getElem_mem hb, hm⟩

theorem Agree.of_mem_iter (h : m.Agree) (hc : c ∈ m.iter) : c ∈ m.list := by
  obtain ⟨l, hl, hcl⟩ := List.mem_flatten.1 hc
  obtain ⟨b, hb, rfl⟩ := List.getElem_of_mem hl
  exact (h.mem_bucket (b := b).1 (by rwa [bucket, getD_of_lt hb])).1

theorem insert_ok (h : m.Agree) (hmin : minChunkSize ≤ c.size) (hlt : c.size < 2 ^ 32)
    (hnew : ∀ d ∈ m.list, d.base ≠ c.base) :
    ∃ m', m.insert c = .ok m' ∧ m'.Agree ∧ m'.list.Perm (c :: m.list) := by
  obtain ⟨ch, h1, h2, h3⟩ := ChunkMap.insert_ok h.sorted hnew
  have hb : bucketFor c.size < m.chunksByLog2Size.length := h.len ▸ bucketFor_lt hlt
  refine ⟨⟨ch, m.chunksByLog2Size.modify (bucketFor c.size) (· ++ [c])⟩, ?_, ⟨h2, ?_, fun j => ?_⟩, h3⟩
  · unfold insert
    rw [assert_ok (by simpa using hmin), ok_bind, h1, ok_bind, pure_eq_ok]
  · rw [List.length_modify]; exact h.len
  · rw [bucket_modify _ _ hb]
    refine List.Perm.trans ?_ (h3.filter _).symm
    rw [List.filter_cons]
    split_ifs with hj hd hd
    · subst hj
      exact (List.perm_append_singleton c _).trans ((h.buckets _).cons c)
    · simp [hj] at hd
    · simp only [decide_eq_true_eq] at hd
      exact absurd hd.symm hj
    · exact h.buckets j

/-- taking a chunk out of its bucket after it was taken out of the map keeps the indexes in agreement -/
theorem agree_swapRemove {idx : ℕ} (h : m.Agree) (hch : ch.Sorted)
    (hp : m.list.Perm (c :: ch.chunks)) (hidx : (m.bucket (bucketFor c.size))[idx]? = some c) :
    Agree ⟨ch, m.chunksByLog2Size.modify (bucketFor c.size) (swapRemove · idx)⟩ := by
  obtain ⟨hi, hget⟩ := List.getElem?_eq_some_iff.1 hidx
  have hb : bucketFor c.size < m.chunksByLog2Size.length := by
    by_contra hge
    rw [bucket, getD_of_ge (Nat.le_of_not_lt hge)] at hi
    exact absurd hi (Nat.not_lt_zero _)
  refine ⟨hch, by rw [List.length_modify]; exact h.len, fun j => ?_⟩
  rw [bucket_modify _ _ hb]
  have hj : (m.bucket j).Perm ((c :: ch.chunks).filter fun d => bucketFor d.size = j) :=
    (h.buckets j).trans (hp.filter _)
  rw [List.filter_cons] at hj
  split_ifs with hjb
  · subst hjb
    rw [if_pos (by simp)] at hj
    have hrest := (perm_swapRemove hi).trans hj
    rw [hget] at hrest
    exact hrest.cons_inv
  · rwa [if_neg (by simpa using Ne.symm hjb)] at hj

theorem removeFromBucket_ok (h : m.Agree) (hch : ch.Sorted) (hp : m.list.Perm (c :: ch.chunks)) :
    ∃ m', removeFromBucket { m with chunks := ch } c = .ok m' ∧ m'.Agree ∧ m'.list = ch.chunks := by
  have hc : c ∈ m.list := hp.mem_iff.2 List.mem_cons_self
  obtain ⟨idx, hidx⟩ := exists_rposition (p := fun c2 => c.base == c2.base) (h.mem_bucket.2 ⟨hc, rfl⟩) (by simp)
  obtain ⟨hi, hbase⟩ := rposition_some hidx
  have hd := h.mem_bucket.1 (List.getElem_mem hi)
  have hget : (m.bucket (bucketFor c.size))[idx]? = some c := by
    rw [List.getElem?_eq_getElem hi, h.sorted.eq_of_base hd.1 hc (by simpa using (beq_iff_eq.1 hbase).symm)]
  refine ⟨⟨ch, m.chunksByLog2Size.modify (bucketFor c.size) (swapRemove · idx)⟩, ?_,
    agree_swapRemove h hch hp hget, rfl⟩
  have hbk : bucket { m with chunks := ch } (bucketFor c.size) = m.bucket (bucketFor c.size) := rfl
  unfold removeFromBucket
  simp only [hbk, hidx]
  rw [assert_ok (by rw [hget]; simp), ok_bind, pure_eq_ok]

theorem removeWithBase_some (h : m.Agree) (hc : c ∈ m.list) (hb : c.base = base) :
    ∃ m', m.removeWithBase base = .ok (some c, m') ∧ m'.Agree ∧ m.list.Perm (c :: m'.list) := by
  obtain ⟨ch, h1, h2, h3⟩ := ChunkMap.removeWithBase_some h.sorted hc hb
  obtain ⟨m', h4, h5, h6⟩ := removeFromBucket_ok h h2 h3
  refine ⟨m', ?_, h5, by rw [h6]; exact h3⟩
  simp only [removeWithBase, h1, h4, ok_bind, pure_eq_ok]

theorem removeWithBase_cases (h : m.Agree) (base : ℕ) :
    (m.removeWithBase base = .ok (none, m) ∧ ∀ d ∈ m.list, d.base ≠ base) ∨
      ∃ c m', m.removeWithBase base = .ok (some c, m') ∧ c.base = base ∧ m'.Agree ∧ m.list.Perm (c :: m'.list) := by
  rcases ChunkMap.removeWithBase_cases h.sorted base with ⟨h1, h2⟩ | ⟨c, ch, -, h2, -, h4⟩
  · exact Or.inl ⟨by simp only [removeWithBase, h1, pure_eq_ok], h2⟩
  · obtain ⟨m', h5, h6, h7⟩ := removeWithBase_some h (h4.mem_iff.2 List.mem_cons_self) h2
    exact Or.inr ⟨c, m', h5, h2, h6, h7⟩

theorem removeWithEnd_cases (h : m.Agree) (hfit : ∀ d ∈ m.list, d.base + d.size < 2 ^ 32) (stop : ℕ) :
    m.removeWithEnd stop = .ok (none, m) ∨
      ∃ c m', m.removeWithEnd stop = .ok (some c, m') ∧ c.base + c.size = stop ∧ m'.Agree ∧
        m.list.Perm (c :: m'.list) := by
  rcases ChunkMap.removeWithEnd_cases h.sorted hfit stop with h1 | ⟨c, ch, h1, h2, h3, h4⟩
  · exact Or.inl (by simp only [removeWithEnd, h1, ok_bind, pure_eq_ok])
  · obtain ⟨m', h5, h6, h7⟩ := removeFromBucket_ok h h3 h4
    refine Or.inr ⟨c, m', ?_, h2, h6, by rw [h7]; exact h4⟩
    simp only [removeWithEnd, h1, h5, ok_bind, pure_eq_ok]

/-! ### The search in a bucket -/

/-- a candidate of the search loop: large enough, and the best so far is not better -/
theorem bestChunk_spec (size : ℕ) (l : List (Chunk × ℕ)) (best : Option (ℕ × ℕ)) (hbest : ∀ b, best = some b → size ≤ b.2) :
    match bestChunk size l best with
    | none => best = none ∧ ∀ p ∈ l, p.1.size < size
    | some (i, s) => (best = some (i, s) ∨ ∃ p ∈ l, p.2 = i ∧ p.1.size = s) ∧ size ≤ s ∧
        (∀ p ∈ l, size ≤ p.1.size → s ≤ p.1.size) ∧ ∀ b, best = some b → s ≤ b.2 := by
  induction l generalizing best with
  | nil =>
    cases best with
    | none => simp [bestChunk]
    | some b => exact ⟨Or.inl rfl, hbest b rfl, by simp, fun b' hb' => by cases hb'; exact le_rfl⟩
  | cons p l ih =>
    obtain ⟨c, idx⟩ := p
    simp only [bestChunk]
    by_cases htake : c.size ≥ size ∧ (best.all fun b => b.2 > c.size) = true
    · rw [if_pos htake]
      have hbetter : ∀ b, best = some b → c.size ≤ b.2 := fun b hb => by
        have h2 := htake.2
        rw [hb] at h2
        simp only [Option.all_some, decide_eq_true_eq] at h2
        omega
      split_ifs with hexact
      · exact ⟨Or.inr ⟨(c, idx), by simp, rfl, rfl⟩, htake.1, fun p _ hp => hexact.trans_le hp, hbetter⟩
      · have h := ih (some (idx, c.size)) (fun b hb => by cases hb; exact htake.1)
        cases hr : bestChunk size l (some (idx, c.size)) with
        | none => rw [hr] at h; exact absurd h.1 (by simp)
        | some r =>
          obtain ⟨i, s⟩ := r
          rw [hr] at h
          obtain ⟨h1, h2, h3, h4⟩ := h
          have hle : s ≤ c.size := h4 _ rfl
          refine ⟨Or.inr ?_, h2, fun p hp hs => ?_, fun b hb => hle.trans (hbetter b hb)⟩
          · rcases h1 with h1 | ⟨p, hp, h1⟩
            · cases h1; exact ⟨(c, idx), by simp, rfl, rfl⟩
            · exact ⟨p, by simp [hp], h1⟩
          · rcases List.mem_cons.1 hp with rfl | hp
            · exact hle
            · exact h3 p hp hs
    · rw [if_neg htake]
      have h := ih best hbest
      -- a chunk that is passed over is too small or not smaller than the best so far
      have hpass : size ≤ c.size → ∃ b, best = some b ∧ b.2 ≤ c.size := fun hs => by
        cases best with
        | none => exact absurd ⟨hs, rfl⟩ htake
        | some b =>
          refine ⟨b, rfl, ?_⟩
          by_contra hlt
          exact htake ⟨hs, by simpa using hlt⟩
      cases hr : bestChunk size l best with
      | none =>
        rw [hr] at h
        refine ⟨h.1, fun p hp => ?_⟩
        rcases List.mem_cons.1 hp with rfl | hp
        · by_contra hs
          obtain ⟨b, hb, -⟩ := hpass (Nat.le_of_not_lt hs)
          rw [h.1] at hb; cases hb
        · exact h.2 p hp
      | some r =>
        rw [hr] at h
        obtain ⟨h1, h2, h3, h4⟩ := h
        refine ⟨h1.imp_right fun ⟨p, hp, h⟩ => ⟨p, by simp [hp], h⟩, h2, fun p hp hs => ?_, h4⟩
        rcases List.mem_cons.1 hp with rfl | hp
        · obtain ⟨b, hb, hle⟩ := hpass hs
          exact (h4 b hb).trans hle
        · exact h3 p hp hs

/-- the search in a bucket: nothing there is large enough, or it finds a smallest chunk that is -/
theorem bestChunk_bucket (size b : ℕ) :
    (bestChunk size (m.bucket b).zipIdx.reverse none = none ∧ ∀ c ∈ m.bucket b, c.size < size) ∨
      ∃ idx c, bestChunk size (m.bucket b).zipIdx.reverse none = some (idx, c.size) ∧ (m.bucket b)[idx]? = some c ∧
        size ≤ c.size ∧ ∀ d ∈ m.bucket b, size ≤ d.size → c.size ≤ d.size := by
  have hmem : ∀ d ∈ m.bucket b, ∃ i, (d, i) ∈ (m.bucket b).zipIdx.reverse := fun d hd => by
    obtain ⟨i, hi⟩ := List.mem_iff_getElem?.1 hd
    exact ⟨i, List.mem_reverse.2 (List.mem_zipIdx_iff_getElem?.2 hi)⟩
  have h := bestChunk_spec size (m.bucket b).zipIdx.reverse none (by simp)
  cases hr : bestChunk size (m.bucket b).zipIdx.reverse none with
  | none =>
    rw [hr] at h
    refine Or.inl ⟨rfl, fun d hd => ?_⟩
    obtain ⟨i, hi⟩ := hmem d hd
    exact h.2 _ hi
  | some r =>
    rw [hr] at h
    obtain ⟨h1, h2, h3, -⟩ := h
    rcases h1 with h1 | ⟨p, hp, hi, hs⟩
    · cases h1
    · refine Or.inr ⟨r.1, p.1, by rw [hs], ?_, by rw [hs]; exact h2, fun d hd hsd => ?_⟩
      · rw [← hi]
        exact List.mem_zipIdx_iff_getElem?.1 (List.mem_reverse.1 hp)
      · obtain ⟨i, hdi⟩ := hmem d hd
        rw [hs]
        exact h3 _ hdi hsd

end SizeBucketedChunkMap

end TouchHLE.Mem
