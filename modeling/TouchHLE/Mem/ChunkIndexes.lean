/-
The two indexes of the unused chunks over whole runs of their operations, whatever the arguments are.

- `Op`, `step`: the operations of `SizeBucketedChunkMap`.
- `Safe`: the panics that remain; the assertions about the two indexes are not among them.
- `Sound`: the indexes agree, and the sizes are those of chunks.
- `step_ends`: one lemma for each operation, and from them one for a step.
- `Indexed`, `indexes_agree`: what the agreement means, and that every run keeps it.
-/
import TouchHLE.Mem.ChunkMaps

namespace TouchHLE.Mem.SizeBucketedChunkMap

open Machine Vec

/-! ## Operations -/

inductive Op where
  | insert (c : Chunk)
  | removeWithBase (base : ℕ)
  | removeWithEnd (stop : ℕ)
  | allocate (size : ℕ)
deriving DecidableEq, Repr

def step (m : SizeBucketedChunkMap) : Op → Except Panic SizeBucketedChunkMap
  | .insert c => m.insert c
  | .removeWithBase base => Prod.snd <$> m.removeWithBase base
  | .removeWithEnd stop => Prod.snd <$> m.removeWithEnd stop
  | .allocate size => Prod.snd <$> m.allocate size

/-- the size of a chunk is a `NonZeroU32` -/
def Op.Typed : Op → Prop
  | .insert c => c.size < 2 ^ 32
  | _ => True

/-- a chunk as `Chunk::new` makes it -/
def Aligned (c : Chunk) : Prop := pageSize ≤ c.size → c.base % pageSize = 0

def Op.Aligned : Op → Prop
  | .insert c => SizeBucketedChunkMap.Aligned c
  | _ => True

instance (o : Op) : Decidable o.Typed := by
  cases o <;> unfold Op.Typed <;> infer_instance

/-! ## What is kept -/

/-- the assertions about the indexes do not fail; those about the parts of a chunk do not either, if the chunks that were
inserted are aligned -/
def Safe (p : Prop) (e : Panic) : Prop := e ≠ .notInBucket ∧ e ≠ .indexMismatch ∧ (p → e ≠ .realign)

structure Sound (p : Prop) (m : SizeBucketedChunkMap) : Prop where
  agree : m.Agree
  min : ∀ c ∈ m.list, minChunkSize ≤ c.size
  typed : ∀ c ∈ m.list, c.size < 2 ^ 32
  aligned : p → ∀ c ∈ m.list, Aligned c

variable {p : Prop} {m m' : SizeBucketedChunkMap} {c existing : Chunk} {base stop size b : ℕ}

theorem sound_empty : empty.Sound p := by
  refine ⟨agree_empty, ?_, ?_, ?_⟩ <;> simp [list, empty, ChunkMap.empty]

/-- fewer chunks -/
theorem Sound.less (h : m.Sound p) (ha : m'.Agree) (hp : m.list.Perm (c :: m'.list)) : m'.Sound p := by
  have hmem : ∀ d ∈ m'.list, d ∈ m.list := fun d hd => hp.mem_iff.2 (List.mem_cons_of_mem c hd)
  exact ⟨ha, fun d hd => h.min d (hmem d hd), fun d hd => h.typed d (hmem d hd), fun hal d hd =>
    h.aligned hal d (hmem d hd)⟩

theorem new_ends (hp : Safe p .misaligned) (base size : ℕ) :
    Ends (Safe p) (fun c => c.base = base ∧ c.size = size ∧ Aligned c) (Chunk.new base size) := by
  unfold Chunk.new
  split_ifs with hmis hpos
  · exact hp
  · refine ⟨rfl, rfl, fun hpage => ?_⟩
    rw [← pageAligned_iff, ← Bool.not_eq_false]
    exact fun hal => hmis ⟨hpage, hal⟩
  · simp [Ends, Safe]

theorem add32_error {a b : ℕ} {e : Panic} (h : add32 a b = .error e) : Safe p e := by
  unfold add32 at h
  split_ifs at h
  cases h
  simp [Safe]

/-! ## One operation -/

theorem insert_ends (h : m.Sound p) (hlt : c.size < 2 ^ 32) (hal : p → Aligned c) :
    Ends (Safe p) (Sound p) (m.insert c) := by
  by_cases hmin : minChunkSize ≤ c.size
  · by_cases hnew : ∀ d ∈ m.list, d.base ≠ c.base
    · obtain ⟨m', hins, hagree, hperm⟩ := insert_ok h.agree hmin hlt hnew
      rw [hins]
      refine ⟨hagree, ?_, ?_, ?_⟩
      · intro d hd
        rcases List.mem_cons.1 (hperm.mem_iff.1 hd) with rfl | hd
        · exact hmin
        · exact h.min d hd
      · intro d hd
        rcases List.mem_cons.1 (hperm.mem_iff.1 hd) with rfl | hd
        · exact hlt
        · exact h.typed d hd
      · intro hp d hd
        rcases List.mem_cons.1 (hperm.mem_iff.1 hd) with rfl | hd
        · exact hal hp
        · exact h.aligned hp d hd
    · -- a base that there is already
      have hdup : m.chunks.insert c = .error .duplicateKey := by
        unfold ChunkMap.insert
        rw [if_pos]
        push Not at hnew
        simpa [list] using hnew
      unfold insert
      rw [assert_ok (by simpa using hmin), ok_bind, hdup, error_bind]
      simp [Ends, Safe]
  · have hsmall : assert (c.size ≥ minChunkSize) Panic.chunkTooSmall = .error .chunkTooSmall := by
      simpa [assert] using hmin
    unfold insert
    rw [hsmall, error_bind]
    simp [Ends, Safe]

theorem removeWithBase_ends (h : m.Sound p) (base : ℕ) :
    Ends (Safe p) (fun r => r.2.Sound p) (m.removeWithBase base) := by
  rcases removeWithBase_cases h.agree base with ⟨hnone, -⟩ | ⟨c, m', hsome, -, hagree, hperm⟩
  · rw [hnone]
    exact h
  · rw [hsome]
    exact h.less hagree hperm

theorem removeWithEnd_ends (h : m.Sound p) (stop : ℕ) : Ends (Safe p) (fun r => r.2.Sound p) (m.removeWithEnd stop) := by
  unfold removeWithEnd ChunkMap.removeWithEnd
  cases hlast : (m.chunks.chunks.filter (·.base < stop)).getLast? with
  | none => simpa [Ends] using h
  | some c =>
    have hc : c ∈ m.chunks.chunks := (List.mem_filter.1 (List.mem_of_getLast? hlast)).1
    dsimp only
    cases hnext : add32 c.lastByte 1 with
    | error e => exact add32_error hnext
    | ok next =>
    rw [ok_bind]
    obtain ⟨ch, hremove, hsorted, hperm⟩ := ChunkMap.removeWithBase_some h.agree.sorted hc rfl
    obtain ⟨m', hbucket, hagree, hlist⟩ := removeFromBucket_ok h.agree hsorted hperm
    split_ifs
    · simpa [Ends] using h
    · simp only [hremove, pure_eq_ok, ok_bind, hbucket]
      exact h.less hagree (by rw [hlist]; exact hperm)

/-- the parts of a chunk that was taken out -/
theorem splitChunk_ends (h : m.Sound p) (hlt : existing.size < 2 ^ 32) (hal : p → Aligned existing) (size : ℕ) :
    Ends (Safe p) (fun r => r.2.Sound p) (splitChunk m existing size) := by
  have hmis : Safe p .misaligned := by simp [Safe]
  unfold splitChunk
  apply (new_ends hmis _ _).bind
  intro alloc halloc
  cases hrump : add32 existing.base size with
  | error e => exact add32_error hrump
  | ok rumpBase =>
  obtain ⟨rfl, -⟩ := add32_cases hrump
  rw [ok_bind]
  dsimp only
  split_ifs with hmore
  · refine Ends.bind (P := fun _ => p → existing.base % pageSize = 0) ?_ fun _ hbase => ?_
    · -- the chunk is a page or more, as its rump is
      cases hb : pageAligned existing.base with
      | true => exact fun _ => pageAligned_iff.1 hb
      | false =>
        refine ⟨by decide, by decide, fun hp => ?_⟩
        have hpage := hal hp (le_trans hmore.1 (Nat.sub_le _ _))
        rw [← pageAligned_iff, hb] at hpage
        cases hpage
    apply (new_ends hmis (existing.base + size) (pageSize - size)).bind
    intro left hleft
    cases hright : add32 existing.base pageSize with
    | error e => exact add32_error hright
    | ok rightBase =>
    have hrightBase := (add32_cases hright).1
    rw [ok_bind]
    generalize hrest : existing.size - pageSize = rest
    apply (new_ends hmis rightBase rest).bind
    intro right hright
    cases hnext : add32 left.lastByte 1 with
    | error e => exact add32_error hnext
    | ok next =>
    obtain ⟨rfl, -⟩ := add32_cases hnext
    rw [ok_bind]
    have hpos := left.size_pos
    have hadjacent : left.lastByte + 1 = right.base := by
      rw [left.lastByte_add, hleft.1, hleft.2.1, hright.1, hrightBase]
      omega
    have hsum : left.size + right.size = existing.size - size := by
      rw [hleft.2.1, hright.2.1]
      omega
    rw [assert_ok (by simpa using hadjacent), ok_bind, assert_ok (by simpa using hsum), ok_bind]
    have hleftlt : left.size < 2 ^ 32 := by
      rw [hleft.2.1]
      exact lt_of_le_of_lt (Nat.sub_le _ _) (by simp [pageSize])
    have hrightlt : right.size < 2 ^ 32 := by
      rw [hright.2.1, ← hrest]
      exact lt_of_le_of_lt (Nat.sub_le _ _) hlt
    apply (insert_ends h hleftlt fun _ => hleft.2.2).bind
    intro m₁ h₁
    exact (insert_ends h₁ hrightlt fun _ => hright.2.2).bind fun m₂ h₂ => h₂
  · apply (new_ends hmis _ _).bind
    intro rump hrump
    have hrumplt : rump.size < 2 ^ 32 := by
      rw [hrump.2.1]
      exact lt_of_le_of_lt (Nat.sub_le _ _) hlt
    exact (insert_ends h hrumplt fun _ => hrump.2.2).bind fun m₁ h₁ => h₁

theorem allocateInBucket_ends (h : m.Sound p) (size b : ℕ) :
    Ends (Safe p) (fun r => r.2.Sound p) (m.allocateInBucket size b) := by
  rcases bestChunk_bucket (m := m) size b with ⟨hnone, -⟩ | ⟨idx, existing, hbest, hidx, -, -⟩
  · simpa [allocateInBucket, hnone, Ends] using h
  · obtain ⟨hc, rfl⟩ := h.agree.mem_bucket.1 (List.mem_of_getElem? hidx)
    obtain ⟨ch, hremove, hsorted, hperm⟩ := ChunkMap.removeWithBase_some h.agree.sorted hc rfl
    have hsound := h.less (agree_swapRemove h.agree hsorted hperm hidx) hperm
    simp only [allocateInBucket, hbest, hidx, hremove, assert_ok (beq_self_eq_true _), ok_bind]
    split_ifs
    · exact hsound
    · exact (splitChunk_ends hsound (h.typed _ hc) (fun hp => h.aligned hp _ hc) size).bind fun r hr => hr

theorem allocate_ends (h : m.Sound p) (size : ℕ) : Ends (Safe p) (fun r => r.2.Sound p) (m.allocate size) := by
  unfold allocate
  refine Ends.bind (P := fun _ => True) ?_ fun _ _ => ?_
  · cases hs : decide (size ≥ minChunkSize) <;> simp [Ends, assert, Safe]
  refine (allocateInBucket_ends h size _).bind fun r hr => ?_
  obtain ⟨found, m₁⟩ := r
  cases found with
  | some alloc => exact hr
  | none =>
    dsimp only
    split
    · exact hr
    · exact allocateInBucket_ends hr _ _

theorem step_ends (h : m.Sound p) {o : Op} (ht : o.Typed) (hal : p → o.Aligned) : Ends (Safe p) (Sound p) (step m o) := by
  cases o with
  | insert c => exact insert_ends h ht hal
  | removeWithBase base => exact (removeWithBase_ends h base).bind fun r hr => hr
  | removeWithEnd stop => exact (removeWithEnd_ends h stop).bind fun r hr => hr
  | allocate size => exact (allocate_ends h size).bind fun r hr => hr

/-! ## Runs -/

/-- the vectors of all buckets have the chunks of the map, each once, in the bucket of the logarithm of its size -/
structure Indexed (m : SizeBucketedChunkMap) : Prop where
  perm : m.iter.Perm m.list
  nodup : m.iter.Nodup
  bases : (m.list.map Chunk.base).Nodup
  bucket : ∀ b, ∀ c ∈ m.bucket b, b + 4 = Nat.log 2 c.size

theorem Sound.indexed (h : m.Sound p) : m.Indexed := by
  have hnodup : m.list.Nodup := List.Nodup.of_map _ h.agree.sorted.nodup
  have hiter : m.iter.Nodup := by
    refine List.nodup_flatten.2 ⟨fun l hl => ?_, ?_⟩
    · obtain ⟨b, hb, rfl⟩ := List.getElem_of_mem hl
      have hperm := h.agree.buckets b
      rw [bucket, getD_of_lt hb] at hperm
      exact hperm.nodup_iff.2 (hnodup.filter _)
    · -- no chunk is in two buckets
      rw [List.pairwise_iff_getElem]
      intro i j hi hj hij c hci hcj
      rw [← getD_of_lt hi] at hci
      rw [← getD_of_lt hj] at hcj
      have hbi := (h.agree.mem_bucket (b := i).1 hci).2
      have hbj := (h.agree.mem_bucket (b := j).1 hcj).2
      exact hij.ne (hbi.symm.trans hbj)
  refine ⟨?_, hiter, h.agree.sorted.nodup, fun b c hc => ?_⟩
  · rw [List.perm_ext_iff_of_nodup hiter hnodup]
    intro c
    exact ⟨h.agree.of_mem_iter, fun hc => h.agree.mem_iter hc (h.typed c hc)⟩
  · obtain ⟨hmem, rfl⟩ := h.agree.mem_bucket.1 hc
    have hlog : Nat.log2 minChunkSize ≤ Nat.log2 c.size := by
      rw [Nat.log2_eq_log_two, Nat.log2_eq_log_two]
      exact Nat.log_mono_right (h.min c hmem)
    have hfour : Nat.log2 minChunkSize = 4 := by decide
    rw [bucketFor, ← Nat.log2_eq_log_two]
    omega

/-- **The indexes agree** after every sequence of operations with 32-bit arguments: the vectors of the buckets have the
chunks of the map, each once, and what is taken out of the map is found in its bucket. No run is stopped by an assertion
about the indexes, nor, if the chunks that it inserts are aligned, by one about the parts of a chunk. -/
theorem indexes_agree (ops : List Op) (ht : ∀ o ∈ ops, o.Typed) :
    (∀ m, run step empty ops = .ok m → m.Indexed ∧ ∀ base c ch, m.chunks.removeWithBase base = some (c, ch) →
      ∃ m', removeFromBucket { m with chunks := ch } c = .ok m' ∧ m'.Indexed) ∧
    ∀ e, run step empty ops = .error e → Safe (∀ o ∈ ops, o.Aligned) e := by
  have hends : Ends (Safe (∀ o ∈ ops, o.Aligned)) (Sound (∀ o ∈ ops, o.Aligned)) (run step empty ops) :=
      run_ends (Q := fun o => o ∈ ops)
    (fun m o ho hs => step_ends hs (ht o ho) fun hal => hal o ho) sound_empty fun o ho => ho
  refine ⟨fun m hrun => ?_, fun e hrun => hends.error hrun⟩
  have hsound := hends.ok hrun
  refine ⟨hsound.indexed, fun base c ch hremove => ?_⟩
  rcases ChunkMap.removeWithBase_cases hsound.agree.sorted base with ⟨hnone, -⟩ | ⟨c', ch', hsome, -, hsorted, hperm⟩
  · rw [hnone] at hremove
    cases hremove
  · rw [hsome] at hremove
    obtain ⟨rfl, rfl⟩ := Prod.mk.inj (Option.some.inj hremove)
    obtain ⟨m', hbucket, hagree, hlist⟩ := removeFromBucket_ok hsound.agree hsorted hperm
    exact ⟨m', hbucket, (hsound.less hagree (by rw [hlist]; exact hperm)).indexed⟩

/-- three chunks, of which two are in one bucket and the last is cut -/
def indexOps : List Op :=
  [.insert ⟨0x1000, 48, by decide⟩, .insert ⟨0x2000, 32, by decide⟩, .insert ⟨0x3000, 0x3000, by decide⟩,
    .removeWithEnd 0x2020, .allocate 16, .allocate 0x1000, .removeWithBase 0x1010]

theorem indexes_agree_sample : ∃ m, run step empty indexOps = .ok m ∧ m.Indexed := by
  obtain ⟨hok, -⟩ := indexes_agree indexOps (by decide)
  have hrun := eq_ok_of_toOption (x := run step empty indexOps) (d := empty) (by decide +kernel)
  exact ⟨_, hrun, (hok _ hrun).1⟩

end TouchHLE.Mem.SizeBucketedChunkMap
