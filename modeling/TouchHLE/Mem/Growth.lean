/-
What `alloc` and `realloc` (`mem.rs`) leave in memory, byte by byte and in both modes: memory that is zeroed when it is
freed, and memory that is zeroed when it is allocated.

- `Tidy`: the invariant, with a null segment and, in the first mode, nothing but zeros in free memory.
- `Grown`: an allocation, or none yet, has been made longer.
- `grown_of_alloc`, `grown_of_realloc`: what the functions do.
-/
import TouchHLE.Mem.Realloc

namespace TouchHLE.Heap

open Machine Words Mem Tiling

structure Tidy (h : Heap) : Prop where
  valid : h.Valid
  null : 0 < h.nullSegmentSize
  clean : h.zeroMemoryOnFree = true → h.Clean

/-- an allocation, or the null pointer in place of one -/
def Buffer (h : Heap) (p size : ℕ) : Prop := p = 0 ∧ size = 0 ∨ h.Live p size

/-- **An allocation that has been made longer**: its bytes are there, with zeros behind them, and no other allocation
has changed. If it has moved, its old bytes are zeroed in the first mode. -/
structure Grown (h : Heap) (p size n q : ℕ) (h' : Heap) : Prop where
  tidy : h'.Tidy
  mode : h'.zeroMemoryOnFree = h.zeroMemoryOnFree
  live : ∃ size', n ≤ size' ∧ h'.Live q size'
  copied : ∀ k < n, h'.bytes (q + k) = if k < size then h.bytes (p + k) else 0
  others : ∀ r s, h.Live r s → r ≠ p → h'.Live r s ∧ r ≠ q
  outside : ∀ x, h.Owned x → ¬(p ≤ x ∧ x < p + size) → h'.bytes x = h.bytes x
  source : ∀ k < size, h'.bytes (p + k) = if size < n ∧ h.zeroMemoryOnFree = true then 0 else h.bytes (p + k)

variable {h h' h₁ : Heap} {p q size n : ℕ} {c d : Chunk} {x : ℕ} {e : Panic} {k : ℕ}

theorem Tidy.sound (ht : h.Tidy) (hmode : h.zeroMemoryOnFree = true) : h.Sound := ⟨ht.valid.inv, hmode, ht.clean hmode⟩

/-- an allocation is not at address zero -/
theorem Tidy.live_pos (ht : h.Tidy) (hlive : h.Live p size) : p ≠ 0 := by
  obtain ⟨c, -, -, -, -, hlow⟩ := hlive
  have hnull := ht.null
  omega

theorem Live.owned (hlive : h.Live p size) (hx : p ≤ x ∧ x < p + size) : h.Owned x := by
  obtain ⟨c, hc, rfl, rfl, -⟩ := hlive
  exact ⟨c, hc, hx⟩

theorem Live.high (hv : h.Valid) (hlive : h.Live p size) : p + size ≤ 2 ^ 32 := by
  obtain ⟨c, hc, rfl, rfl, -⟩ := hlive
  exact hv.inv.tiles.inside _ (Allocator.mem_span (Allocator.Inv.mem_used hc))

theorem allocated_mode (halloc : h.alloc n = .ok (q, h')) : h'.zeroMemoryOnFree = h.zeroMemoryOnFree := by
  obtain ⟨⟨p, a⟩, -, hzero⟩ := bind_eq_ok.1 halloc
  dsimp only at hzero
  split_ifs at hzero
  · obtain ⟨h₁, hfilled, heq⟩ := bind_eq_ok.1 hzero
    cases heq
    obtain ⟨-, rfl⟩ := zero_cases hfilled
    rfl
  · cases hzero
    rfl

/-- the chunk of an allocation is one of its own -/
theorem Allocated.live (hv : h.Valid) (ha : Allocated h n d h') : h'.Live d.base d.size := by
  refine ⟨d, ha.chunks.mem_iff.2 List.mem_cons_self, rfl, rfl, ?_, ?_⟩
  · rintro rfl
    exact ha.apart _ (Chunk.span_has_base _) _ hv.inv.stack (Chunk.span_has_base _)
  · rw [ha.null]
    exact hv.above_null (ha.apart _ d.span_has_base)

theorem Allocated.others (ha : Allocated h n d h') {r s : ℕ} (hlive : h.Live r s) : h'.Live r s ∧ r ≠ d.base := by
  obtain ⟨e, he, rfl, rfl, hne, hlow⟩ := hlive
  refine ⟨⟨e, ha.chunks.mem_iff.2 (List.mem_cons_of_mem _ he), rfl, rfl, hne, by rwa [ha.null]⟩, fun heq => ?_⟩
  refine ha.apart e.base ?_ e he e.span_has_base
  rw [heq]
  exact d.span_has_base

/-- bytes that are in use are not in the new chunk -/
theorem Allocated.not_has (ha : Allocated h n d h') (hx : h.Owned x) : ¬d.span.Has x := by
  obtain ⟨e, he, hex⟩ := hx
  exact fun hdx => ha.apart x hdx e he hex

theorem Allocated.owned (ha : Allocated h n d h') (hx : h.Owned x) : h'.bytes x = h.bytes x := by
  apply ha.outside
  have hnot := ha.not_has hx
  have hsize := ha.size_le
  simp only [Chunk.span, Span.Has] at hnot
  omega

/-- what is asked for reads as zero in both modes -/
theorem Allocated.fresh (ht : h.Tidy) (ha : Allocated h n d h') (hk : k < n) : h'.bytes (d.base + k) = 0 := by
  by_cases hmode : h.zeroMemoryOnFree = true
  · have hhigh := Live.high ha.valid (ha.live ht.valid)
    have hsize := ha.size_le
    rw [ha.left hmode]
    refine ht.clean hmode _ (by omega) fun hx => ha.not_has hx ?_
    simp only [Chunk.span, Span.Has]
    omega
  · exact ha.zeroed (by simpa using hmode) k hk

theorem Allocated.tidy (ht : h.Tidy) (ha : Allocated h n d h') (hlt : n < 2 ^ 32) (halloc : h.alloc n = .ok (d.base, h')) :
    h'.Tidy := by
  refine ⟨ha.valid, ?_, fun hmode => ?_⟩
  · rw [ha.null]
    exact ht.null
  · rw [allocated_mode halloc] at hmode
    exact (alloc_fresh (ht.sound hmode) hlt halloc).1.clean

/-- **An allocation** -/
theorem grown_of_alloc (ht : h.Tidy) (hlt : n < 2 ^ 32) (halloc : h.alloc n = .ok (q, h')) : Grown h 0 0 n q h' := by
  obtain ⟨d, rfl, ha⟩ := allocated_of_alloc ht.valid hlt halloc
  refine ⟨ha.tidy ht hlt halloc, allocated_mode halloc, ⟨d.size, ha.size_le, ha.live ht.valid⟩, fun k hk => ?_,
    fun r s hlive _ => ha.others hlive, fun x hx _ => ha.owned hx, fun k hk => absurd hk (Nat.not_lt_zero k)⟩
  rw [if_neg (Nat.not_lt_zero k)]
  exact ha.fresh ht hk

theorem alloc_error (hv : h.Valid) (hlt : n < 2 ^ 32) (halloc : h.alloc n = .error e) :
    e = .outOfMemory ∨ e = .overflow := by
  obtain ⟨d, h₁, hok, -⟩ | ⟨⟨e', herror, hcause⟩, -⟩ := alloc_frame hv hlt
  · exact absurd (hok.symm.trans halloc) (by simp)
  · cases herror.symm.trans halloc
    exact hcause

/-- where a longer allocation comes from: it stays if its chunk is long enough, and else it is copied to a new one -/
theorem realloc_cases (ht : h.Tidy) (hlive : h.Live p size) (hlt : n < 2 ^ 32) (hrealloc : h.realloc p n = .ok (q, h')) :
    (n ≤ size ∧ q = p ∧ h' = h) ∨ size < n ∧ ∃ d h₁ c, d.base = q ∧ c.base = p ∧ c.size = size ∧
      c ∈ h.allocator.usedChunks.chunks ∧ h.alloc n = .ok (d.base, h₁) ∧ Allocated h n d h₁ ∧
      Freed { h₁ with bytes := store h₁.bytes d.base (load h₁.bytes p size) } c h' := by
  obtain ⟨c, hc, rfl, rfl, hne, hlow⟩ := hlive
  have hlive : h.Live c.base c.size := ⟨c, hc, rfl, rfl, hne, hlow⟩
  unfold realloc at hrealloc
  rw [if_neg (ht.live_pos hlive), findAllocatedSize_ok ht.valid.inv.used hc, ok_bind] at hrealloc
  split_ifs at hrealloc with hfits
  · cases hrealloc
    exact Or.inl ⟨hfits, rfl, rfl⟩
  · right
    obtain ⟨⟨q₁, h₁⟩, halloc, hrealloc⟩ := bind_eq_ok.1 hrealloc
    obtain ⟨h₂, hmove, hrealloc⟩ := bind_eq_ok.1 hrealloc
    obtain ⟨h₃, hfree, hrealloc⟩ := bind_eq_ok.1 hrealloc
    cases hrealloc
    obtain ⟨d, rfl, ha⟩ := allocated_of_alloc ht.valid hlt halloc
    unfold memmove at hmove
    split_ifs at hmove
    cases hmove
    have hlive₂ : Live { h₁ with bytes := store h₁.bytes d.base (load h₁.bytes c.base c.size) } c.base c.size :=
      (ha.others hlive).1
    have hv₂ : Valid { h₁ with bytes := store h₁.bytes d.base (load h₁.bytes c.base c.size) } :=
        ⟨ha.valid.inv, ha.valid.null⟩
    obtain ⟨c', hc', hbase, hf⟩ := freed_of_free hv₂ hlive₂ hfree
    have hsame : c' = c := by
      refine ha.valid.inv.eq_of_has (Allocator.Inv.mem_used hc')
        (Allocator.Inv.mem_used (ha.chunks.mem_iff.2 (List.mem_cons_of_mem _ hc))) ?_
      rw [← hbase]
      exact c'.span_has_base
    subst hsame
    exact ⟨Nat.lt_of_not_le hfits, d, h₁, c', rfl, rfl, rfl, hc, halloc, ha, hf⟩

/-- **A reallocation** to a greater length -/
theorem grown_of_realloc (ht : h.Tidy) (hlive : h.Live p size) (hlt : n < 2 ^ 32) (hrealloc : h.realloc p n = .ok (q, h')) :
    Grown h p size n q h' := by
  obtain ⟨hfits, rfl, rfl⟩ | ⟨hgrows, d, h₁, c, rfl, rfl, rfl, hc, halloc, ha, hf⟩ := realloc_cases ht hlive hlt hrealloc
  · refine ⟨ht, rfl, ⟨size, hfits, hlive⟩, fun k hk => ?_, fun r s hr hne => ⟨hr, hne⟩, fun _ _ _ => rfl, fun k _ => ?_⟩
    · rw [if_pos (by omega)]
    · rw [if_neg (by omega)]
  · have hsize := ha.size_le
    have hdlive := ha.live ht.valid
    have hmode := allocated_mode halloc
    have hne : c.base ≠ d.base := (ha.others hlive).2
    -- the other allocations are still there, and share no byte with the one that is given back
    have hkeep {e : Chunk} (he : e ∈ h₁.allocator.usedChunks.chunks) (hec : e.base ≠ c.base) :
        e ∈ h'.allocator.usedChunks.chunks := by
      rcases List.mem_cons.1 (hf.chunks.mem_iff.1 he) with rfl | he
      · exact absurd rfl hec
      · exact he
    have hdmem : d ∈ h₁.allocator.usedChunks.chunks := ha.chunks.mem_iff.2 List.mem_cons_self
    have hapart {k : ℕ} (hk : k < d.size) : ¬c.span.Has (d.base + k) := by
      refine fun hx => ?_
      have hv : Valid { h₁ with bytes := store h₁.bytes d.base (load h₁.bytes c.base c.size) } :=
          ⟨ha.valid.inv, ha.valid.null⟩
      refine hv.apart hf.chunks (hkeep hdmem hne.symm) hx ?_
      simp only [Chunk.span, Span.Has]
      omega
    have hstored {x : ℕ} (hx : h.Owned x) :
        store h₁.bytes d.base (load h₁.bytes c.base c.size) x = h.bytes x := by
      rw [store_outside, ha.owned hx]
      have hnot := ha.not_has hx
      simp only [Chunk.span, Span.Has] at hnot
      rw [load_length]
      omega
    have hown {k : ℕ} (hk : k < c.size) : h.Owned (c.base + k) := hlive.owned ⟨by omega, by omega⟩
    refine ⟨⟨hf.valid, ?_, fun hm => ?_⟩, hf.mode.trans hmode, ⟨d.size, hsize, ?_⟩, fun k hk => ?_, fun r s hr hrc => ?_,
      fun x hx hnot => ?_, fun k hk => ?_⟩
    · rw [hf.null]
      exact (ha.tidy ht hlt halloc).null
    · exact (realloc_sound (ht.sound (by rw [← hmode, ← hm]; exact hf.mode.symm)) hlt hrealloc).clean
    · obtain ⟨e, he, hbase, hsize', hstack, hlow⟩ := hdlive
      exact ⟨e, hkeep he (hbase ▸ hne.symm), hbase, hsize', hstack, by rwa [hf.null]⟩
    · rw [hf.outside _ (hapart (by omega))]
      dsimp only
      split_ifs with hlt'
      · rw [store_load hlt', ha.owned (hown hlt')]
      · rw [store_outside (by rw [load_length]; omega), ha.fresh ht hk]
    · obtain ⟨⟨e, he, rfl, rfl, hstack, hlow⟩, hed⟩ := ha.others hr
      exact ⟨⟨e, hkeep he hrc, rfl, rfl, hstack, by rwa [hf.null]⟩, hed⟩
    · exact (hf.outside x hnot).trans (hstored hx)
    · by_cases hm : h.zeroMemoryOnFree = true
      · rw [if_pos ⟨hgrows, hm⟩]
        exact hf.zeroed (hmode.trans hm) _ ⟨by simp [Chunk.span], by simp [Chunk.span, hk]⟩
      · rw [if_neg fun hboth => hm hboth.2, hf.left (by simpa [hmode] using hm)]
        exact hstored (hown hk)

/-- what `realloc` does to a buffer that need not be there yet -/
theorem grown_of_buffer (ht : h.Tidy) (hb : h.Buffer p size) (hlt : n < 2 ^ 32) (hrealloc : h.realloc p n = .ok (q, h')) :
    Grown h p size n q h' := by
  obtain ⟨rfl, rfl⟩ | hlive := hb
  · exact grown_of_alloc ht hlt hrealloc
  · exact grown_of_realloc ht hlive hlt hrealloc

/-- it fails only if there is no memory -/
theorem realloc_error (ht : h.Tidy) (hb : h.Buffer p size) (hlt : n < 2 ^ 32)
    (hrealloc : h.realloc p n = .error e) :
    e = .outOfMemory ∨ e = .overflow := by
  obtain ⟨rfl, rfl⟩ | hlive := hb
  · exact alloc_error ht.valid hlt hrealloc
  · have hn : n = (UInt32.ofNat n).toNat := by
      rw [UInt32.toNat_ofNat']
      exact (Nat.mod_eq_of_lt hlt).symm
    rw [hn] at hrealloc
    obtain ⟨q, h', hok, -⟩ | ⟨⟨e', herror, hcause⟩, -⟩ := realloc_moves ht.valid hlive (ht.live_pos hlive)
    · exact absurd (hok.symm.trans hrealloc) (by simp)
    · cases herror.symm.trans hrealloc
      exact hcause

/-! ## Bytes of allocations -/

variable {r s a : ℕ} {l : List UInt8}

/-- two allocations share no byte -/
theorem Live.apart (hv : h.Valid) (hlive : h.Live p size) (hr : h.Live r s) (hne : r ≠ p)
    (hx : p ≤ x ∧ x < p + size) :
    ¬(r ≤ x ∧ x < r + s) := by
  obtain ⟨c, hc, rfl, rfl, -⟩ := hlive
  obtain ⟨e, he, rfl, rfl, -⟩ := hr
  intro hex
  refine hne (congrArg Chunk.base (Chunk.ext_span (hv.inv.tiles.eq_of_has (Allocator.mem_span (Allocator.Inv.mem_used he))
    (Allocator.mem_span (Allocator.Inv.mem_used hc)) (a := x) hex hx)))

theorem Buffer.unique (ht : h.Tidy) (hb : h.Buffer p size) (hb' : h.Buffer p n) : size = n := by
  obtain ⟨rfl, rfl⟩ | hlive := hb
  · obtain ⟨-, rfl⟩ | hlive' := hb'
    · rfl
    · exact absurd rfl (ht.live_pos hlive')
  · obtain ⟨rfl, -⟩ | hlive' := hb'
    · exact absurd rfl (ht.live_pos hlive)
    · obtain ⟨c, hc, rfl, rfl, -⟩ := hlive
      obtain ⟨e, he, hbase, rfl, -⟩ := hlive'
      rw [ht.valid.inv.eq_of_has (Allocator.Inv.mem_used hc) (Allocator.Inv.mem_used he) (hbase ▸ c.span_has_base)]

theorem Grown.bytes (hg : Grown h p size n q h') (hv : h.Valid) (hb : h.Buffer p size) (hr : h.Live r s)
    (hne : r ≠ p)
    (hk : k < s) : h'.bytes (r + k) = h.bytes (r + k) := by
  apply hg.outside _ (hr.owned ⟨by omega, by omega⟩)
  obtain ⟨rfl, rfl⟩ | hlive := hb
  · omega
  · exact fun hx => hlive.apart hv hr hne hx ⟨by omega, by omega⟩

/-- a store in an allocation -/
theorem Tidy.store (ht : h.Tidy) (hlive : h.Live p size) (hlo : p ≤ a) (hhi : a + l.length ≤ p + size) :
    Tidy { h with bytes := store h.bytes a l } := by
  refine ⟨⟨ht.valid.inv, ht.valid.null⟩, ht.null, fun hmode => ?_⟩
  refine ((ht.sound hmode).store fun i hi => ?_).clean
  exact hlive.owned ⟨by omega, by omega⟩

theorem Live.stored (hv : h.Valid) (hlive : h.Live p size) (hr : h.Live r s) (hne : r ≠ p) (hlo : p ≤ a)
    (hhi : a + l.length ≤ p + size) (hk : k < s) : Words.store h.bytes a l (r + k) = h.bytes (r + k) := by
  apply store_outside
  by_contra hin
  exact hlive.apart hv hr hne (x := r + k) ⟨by omega, by omega⟩ ⟨by omega, by omega⟩

theorem load_eq_iff {m m' : Bytes} {b : ℕ} : load m a n = load m' b n ↔ ∀ k < n, m (a + k) = m' (b + k) := by
  simp only [load, List.map_inj_left, List.mem_range]

theorem load_eq_replicate {m : Bytes} : load m a n = List.replicate n 0 ↔ ∀ k < n, m (a + k) = 0 := by
  rw [List.eq_replicate_iff]
  simp [load]

end TouchHLE.Heap
