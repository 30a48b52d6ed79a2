/-
`qsort` (`libc/stdlib/qsort.rs`) with a comparator that is guest code and may answer anything.

- `qsortGeneric`: the algorithm, over two callbacks. `qsort`: the callbacks for an array in guest memory.
- `Views`: what the algorithm needs of the callbacks. `separateLoop_spec`, `qsortRec_spec`: the loop and the recursion.
- `Comparator`: a comparator that returns and leaves the array alone. `qsort_sorts`: the result.
-/
import TouchHLE.Lib.Segments
import TouchHLE.Mem.Memory

namespace TouchHLE.Qsort

open Machine Words Segments

/-! ## The algorithm -/

/-- `compar` and `swap`, which work on the user data -/
structure Callbacks (T : Type) where
  compar : T → ℕ → ℕ → Except Panic (ℤ × T)
  swap : T → ℕ → ℕ → Except Panic T

section

variable {T : Type} (cb : Callbacks T)

/-- the loop of `qsort_rec`, with `count` elements to look at from `i` on -/
def separateLoop (pivot : ℕ) : (count i separator : ℕ) → T → Except Panic (ℕ × T)
  | 0, _, separator, t => pure (separator, t)
  | count + 1, i, separator, t => do
    let (r, t) ← cb.compar t i pivot
    if r < 0 then do
      let t ← cb.swap t i separator
      separateLoop pivot count (i + 1) (separator + 1) t
    else separateLoop pivot count (i + 1) separator t

/-- `qsort_rec`, where `depth` bounds the recursion -/
def qsortRec : (depth low hi : ℕ) → T → Except Panic T
  | 0, _, _, _ => throw .tooDeep
  | depth + 1, low, hi, t =>
    if low ≥ hi then pure t
    else do
      let (separator, t) ← separateLoop cb low (hi - low) (low + 1) (low + 1) t
      let t ← cb.swap t low (separator - 1)
      let t ← (if separator > 1 then qsortRec depth low (separator - 2) t else pure t)
      qsortRec depth separator hi t

def qsortGeneric (nitems : ℕ) (t : T) : Except Panic T := if nitems < 2 then pure t else qsortRec cb nitems 0 (nitems - 1) t

end

/-! ## Arrays in memory -/

/-- guest memory, and whatever else guest code uses -/
structure Guest (σ : Type) where
  mem : Mem
  rest : σ

section

variable {σ : Type} (call : ℕ → ℕ → Guest σ → Except Panic (ℤ × Guest σ)) (base nitems size : ℕ)

/-- `base + i * size` -/
def elementPtr (i : ℕ) : Except Panic ℕ := do
  let offset ← mul32 i size
  Mem.ptrAdd base offset 1

/-- the comparator is called with two pointers -/
def arrayCompar (g : Guest σ) (i j : ℕ) : Except Panic (ℤ × Guest σ) := do
  let iPtr ← elementPtr base size i
  let jPtr ← elementPtr base size j
  call iPtr jPtr g

/-- `swap_with_slice` of the ranges at `a` and `b` -/
def swapWithSlice (bytes : Bytes) (a b : ℕ) : Bytes := store (store bytes a (load bytes b size)) b (load bytes a size)

/-- the parts of the array are taken apart by `split_at_mut` -/
def arraySwap (g : Guest σ) (i j : ℕ) : Except Panic (Guest σ) :=
  if i = j then pure g
  else do
    let (i, j) := if i > j then (j, i) else (i, j)
    let total ← mul32 nitems size
    g.mem.checkRange base total
    let first ← mul32 i size
    let second ← mul32 j size
    assert (first ≤ total ∧ second - first ≤ total - first) .index
    assert (size ≤ second - first ∧ size ≤ total - second) .index
    pure { g with mem := { g.mem with bytes := swapWithSlice size g.mem.bytes (base + first) (base + second) } }

def qsort (g : Guest σ) : Except Panic (Guest σ) :=
  qsortGeneric ⟨arrayCompar call base size, arraySwap base nitems size⟩ nitems g

end

/-! ## The loop and the recursion -/

/-- **What the callbacks do** to the elements with an index below `n`, which `view` shows, in the states with the invariant -/
structure Views {T α : Type} (cb : Callbacks T) (view : T → ℕ → α) (n : ℕ) (I : T → Prop) : Prop where
  compar : ∀ t i j, I t → i < n → j < n → ∃ r t', cb.compar t i j = .ok (r, t') ∧ I t' ∧ view t' = view t
  swap : ∀ t i j, I t → i < n → j < n → ∃ t', cb.swap t i j = .ok t' ∧ I t' ∧ ∀ k, view t' k = view t (Equiv.swap i j k)

/-- the comparator says which elements are less than others -/
def Decides {T α : Type} (cb : Callbacks T) (view : T → ℕ → α) (n : ℕ) (I : T → Prop) (le : α → α → Prop) : Prop :=
  ∀ t i j r t', I t → i < n → j < n → cb.compar t i j = .ok (r, t') → (r < 0 ↔ ¬le (view t j) (view t i))

section

variable {T α : Type} {cb : Callbacks T} {view : T → ℕ → α} {n : ℕ} {I : T → Prop} {le : α → α → Prop} {t : T}
  {pivot count i separator low hi depth : ℕ} {a b : ℕ → α}

/-- where the loop stands: the elements up to the separator are less than the pivot, those from there to `i` are not -/
structure Separated (le : α → α → Prop) (pivot separator i : ℕ) (a : ℕ → α) : Prop where
  below : ∀ k, pivot < k → k < separator → ¬le (a pivot) (a k)
  above : ∀ k, separator ≤ k → k < i → le (a pivot) (a k)

/-- the element at `i` is less than the pivot and goes before the separator -/
theorem Separated.less (h : Separated le pivot separator i a) (hp : pivot < separator) (hi : separator ≤ i)
    (hless : ¬le (a pivot) (a i)) (hb : ∀ k, b k = a (Equiv.swap i separator k)) :
    Separated le pivot (separator + 1) (i + 1) b := by
  have hpivot : b pivot = a pivot := by rw [hb, Equiv.swap_apply_of_ne_of_ne (by omega) (by omega)]
  have hseparator : b separator = a i := by rw [hb, Equiv.swap_apply_right]
  constructor
  · intro k h1 h2
    rw [hpivot]
    rcases Nat.lt_succ_iff_lt_or_eq.1 h2 with hk | rfl
    · rw [hb, Equiv.swap_apply_of_ne_of_ne (by omega) (by omega)]
      exact h.below k h1 hk
    · rw [hseparator]
      exact hless
  · intro k h1 h2
    rw [hpivot, hb]
    rcases Nat.lt_succ_iff_lt_or_eq.1 h2 with hk | rfl
    · rw [Equiv.swap_apply_of_ne_of_ne (by omega) (by omega)]
      exact h.above k (by omega) hk
    · rw [Equiv.swap_apply_left]
      exact h.above separator le_rfl (by omega)

theorem Separated.notLess {a : ℕ → α} (h : Separated le pivot separator i a) (hle : le (a pivot) (a i)) :
    Separated le pivot separator (i + 1) a := by
  refine ⟨h.below, fun k h1 h2 => ?_⟩
  rcases Nat.lt_succ_iff_lt_or_eq.1 h2 with hk | rfl
  · exact h.above k h1 hk
  · exact hle

/-- **The loop**, by induction on the elements that are left -/
theorem separateLoop_spec (le : α → α → Prop) (hv : Views cb view n I) (ht : I t) (hp : pivot < separator) (hs : separator ≤ i) (hn : i + count ≤ n) :
    ∃ separator' t', separateLoop cb pivot count i separator t = .ok (separator', t') ∧ I t' ∧
      separator ≤ separator' ∧ separator' ≤ i + count ∧ Rearranged (pivot + 1) (i + count) (view t) (view t') ∧
      (Decides cb view n I le → Separated le pivot separator i (view t) →
        Separated le pivot separator' (i + count) (view t')) := by
  induction count generalizing i separator t with
  | zero => exact ⟨separator, t, rfl, ht, le_rfl, hs, .refl _ _ _, fun _ h => h⟩
  | succ count ih =>
    obtain ⟨r, t₁, hcompar, ht₁, hview₁⟩ := hv.compar t i pivot ht (by omega) (by omega)
    have hend : i + 1 + count = i + (count + 1) := by omega
    unfold separateLoop
    rw [hcompar, ok_bind]
    dsimp only
    by_cases hr : r < 0
    · obtain ⟨t₂, hswap, ht₂, hview₂⟩ := hv.swap t₁ i separator ht₁ (by omega) (by omega)
      rw [hview₁] at hview₂
      obtain ⟨separator', t', hloop, ht', h1, h2, hre, hsep⟩ := ih (i := i + 1) ht₂ (Nat.lt_succ_of_lt hp) (Nat.succ_le_succ hs) (by omega)
      rw [if_pos hr, hswap, ok_bind]
      rw [hend] at hsep hre h2
      have hexchange : Rearranged (pivot + 1) (i + (count + 1)) (view t) (view t₂) :=
        .exchange ⟨by omega, by omega⟩ ⟨by omega, by omega⟩ hview₂
      refine ⟨separator', t', hloop, ht', by omega, h2, hexchange.trans hre, fun hd h => hsep hd ?_⟩
      have hless := (hd t i pivot r t₁ ht (by omega) (by omega) hcompar).1 hr
      exact h.less hp hs hless hview₂
    · obtain ⟨separator', t', hloop, ht', h1, h2, hre, hsep⟩ := ih (i := i + 1) ht₁ hp (Nat.le_succ_of_le hs) (by omega)
      rw [if_neg hr]
      rw [hview₁, hend] at hre hsep
      rw [hend] at h2
      refine ⟨separator', t', hloop, ht', h1, h2, hre, fun hd h => hsep hd ?_⟩
      have hle := not_not.1 (mt (hd t i pivot r t₁ ht (by omega) (by omega) hcompar).2 hr)
      exact h.notLess hle

/-- the pivot goes between the two parts -/
theorem Separated.placed (htotal : ∀ x y, le x y ∨ le y x) (h : Separated le low separator hi a) (hlow : low < separator)
    (hb : ∀ k, b k = a (Equiv.swap low (separator - 1) k)) :
    (∀ k, low ≤ k → k < separator - 1 → le (b k) (b (separator - 1))) ∧
      ∀ k, separator - 1 < k → k < hi → le (b (separator - 1)) (b k) := by
  have hpivot : b (separator - 1) = a low := by rw [hb, Equiv.swap_apply_right]
  rw [hpivot]
  constructor
  · intro k h1 h2
    have hle : ∀ j, low < j → j < separator → le (a j) (a low) := fun j h1 h2 =>
      (htotal (a j) (a low)).resolve_right (h.below j h1 h2)
    rw [hb]
    rcases Nat.eq_or_lt_of_le h1 with rfl | hk
    · rw [Equiv.swap_apply_left]
      exact hle _ (by omega) (by omega)
    · rw [Equiv.swap_apply_of_ne_of_ne (by omega) (by omega)]
      exact hle k hk (by omega)
  · intro k h1 h2
    rw [hb, Equiv.swap_apply_of_ne_of_ne (by omega) (by omega)]
    exact h.above k (by omega) h2

/-- **The recursion** ends, and rearranges the elements from `low` to `hi`; with a total preorder it sorts them. The induction is
on the depth, which the length of the segment does not exceed. -/
theorem qsortRec_spec (le : α → α → Prop) (hv : Views cb view n I) (ht : I t) (hdepth : hi + 1 - low ≤ depth) (hpos : 0 < depth) (hn : hi < n ∨ hi < low) :
    ∃ t', qsortRec cb depth low hi t = .ok t' ∧ I t' ∧ Rearranged low (hi + 1) (view t) (view t') ∧
      (Decides cb view n I le → (∀ x y, le x y ∨ le y x) → (∀ x y z, le x y → le y z → le x z) →
        SortedOn le low (hi + 1) (view t')) := by
  induction depth generalizing low hi t with
  | zero => exact absurd hpos (lt_irrefl 0)
  | succ depth ih =>
    unfold qsortRec
    by_cases hshort : low ≥ hi
    · rw [if_pos hshort]
      exact ⟨t, rfl, ht, .refl _ _ _, fun _ _ _ => .of_le (by omega)⟩
    have hhi : hi < n := hn.resolve_right (by omega)
    have hlen : low + 1 + (hi - low) = hi + 1 := by omega
    obtain ⟨separator, t₁, hloop, ht₁, h1, h2, hre₁, hsep⟩ := separateLoop_spec le hv ht (Nat.lt_succ_self low) le_rfl
      (show low + 1 + (hi - low) ≤ n by omega)
    rw [hlen] at h2 hre₁ hsep
    obtain ⟨t₂, hswap, ht₂, hview₂⟩ := hv.swap t₁ low (separator - 1) ht₁ (by omega) (by omega)
    have hre₂ : Rearranged low (hi + 1) (view t) (view t₂) :=
      (hre₁.mono (Nat.le_succ low) le_rfl).trans (.exchange ⟨le_rfl, by omega⟩ ⟨by omega, by omega⟩ hview₂)
    -- the elements before the pivot
    have hleft : ∃ t₃, (if separator > 1 then qsortRec cb depth low (separator - 2) t₂ else pure t₂) = .ok t₃ ∧ I t₃ ∧
        Rearranged low (separator - 1) (view t₂) (view t₃) ∧
        (Decides cb view n I le → (∀ x y, le x y ∨ le y x) → (∀ x y z, le x y → le y z → le x z) →
          SortedOn le low (separator - 1) (view t₃)) := by
      by_cases hone : separator > 1
      · rw [if_pos hone, (show separator - 1 = separator - 2 + 1 by omega)]
        exact ih ht₂ (by omega) (by omega) (by omega)
      · rw [if_neg hone]
        exact ⟨t₂, rfl, ht₂, .refl _ _ _, fun _ _ _ => .of_le (by omega)⟩
    obtain ⟨t₃, hrec₃, ht₃, hre₃, hsorted₃⟩ := hleft
    obtain ⟨t₄, hrec₄, ht₄, hre₄, hsorted₄⟩ := ih ht₃ (show hi + 1 - separator ≤ depth by omega) (by omega) (.inl hhi)
    rw [if_neg hshort, hloop, ok_bind]
    dsimp only
    rw [hswap, ok_bind, hrec₃, ok_bind, hrec₄]
    refine ⟨t₄, rfl, ht₄, (hre₂.trans (hre₃.mono le_rfl (by omega))).trans (hre₄.mono (by omega) le_rfl), fun hd htotal htrans => ?_⟩
    have hstart : Separated le low (low + 1) (low + 1) (view t) := ⟨fun k h1 h2 => by omega, fun k h1 h2 => by omega⟩
    obtain ⟨hbelow, habove⟩ := (hsep hd hstart).placed htotal (by omega) hview₂
    -- neither part moves the pivot
    have hpivot : view t₄ (separator - 1) = view t₂ (separator - 1) := by
      rw [hre₄.outside (.inl (by omega)), hre₃.outside (.inr le_rfl)]
    have hnext : separator - 1 + 1 = separator := by omega
    refine SortedOn.join (p := separator - 1) htrans ?_ ?_ ?_ ?_
    · exact (hsorted₃ hd htotal htrans).congr fun k h1 h2 => hre₄.outside (.inl (by omega))
    · rw [hnext]
      exact hsorted₄ hd htotal htrans
    · intro k h1 h2
      rw [hpivot, hre₄.outside (.inl (by omega))]
      exact hre₃.forall (P := fun x => le x _) hbelow h1 h2
    · intro k h1 h2
      rw [hpivot]
      refine hre₄.forall (P := fun x => le _ x) (fun j h3 h4 => ?_) (show separator ≤ k by omega) h2
      rw [hre₃.outside (.inr (by omega))]
      exact habove j (by omega) h4

theorem qsortGeneric_spec (le : α → α → Prop) (hv : Views cb view n I) (ht : I t) :
    ∃ t', qsortGeneric cb n t = .ok t' ∧ I t' ∧ Rearranged 0 n (view t) (view t') ∧
      (Decides cb view n I le → (∀ x y, le x y ∨ le y x) → (∀ x y z, le x y → le y z → le x z) →
        SortedOn le 0 n (view t')) := by
  unfold qsortGeneric
  by_cases hn : n < 2
  · rw [if_pos hn]
    exact ⟨t, rfl, ht, .refl _ _ _, fun _ _ _ => .of_le (by omega)⟩
  · rw [if_neg hn]
    have hspec := qsortRec_spec le hv ht (show n - 1 + 1 - 0 ≤ n by omega) (by omega) (.inl (by omega))
    rwa [Nat.sub_add_cancel (by omega)] at hspec

end

/-! ## Elements in memory -/

/-- the bytes of an element -/
def element (bytes : Bytes) (base size i : ℕ) : List UInt8 := load bytes (base + i * size) size

def elements (bytes : Bytes) (base n size : ℕ) : List (List UInt8) := (List.range n).map (element bytes base size)

/-- an array at a place where there can be one; nothing is asked of the pointer where there is nothing to sort -/
def IsArray (m : Mem) (base n size : ℕ) : Prop := 2 ≤ n → 0 < base ∧ m.InRange base (n * size)

/-- **A comparator** that returns, whatever the answer, when it is called with pointers to elements, and that leaves the elements
alone. It may rely on anything that exchanging elements does not change. -/
structure Comparator {σ : Type} (call : ℕ → ℕ → Guest σ → Except Panic (ℤ × Guest σ)) (base n size : ℕ) (I : Guest σ → Prop) :
    Prop where
  returns : ∀ g i j, I g → i < n → j < n → ∃ r g', call (base + i * size) (base + j * size) g = .ok (r, g') ∧ I g' ∧
    elements g'.mem.bytes base n size = elements g.mem.bytes base n size ∧ g'.mem.nullSegmentSize = g.mem.nullSegmentSize
  exchange : ∀ g bytes, I g → (elements bytes base n size).Perm (elements g.mem.bytes base n size) →
    (∀ x, x < base ∨ base + n * size ≤ x → bytes x = g.mem.bytes x) → I { g with mem := { g.mem with bytes } }

/-- the comparator answers by a preorder of the elements -/
def ComparesBy {σ : Type} (call : ℕ → ℕ → Guest σ → Except Panic (ℤ × Guest σ)) (base n size : ℕ) (I : Guest σ → Prop)
    (le : List UInt8 → List UInt8 → Prop) : Prop :=
  ∀ g i j r g', I g → i < n → j < n → call (base + i * size) (base + j * size) g = .ok (r, g') →
    (r < 0 ↔ ¬le (element g.mem.bytes base size j) (element g.mem.bytes base size i))

section

variable {σ : Type} {call : ℕ → ℕ → Guest σ → Except Panic (ℤ × Guest σ)} {base n size i j k : ℕ} {I : Guest σ → Prop}
  {g : Guest σ} {bytes : Bytes}

theorem elements_apart (size : ℕ) (h : i ≠ j) : i * size + size ≤ j * size ∨ j * size + size ≤ i * size := by
  rw [← Nat.succ_mul, ← Nat.succ_mul]
  exact (Nat.lt_or_gt_of_ne h).imp (Nat.mul_le_mul_right size) (Nat.mul_le_mul_right size)

theorem element_end (size : ℕ) (h : i < n) : i * size + size ≤ n * size := by
  rw [← Nat.succ_mul]
  exact Nat.mul_le_mul_right size h

/-- exchanging the bytes of two elements -/
theorem element_swapWithSlice (h : i ≠ j) :
    element (swapWithSlice size bytes (base + i * size) (base + j * size)) base size k =
      element bytes base size (Equiv.swap i j k) := by
  have hapart := elements_apart size h
  unfold element swapWithSlice
  by_cases hj : k = j
  · rw [hj, Equiv.swap_apply_right]
    have hload := load_store (m := store bytes (base + i * size) (load bytes (base + j * size) size)) (a := base + j * size)
      (l := load bytes (base + i * size) size)
    rwa [load_length] at hload
  have hkj := elements_apart size hj
  rw [load_store_of_disjoint (by rw [load_length]; omega)]
  by_cases hi : k = i
  · rw [hi, Equiv.swap_apply_left]
    have hload := load_store (m := bytes) (a := base + i * size) (l := load bytes (base + j * size) size)
    rwa [load_length] at hload
  · have hki := elements_apart size hi
    rw [Equiv.swap_apply_of_ne_of_ne hi hj, load_store_of_disjoint (by rw [load_length]; omega)]

theorem swapWithSlice_outside {x : ℕ} (hi : i < n) (hj : j < n) (hx : x < base ∨ base + n * size ≤ x) :
    swapWithSlice size bytes (base + i * size) (base + j * size) x = bytes x := by
  have hiend := element_end size hi
  have hjend := element_end size hj
  unfold swapWithSlice
  rw [store_outside (by rw [load_length]; omega), store_outside (by rw [load_length]; omega)]

theorem swapWithSlice_comm (h : i ≠ j) : swapWithSlice size bytes (base + i * size) (base + j * size) =
    swapWithSlice size bytes (base + j * size) (base + i * size) := by
  have hapart := elements_apart size h
  funext x
  unfold swapWithSlice
  by_cases hi : base + i * size ≤ x ∧ x < base + i * size + size
  · obtain ⟨d, rfl⟩ := Nat.exists_eq_add_of_le hi.1
    rw [store_outside (by rw [load_length]; omega), store_inside (by rw [load_length]; omega),
      store_inside (by rw [load_length]; omega)]
  · rw [store_outside (a := base + i * size) (m := store _ _ _) (by rw [load_length]; omega)]
    by_cases hj : base + j * size ≤ x ∧ x < base + j * size + size
    · obtain ⟨d, rfl⟩ := Nat.exists_eq_add_of_le hj.1
      rw [store_inside (by rw [load_length]; omega), store_inside (by rw [load_length]; omega)]
    · rw [store_outside (by rw [load_length]; omega), store_outside (by rw [load_length]; omega),
        store_outside (by rw [load_length]; omega)]

/-- **The callback** that exchanges two elements does so. -/
theorem arraySwap_ok (hbase : 0 < base) (hrange : g.mem.InRange base (n * size)) (hi : i < n) (hj : j < n) :
    ∃ bytes, arraySwap base n size g i j = .ok { g with mem := { g.mem with bytes } } ∧
      (∀ k, element bytes base size k = element g.mem.bytes base size (Equiv.swap i j k)) ∧
      ∀ x, x < base ∨ base + n * size ≤ x → bytes x = g.mem.bytes x := by
  unfold arraySwap
  by_cases h : i = j
  · subst h
    rw [if_pos rfl]
    refine ⟨g.mem.bytes, rfl, fun k => ?_, fun _ _ => rfl⟩
    rw [Equiv.swap_self, Equiv.refl_apply]
  rw [if_neg h]
  have hend := hrange.2
  have htotal : mul32 n size = .ok (n * size) := mul32_ok (by omega)
  have hoffset : ∀ k, k < n → mul32 k size = .ok (k * size) := fun k hk => by
    have hkend := element_end size hk
    exact mul32_ok (by omega)
  refine ⟨swapWithSlice size g.mem.bytes (base + i * size) (base + j * size), ?_, fun k => element_swapWithSlice h,
    fun x hx => swapWithSlice_outside hi hj hx⟩
  have hordered : ∀ i j, i < j → j < n → (do
      let total ← mul32 n size
      g.mem.checkRange base total
      let first ← mul32 i size
      let second ← mul32 j size
      assert (first ≤ total ∧ second - first ≤ total - first) Panic.index
      assert (size ≤ second - first ∧ size ≤ total - second) Panic.index
      pure { g with mem := { g.mem with bytes := swapWithSlice size g.mem.bytes (base + first) (base + second) } }) =
      Except.ok { g with mem := { g.mem with bytes := swapWithSlice size g.mem.bytes (base + i * size) (base + j * size) } } := by
    intro i j hij hjn
    have hiend := element_end size hij
    have hjend := element_end size hjn
    rw [htotal, ok_bind, Mem.checkRange_ok hrange, ok_bind, hoffset i (by omega), ok_bind, hoffset j hjn, ok_bind,
      assert_ok (decide_eq_true ⟨by omega, by omega⟩), ok_bind, assert_ok (decide_eq_true ⟨by omega, by omega⟩), ok_bind]
    rfl
  by_cases hij : i > j
  · rw [if_pos hij, swapWithSlice_comm h]
    exact hordered j i hij hi
  · rw [if_neg hij]
    exact hordered i j (by omega) hj

/-- the elements of the array, as the algorithm sees them -/
def view (base n size : ℕ) (g : Guest σ) (k : ℕ) : List UInt8 := if k < n then element g.mem.bytes base size k else []

theorem elements_eq : elements g.mem.bytes base n size = (List.range n).map (view base n size g) :=
  List.map_congr_left fun _ hk => (if_pos (List.mem_range.1 hk)).symm

theorem view_congr {g' : Guest σ} (h : elements g'.mem.bytes base n size = elements g.mem.bytes base n size) :
    view base n size g' = view base n size g := by
  funext k
  unfold view
  by_cases hk : k < n
  · rw [if_pos hk, if_pos hk]
    exact List.map_inj_left.1 h k (List.mem_range.2 hk)
  · rw [if_neg hk, if_neg hk]

theorem elementPtr_ok (hbase : 0 < base) (hend : base + n * size ≤ 2 ^ 32) (hlast : base < 2 ^ 32) (hi : i < n) :
    elementPtr base size i = .ok (base + i * size) := by
  have hiend := element_end size hi
  have hlt : base + i * size < 2 ^ 32 := by
    rcases Nat.eq_zero_or_pos size with rfl | hsize
    · rwa [Nat.mul_zero, Nat.add_zero]
    · omega
  unfold elementPtr
  rw [mul32_ok (by omega), ok_bind, Mem.ptrAdd, Nat.mul_one, if_pos hlt]

/-- the callbacks of `qsort` do what the algorithm needs -/
theorem views_array (hc : Comparator call base n size I) (hbase : 0 < base) (hlast : base < 2 ^ 32) {lowest : ℕ}
    (hrange : lowest ≤ base ∧ base + n * size ≤ 2 ^ 32) :
    Views ⟨arrayCompar call base size, arraySwap base n size⟩ (view base n size) n
      fun g => I g ∧ g.mem.nullSegmentSize = lowest where
  compar g i j := by
    rintro ⟨hg, hnull⟩ hi hj
    obtain ⟨r, g', hcall, hg', hsame, hnull'⟩ := hc.returns g i j hg hi hj
    refine ⟨r, g', ?_, ⟨hg', hnull'.trans hnull⟩, view_congr hsame⟩
    show arrayCompar call base size g i j = _
    rw [arrayCompar, elementPtr_ok hbase hrange.2 hlast hi, ok_bind, elementPtr_ok hbase hrange.2 hlast hj, ok_bind, hcall]
  swap g i j := by
    rintro ⟨hg, hnull⟩ hi hj
    have hin : g.mem.InRange base (n * size) := ⟨hnull ▸ hrange.1, hrange.2⟩
    obtain ⟨bytes, hswap, helement, houtside⟩ := arraySwap_ok hbase hin hi hj
    have hview : ∀ k, view base n size { g with mem := { g.mem with bytes } } k = view base n size g (Equiv.swap i j k) := by
      intro k
      unfold view
      by_cases hk : k < n
      · have hswapped : Equiv.swap i j k < n := by
          rw [Equiv.swap_apply_def]
          split_ifs <;> assumption
        rw [if_pos hk, if_pos hswapped]
        exact helement k
      · rw [Equiv.swap_apply_of_ne_of_ne (by omega) (by omega), if_neg hk, if_neg hk]
    have hperm : (elements bytes base n size).Perm (elements g.mem.bytes base n size) := by
      rw [elements_eq (g := g), elements_eq (g := { g with mem := { g.mem with bytes } })]
      have hre : Rearranged 0 n (view base n size g) (view base n size { g with mem := { g.mem with bytes } }) :=
        .exchange ⟨Nat.zero_le i, hi⟩ ⟨Nat.zero_le j, hj⟩ hview
      exact hre.perm le_rfl
    exact ⟨_, hswap, ⟨hc.exchange g bytes hg hperm houtside, hnull⟩, hview⟩

end

/-- **`qsort`** ends and leaves a permutation of the elements, whatever the comparator answers; it calls the comparator with
pointers to elements only, and what the comparator relies on still holds. If the comparator answers by a total preorder, the
elements are in order. -/
theorem qsort_sorts {σ : Type} {call : ℕ → ℕ → Guest σ → Except Panic (ℤ × Guest σ)} {base nitems size : UInt32}
    {I : Guest σ → Prop} {g : Guest σ} (harray : IsArray g.mem base.toNat nitems.toNat size.toNat)
    (hc : Comparator call base.toNat nitems.toNat size.toNat I) (hg : I g) :
    ∃ g', qsort call base.toNat nitems.toNat size.toNat g = .ok g' ∧ I g' ∧
      (elements g'.mem.bytes base.toNat nitems.toNat size.toNat).Perm (elements g.mem.bytes base.toNat nitems.toNat size.toNat) ∧
      ∀ le : List UInt8 → List UInt8 → Prop, (∀ x y, le x y ∨ le y x) → (∀ x y z, le x y → le y z → le x z) →
        ComparesBy call base.toNat nitems.toNat size.toNat I le →
        (elements g'.mem.bytes base.toNat nitems.toNat size.toNat).Pairwise le := by
  by_cases hn : nitems.toNat < 2
  · refine ⟨g, if_pos hn, hg, .refl _, fun le _ _ _ => ?_⟩
    rw [elements_eq]
    exact SortedOn.pairwise (.of_le (by omega))
  obtain ⟨hbase, hrange⟩ := harray (by omega)
  have hv := views_array hc hbase base.toNat_lt hrange
  obtain ⟨g', hqsort, ⟨hg', -⟩, hre, -⟩ := qsortGeneric_spec (fun _ _ => True) hv ⟨hg, rfl⟩
  refine ⟨g', hqsort, hg', ?_, fun le htotal htrans hcompares => ?_⟩
  · rw [elements_eq, elements_eq]
    exact hre.perm le_rfl
  · obtain ⟨g'', hqsort', -, -, hsorted⟩ := qsortGeneric_spec le hv ⟨hg, rfl⟩
    obtain rfl := Except.ok.inj (hqsort'.symm.trans hqsort)
    rw [elements_eq]
    refine SortedOn.pairwise (hsorted ?_ htotal htrans)
    rintro g₁ i j r g₂ ⟨hg₁, -⟩ hi hj hcall
    have hcall' : call (base.toNat + i * size.toNat) (base.toNat + j * size.toNat) g₁ = .ok (r, g₂) := by
      have heq : arrayCompar call base.toNat size.toNat g₁ i j = .ok (r, g₂) := hcall
      rwa [arrayCompar, elementPtr_ok hbase hrange.2 base.toNat_lt hi, ok_bind,
        elementPtr_ok hbase hrange.2 base.toNat_lt hj, ok_bind] at heq
    rw [view, view, if_pos hi, if_pos hj]
    exact hcompares g₁ i j r g₂ hg₁ hi hj hcall'

/-- a comparator of bytes -/
def compareBytes (p q : ℕ) (g : Guest Unit) : Except Panic (ℤ × Guest Unit) :=
  pure ((g.mem.bytes p).toNat - (g.mem.bytes q).toNat, g)

def fiveBytes : Guest Unit := ⟨⟨store (fun _ => 0) 4096 [3, 1, 2, 1, 0], 4096⟩, ()⟩

theorem compareBytes_comparator : Comparator compareBytes 4096 5 1 fun _ => True where
  returns g _ _ _ _ _ := ⟨_, g, rfl, trivial, rfl, rfl⟩
  exchange _ _ _ _ _ := trivial

theorem qsort_sorts_fiveBytes : ∃ g', qsort compareBytes 4096 5 1 fiveBytes = .ok g' ∧
    (elements g'.mem.bytes 4096 5 1).Perm [[3], [1], [2], [1], [0]] ∧
    (elements g'.mem.bytes 4096 5 1).Pairwise fun x y => x.headD 0 ≤ y.headD 0 := by
  have hsize : (4096 : UInt32).toNat = 4096 ∧ (5 : UInt32).toNat = 5 ∧ (1 : UInt32).toNat = 1 := ⟨rfl, rfl, rfl⟩
  have harray : IsArray fiveBytes.mem 4096 5 1 := fun _ => ⟨by decide, by decide, by decide⟩
  have hsorts := @qsort_sorts Unit compareBytes 4096 5 1 (fun _ => True) fiveBytes
  rw [hsize.1, hsize.2.1, hsize.2.2] at hsorts
  obtain ⟨g', hqsort, -, hperm, hsorted⟩ := hsorts harray compareBytes_comparator trivial
  refine ⟨g', hqsort, hperm, hsorted _ (fun x y => UInt8.le_total _ _) (fun x y z => UInt8.le_trans) ?_⟩
  rintro g i j r g₂ - - - hcall
  obtain ⟨rfl, -⟩ := Prod.mk.inj (Except.ok.inj hcall)
  have hhead : ∀ k, (element g.mem.bytes 4096 1 k).headD 0 = g.mem.bytes (4096 + k * 1) := fun k => rfl
  show _ ↔ ¬(element g.mem.bytes 4096 1 j).headD 0 ≤ (element g.mem.bytes 4096 1 i).headD 0
  rw [hhead, hhead, UInt8.le_iff_toNat_le]
  show ((g.mem.bytes (4096 + i * 1)).toNat : ℤ) - (g.mem.bytes (4096 + j * 1)).toNat < 0 ↔ _
  omega

end TouchHLE.Qsort
