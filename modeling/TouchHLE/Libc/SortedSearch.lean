/-
An array that is sorted with `qsort` (`libc/stdlib/qsort.rs`) and then searched with `bsearch` (`libc/stdlib.rs`), by one
comparator.

- `Compares`: a comparator that answers by an order of what its pointers point to. `qsort_ordered`: the call of `qsort`.
- `searches_answer`: one search after the other. `sort_then_search`: what was in the array before is found.
-/
import TouchHLE.Libc.Bsearch
import TouchHLE.Libc.Qsort

namespace TouchHLE.SortedSearch

open Machine Words Segments Qsort

section

variable {σ : Type} (call : ℕ → ℕ → Guest σ → Except Panic (ℤ × Guest σ)) (keys : List ℕ) (base n size : ℕ)

/-- the search for one key after the other -/
def searches : List ℕ → Guest σ → Except Panic (List ℕ × Guest σ)
  | [], g => pure ([], g)
  | key :: keys, g => do
    let (p, g) ← Bsearch.bsearch call key base size n g
    let (ps, g) ← searches keys g
    pure (p :: ps, g)

/-- what the comparator is called with -/
def Points (p : ℕ) : Prop := p ∈ keys ∨ ∃ i < n, p = base + i * size

/-- the keys and the elements are the same -/
structure SameContents (g g' : Guest σ) : Prop where
  nullSegmentSize : g'.mem.nullSegmentSize = g.mem.nullSegmentSize
  load : ∀ p, Points keys base n size p → load g'.mem.bytes p size = load g.mem.bytes p size

/-- **A comparator** that returns, answers by an order of what its pointers point to, and leaves that alone. It may rely on
anything that exchanging elements does not change. -/
structure Compares (cmp : List UInt8 → List UInt8 → ℤ) (I : Guest σ → Prop) : Prop where
  swap : ∀ x y, (cmp y x).sign = -(cmp x y).sign
  trans : ∀ x y z, cmp x y ≤ 0 → cmp y z ≤ 0 → cmp x z ≤ 0
  returns : ∀ g p q, I g → Points keys base n size p → Points keys base n size q → ∃ r g', call p q g = .ok (r, g') ∧ I g' ∧
    SameContents keys base n size g g' ∧ r.sign = (cmp (load g.mem.bytes p size) (load g.mem.bytes q size)).sign
  exchange : ∀ g bytes, I g → (elements bytes base n size).Perm (elements g.mem.bytes base n size) →
    (∀ x, x < base ∨ base + n * size ≤ x → bytes x = g.mem.bytes x) → I { g with mem := { g.mem with bytes } }

/-- a pointer to an element that was in the array and is the same as the key, or NULL if there was none -/
def FoundIn (cmp : List UInt8 → List UInt8 → ℤ) (before : List (List UInt8)) (bytes : Bytes) (key p : ℕ) : Prop :=
  (∃ i < n, p = base + i * size ∧ element bytes base size i ∈ before ∧
    cmp (load bytes key size) (element bytes base size i) = 0) ∨
  p = 0 ∧ ∀ x ∈ before, cmp (load bytes key size) x ≠ 0

end

section

variable {σ : Type} {call : ℕ → ℕ → Guest σ → Except Panic (ℤ × Guest σ)} {keys left : List ℕ} {base n size key : ℕ}
  {cmp : List UInt8 → List UInt8 → ℤ} {I : Guest σ → Prop} {g e : Guest σ} {x y z : List UInt8} {before : List (List UInt8)}
  (hc : Compares call keys base n size cmp I) (hlast : base < 2 ^ 32)

include hc

theorem Compares.neg_iff : cmp x y < 0 ↔ 0 < cmp y x := by
  rw [← Int.sign_eq_neg_one_iff_neg, ← Int.sign_eq_one_iff_pos, hc.swap x y, neg_eq_iff_eq_neg]

/-- what follows an element is not less, seen from a key -/
theorem Compares.sign_le (hxy : cmp x y ≤ 0) : (cmp z y).sign ≤ (cmp z x).sign := by
  rcases lt_trichotomy (cmp z x) 0 with hzx | hzx | hzx
  · have hzy : cmp z y < 0 := by
      by_contra hge
      -- the key would not be less than the first element either
      have hyz : cmp y z ≤ 0 := not_lt.1 fun hpos => hge (hc.neg_iff.2 hpos)
      exact (hc.trans x y z hxy hyz).not_gt (hc.neg_iff.1 hzx)
    rw [Int.sign_eq_neg_one_of_neg hzy, Int.sign_eq_neg_one_of_neg hzx]
  · rw [hzx, Int.sign_zero]
    exact Int.sign_nonpos_iff.2 (hc.trans z x y hzx.le hxy)
  · rw [Int.sign_eq_one_of_pos hzx]
    rcases Int.sign_trichotomy (cmp z y) with h | h | h <;> omega

include hlast

/-- `qsort` puts the elements in order and leaves the keys alone -/
theorem qsort_ordered (hbase : 0 < base) (hrange : g.mem.InRange base (n * size))
    (hapart : ∀ key ∈ keys, key + size ≤ base ∨ base + n * size ≤ key) (hg : I g) :
    ∃ g', qsort call base n size g = .ok g' ∧ I g' ∧
      (∀ key ∈ keys, load g'.mem.bytes key size = load g.mem.bytes key size) ∧
      (elements g'.mem.bytes base n size).Perm (elements g.mem.bytes base n size) ∧
      SortedOn (fun x y => cmp x y ≤ 0) 0 n (view base n size g') := by
  have hcomparator : Comparator call base n size
      fun e => I e ∧ ∀ key ∈ keys, load e.mem.bytes key size = load g.mem.bytes key size := by
    refine ⟨fun e i j he hi hj => ?_, fun e bytes he hperm houtside =>
      ⟨hc.exchange e bytes he.1 hperm houtside, fun key hkey => ?_⟩⟩
    · obtain ⟨r, e', hcall, he', hsame, -⟩ := hc.returns e _ _ he.1 (Or.inr ⟨i, hi, rfl⟩) (Or.inr ⟨j, hj, rfl⟩)
      refine ⟨r, e', hcall, ⟨he', fun key hkey => (hsame.load _ (Or.inl hkey)).trans (he.2 key hkey)⟩, ?_,
        hsame.nullSegmentSize⟩
      exact List.map_congr_left fun k hk => hsame.load _ (Or.inr ⟨k, List.mem_range.1 hk, rfl⟩)
    · rw [← he.2 key hkey]
      exact load_congr fun x hlo hhi => houtside x ((hapart key hkey).imp (by omega) (by omega))
  obtain ⟨g', hqsort, ⟨⟨hg', hkeys⟩, -⟩, hre, hsorted⟩ := qsortGeneric_spec (fun x y => cmp x y ≤ 0)
    (views_array hcomparator hbase hlast hrange) ⟨⟨hg, fun _ _ => rfl⟩, rfl⟩
  refine ⟨g', hqsort, hg', hkeys, ?_, hsorted ?_ (fun x y => ?_) hc.trans⟩
  · rw [elements_eq, elements_eq]
    exact hre.perm le_rfl
  · rintro e i j r e' ⟨⟨he, -⟩, -⟩ hi hj hcall
    obtain ⟨r', e'', hcall', -, -, hsign⟩ := hc.returns e _ _ he (Or.inr ⟨i, hi, rfl⟩) (Or.inr ⟨j, hj, rfl⟩)
    have heq : arrayCompar call base size e i j = .ok (r, e') := hcall
    rw [arrayCompar, elementPtr_ok hbase hrange.2 hlast hi, ok_bind, elementPtr_ok hbase hrange.2 hlast hj, ok_bind,
      hcall'] at heq
    cases heq
    rw [view, view, if_pos hi, if_pos hj, not_le, ← hc.neg_iff, ← Int.sign_eq_neg_one_iff_neg, hsign,
      Int.sign_eq_neg_one_iff_neg]
    rfl
  · by_contra hnone
    rw [not_or, not_le, not_le] at hnone
    exact (hc.neg_iff.2 hnone.1).not_gt hnone.2

/-- a search in an array that is in order -/
theorem bsearch_answers (hrange : base + n * size ≤ 2 ^ 32) (hn : n < 2 ^ 32)
    (hperm : (elements g.mem.bytes base n size).Perm before)
    (hsorted : SortedOn (fun x y => cmp x y ≤ 0) 0 n (view base n size g)) (he : I e ∧ SameContents keys base n size g e)
    (hkey : key ∈ keys) :
    ∃ p e', Bsearch.bsearch call key base size n e = .ok (p, e') ∧ (I e' ∧ SameContents keys base n size g e') ∧
      FoundIn base n size cmp before g.mem.bytes key p := by
  have hconsults : Bsearch.Consults call key base n size (fun e => I e ∧ SameContents keys base n size g e)
      fun i => (cmp (load g.mem.bytes key size) (element g.mem.bytes base size i)).sign := by
    refine ⟨fun e i he hi => ?_⟩
    obtain ⟨r, e', hcall, he', hsame, hsign⟩ := hc.returns e _ _ he.1 (Or.inl hkey) (Or.inr ⟨i, hi, rfl⟩)
    rw [he.2.load _ (Or.inl hkey), he.2.load _ (Or.inr ⟨i, hi, rfl⟩)] at hsign
    rw [Nat.mul_comm size i]
    exact ⟨r, e', hcall, ⟨he', hsame.nullSegmentSize.trans he.2.nullSegmentSize,
      fun p hp => (hsame.load p hp).trans (he.2.load p hp)⟩, hsign⟩
  have hordered :
      Bsearch.SortedFor n fun i => (cmp (load g.mem.bytes key size) (element g.mem.bytes base size i)).sign := by
    intro i j hij hj
    rcases hij.eq_or_lt with rfl | hlt
    · exact le_rfl
    · have hle := hsorted i j (Nat.zero_le i) hlt hj
      simp only [view, if_pos hj, if_pos (hlt.trans hj)] at hle
      exact hc.sign_le hle
  obtain ⟨p, e', hbsearch, he', hfound⟩ := Bsearch.bsearchLoop_spec hconsults hordered hlast (by rwa [Nat.mul_comm]) hn he
    (Nat.lt_succ_self n) (Nat.zero_add n).le (fun i hi => absurd hi (Nat.not_lt_zero i)) (fun i hi hge => by omega)
  refine ⟨p, e', hbsearch, he', ?_⟩
  rcases hfound with ⟨i, hi, hsign, rfl⟩ | ⟨rfl, hnone⟩
  · refine Or.inl ⟨i, hi, by rw [Nat.mul_comm], ?_, Int.sign_eq_zero_iff_zero.1 hsign⟩
    exact hperm.mem_iff.1 (List.mem_map.2 ⟨i, List.mem_range.2 hi, rfl⟩)
  · refine Or.inr ⟨rfl, fun x hx hzero => ?_⟩
    obtain ⟨i, hi, rfl⟩ := List.mem_map.1 (hperm.mem_iff.2 hx)
    exact hnone i (List.mem_range.1 hi) (Int.sign_eq_zero_iff_zero.2 hzero)

/-- one search after the other; the induction is on the keys that are left -/
theorem searches_answer (hrange : base + n * size ≤ 2 ^ 32) (hn : n < 2 ^ 32)
    (hperm : (elements g.mem.bytes base n size).Perm before)
    (hsorted : SortedOn (fun x y => cmp x y ≤ 0) 0 n (view base n size g)) (he : I e ∧ SameContents keys base n size g e)
    (hleft : ∀ key ∈ left, key ∈ keys) :
    ∃ ps e', searches call base n size left e = .ok (ps, e') ∧ (I e' ∧ SameContents keys base n size g e') ∧
      List.Forall₂ (FoundIn base n size cmp before g.mem.bytes) left ps := by
  induction left generalizing e with
  | nil => exact ⟨[], e, rfl, he, .nil⟩
  | cons key left ih =>
    obtain ⟨p, e₁, hbsearch, he₁, hfound⟩ :=
        bsearch_answers hc hlast hrange hn hperm hsorted he (hleft key List.mem_cons_self)
    obtain ⟨ps, e', hsearches, he', hall⟩ := ih he₁ fun key hkey => hleft key (List.mem_cons_of_mem _ hkey)
    refine ⟨p :: ps, e', ?_, he', .cons hfound hall⟩
    simp only [searches, hbsearch, hsearches, ok_bind]
    rfl

/-- **Sorting, then searching** any number of times: every search ends, with a pointer to an element that is the same
as the key if there was one in the array before, and else with NULL. The keys and the sorted array are left alone. -/
theorem sort_then_search (hbase : 0 < base) (hn : n < 2 ^ 32) (hrange : g.mem.InRange base (n * size))
    (hapart : ∀ key ∈ keys, key + size ≤ base ∨ base + n * size ≤ key) (hg : I g) :
    ∃ g₁ ps g₂, qsort call base n size g = .ok g₁ ∧ searches call base n size keys g₁ = .ok (ps, g₂) ∧
      SameContents keys base n size g₁ g₂ ∧ (∀ key ∈ keys, load g₁.mem.bytes key size = load g.mem.bytes key size) ∧
      List.Forall₂ (FoundIn base n size cmp (elements g.mem.bytes base n size) g₁.mem.bytes) keys ps := by
  obtain ⟨g₁, hqsort, hg₁, hkeys, hperm, hsorted⟩ := qsort_ordered hc hlast hbase hrange hapart hg
  obtain ⟨ps, g₂, hsearches, ⟨-, hsame⟩, hall⟩ := searches_answer hc hlast hrange.2 hn hperm hsorted
    ⟨hg₁, rfl, fun _ _ => rfl⟩ fun _ hkey => hkey
  exact ⟨g₁, ps, g₂, hqsort, hsearches, hsame, hkeys, hall⟩

end

/-- the key 2 behind an array of 3, 1, 2, 1 and 0 -/
def arrayAndKey : Guest Unit := ⟨⟨store (fun _ => 0) 4096 [3, 1, 2, 1, 0, 2], 4096⟩, ()⟩

theorem sort_then_search_two : ∃ g₁ p g₂, qsort compareBytes 4096 5 1 arrayAndKey = .ok g₁ ∧
    searches compareBytes 4096 5 1 [4101] g₁ = .ok ([p], g₂) ∧ p ≠ 0 := by
  have hc : Compares compareBytes [4101] 4096 5 1 (fun x y => (x.headD 0).toNat - (y.headD 0).toNat) fun _ => True := by
    refine ⟨fun x y => ?_, fun x y z hxy hyz => by
      omega, fun g p q _ _ _ => ⟨_, g, rfl, trivial, ⟨rfl, fun _ _ => rfl⟩, rfl⟩,
      fun _ _ _ _ _ => trivial⟩
    rw [← Int.sign_neg, neg_sub]
  obtain ⟨g₁, ps, g₂, hqsort, hsearches, -, hkeys, hfound⟩ := sort_then_search (g := arrayAndKey) hc (by decide) (by decide)
    (by decide) ⟨by decide, by decide⟩ (by decide) trivial
  obtain ⟨p, ps', hp, hnil, rfl⟩ := List.forall₂_cons_left_iff.1 hfound
  cases hnil
  refine ⟨g₁, p, g₂, hqsort, hsearches, ?_⟩
  rcases hp with ⟨i, hi, rfl, -⟩ | ⟨-, hnone⟩
  · exact Nat.ne_of_gt (Nat.add_pos_left (by decide) _)
  · rw [hkeys 4101 (List.mem_singleton_self _)] at hnone
    exact absurd rfl (hnone [2] (by decide))

end TouchHLE.SortedSearch
