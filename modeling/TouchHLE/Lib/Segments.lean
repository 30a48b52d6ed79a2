/-
Segments of a sequence whose elements change their places. Nothing here names the program being modelled.

- `Rearranged`: two sequences with the same elements in a segment, and the same outside of it. `Rearranged.trans`,
  `Rearranged.exchange`: how rearrangements are built. `Rearranged.perm`: the lists of the elements are permutations.
- `SortedOn`: a segment in order. `SortedOn.join`: two sorted segments around an element that separates them.
-/
import Mathlib.Tactic

namespace TouchHLE.Segments

variable {α : Type*} {a b c : ℕ → α} {lo hi lo' hi' i j p n : ℕ} {le : α → α → Prop}

/-- the elements with an index from `lo` to below `hi` have changed their places -/
def Rearranged (lo hi : ℕ) (a b : ℕ → α) : Prop := ∃ σ : Equiv.Perm ℕ, (∀ i, i < lo ∨ hi ≤ i → σ i = i) ∧ ∀ i, b i = a (σ i)

theorem Rearranged.refl (lo hi : ℕ) (a : ℕ → α) : Rearranged lo hi a a := ⟨1, fun _ _ => rfl, fun _ => rfl⟩

theorem Rearranged.trans (h : Rearranged lo hi a b) (h' : Rearranged lo hi b c) : Rearranged lo hi a c := by
  obtain ⟨σ, hσ, hb⟩ := h
  obtain ⟨τ, hτ, hc⟩ := h'
  refine ⟨σ * τ, fun i hi => ?_, fun i => ?_⟩
  · rw [Equiv.Perm.mul_apply, hτ i hi, hσ i hi]
  · rw [Equiv.Perm.mul_apply, hc, hb]

/-- a segment of a segment -/
theorem Rearranged.mono (h : Rearranged lo hi a b) (hlo : lo' ≤ lo) (hhi : hi ≤ hi') : Rearranged lo' hi' a b := by
  obtain ⟨σ, hσ, hb⟩ := h
  exact ⟨σ, fun i hi => hσ i (by omega), hb⟩

/-- two elements are exchanged -/
theorem Rearranged.exchange (hi₁ : lo ≤ i ∧ i < hi) (hj : lo ≤ j ∧ j < hi) (hb : ∀ k, b k = a (Equiv.swap i j k)) :
    Rearranged lo hi a b :=
  ⟨Equiv.swap i j, fun k hk => Equiv.swap_apply_of_ne_of_ne (by omega) (by omega), hb⟩

theorem Rearranged.outside (h : Rearranged lo hi a b) (hi₁ : i < lo ∨ hi ≤ i) : b i = a i := by
  obtain ⟨σ, hσ, hb⟩ := h
  rw [hb, hσ i hi₁]

/-- a permutation that keeps what is outside of a segment keeps the segment -/
theorem inside_of_fixes {σ : Equiv.Perm ℕ} (hσ : ∀ i, i < lo ∨ hi ≤ i → σ i = i) (hi₁ : lo ≤ i ∧ i < hi) :
    lo ≤ σ i ∧ σ i < hi := by
  by_contra hout
  have hfix : σ (σ i) = σ i := hσ (σ i) (by omega)
  have heq : σ i = i := σ.injective hfix
  omega

/-- an element of the segment has come from another place of the segment -/
theorem Rearranged.inside (h : Rearranged lo hi a b) (hi₁ : lo ≤ i ∧ i < hi) : ∃ j, (lo ≤ j ∧ j < hi) ∧ b i = a j := by
  obtain ⟨σ, hσ, hb⟩ := h
  exact ⟨σ i, inside_of_fixes hσ hi₁, hb i⟩

/-- what all elements of the segment have in common -/
theorem Rearranged.forall {P : α → Prop} (h : Rearranged lo hi a b) (ha : ∀ i, lo ≤ i → i < hi → P (a i)) (h1 : lo ≤ i)
    (h2 : i < hi) : P (b i) := by
  obtain ⟨j, hj, heq⟩ := h.inside ⟨h1, h2⟩
  rw [heq]
  exact ha j hj.1 hj.2

/-- **The lists of the elements** are permutations of each other. -/
theorem Rearranged.perm (h : Rearranged lo hi a b) (hn : hi ≤ n) : ((List.range n).map b).Perm ((List.range n).map a) := by
  obtain ⟨σ, hσ, hb⟩ := h
  have hfix : ∀ i, i < 0 ∨ n ≤ i → σ i = i := fun i hi => hσ i (by omega)
  have hrange : ((List.range n).map σ).Perm (List.range n) := by
    rw [List.perm_ext_iff_of_nodup (List.nodup_range.map σ.injective) List.nodup_range]
    intro i
    rw [List.mem_map, List.mem_range]
    constructor
    · rintro ⟨j, hj, rfl⟩
      exact (inside_of_fixes hfix ⟨Nat.zero_le j, List.mem_range.1 hj⟩).2
    · intro hi
      have hsymm : ∀ i, i < 0 ∨ n ≤ i → σ.symm i = i := fun i hi => (σ.symm_apply_eq).2 (hfix i hi).symm
      exact ⟨σ.symm i, List.mem_range.2 (inside_of_fixes hsymm ⟨Nat.zero_le i, hi⟩).2, σ.apply_symm_apply i⟩
  have hmap : (List.range n).map b = ((List.range n).map σ).map a := by
    rw [List.map_map]
    exact List.map_congr_left fun i _ => hb i
  rw [hmap]
  exact hrange.map a

/-! ## Order -/

/-- the elements with an index from `lo` to below `hi` are in order -/
def SortedOn (le : α → α → Prop) (lo hi : ℕ) (a : ℕ → α) : Prop := ∀ i j, lo ≤ i → i < j → j < hi → le (a i) (a j)

theorem SortedOn.of_le (h : hi ≤ lo + 1) : SortedOn le lo hi a := fun i j h1 h2 h3 => by omega

/-- what happens outside of the segment -/
theorem SortedOn.congr (h : SortedOn le lo hi a) (hab : ∀ i, lo ≤ i → i < hi → b i = a i) : SortedOn le lo hi b := by
  intro i j h1 h2 h3
  rw [hab i h1 (by omega), hab j (by omega) h3]
  exact h i j h1 h2 h3

/-- **Two sorted segments** around an element that nothing on its left exceeds, and that exceeds nothing on its right. -/
theorem SortedOn.join (htrans : ∀ x y z, le x y → le y z → le x z) (hleft : SortedOn le lo p a) (hright : SortedOn le (p + 1) hi a)
    (hbelow : ∀ i, lo ≤ i → i < p → le (a i) (a p)) (habove : ∀ i, p < i → i < hi → le (a p) (a i)) : SortedOn le lo hi a := by
  intro i j h1 h2 h3
  rcases lt_trichotomy j p with hj | rfl | hj
  · exact hleft i j h1 h2 hj
  · exact hbelow i h1 h2
  · rcases lt_trichotomy i p with hi₁ | rfl | hi₁
    · exact htrans _ _ _ (hbelow i h1 hi₁) (habove j hj h3)
    · exact habove j hj h3
    · exact hright i j hi₁ h2 h3

theorem SortedOn.pairwise (h : SortedOn le 0 n a) : ((List.range n).map a).Pairwise le := by
  rw [List.pairwise_map]
  refine (List.pairwise_lt_range (n := n)).imp_of_mem fun {i j} _ hj hlt => ?_
  exact h i j (Nat.zero_le i) hlt (List.mem_range.1 hj)

end TouchHLE.Segments
