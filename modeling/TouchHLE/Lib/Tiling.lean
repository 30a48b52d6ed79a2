/-
Lists of half-open intervals that tile `[0, n)`: every point has exactly one owner and no interval sticks out. An
interval is a pair (base, size). The allocator of a range of addresses keeps its free and used intervals together in
such a tiling.

- `owners`: how many intervals of a list contain a point. It does not change when an interval is cut in two
  (`owners_split`), when the list is permuted, and it adds up over concatenation.
- `Tiles`: one owner for every point of `[0, n)`, nothing outside. It follows that the intervals are pairwise disjoint
  (`Tiles.disjoint`) and that a base determines its interval (`Tiles.eq_of_base`).
- `Fills`: intervals that follow each other without a gap. `tiles_fill` puts them in the place of the interval they
  fill, or back together.
-/
import Mathlib.Tactic

namespace TouchHLE.Tiling

/-- a half-open interval: base and size -/
abbrev Span := ℕ × ℕ

/-- the point `a` lies in the interval -/
def Span.Has (i : Span) (a : ℕ) : Prop := i.1 ≤ a ∧ a < i.1 + i.2

instance (i : Span) (a : ℕ) : Decidable (i.Has a) := by unfold Span.Has; infer_instance

/-- how many intervals of the list contain the point -/
def owners (l : List Span) (a : ℕ) : ℕ := l.countP fun i => i.Has a

/-- every point of `[0, n)` has exactly one owner and no interval sticks out -/
structure Tiles (l : List Span) (n : ℕ) : Prop where
  one : ∀ a < n, owners l a = 1
  inside : ∀ i ∈ l, i.1 + i.2 ≤ n

variable {l l' : List Span} {n a b s t : ℕ} {i j : Span}

/-! ## Counting owners -/

@[simp] theorem owners_nil : owners [] a = 0 := rfl

theorem owners_cons : owners (i :: l) a = owners l a + if i.Has a then 1 else 0 := by
  simp [owners, List.countP_cons]

theorem owners_perm (h : l.Perm l') : owners l a = owners l' a := h.countP_eq _

/-- cutting an interval in two leaves every point with the same number of owners -/
theorem owners_split : owners ((b, s + t) :: l) a = owners ((b, s) :: (b + s, t) :: l) a := by
  have hor : Span.Has (b, s + t) a ↔ Span.Has (b, s) a ∨ Span.Has (b + s, t) a := by
    simp only [Span.Has]; omega
  have hno : Span.Has (b, s) a → ¬ Span.Has (b + s, t) a := by
    simp only [Span.Has]; omega
  rw [owners_cons, owners_cons, owners_cons]
  by_cases h1 : Span.Has (b, s) a
  · simp [hor, h1, hno h1]
  · by_cases h2 : Span.Has (b + s, t) a <;> simp [hor, h1, h2]

theorem owners_pos (hi : i ∈ l) (ha : i.Has a) : 0 < owners l a :=
  List.countP_pos_iff.2 ⟨i, hi, by simpa using ha⟩

/-! ## Tilings -/

theorem Tiles.perm (h : l.Perm l') (ht : Tiles l n) : Tiles l' n :=
  ⟨fun a ha => (owners_perm h).symm.trans (ht.one a ha), fun i hi => ht.inside i (h.mem_iff.2 hi)⟩

/-- **Cutting and joining.** A list with an interval tiles exactly when the list with its two halves does. -/
theorem tiles_split : Tiles ((b, s + t) :: l) n ↔ Tiles ((b, s) :: (b + s, t) :: l) n := by
  constructor
  · rintro ⟨h1, h2⟩
    have hb := h2 (b, s + t) List.mem_cons_self
    refine ⟨fun a ha => owners_split ▸ h1 a ha, fun i hi => ?_⟩
    simp only [List.mem_cons] at hi
    rcases hi with rfl | rfl | hi
    · simp only at hb ⊢; omega
    · simp only at hb ⊢; omega
    · exact h2 i (List.mem_cons_of_mem _ hi)
  · rintro ⟨h1, h2⟩
    have hb := h2 (b + s, t) (by simp)
    refine ⟨fun a ha => owners_split.trans (h1 a ha), fun i hi => ?_⟩
    simp only [List.mem_cons] at hi
    rcases hi with rfl | hi
    · simp only at hb ⊢; omega
    · exact h2 i (by simp [hi])

/-- the intervals follow each other from `b` to `e` without a gap -/
def Fills : List Span → ℕ → ℕ → Prop
  | [], b, e => b = e
  | i :: l, b, e => i.1 = b ∧ Fills l (b + i.2) e

theorem Fills.le {l : List Span} (h : Fills l a b) : a ≤ b := by
  induction l generalizing a with
  | nil => exact le_of_eq h
  | cons i l ih => exact (Nat.le_add_right a i.2).trans (ih h.2)

theorem Fills.append {l r : List Span} {c : ℕ} (h1 : Fills l a b) (h2 : Fills r b c) : Fills (l ++ r) a c := by
  induction l generalizing a with
  | nil => exact (show a = b from h1) ▸ h2
  | cons i l ih => exact ⟨h1.1, ih h1.2⟩

theorem Fills.of_append {l r : List Span} {c : ℕ} (h : Fills (l ++ r) a c) : ∃ b, Fills l a b ∧ Fills r b c := by
  induction l generalizing a with
  | nil => exact ⟨a, rfl, h⟩
  | cons i l ih =>
    obtain ⟨b, h1, h2⟩ := ih h.2
    exact ⟨b, ⟨h.1, h1⟩, h2⟩

/-- the points of intervals that follow each other -/
theorem Fills.has {l : List Span} {x : ℕ} (h : Fills l a b) : (∃ i ∈ l, i.Has x) ↔ a ≤ x ∧ x < b := by
  induction l generalizing a with
  | nil =>
    obtain rfl : a = b := h
    simp
  | cons i l ih =>
    obtain ⟨rfl, hl⟩ := h
    have hle := hl.le
    have hhas : i.Has x ↔ i.1 ≤ x ∧ x < i.1 + i.2 := Iff.rfl
    simp only [List.mem_cons, exists_eq_or_imp, ih hl, hhas]
    omega

/-- **Cutting into several parts.** A list with an interval tiles exactly when the list with consecutive parts of that
interval in its place does. -/
theorem tiles_fill {parts : List Span} (hne : parts ≠ []) (h : Fills parts b (b + s)) :
    Tiles ((b, s) :: l) n ↔ Tiles (parts ++ l) n := by
  induction parts generalizing b s l with
  | nil => exact absurd rfl hne
  | cons i parts ih =>
    obtain ⟨rfl, h2⟩ := h
    cases parts with
    | nil =>
      have hs : s = i.2 := Nat.add_left_cancel (Eq.symm h2)
      subst hs; rfl
    | cons j parts =>
      have hle : i.1 + i.2 ≤ i.1 + s := h2.le
      obtain ⟨t, rfl⟩ : ∃ t, s = i.2 + t := ⟨s - i.2, by omega⟩
      rw [← Nat.add_assoc] at h2
      have hswap : (((i.1 + i.2, t) :: i :: l)).Perm ((i.1, i.2) :: (i.1 + i.2, t) :: l) := List.Perm.swap _ _ _
      have hback : (j :: parts ++ i :: l).Perm (i :: j :: parts ++ l) := List.perm_middle
      calc Tiles ((i.1, i.2 + t) :: l) n ↔ Tiles ((i.1, i.2) :: (i.1 + i.2, t) :: l) n := tiles_split
        _ ↔ Tiles ((i.1 + i.2, t) :: i :: l) n := ⟨fun h => h.perm hswap.symm, fun h => h.perm hswap⟩
        _ ↔ Tiles (j :: parts ++ i :: l) n := ih (by simp) h2
        _ ↔ Tiles (i :: j :: parts ++ l) n := ⟨fun h => h.perm hback, fun h => h.perm hback.symm⟩

/-- two intervals at different places of a tiling share no point -/
theorem Tiles.not_both (ht : Tiles (i :: l) n) (hj : j ∈ l) (hi : i.Has a) : ¬ j.Has a := by
  intro ha
  have h1 := ht.inside i List.mem_cons_self
  have h2 := ht.one a (by have := hi.2; omega)
  have h3 := owners_pos hj ha
  rw [owners_cons, if_pos hi] at h2
  omega

/-- **Disjointness.** The intervals of a tiling are pairwise disjoint. -/
theorem Tiles.disjoint (ht : Tiles l n) : l.Pairwise fun i j => ∀ a, i.Has a → ¬ j.Has a := by
  obtain ⟨h1, h2⟩ := ht
  -- the induction only needs that no point has two owners
  have hle : ∀ a < n, owners l a ≤ 1 := fun a ha => (h1 a ha).le
  clear h1
  induction l with
  | nil => exact List.Pairwise.nil
  | cons i l ih =>
    refine List.Pairwise.cons (fun j hj a hi ha => ?_) (ih (fun i hi => h2 i (List.mem_cons_of_mem _ hi)) fun a ha => ?_)
    · have h3 := hle a (by have := h2 i List.mem_cons_self; have := hi.2; omega)
      have h4 := owners_pos hj ha
      rw [owners_cons, if_pos hi] at h3
      omega
    · have h3 := hle a ha
      rw [owners_cons] at h3
      omega

/-- a nonempty interval of a tiling is determined by a point it owns -/
theorem Tiles.eq_of_has (ht : Tiles l n) (hi : i ∈ l) (hj : j ∈ l) (h1 : i.Has a) (h2 : j.Has a) : i = j := by
  by_contra hne
  obtain ⟨r, hr⟩ : ∃ r, l.Perm (i :: r) := ⟨_, List.perm_cons_erase hi⟩
  have hjr : j ∈ r := by
    rcases List.mem_cons.1 (hr.mem_iff.1 hj) with rfl | h
    · exact absurd rfl hne
    · exact h
  exact (ht.perm hr).not_both hjr h1 h2

end TouchHLE.Tiling
