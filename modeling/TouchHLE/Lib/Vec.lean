/-
Growable vectors as lists: the operations the standard `Vec` and its iterators offer beyond `List`'s own, up to
permutation of the elements.

- `swapRemove`: take an element out by moving the last one into its place (`perm_swapRemove`).
- `removeWhere`: take out all elements satisfying a predicate, each by `swapRemove` (`removeWhere_kept`,
  `removeWhere_removed`).
- `rposition`: index of the last element satisfying a predicate (`rposition_some`, `exists_rposition`).
- `getD_modify`: reading a vector of vectors after one of them was modified.
- `count_flatMap_set`, `count_flatMap_eraseIdx`: what the elements hold, after one of them was replaced or taken out.
-/
import Mathlib.Tactic

namespace TouchHLE.Vec

variable {α : Type*} {p : α → Bool}

/-- take out the element at `i` by moving the last element into its place -/
def swapRemove (l : List α) (i : ℕ) : List α :=
  match l.getLast? with
  | none => l
  | some x => (l.set i x).dropLast

/-- the loop that takes out the elements satisfying `p` from an index on, in as many rounds as there are elements from there
on: what is left, and what was taken out -/
def removeWhere (p : α → Bool) (rounds i : ℕ) (l removed : List α) : List α × List α :=
  match rounds with
  | 0 => (l, removed)
  | rounds + 1 =>
    match l[i]? with
    | none => (l, removed)
    | some x =>
      if p x then removeWhere p rounds i (swapRemove l i) (removed ++ [x]) else removeWhere p rounds (i + 1) l removed

/-- index of the last element satisfying `p` -/
def rposition (p : α → Bool) (l : List α) : Option ℕ := (l.reverse.findIdx? p).map fun k => l.length - 1 - k

/-! ## Taking an element out -/

theorem perm_swapRemove {l : List α} {i : ℕ} (h : i < l.length) : (l[i] :: swapRemove l i).Perm l := by
  induction l using List.reverseRecOn with
  | nil => simp at h
  | append_singleton l x _ =>
    simp only [swapRemove, List.getLast?_append, List.getLast?_singleton, Option.some_or]
    by_cases hi : i < l.length
    · -- the removed element and the last one trade places
      have hset : (l ++ [x]).set i x = l.set i x ++ [x] := List.set_append_left i x hi
      rw [hset, List.dropLast_concat, List.getElem_append_left hi]
      calc (l[i] :: l.set i x).Perm (l[i] :: x :: l.eraseIdx i) := (List.set_perm_cons_eraseIdx hi x).cons _
        _ |>.Perm (x :: l[i] :: l.eraseIdx i) := List.Perm.swap _ _ _
        _ |>.Perm (x :: l) := (List.getElem_cons_eraseIdx_perm hi).cons _
        _ |>.Perm (l ++ [x]) := (List.perm_append_singleton x l).symm
    · have hlast : i = l.length := by simp at h; omega
      subst hlast
      simp only [List.set_append_right _ _ le_rfl, Nat.sub_self, List.set_cons_zero, List.dropLast_concat,
        List.getElem_append_right le_rfl, List.getElem_singleton]
      exact (List.perm_append_singleton x l).symm

/-- what is before the place stays there -/
theorem take_swapRemove {l : List α} {i : ℕ} (h : i < l.length) : (swapRemove l i).take i = l.take i := by
  unfold swapRemove
  cases hlast : l.getLast? with
  | none => rfl
  | some x =>
    dsimp only
    rw [List.dropLast_eq_take, List.take_take, List.length_set, min_eq_left (Nat.le_sub_one_of_lt h),
      List.take_set_of_le le_rfl]

/-! ## Taking all of some elements out -/

theorem removeWhere_perm (p : α → Bool) (rounds i : ℕ) (l removed : List α) :
    ((removeWhere p rounds i l removed).1 ++ (removeWhere p rounds i l removed).2).Perm (l ++ removed) := by
  induction rounds generalizing i l removed with
  | zero => exact List.Perm.refl _
  | succ rounds ih =>
    rw [removeWhere]
    cases hx : l[i]? with
    | none => exact List.Perm.refl _
    | some x =>
      dsimp only
      split_ifs
      · obtain ⟨hi, rfl⟩ := List.getElem?_eq_some_iff.1 hx
        refine (ih i _ _).trans ?_
        calc
          (swapRemove l i ++ (removed ++ [l[i]])).Perm ((swapRemove l i ++ removed) ++ [l[i]]) := by rw [List.append_assoc]
          _ |>.Perm (l[i] :: (swapRemove l i ++ removed)) := List.perm_append_singleton _ _
          _ |>.Perm (l ++ removed) := (perm_swapRemove hi).append_right removed
      · exact ih (i + 1) _ _

/-- the loop leaves nothing that is to be taken out -/
theorem removeWhere_not {rounds i : ℕ} {l removed : List α} (hrounds : l.length ≤ i + rounds)
    (hbefore : ∀ x ∈ l.take i, p x = false) : ∀ x ∈ (removeWhere p rounds i l removed).1, p x = false := by
  induction rounds generalizing i l removed with
  | zero =>
    rw [removeWhere]
    rwa [List.take_of_length_le (by simpa using hrounds)] at hbefore
  | succ rounds ih =>
    rw [removeWhere]
    cases hx : l[i]? with
    | none =>
      rw [List.take_of_length_le (List.getElem?_eq_none_iff.1 hx)] at hbefore
      exact hbefore
    | some x =>
      obtain ⟨hi, rfl⟩ := List.getElem?_eq_some_iff.1 hx
      dsimp only
      split_ifs with hp
      · have hlength : (swapRemove l i).length + 1 = l.length := (perm_swapRemove hi).length_eq
        refine ih (by omega) fun x hx => hbefore x ?_
        rwa [take_swapRemove hi] at hx
      · refine ih (by omega) fun x hx => ?_
        rw [List.take_succ_eq_append_getElem hi, List.mem_append, List.mem_singleton] at hx
        rcases hx with hx | rfl
        · exact hbefore x hx
        · exact Bool.eq_false_of_not_eq_true hp

/-- it only takes out what is to be taken out -/
theorem removeWhere_mem {rounds i : ℕ} {l removed : List α} (h : ∀ x ∈ removed, p x = true) :
    ∀ x ∈ (removeWhere p rounds i l removed).2, p x = true := by
  induction rounds generalizing i l removed with
  | zero => exact h
  | succ rounds ih =>
    rw [removeWhere]
    cases hx : l[i]? with
    | none => exact h
    | some x =>
      dsimp only
      split_ifs with hp
      · refine ih fun x' hx' => ?_
        rcases List.mem_append.1 hx' with hx' | hx'
        · exact h x' hx'
        · rwa [List.mem_singleton.1 hx']
      · exact ih h

theorem removeWhere_kept (p : α → Bool) (l : List α) :
    (removeWhere p l.length 0 l []).1.Perm (l.filter fun x => !p x) := by
  have hperm := (removeWhere_perm p l.length 0 l []).filter fun x => !p x
  have hkept : ∀ x ∈ (removeWhere p l.length 0 l []).1, (!p x) = true := fun x hx => by
    rw [removeWhere_not (Nat.zero_add _).ge (fun x hx => absurd hx List.not_mem_nil) x hx]
    rfl
  have hremoved : ∀ x ∈ (removeWhere p l.length 0 l []).2, ¬(!p x) = true := fun x hx => by
    rw [removeWhere_mem (fun x hx => absurd hx List.not_mem_nil) x hx]
    exact Bool.false_ne_true
  rwa [List.append_nil, List.filter_append, List.filter_eq_self.2 hkept, List.filter_eq_nil_iff.2 hremoved,
    List.append_nil] at hperm

theorem removeWhere_removed (p : α → Bool) (l : List α) : (removeWhere p l.length 0 l []).2.length = l.countP p := by
  have hperm := (removeWhere_perm p l.length 0 l []).countP_eq p
  have hkept : (removeWhere p l.length 0 l []).1.countP p = 0 := by
    rw [List.countP_eq_zero]
    intro x hx
    rw [removeWhere_not (Nat.zero_add _).ge (fun x hx => absurd hx List.not_mem_nil) x hx]
    exact Bool.false_ne_true
  have hremoved : (removeWhere p l.length 0 l []).2.countP p = (removeWhere p l.length 0 l []).2.length :=
    List.countP_eq_length.2 (removeWhere_mem fun x hx => absurd hx List.not_mem_nil)
  rwa [List.append_nil, List.countP_append, hkept, hremoved, Nat.zero_add] at hperm

/-! ## Searching from the end -/

theorem rposition_some {l : List α} {i : ℕ} (h : rposition p l = some i) :
    ∃ hi : i < l.length, p l[i] = true := by
  obtain ⟨k, hk, rfl⟩ := Option.map_eq_some_iff.1 h
  obtain ⟨hlt, hp, -⟩ := List.findIdx?_eq_some_iff_getElem.1 hk
  rw [List.length_reverse] at hlt
  refine ⟨by omega, ?_⟩
  rw [List.getElem_reverse] at hp
  exact hp

theorem exists_rposition {l : List α} {x : α} (hx : x ∈ l) (hp : p x = true) :
    ∃ i, rposition p l = some i := by
  cases h : l.reverse.findIdx? p with
  | none =>
    rw [List.findIdx?_eq_none_iff] at h
    have := h x (List.mem_reverse.2 hx)
    rw [hp] at this
    exact absurd this (by decide)
  | some k => exact ⟨_, by rw [rposition, h]; rfl⟩

/-! ## Vectors of vectors -/

theorem getD_of_lt {l : List (List α)} {i : ℕ} (h : i < l.length) : l.getD i [] = l[i] := by
  rw [List.getD_eq_getElem?_getD, List.getElem?_eq_getElem h, Option.getD_some]

theorem getD_of_ge {l : List (List α)} {i : ℕ} (h : l.length ≤ i) : l.getD i [] = [] := by
  rw [List.getD_eq_getElem?_getD, List.getElem?_eq_none h, Option.getD_none]

theorem getD_modify {l : List (List α)} {i : ℕ} (f : List α → List α) (h : i < l.length) (j : ℕ) :
    (l.modify i f).getD j [] = if j = i then f (l.getD i []) else l.getD j [] := by
  simp only [List.getD_eq_getElem?_getD, List.getElem?_modify]
  split_ifs with h1 h2 h2
  · subst h2; simp [h]
  · exact absurd h1.symm h2
  · exact absurd h2.symm h1
  · simp

/-! ## What the elements hold -/

variable {β : Type*} [DecidableEq β] {f : α → List β} {l : List α} {a : α} {i : ℕ}

theorem count_flatMap_set (h : l[i]? = some a) (a' : α) (x : β) :
    ((l.set i a').flatMap f).count x + (f a).count x = (l.flatMap f).count x + (f a').count x := by
  induction l generalizing i with
  | nil => cases h
  | cons b l ih =>
    cases i with
    | zero =>
      cases h
      rw [List.set_cons_zero, List.flatMap_cons, List.flatMap_cons, List.count_append, List.count_append]
      omega
    | succ i =>
      have hrest := ih h
      rw [List.set_cons_succ, List.flatMap_cons, List.flatMap_cons, List.count_append, List.count_append]
      omega

theorem count_flatMap_eraseIdx (h : l[i]? = some a) (x : β) :
    ((l.eraseIdx i).flatMap f).count x + (f a).count x = (l.flatMap f).count x := by
  induction l generalizing i with
  | nil => cases h
  | cons b l ih =>
    cases i with
    | zero =>
      cases h
      rw [List.eraseIdx_cons_zero, List.flatMap_cons, List.count_append, Nat.add_comm]
    | succ i =>
      have hrest := ih h
      rw [List.eraseIdx_cons_succ, List.flatMap_cons, List.flatMap_cons, List.count_append, List.count_append]
      omega

end TouchHLE.Vec
