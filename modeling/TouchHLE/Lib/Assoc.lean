/-
Association lists as hash maps: a list of entries with different keys, in an order that nothing depends on.

- `insert`, `erase`, `mapValues`: an entry is added or replaced, removed, and all values are changed.
- `lookup_insert_of_ne`, `lookup_erase_of_ne`, `lookup_mapValues`: what is found afterwards.
- `keys_erase`, `nodup_insert`: the keys stay different.
- `count_flatMap_insert`: how often something is in the values, if they are lists or have lists.
-/
import Mathlib.Tactic

namespace TouchHLE.Assoc

variable {κ υ : Type} [DecidableEq κ]

def insert (k : κ) (v : υ) (l : List (κ × υ)) : List (κ × υ) := (k, v) :: l.filter fun e => e.1 ≠ k

def erase (k : κ) (l : List (κ × υ)) : List (κ × υ) := l.filter fun e => e.1 ≠ k

def mapValues (f : υ → υ) (l : List (κ × υ)) : List (κ × υ) := l.map fun e => (e.1, f e.2)

variable {_ : BEq κ} [LawfulBEq κ] {k k' : κ} {v : υ} {l : List (κ × υ)} {f : υ → υ} {e : κ × υ}

@[simp] theorem lookup_erase_self : (erase k l).lookup k = none := by
  rw [List.lookup_eq_none_iff]
  intro e he
  have hne := of_decide_eq_true (List.mem_filter.1 he).2
  simpa using Ne.symm hne

theorem lookup_erase_of_ne (h : k' ≠ k) : (erase k l).lookup k' = l.lookup k' := by
  induction l with
  | nil => rfl
  | cons e l ih =>
    unfold erase at ih ⊢
    by_cases he : e.1 = k
    · have hk' : (k' == e.1) = false := by simpa [he] using h
      rw [List.filter_cons_of_neg (by simpa using he), ih, List.lookup_cons, hk']
    · rw [List.filter_cons_of_pos (by simpa using he), List.lookup_cons, List.lookup_cons, ih]

@[simp] theorem lookup_insert_self : (insert k v l).lookup k = some v := by
  rw [insert, List.lookup_cons_self]

theorem lookup_insert_of_ne (h : k' ≠ k) : (insert k v l).lookup k' = l.lookup k' := by
  have hk' : (k' == k) = false := by simpa using h
  rw [insert, List.lookup_cons, hk']
  exact lookup_erase_of_ne h

theorem lookup_mapValues : (mapValues f l).lookup k = (l.lookup k).map f := by
  induction l with
  | nil => rfl
  | cons e l ih =>
    rw [mapValues, List.map_cons, List.lookup_cons, List.lookup_cons]
    cases k == e.1
    · exact ih
    · rfl

theorem mem_insert (h : e ∈ insert k v l) : e = (k, v) ∨ e ∈ l := by
  rcases List.mem_cons.1 h with h | h
  · exact .inl h
  · exact .inr (List.mem_filter.1 h).1

theorem mem_of_lookup (h : l.lookup k = some v) : (k, v) ∈ l := by
  obtain ⟨l₁, l₂, rfl, -⟩ := List.lookup_eq_some_iff.1 h
  simp

theorem lookup_of_mem (hn : (l.map Prod.fst).Nodup) (he : e ∈ l) : l.lookup e.1 = some e.2 := by
  obtain ⟨l₁, l₂, rfl⟩ := List.append_of_mem he
  rw [List.map_append, List.nodup_append] at hn
  refine List.lookup_eq_some_iff.2 ⟨l₁, l₂, rfl, fun p hp => ?_⟩
  simpa using Ne.symm (hn.2.2 p.1 (List.mem_map_of_mem hp) e.1 (by simp))

/-- an entry and the others -/
theorem perm_of_lookup (hn : (l.map Prod.fst).Nodup) (h : l.lookup k = some v) : l.Perm ((k, v) :: erase k l) := by
  obtain ⟨l₁, l₂, rfl, -⟩ := List.lookup_eq_some_iff.1 h
  rw [List.map_append, List.map_cons, List.nodup_append, List.nodup_cons] at hn
  have hother {m : List (κ × υ)} (hm : k ∉ m.map Prod.fst) : erase k m = m := by
    refine List.filter_eq_self.2 fun e he => decide_eq_true ?_
    rintro rfl
    exact hm (List.mem_map_of_mem he)
  have hself : erase k (l₁ ++ (k, v) :: l₂) = erase k l₁ ++ erase k l₂ := by simp [erase]
  rw [hself, hother fun hk => hn.2.2 k hk k List.mem_cons_self rfl, hother hn.2.1.1]
  exact List.perm_middle

theorem erase_of_lookup (h : l.lookup k = none) : erase k l = l := by
  refine List.filter_eq_self.2 fun e he => decide_eq_true ?_
  rintro rfl
  have hne := List.lookup_eq_none_iff.1 h e he
  simp at hne

theorem keys_erase : (erase k l).map Prod.fst = (l.map Prod.fst).filter fun k' => k' ≠ k := by
  rw [erase, List.filter_map]
  rfl

theorem nodup_insert (hn : (l.map Prod.fst).Nodup) : ((insert k v l).map Prod.fst).Nodup := by
  have hkeys : (insert k v l).map Prod.fst = k :: (erase k l).map Prod.fst := rfl
  rw [hkeys, keys_erase, List.nodup_cons]
  exact ⟨by simp, hn.filter _⟩

section

variable {α : Type} [DecidableEq α]

/-- what the values have is what one of them has, and what is left without it -/
theorem count_flatMap_erase (hn : (l.map Prod.fst).Nodup) (f : υ → List α) (a : α) :
    ((erase k l).flatMap fun e => f e.2).count a + ((l.lookup k).elim [] f).count a = (l.flatMap fun e => f e.2).count a := by
  cases hk : l.lookup k with
  | none => rw [erase_of_lookup hk, Option.elim_none, List.count_nil, Nat.add_zero]
  | some w =>
    rw [((perm_of_lookup hn hk).flatMap_right _).count_eq, List.flatMap_cons, List.count_append, Option.elim_some, Nat.add_comm]

theorem count_flatMap_insert (hn : (l.map Prod.fst).Nodup) (f : υ → List α) (a : α) :
    ((insert k v l).flatMap fun e => f e.2).count a + ((l.lookup k).elim [] f).count a =
      (l.flatMap fun e => f e.2).count a + (f v).count a := by
  have hinsert : insert k v l = (k, v) :: erase k l := rfl
  rw [hinsert, List.flatMap_cons, List.count_append, Nat.add_assoc, count_flatMap_erase hn, Nat.add_comm]

end

end TouchHLE.Assoc
