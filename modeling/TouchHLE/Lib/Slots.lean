/-
A table of numbered slots in a growable vector. A slot is free if it is empty or past the end of the vector; an
insertion takes the first free slot. Nothing here names the program being modelled.

- `get`: what a slot holds. `insert`: taking the first free slot. `clear`: emptying a slot.
- `insert_least`: the slot that an insertion takes is the least free one.
- `get_insert`, `get_set`, `get_clear`: no other slot changes.
-/
import Mathlib.Tactic

namespace TouchHLE.Slots

variable {α : Type*} {t : List (Option α)} {x : α} {i j : ℕ}

def get (t : List (Option α)) (i : ℕ) : Option α := (t[i]?).join

/-- the first free slot -/
def firstFree (t : List (Option α)) : ℕ := t.findIdx Option.isNone

def insert (t : List (Option α)) (x : α) : List (Option α) :=
  if firstFree t < t.length then t.set (firstFree t) (some x) else t ++ [some x]

def clear (t : List (Option α)) (i : ℕ) : List (Option α) := t.set i none

theorem get_of_lt (h : i < t.length) : get t i = t[i] := by
  rw [get, List.getElem?_eq_getElem h, Option.join_some]

theorem get_of_ge (h : t.length ≤ i) : get t i = none := by
  rw [get, List.getElem?_eq_none h, Option.join_none]

theorem get_firstFree (t : List (Option α)) : get t (firstFree t) = none := by
  by_cases h : firstFree t < t.length
  · rw [get_of_lt h]
    exact Option.isNone_iff_eq_none.1 (List.findIdx_getElem (w := h))
  · exact get_of_ge (Nat.le_of_not_lt h)

theorem get_ne_none (h : i < firstFree t) : get t i ≠ none := by
  have hi : i < t.length := h.trans_le List.findIdx_le_length
  rw [get_of_lt hi]
  intro hn
  have hsome : t[i].isNone = false := List.not_of_lt_findIdx h
  rw [hn, Option.isNone_none] at hsome
  exact absurd hsome (by decide)

/-- The slot that an insertion takes is the least free one. -/
theorem insert_least (t : List (Option α)) : IsLeast {i | get t i = none} (firstFree t) := by
  refine ⟨get_firstFree t, fun i hi => ?_⟩
  by_contra h
  exact get_ne_none (Nat.lt_of_not_le h) hi

theorem get_insert : get (insert t x) j = if j = firstFree t then some x else get t j := by
  unfold insert
  split_ifs with h hj hj
  · subst hj
    rw [get, List.getElem?_set_self h, Option.join_some]
  · rw [get, List.getElem?_set_ne (Ne.symm hj), get]
  · have hlen : firstFree t = t.length := le_antisymm List.findIdx_le_length (Nat.le_of_not_lt h)
    rw [hj, hlen, get, List.getElem?_concat_length, Option.join_some]
  · have hlen : firstFree t = t.length := le_antisymm List.findIdx_le_length (Nat.le_of_not_lt h)
    rcases Nat.lt_or_ge j t.length with hlt | hge
    · rw [get, List.getElem?_append_left hlt, get]
    · rw [get_of_ge hge, get_of_ge]
      rw [List.length_append, List.length_singleton]
      omega

/-- a slot that is not free holds something else now -/
theorem get_set (h : i < t.length) : get (t.set i (some x)) j = if j = i then some x else get t j := by
  split_ifs with hj
  · subst hj
    rw [get, List.getElem?_set_self h, Option.join_some]
  · rw [get, List.getElem?_set_ne (Ne.symm hj), get]

theorem get_clear : get (clear t i) j = if j = i then none else get t j := by
  unfold clear
  split_ifs with h
  · subst h
    rcases Nat.lt_or_ge j t.length with hlt | hge
    · rw [get, List.getElem?_set_self hlt, Option.join_some]
    · rw [get_of_ge (by rw [List.length_set]; exact hge)]
  · rw [get, List.getElem?_set_ne (Ne.symm h), get]

end TouchHLE.Slots
