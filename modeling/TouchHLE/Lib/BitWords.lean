/-
Bits that are spread over an array of words. Nothing here names the program being modelled.

- `bitAt`: a bit, counted from the low end of the first word on. `assign`: a bit of a word that is given a value.
- `bitAt_middle`, `bitAt_assign`: the bits of one word in the array.
-/
import Mathlib.Tactic

namespace TouchHLE.BitWords

variable {w : ℕ}

def bitAt (words : List (BitVec w)) (i : ℕ) : Bool := words[i / w]?.any fun word => word.getLsbD (i % w)

/-- a bit of a word is cleared, and set back if it is to be set -/
def assign (word : BitVec w) (j : ℕ) (b : Bool) : BitVec w :=
  if b then word &&& ~~~(1#w <<< j) ||| 1#w <<< j else word &&& ~~~(1#w <<< j)

variable {before after words : List (BitVec w)} {word : BitVec w} {i j k : ℕ} {b : Bool}

theorem bitAt_of_ge (h : words.length * w ≤ i) : bitAt words i = false := by
  rcases Nat.eq_zero_or_pos w with rfl | hw
  · unfold bitAt
    cases words[i / 0]? with
    | none => rfl
    | some word => exact BitVec.getLsbD_of_ge _ _ (Nat.zero_le _)
  · have hge : words.length ≤ i / w := (Nat.le_div_iff_mul_le hw).2 h
    rw [bitAt, List.getElem?_eq_none hge]
    rfl

theorem bitAt_middle (hj : j < w) : bitAt (before ++ word :: after) (before.length * w + j) = word.getLsbD j := by
  have hdiv : (before.length * w + j) / w = before.length := by
    rw [Nat.add_comm, Nat.add_mul_div_right _ _ (by omega), Nat.div_eq_of_lt hj, Nat.zero_add]
  have hmod : (before.length * w + j) % w = j := by
    rw [Nat.add_comm, Nat.add_mul_mod_self_right, Nat.mod_eq_of_lt hj]
  rw [bitAt, hdiv, hmod, List.getElem?_append_right (le_refl _), Nat.sub_self, List.getElem?_cons_zero]
  rfl

theorem getLsbD_assign (hj : j < w) : (assign word j b).getLsbD k = if k = j then b else word.getLsbD k := by
  have hone : (1#w <<< j).getLsbD k = decide (k = j) := by
    by_cases hk : k < w
    · rw [BitVec.getLsbD_shiftLeft, BitVec.getLsbD_one]
      grind
    · rw [BitVec.getLsbD_of_ge _ _ (Nat.le_of_not_lt hk), eq_comm, decide_eq_false_iff_not]
      omega
  have hclear : (word &&& ~~~(1#w <<< j)).getLsbD k = if k = j then false else word.getLsbD k := by
    by_cases hk : k < w
    · rw [BitVec.getLsbD_and, BitVec.getLsbD_not, hone]
      split_ifs with hkj <;> simp [hk, hkj]
    · rw [BitVec.getLsbD_of_ge _ _ (Nat.le_of_not_lt hk), BitVec.getLsbD_of_ge _ _ (Nat.le_of_not_lt hk), ite_self]
  unfold assign
  cases b with
  | false => exact hclear
  | true =>
    rw [if_pos rfl, BitVec.getLsbD_or, hclear, hone]
    split_ifs with hkj <;> simp [hkj]

/-- **A bit of one word** is given a value, and no other bit of the array changes. -/
theorem bitAt_assign (hj : j < w) : bitAt (before ++ assign word j b :: after) i =
    if i = before.length * w + j then b else bitAt (before ++ word :: after) i := by
  unfold bitAt
  rcases lt_trichotomy (i / w) before.length with hlt | heq | hgt
  · have hne : i ≠ before.length * w + j := by
      rintro rfl
      have hle : before.length ≤ (before.length * w + j) / w := (Nat.le_div_iff_mul_le (by omega)).2 (Nat.le_add_right _ _)
      omega
    rw [if_neg hne, List.getElem?_append_left hlt, List.getElem?_append_left hlt]
  · have hi : i = before.length * w + i % w := by
      rw [← heq, Nat.mul_comm]
      exact (Nat.div_add_mod i w).symm
    have hiff : i % w = j ↔ i = before.length * w + j := by omega
    rw [heq, List.getElem?_append_right (le_refl _), List.getElem?_append_right (le_refl _), Nat.sub_self,
      List.getElem?_cons_zero, List.getElem?_cons_zero, Option.any_some, Option.any_some, getLsbD_assign hj]
    simp only [hiff]
  · have hne : i ≠ before.length * w + j := by
      rintro rfl
      have hdiv : (before.length * w + j) / w = before.length := by
        rw [Nat.add_comm, Nat.add_mul_div_right _ _ (by omega), Nat.div_eq_of_lt hj, Nat.zero_add]
      omega
    rw [if_neg hne, List.getElem?_append_right hgt.le, List.getElem?_append_right hgt.le]
    obtain ⟨k, hk⟩ := Nat.exists_eq_add_of_lt hgt
    have hsub : i / w - before.length = k + 1 := by omega
    rw [hsub, List.getElem?_cons_succ, List.getElem?_cons_succ]

end TouchHLE.BitWords
