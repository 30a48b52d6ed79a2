/-
Chains of parents in a forest. A place is a vertex, or `none`, which is above all roots. Nothing here names the program being
modelled.

- `Climb`: the vertices that are left behind on the way from a place up to another.
- `Climb.comparable`: two places above one are above each other. `Climb.unique`: there is only one way up.
- `meet_unique`: with labels in a monoid, two ways to one place from below and on to the next differ by the same factor.
-/
import Mathlib.Tactic

namespace TouchHLE

variable {V M : Type}

/-- the way from a place up to another -/
inductive Climb (up : V → Option V) : Option V → List V → Option V → Prop where
  | here (p : Option V) : Climb up p [] p
  | step {v : V} {l : List V} {p : Option V} : Climb up (up v) l p → Climb up (some v) (v :: l) p

namespace Climb

variable {up : V → Option V} {p q r : Option V} {l l' k : List V} {v : V}

theorem trans (h : Climb up p l q) (h' : Climb up q l' r) : Climb up p (l ++ l') r := by
  induction h with
  | here p => exact h'
  | step _ ih => exact .step (ih h')

/-- one more step at the end -/
theorem snoc (h : Climb up p l (some v)) : Climb up p (l ++ [v]) (up v) := h.trans (.step (.here _))

/-- there is nothing above `none` -/
theorem of_none (h : Climb up none l p) : l = [] ∧ p = none := by
  cases h
  exact ⟨rfl, rfl⟩

/-- **Two places above one** are above each other. -/
theorem comparable (h : Climb up p l q) (h' : Climb up p l' r) :
    (∃ k, l' = l ++ k ∧ Climb up q k r) ∨ ∃ k, l = l' ++ k ∧ Climb up r k q := by
  induction h generalizing l' with
  | here p => exact .inl ⟨l', rfl, h'⟩
  | step hrest ih =>
    cases h' with
    | here _ => exact .inr ⟨_, rfl, .step hrest⟩
    | step hrest' =>
      rcases ih hrest' with ⟨k, rfl, hk⟩ | ⟨k, rfl, hk⟩
      · exact .inl ⟨k, rfl, hk⟩
      · exact .inr ⟨k, rfl, hk⟩

/-- the way to the top is the longest one -/
theorem prefix_top (h : Climb up p l none) (h' : Climb up p l' q) : ∃ k, l = l' ++ k ∧ Climb up q k none := by
  rcases h.comparable h' with ⟨k, rfl, hk⟩ | hk
  · obtain ⟨rfl, rfl⟩ := hk.of_none
    exact ⟨[], by simp, .here _⟩
  · exact hk

theorem unique_top (h : Climb up p l none) (h' : Climb up p l' none) : l = l' := by
  obtain ⟨k, rfl, hk⟩ := h.prefix_top h'
  rw [hk.of_none.1, List.append_nil]

/-- **The way up** is unique if it ends somewhere. -/
theorem unique {top : List V} (htop : Climb up p top none) (h : Climb up p l q) (h' : Climb up p l' q) : l = l' := by
  obtain ⟨k, rfl, hk⟩ := htop.prefix_top h
  have hsame := htop.unique_top (h'.trans hk)
  exact List.append_cancel_right hsame

end Climb

/-! ## Labels -/

section

variable [Monoid M] {up : V → Option V} {label : V → M} {p q a b : Option V} {g h g' h' l : List V} {r : M}

/-- the product of the labels on a way -/
def along (label : V → M) (l : List V) : M := (l.map label).prod

@[simp] theorem along_nil : along label [] = 1 := rfl

theorem along_append (l l' : List V) : along label (l ++ l') = along label l * along label l' := by
  rw [along, List.map_append, List.prod_append]
  rfl

theorem along_snoc (l : List V) (v : V) : along label (l ++ [v]) = along label l * label v := by
  rw [along_append, along, along, List.map_singleton, List.prod_singleton]

theorem along_isUnit (hu : ∀ v, IsUnit (label v)) (l : List V) : IsUnit (along label l) := by
  induction l with
  | nil => exact isUnit_one
  | cons v l ih =>
    rw [along, List.map_cons, List.prod_cons]
    exact (hu v).mul ih

/-- **Any place above both** gives the same factor between them: what makes up for the difference between the ways to one
place makes up for that between the ways to another. -/
theorem meet_unique (hu : ∀ v, IsUnit (label v)) {top : List V} (htop : Climb up q top none) (hg : Climb up p g a) (hh : Climb up q h a) (hg' : Climb up p g' b) (hh' : Climb up q h' b)
    (hr : r * along label g = along label h) : r * along label g' = along label h' := by
  rcases hg.comparable hg' with ⟨k, rfl, hk⟩ | ⟨k, rfl, hk⟩
  · obtain rfl := htop.unique hh' (hh.trans hk)
    rw [along_append, along_append, ← mul_assoc, hr]
  · obtain rfl := htop.unique hh (hh'.trans hk)
    rw [along_append, along_append, ← mul_assoc] at hr
    exact (along_isUnit hu k).mul_right_cancel hr

end

end TouchHLE
