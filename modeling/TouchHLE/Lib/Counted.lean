/-
Objects with reference counts, and the references that are counted. Nothing here names the program being modelled.

- `retain`, `release`: they fail for an object that is not there any more.
- `retain_count`, `release_count`: what they do to the counts.
- `Balanced`: the counts are the numbers of references in a list. `Balanced.retain`, `Balanced.release`, `Balanced.create`: how this
  is kept.
-/
import Mathlib.Tactic

namespace TouchHLE.Counted

/-- the number of references to each object; an object without any was deallocated, or is not there yet -/
abbrev Counts := ℕ → ℕ

/-- one more reference; a nil reference is not counted -/
def retain (refs : Counts) : Option ℕ → Option Counts
  | none => some refs
  | some o => if refs o = 0 then none else some (Function.update refs o (refs o + 1))

def release (refs : Counts) : Option ℕ → Option Counts
  | none => some refs
  | some o => if refs o = 0 then none else some (Function.update refs o (refs o - 1))

/-- a new object has one reference -/
def create (refs : Counts) (o : ℕ) : Counts := Function.update refs o 1

/-- the object of a reference was deallocated -/
def gone (refs : Counts) : Option ℕ → Bool
  | none => false
  | some o => refs o == 0

/-- **The counts** are the numbers of references. -/
def Balanced (refs : Counts) (held : List (Option ℕ)) : Prop := ∀ o, refs o = held.count (some o)

variable {refs refs' : Counts} {held held' : List (Option ℕ)} {o : ℕ} {r : Option ℕ}

theorem Balanced.perm (h : Balanced refs held) (hp : held.Perm held') : Balanced refs held' :=
  fun o => (h o).trans (hp.count_eq _)

/-- an object is there as long as there is a reference to it -/
theorem Balanced.pos_iff (h : Balanced refs held) : 0 < refs o ↔ some o ∈ held := by
  rw [h o, List.count_pos_iff]

theorem gone_eq_false : gone refs r = false ↔ ∀ o, r = some o → 0 < refs o := by
  cases r with
  | none => exact iff_of_true rfl fun o ho => absurd ho (Option.some_ne_none o).symm
  | some o => simp only [gone, beq_eq_false_iff_ne, Option.some.injEq, forall_eq', Nat.pos_iff_ne_zero]

theorem retain_none_iff : retain refs r = none ↔ gone refs r = true := by
  cases r with
  | none => exact iff_of_false nofun nofun
  | some o =>
    rw [retain, gone, beq_iff_eq]
    split_ifs with h
    · exact iff_of_true rfl h
    · exact iff_of_false nofun h

theorem retain_count (hr : retain refs r = some refs') (o : ℕ) : refs' o = refs o + r.toList.count o := by
  cases r with
  | none =>
    cases hr
    rfl
  | some o' =>
    rw [retain] at hr
    split_ifs at hr
    cases hr
    by_cases hoo : o = o'
    · rw [hoo, Function.update_self, Option.toList_some, List.count_singleton_self]
    · rw [Function.update_of_ne hoo, Option.toList_some, List.count_singleton, if_neg (by simpa using Ne.symm hoo), Nat.add_zero]

theorem release_count (hr : release refs r = some refs') (o : ℕ) : refs' o + r.toList.count o = refs o := by
  cases r with
  | none =>
    cases hr
    rfl
  | some o' =>
    rw [release] at hr
    split_ifs at hr with hne
    cases hr
    by_cases hoo : o = o'
    · rw [hoo, Function.update_self, Option.toList_some, List.count_singleton_self]
      exact Nat.sub_add_cancel (Nat.pos_of_ne_zero hne)
    · rw [Function.update_of_ne hoo, Option.toList_some, List.count_singleton, if_neg (by simpa using Ne.symm hoo), Nat.add_zero]

theorem retain_alive {o : ℕ} (hr : retain refs (some o) = some refs') : refs o ≠ 0 := by
  rw [retain] at hr
  split_ifs at hr with hne
  exact hne

theorem Balanced.retain (h : Balanced refs held) (hr : retain refs r = some refs') : Balanced refs' (r :: held) := by
  intro o'
  cases r with
  | none =>
    cases hr
    rw [h o', List.count_cons_of_ne (Option.some_ne_none o').symm]
  | some o =>
    rw [Counted.retain] at hr
    split_ifs at hr
    cases hr
    by_cases ho : o' = o
    · rw [ho, Function.update_self, List.count_cons_self, h o]
    · rw [Function.update_of_ne ho, h o', List.count_cons_of_ne fun heq => ho (Option.some.inj heq).symm]

/-- a reference that there is can be given back -/
theorem Balanced.release (h : Balanced refs (r :: held)) : ∃ refs', release refs r = some refs' ∧ Balanced refs' held := by
  cases r with
  | none =>
    refine ⟨refs, rfl, fun o' => ?_⟩
    rw [h o', List.count_cons_of_ne (Option.some_ne_none o').symm]
  | some o =>
    have ho := h o
    rw [List.count_cons_self] at ho
    refine ⟨_, if_neg (by rw [ho]; exact Nat.succ_ne_zero _), fun o' => ?_⟩
    by_cases hoo : o' = o
    · rw [hoo, Function.update_self, ho, Nat.add_sub_cancel]
    · rw [Function.update_of_ne hoo, h o', List.count_cons_of_ne fun heq => hoo (Option.some.inj heq).symm]

theorem Balanced.create (h : Balanced refs held) (ho : some o ∉ held) : Balanced (create refs o) (some o :: held) := by
  intro o'
  by_cases hoo : o' = o
  · rw [hoo, Counted.create, Function.update_self, List.count_cons_self, List.count_eq_zero.2 ho]
  · rw [Counted.create, Function.update_of_ne hoo, h o', List.count_cons_of_ne fun heq => hoo (Option.some.inj heq).symm]

/-- what was deallocated stays so when references are given back -/
theorem release_zero (hr : release refs r = some refs') (ho : refs o = 0) : refs' o = 0 := by
  cases r with
  | none => rwa [← Option.some.inj hr]
  | some o' =>
    rw [release] at hr
    split_ifs at hr with hne
    cases hr
    by_cases hoo : o = o'
    · exact absurd (hoo ▸ ho) hne
    · rwa [Function.update_of_ne hoo]

/-- also when references are taken -/
theorem retain_zero (hr : retain refs r = some refs') (ho : refs o = 0) : refs' o = 0 := by
  cases r with
  | none => rwa [← Option.some.inj hr]
  | some o' =>
    rw [retain] at hr
    split_ifs at hr with hne
    cases hr
    by_cases hoo : o = o'
    · exact absurd (hoo ▸ ho) hne
    · rwa [Function.update_of_ne hoo]

/-- an object is only deallocated when its last reference is given back -/
theorem release_pos (hr : release refs r = some refs') (ho : 0 < refs o) : 0 < refs' o ∨ r = some o ∧ refs o = 1 := by
  cases r with
  | none =>
    rw [← Option.some.inj hr]
    exact .inl ho
  | some o' =>
    rw [release] at hr
    split_ifs at hr with hne
    cases hr
    by_cases hoo : o = o'
    · rw [hoo, Function.update_self]
      rcases Nat.lt_or_ge 1 (refs o') with hlt | hge
      · exact .inl (Nat.sub_pos_of_lt hlt)
      · exact .inr ⟨rfl, le_antisymm hge (Nat.pos_of_ne_zero hne)⟩
    · rw [Function.update_of_ne hoo]
      exact .inl ho

theorem retain_pos (hr : retain refs r = some refs') (ho : 0 < refs o) : 0 < refs' o := by
  cases r with
  | none => rwa [← Option.some.inj hr]
  | some o' =>
    rw [retain] at hr
    split_ifs at hr
    cases hr
    by_cases hoo : o = o'
    · rw [hoo, Function.update_self]
      exact Nat.succ_pos _
    · rwa [Function.update_of_ne hoo]

end TouchHLE.Counted
