/-
Objects in the order in which they are made, each with the number of references to it, until it is freed. Nothing here
names the program being modelled.

- `make`, `put`, `retain`, `release`, `free`: the operations. `release` gives an object back whose last reference it was.
- `Kept`: objects that were not freed. `make_kept`, `put_kept`, `release_kept`: only `free` frees any.
-/
import Mathlib.Tactic

namespace TouchHLE

/-- objects with their reference counts; a freed one leaves its place empty -/
abbrev Arena (α : Type) := List (Option (ℕ × α))

namespace Arena

variable {α : Type}

/-- an object that was not freed -/
def entry (a : Arena α) (i : ℕ) : Option (ℕ × α) := a[i]?.join

def get (a : Arena α) (i : ℕ) : Option α := (a.entry i).map Prod.snd

/-- a new object has one reference -/
def make (a : Arena α) (x : α) : Arena α × ℕ := (a ++ [some (1, x)], a.length)

def put (a : Arena α) (i : ℕ) (x : α) : Option (Arena α) := (a.entry i).map fun e => a.set i (some (e.1, x))

/-- an object without references cannot get new ones -/
def retain (a : Arena α) (i : ℕ) : Option (Arena α) :=
  match a.entry i with
  | some (n + 1, x) => some (a.set i (some (n + 2, x)))
  | _ => none

/-- one reference less, and the object if that was the last one -/
def release (a : Arena α) (i : ℕ) : Option (Arena α × Option α) :=
  match a.entry i with
  | some (1, x) => some (a.set i (some (0, x)), some x)
  | some (n + 2, x) => some (a.set i (some (n + 1, x)), none)
  | _ => none

def free (a : Arena α) (i : ℕ) : Option (Arena α) := (a.entry i).map fun _ => a.set i none

variable {a b c : Arena α} {i : ℕ} {x : α}

/-- nothing was freed -/
structure Kept (a b : Arena α) : Prop where
  length : a.length ≤ b.length
  entry : ∀ i, (a.entry i).isSome → (b.entry i).isSome

theorem Kept.refl (a : Arena α) : Kept a a := ⟨le_rfl, fun _ h => h⟩

theorem Kept.trans (h : Kept a b) (h' : Kept b c) : Kept a c :=
  ⟨h.length.trans h'.length, fun i hi => h'.entry i (h.entry i hi)⟩

theorem lt_of_entry (h : (a.entry i).isSome) : i < a.length := by
  by_contra hge
  rw [Arena.entry, List.getElem?_eq_none (not_lt.1 hge)] at h
  cases h

theorem make_kept (a : Arena α) (x : α) : Kept a (a.make x).1 := by
  refine ⟨by simp [make], fun i hi => ?_⟩
  rw [make, Arena.entry, List.getElem?_append_left (lt_of_entry hi)]
  exact hi

theorem make_entry (a : Arena α) (x : α) : (a.make x).1.entry (a.make x).2 = some (1, x) := by
  simp [make, Arena.entry]

/-- an object is changed -/
theorem set_kept (a : Arena α) (i : ℕ) (e : ℕ × α) : Kept a (a.set i (some e)) := by
  refine ⟨by simp, fun j hj => ?_⟩
  by_cases hij : i = j
  · subst hij
    rw [Arena.entry, List.getElem?_set_self (lt_of_entry hj)]
    rfl
  · rw [Arena.entry, List.getElem?_set_ne hij]
    exact hj

theorem put_kept (h : a.put i x = some b) : Kept a b := by
  obtain ⟨e, -, rfl⟩ := Option.map_eq_some_iff.1 h
  exact set_kept a i _

theorem release_kept {dead : Option α} (h : a.release i = some (b, dead)) : Kept a b := by
  unfold release at h
  split at h
  · cases h
    exact set_kept a i _
  · cases h
    exact set_kept a i _
  · cases h

end Arena

end TouchHLE
