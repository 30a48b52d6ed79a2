/-
The mutable arrays (`ns_array.rs`): `_touchHLE_NSMutableArray`, whose arrays have a reference to each of their elements, and
`_touchHLE_NSMutableArray_non_retaining`, which inherits from it and is to have none.

- `MutableArray`, `NonRetaining`: the methods of the two classes. `ArrayClass.send`: a message to an array.
- `removeEach_before`: what stands before all of the indices that are removed stays where it is.
- `removeObject_iff`: when `removeObject:` removes what is equal to the object.
-/
import TouchHLE.Foundation.Dictionary

namespace TouchHLE.Arrays

open Machine

structure ArrayState where
  array : List ℕ
  /-- the references that the array has taken and given back -/
  refs : References
  deallocated : Bool

inductive ArrayClass where
  | mutableArray
  | nonRetaining

inductive ArrayMessage where
  | insertObject (object index : ℕ)
  | addObject (object : ℕ)
  | removeObject (object : ℕ)
  | removeObjectAtIndex (index : ℕ)
  | replaceObjectAtIndex (index obj : ℕ)
  | removeLastObject
  | removeAllObjects
  | dealloc

def ArrayState.count (s : ArrayState) : Except Panic ℕ := do
  assert (s.array.length < 2 ^ 32) .conversion
  pure s.array.length

/-! ## `_touchHLE_NSMutableArray` -/

namespace MutableArray

variable (s : ArrayState)

def insertObjectAtIndex (object index : ℕ) : Except Panic ArrayState := do
  let refs := s.refs.retain object
  assert (index ≤ s.array.length) .index
  pure { s with array := s.array.insertIdx index object, refs }

def addObject (object : ℕ) : Except Panic ArrayState :=
  pure { s with array := s.array ++ [object], refs := s.refs.retain object }

def removeObjectAtIndex (index : ℕ) : Except Panic ArrayState := do
  let object ← unwrap s.array[index]? .index
  pure { s with array := s.array.eraseIdx index, refs := s.refs.release object }

def replaceObjectAtIndex (index obj : ℕ) : Except Panic ArrayState := do
  let refs := s.refs.retain obj
  let object ← unwrap s.array[index]? .index
  pure { s with array := s.array.set index obj, refs := refs.release object }

def removeLastObject : Except Panic ArrayState := do
  let object ← unwrap s.array.getLast? .missing
  pure { s with array := s.array.dropLast, refs := s.refs.release object }

def removeAllObjects : Except Panic ArrayState :=
  pure { s with array := [], refs := s.array.foldl References.release s.refs }

def dealloc : Except Panic ArrayState :=
  pure { array := [], refs := s.array.foldl References.release s.refs, deallocated := true }

end MutableArray

/-! ## `_touchHLE_NSMutableArray_non_retaining` -/

namespace NonRetaining

variable (s : ArrayState)

def dealloc : Except Panic ArrayState := pure { s with array := [], deallocated := true }

def addObject (object : ℕ) : Except Panic ArrayState := pure { s with array := s.array ++ [object] }

def removeObjectAtIndex (index : ℕ) : Except Panic ArrayState := do
  assert (index < s.array.length) .index
  pure { s with array := s.array.eraseIdx index }

def removeLastObject : Except Panic ArrayState := do
  let _ ← unwrap s.array.getLast? .missing
  pure { s with array := s.array.dropLast }

end NonRetaining

/-! ## Messages -/

/-- `[object isEqual:curr_object]`, with the answer that objects give: a message to nil answers no -/
def answers (isEqual : ℕ → ℕ → Bool) (object currObject : ℕ) : Bool := object != nil && isEqual object currObject

namespace ArrayClass

variable (c : ArrayClass) (isEqual : ℕ → ℕ → Bool) (s : ArrayState)

def removeObjectAtIndex (index : ℕ) : Except Panic ArrayState :=
  match c with
  | .mutableArray => MutableArray.removeObjectAtIndex s index
  | .nonRetaining => NonRetaining.removeObjectAtIndex s index

/-- the indices are those of the array as it is before the first removal -/
def removeObject (object : ℕ) : Except Panic ArrayState := do
  let count ← s.count
  let toRemove := (s.array.take count).findIdxs (answers isEqual object)
  run c.removeObjectAtIndex s toRemove

/-- the method that the message calls -/
def method : ArrayMessage → Except Panic ArrayState
  | .insertObject object index => MutableArray.insertObjectAtIndex s object index
  | .addObject object =>
    match c with
    | .mutableArray => MutableArray.addObject s object
    | .nonRetaining => NonRetaining.addObject s object
  | .removeObject object => c.removeObject isEqual s object
  | .removeObjectAtIndex index => c.removeObjectAtIndex s index
  | .replaceObjectAtIndex index obj => MutableArray.replaceObjectAtIndex s index obj
  | .removeLastObject =>
    match c with
    | .mutableArray => MutableArray.removeLastObject s
    | .nonRetaining => NonRetaining.removeLastObject s
  | .removeAllObjects => MutableArray.removeAllObjects s
  | .dealloc =>
    match c with
    | .mutableArray => MutableArray.dealloc s
    | .nonRetaining => NonRetaining.dealloc s

def send (message : ArrayMessage) : Except Panic ArrayState := do
  assert (!s.deallocated) .deallocated
  c.method isEqual s message

end ArrayClass

/-! ## Removal of an object -/

/-- **What `removeObject:` is to do**: the elements that are equal to the object go, each is released once, and the
others keep their order. -/
def RemovesEqual (isEqual : ℕ → ℕ → Bool) (s : ArrayState) (object : ℕ) : Prop :=
  ArrayClass.mutableArray.removeObject isEqual s object = .ok { s with
    array := s.array.filter fun e => !answers isEqual object e
    refs := (s.array.filter (answers isEqual object)).foldl References.release s.refs }

section

variable {isEqual : ℕ → ℕ → Bool} {s s' : ArrayState} {object index : ℕ} {p : ℕ → Bool} {l : List ℕ}

theorem removeObjectAtIndex_ok : MutableArray.removeObjectAtIndex s index = .ok s' ↔ ∃ e, s.array[index]? = some e ∧
    s' = { s with array := s.array.eraseIdx index, refs := s.refs.release e } := by
  rw [MutableArray.removeObjectAtIndex, bind_eq_ok]
  constructor
  · rintro ⟨e, he, h⟩
    exact ⟨e, unwrap_eq_ok.1 he, (Except.ok.inj h).symm⟩
  · rintro ⟨e, he, rfl⟩
    exact ⟨e, unwrap_eq_ok.2 he, rfl⟩

/-- what stands before all of the indices that are removed stays where it is -/
theorem removeEach_before {indices : List ℕ} (hi : ∀ i ∈ indices, index < i)
    (h : run ArrayClass.mutableArray.removeObjectAtIndex s indices = .ok s') : s'.array[index]? = s.array[index]? := by
  refine run_inv_mem (P := fun t => t.array[index]? = s.array[index]?) (Q := fun i => index < i) ?_ rfl hi h
  intro t i t' hlt ht hstep
  obtain ⟨e, -, rfl⟩ := removeObjectAtIndex_ok.1 hstep
  rw [← ht]
  exact List.getElem?_eraseIdx_of_lt hlt

theorem removeObject_eq (hlen : s.array.length < 2 ^ 32) : ArrayClass.mutableArray.removeObject isEqual s object =
    run ArrayClass.mutableArray.removeObjectAtIndex s (s.array.findIdxs (answers isEqual object)) := by
  rw [ArrayClass.removeObject, ArrayState.count, assert_ok (decide_eq_true hlen)]
  simp only [ok_bind, pure_eq_ok, List.take_length]

theorem removeObject_length (h : ArrayClass.mutableArray.removeObject isEqual s object = .ok s') :
    s.array.length < 2 ^ 32 := by
  obtain ⟨count, hcount, -⟩ := bind_eq_ok.1 h
  obtain ⟨u, hu, -⟩ := bind_eq_ok.1 hcount
  exact of_decide_eq_true (assert_eq_ok.1 hu)

/-- the list without the only element that has a property -/
theorem filter_of_findIdxs {start : ℕ} (h : l.findIdxs p start = [start + index]) :
    l.filter (fun e => !p e) = l.eraseIdx index ∧ ∃ e, l[index]? = some e ∧ l.filter p = [e] := by
  induction l generalizing start index with
  | nil => cases h
  | cons x l ih =>
    rw [List.findIdxs_cons] at h
    by_cases hx : p x = true
    · rw [if_pos hx] at h
      obtain ⟨hstart, hrest⟩ := List.cons.inj h
      obtain rfl : index = 0 := by omega
      have hnone := List.findIdxs_eq_nil_iff.1 hrest
      refine ⟨?_, x, rfl, ?_⟩
      · rw [List.filter_cons_of_neg (by rw [hx]; decide), List.eraseIdx_cons_zero]
        refine List.filter_eq_self.2 fun e he => ?_
        rw [hnone e he]
        rfl
      · rw [List.filter_cons_of_pos hx, List.filter_eq_nil_iff.2 fun e he => by rw [hnone e he]; decide]
    · rw [if_neg hx] at h
      have hle : start + 1 ≤ start + index := List.ge_of_mem_findIdxs _ (by rw [h]; exact List.mem_singleton_self _)
      obtain ⟨k, rfl⟩ : ∃ k, index = k + 1 := ⟨index - 1, by omega⟩
      obtain ⟨hothers, e, he, hequal⟩ := @ih k (start + 1) (by rw [h, Nat.add_right_comm, Nat.add_assoc])
      refine ⟨?_, e, he, ?_⟩
      · rw [List.filter_cons_of_pos (by simpa using hx), hothers, List.eraseIdx_cons_succ]
      · rw [List.filter_cons_of_neg hx, hequal]

/-- of two equal elements or more, the second is still there -/
theorem second_left {i j : ℕ} {rest : List ℕ} (hidx : s.array.findIdxs (answers isEqual object) = i :: j :: rest)
    (h : run ArrayClass.mutableArray.removeObjectAtIndex s (i :: j :: rest) = .ok s') :
    ∃ e ∈ s'.array, answers isEqual object e = true := by
  have hsorted : (i :: j :: rest).Pairwise (· < ·) := by
    rw [← hidx]
    exact List.pairwise_findIdxs
  have hij : i < j := List.rel_of_pairwise_cons hsorted List.mem_cons_self
  obtain ⟨hj, he⟩ : ∃ hj : j < s.array.length, answers isEqual object s.array[j] = true :=
    List.mem_findIdxs_iff_exists_getElem_pos.1 (by rw [hidx]; exact List.mem_cons_of_mem _ List.mem_cons_self)
  obtain ⟨t, hfirst, hothers⟩ := run_cons_ok.1 h
  obtain ⟨e, -, rfl⟩ := removeObjectAtIndex_ok.1 hfirst
  -- it moved by one place, to before all of the indices that are left
  have hleft : ∀ k ∈ j :: rest, j - 1 < k := by
    intro k hk
    have hle : j ≤ k := by
      rcases List.mem_cons.1 hk with rfl | hk
      · exact le_rfl
      · exact (List.rel_of_pairwise_cons (List.pairwise_cons.1 hsorted).2 hk).le
    omega
  have hbefore := removeEach_before hleft hothers
  rw [List.getElem?_eraseIdx_of_ge (by omega), Nat.sub_add_cancel (by omega), List.getElem?_eq_getElem hj] at hbefore
  exact ⟨_, List.mem_of_getElem? hbefore, he⟩

/-- **Removal of an object** removes what is equal to it exactly if that is one element or none. -/
theorem removeObject_iff : RemovesEqual isEqual s object ↔
    s.array.length < 2 ^ 32 ∧ s.array.countP (answers isEqual object) ≤ 1 := by
  constructor
  · intro h
    have hlen := removeObject_length h
    refine ⟨hlen, not_lt.1 fun hcount => ?_⟩
    rw [RemovesEqual, removeObject_eq hlen] at h
    rw [← List.length_findIdxs (s := 0)] at hcount
    rcases hidx : s.array.findIdxs (answers isEqual object) with _ | ⟨i, _ | ⟨j, rest⟩⟩
    · rw [hidx] at hcount
      cases hcount
    · rw [hidx] at hcount
      exact absurd hcount (lt_irrefl 1)
    · rw [hidx] at h
      obtain ⟨e, hmem, he⟩ := second_left hidx h
      have hnot := (List.mem_filter.1 hmem).2
      rw [he] at hnot
      cases hnot
  · rintro ⟨hlen, hcount⟩
    rw [RemovesEqual, removeObject_eq hlen]
    rw [← List.length_findIdxs (s := 0)] at hcount
    rcases hidx : s.array.findIdxs (answers isEqual object) with _ | ⟨i, _ | ⟨j, rest⟩⟩
    · have hnone := List.findIdxs_eq_nil_iff.1 hidx
      have hall : s.array.filter (fun e => !answers isEqual object e) = s.array :=
        List.filter_eq_self.2 fun e he => by rw [hnone e he]; rfl
      have hequal : s.array.filter (answers isEqual object) = [] :=
        List.filter_eq_nil_iff.2 fun e he => by rw [hnone e he]; decide
      rw [hall, hequal]
      rfl
    · have hidx' : s.array.findIdxs (answers isEqual object) 0 = [0 + i] := by rw [hidx, Nat.zero_add]
      obtain ⟨hothers, e, he, hequal⟩ := filter_of_findIdxs hidx'
      rw [hothers, hequal]
      exact run_cons_ok.2 ⟨_, removeObjectAtIndex_ok.2 ⟨e, he, rfl⟩, rfl⟩
    · rw [hidx] at hcount
      exact absurd hcount (by simp)

end

/-- an array with an object twice and another one, with the references that it has to them -/
def twice : ArrayState := ⟨[5, 5, 7], ⟨0, [5, 5, 7], []⟩, false⟩

/-- the second of the two stays and the other object goes -/
theorem twice_removed : ¬RemovesEqual (· == ·) twice 5 ∧
    (ArrayClass.mutableArray.removeObject (· == ·) twice 5).toOption.map ArrayState.array = some [5] := by
  refine ⟨fun h => ?_, by decide⟩
  have harray := congrArg (fun x => x.toOption.map ArrayState.array) h
  revert harray
  decide

end TouchHLE.Arrays
