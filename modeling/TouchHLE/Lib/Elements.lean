/-
Arrays in a byte memory: elements of a type that takes up a fixed number of bytes, one behind the other. Nothing here
names the program being modelled.

- `Element`: the type with its bytes. `get`: one element. `fill`: elements that are stored.
- `fill_cons`: one element and then the others. `fill_outside`, `get_fill_outside`: what is not there stays.
- `get_fill`: what was stored is there.
-/
import TouchHLE.Lib.Words

namespace TouchHLE.Elements

open Words

/-- a type whose values all take up `size` bytes -/
class Element (T : Type) where
  size : ℕ
  encode : T → List UInt8
  decode : List UInt8 → T
  size_pos : 0 < size
  length_encode : ∀ c, (encode c).length = size
  decode_encode : ∀ c, decode (encode c) = c

open Element (size)

variable (T : Type) [Element T]

/-- the element at an address -/
def get (m : Bytes) (ptr : ℕ) : T := Element.decode (load m ptr (size T))

variable {T}

/-- elements stored from an address on -/
def fill (m : Bytes) (ptr : ℕ) (cs : List T) : Bytes := store m ptr (cs.flatMap Element.encode)

variable {m : Bytes} {ptr a i x : ℕ} {c : T} {cs : List T}

theorem length_encoded (cs : List T) : (cs.flatMap Element.encode).length = cs.length * size T := by
  induction cs with
  | nil => exact (Nat.zero_mul _).symm
  | cons c cs ih => rw [List.flatMap_cons, List.length_append, Element.length_encode, ih, List.length_cons,
      Nat.succ_mul, Nat.add_comm]

theorem fill_outside (h : x < ptr ∨ ptr + cs.length * size T ≤ x) : fill m ptr cs x = m x :=
  store_outside (by rwa [length_encoded])

theorem fill_nil : fill m ptr ([] : List T) = m := by
  funext x
  refine fill_outside ?_
  rw [List.length_nil]
  omega

theorem fill_singleton : fill m ptr [c] = store m ptr (Element.encode c) := by
  rw [fill, List.flatMap_cons, List.flatMap_nil, List.append_nil]

/-- one element and then the others -/
theorem fill_cons : fill (fill m ptr [c]) (ptr + size T) cs = fill m ptr (c :: cs) := by
  rw [fill_singleton, fill, fill, ← Element.length_encode c, store_append, List.flatMap_cons]

theorem get_fill_outside (h : a + size T ≤ ptr ∨ ptr + cs.length * size T ≤ a) : get T (fill m ptr cs) a = get T m a := by
  have hload : load (fill m ptr cs) a (size T) = load m a (size T) := load_store_of_disjoint (by rwa [length_encoded])
  rw [get, get, hload]

theorem get_fill_singleton : get T (fill m ptr [c]) ptr = c := by
  rw [fill_singleton, get, ← Element.length_encode c, load_store, Element.decode_encode]

/-- what was stored is there -/
theorem get_fill (h : i < cs.length) : get T (fill m ptr cs) (ptr + i * size T) = cs[i] := by
  induction cs generalizing m ptr i with
  | nil => exact absurd h (Nat.not_lt_zero i)
  | cons c cs ih =>
    rw [← fill_cons]
    cases i with
    | zero =>
      rw [Nat.zero_mul, Nat.add_zero, get_fill_outside (.inl le_rfl), get_fill_singleton]
      rfl
    | succ i =>
      have haddr : ptr + (i + 1) * size T = ptr + size T + i * size T := by rw [Nat.succ_mul]; omega
      rw [haddr, ih (Nat.lt_of_succ_lt_succ h)]
      rfl

end TouchHLE.Elements
