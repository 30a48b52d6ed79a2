/-
A byte memory and the little-endian words in it. The memory is a function from addresses; ranges of it are loaded and
stored as lists of bytes.

- `store`, `load`: a list of bytes at an address. `load_store`: what was stored is loaded again. `store_outside`: bytes
  outside the stored range stay. `store_append`, `load_add`: ranges next to each other. `store_load`: a range that is
  copied. `load_congr`: a load only depends on its range.
- `leBytes`, `leWord`: the four bytes of a 32-bit word, and back (`leWord_leBytes`).
- `storeWord`, `loadWord`: a word in memory (`loadWord_storeWord`).
- `leNat`, `leDigits`: the same for numbers of any size (`leNat_leDigits`).
-/
import Mathlib.Tactic

namespace TouchHLE.Words

abbrev Bytes := ℕ → UInt8

def load (m : Bytes) (a n : ℕ) : List UInt8 := (List.range n).map fun i => m (a + i)

def store (m : Bytes) (a : ℕ) (l : List UInt8) : Bytes := fun x => if a ≤ x then l.getD (x - a) (m x) else m x

variable {m m' : Bytes} {a b n x : ℕ} {l : List UInt8} {w : UInt32} {size v : ℕ}

@[simp] theorem load_length : (load m a n).length = n := by simp [load]

theorem store_outside (h : x < a ∨ a + l.length ≤ x) : store m a l x = m x := by
  unfold store
  split_ifs with hx
  · rw [List.getD_eq_getElem?_getD, List.getElem?_eq_none (by omega), Option.getD_none]
  · rfl

theorem store_inside {i : ℕ} (h : i < l.length) : store m a l (a + i) = l[i] := by
  unfold store
  rw [if_pos (Nat.le_add_right a i), Nat.add_sub_cancel_left, List.getD_eq_getElem?_getD, List.getElem?_eq_getElem h,
    Option.getD_some]

/-- two stores next to each other -/
theorem store_append (l' : List UInt8) : store (store m a l) (a + l.length) l' = store m a (l ++ l') := by
  funext x
  by_cases h1 : x < a + l.length
  · rw [store_outside (.inl h1)]
    by_cases h0 : a ≤ x
    · obtain ⟨i, rfl⟩ := Nat.exists_eq_add_of_le h0
      rw [store_inside (by omega), store_inside (by rw [List.length_append]; omega), List.getElem_append_left (by omega)]
    · rw [store_outside (.inl (by omega)), store_outside (.inl (by omega))]
  · by_cases h2 : x < a + l.length + l'.length
    · obtain ⟨i, rfl⟩ := Nat.exists_eq_add_of_le (Nat.le_of_not_lt h1)
      rw [store_inside (by omega), show a + l.length + i = a + (l.length + i) by omega,
        store_inside (by rw [List.length_append]; omega), List.getElem_append_right (by omega)]
      simp only [Nat.add_sub_cancel_left]
    · rw [store_outside (.inr (by omega)), store_outside (.inr (by omega)),
        store_outside (.inr (by rw [List.length_append]; omega))]

theorem load_congr (h : ∀ x, a ≤ x → x < a + n → m' x = m x) : load m' a n = load m a n := by
  unfold load
  apply List.map_congr_left
  intro i hi
  rw [List.mem_range] at hi
  exact h (a + i) (Nat.le_add_right a i) (by omega)

/-- what was stored is loaded again -/
theorem load_store : load (store m a l) a l.length = l := by
  apply List.ext_getElem (load_length)
  intro i h1 h2
  simp only [load, List.getElem_map, List.getElem_range]
  exact store_inside h2

/-- two ranges next to each other -/
theorem load_add (m : Bytes) (a k l : ℕ) : load m a (k + l) = load m a k ++ load m (a + k) l := by
  simp only [load, List.range_add, List.map_append, List.map_map, Function.comp_def, Nat.add_assoc]

theorem load_take {k : ℕ} (h : k ≤ n) : (load m a n).take k = load m a k := by
  rw [load, load, ← List.map_take, List.take_range, Nat.min_eq_left h]

/-- a range that is stored somewhere else -/
theorem store_load {i : ℕ} (hi : i < n) : store m b (load m a n) (b + i) = m (a + i) := by
  rw [store_inside (by rwa [load_length])]
  simp only [load, List.getElem_map, List.getElem_range]

/-- a range that is stored where it was -/
theorem store_load_self (m : Bytes) (a n : ℕ) : store m a (load m a n) = m := by
  funext x
  by_cases hx : x < a ∨ a + n ≤ x
  · exact store_outside (by rwa [load_length])
  · obtain ⟨i, rfl⟩ := Nat.exists_eq_add_of_le (Nat.le_of_not_lt fun h => hx (.inl h))
    exact store_load (by omega)

/-- a store next to a range leaves it alone -/
theorem load_store_of_disjoint (h : a + n ≤ b ∨ b + l.length ≤ a) : load (store m b l) a n = load m a n :=
  load_congr fun x h1 h2 => store_outside (by omega)

/-! ## Little-endian words -/

def leBytes (w : UInt32) : List UInt8 :=
  let n := w.toNat
  [UInt8.ofNat n, UInt8.ofNat (n / 256), UInt8.ofNat (n / 256 / 256), UInt8.ofNat (n / 256 / 256 / 256)]

/-- the word with the given digits, the lowest first -/
def leWord (l : List UInt8) : UInt32 := UInt32.ofNat (l.foldr (fun b v => b.toNat + 256 * v) 0)

@[simp] theorem leBytes_length : (leBytes w).length = 4 := rfl

theorem leWord_leBytes : leWord (leBytes w) = w := by
  have hlt := w.toNat_lt
  apply UInt32.toNat_inj.1
  simp only [leWord, leBytes, List.foldr_cons, List.foldr_nil, UInt8.toNat_ofNat', UInt32.toNat_ofNat']
  -- the digits are remainders of successive quotients
  have h1 := Nat.div_add_mod w.toNat 256
  have h2 := Nat.div_add_mod (w.toNat / 256) 256
  have h3 := Nat.div_add_mod (w.toNat / 256 / 256) 256
  generalize w.toNat / 256 / 256 / 256 = q3 at *
  generalize w.toNat / 256 / 256 = q2 at *
  generalize w.toNat / 256 = q1 at *
  omega

def loadWord (m : Bytes) (a : ℕ) : UInt32 := leWord (load m a 4)

def storeWord (m : Bytes) (a : ℕ) (w : UInt32) : Bytes := store m a (leBytes w)

theorem loadWord_storeWord : loadWord (storeWord m a w) a = w := by
  rw [loadWord, storeWord, ← leBytes_length (w := w), load_store, leWord_leBytes]

theorem loadWord_storeWord_of_disjoint (h : a + 4 ≤ b ∨ b + 4 ≤ a) : loadWord (storeWord m b w) a = loadWord m a := by
  rw [loadWord, storeWord, load_store_of_disjoint (by simpa using h), loadWord]

theorem storeWord_outside (h : x < a ∨ a + 4 ≤ x) : storeWord m a w x = m x := store_outside (by simpa using h)

/-! ## Little-endian numbers of any size -/

/-- a number of any size, the lowest digit first -/
def leNat (l : List UInt8) : ℕ := l.foldr (fun b v => b.toNat + 256 * v) 0

def leDigits : (size v : ℕ) → List UInt8
  | 0, _ => []
  | size + 1, v => UInt8.ofNat v :: leDigits size (v / 256)

@[simp] theorem leDigits_length : (leDigits size v).length = size := by
  induction size generalizing v with
  | zero => rfl
  | succ size ih => rw [leDigits, List.length_cons, ih]

theorem leNat_leDigits (h : v < 256 ^ size) : leNat (leDigits size v) = v := by
  induction size generalizing v with
  | zero => exact (Nat.lt_one_iff.1 h).symm
  | succ size ih =>
    have hv : v / 256 < 256 ^ size := Nat.div_lt_of_lt_mul (by rwa [Nat.pow_succ, Nat.mul_comm] at h)
    calc leNat (leDigits (size + 1) v) = (UInt8.ofNat v).toNat + 256 * leNat (leDigits size (v / 256)) := rfl
      _ = v % 256 + 256 * (v / 256) := by rw [ih hv, UInt8.toNat_ofNat']
      _ = v := Nat.mod_add_div v 256

end TouchHLE.Words
