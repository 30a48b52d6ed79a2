/-
`bsearch` (`libc/stdlib.rs`) with a comparator that is guest code.

- `bsearchLoop`, `bsearch`: the function, over whatever the comparator works on.
- `Consults`: a comparator that returns when it is called with the key and an element. `bsearchLoop_spec`: the loop.
- `bsearch_finds`: the result.
-/
import TouchHLE.Mem.Memory

namespace TouchHLE.Bsearch

open Machine

section

variable {E : Type} (call : ℕ → ℕ → E → Except Panic (ℤ × E)) (key items itemSize : ℕ)

/-- the loop, which runs as long as `len` is not zero; `fuel` bounds its turns -/
def bsearchLoop : (fuel low len : ℕ) → E → Except Panic (ℕ × E)
  | 0, _, _, _ => throw .tooDeep
  | fuel + 1, low, len, e =>
    if len = 0 then pure (0, e)
    else do
      let halfLen := len / 2
      let index ← add32 low halfLen
      let offset ← mul32 itemSize index
      let item ← Mem.ptrAdd items offset 1
      let (cmpResult, e) ← call key item e
      if cmpResult = 0 then pure (item, e)
      else if 0 < cmpResult then bsearchLoop fuel (low + halfLen + 1) (len - halfLen - 1) e
      else bsearchLoop fuel low halfLen e

def bsearch (itemCount : ℕ) (e : E) : Except Panic (ℕ × E) := bsearchLoop call key items itemSize (itemCount + 1) 0 itemCount e

end

/-- **A comparator** that returns when it is called with the key and a pointer to an element, in this order, and whose answer has
the sign of the element. Whatever it works on, `I` holds of it. -/
structure Consults {E : Type} (call : ℕ → ℕ → E → Except Panic (ℤ × E)) (key items n itemSize : ℕ) (I : E → Prop) (sign : ℕ → ℤ) :
    Prop where
  returns : ∀ e i, I e → i < n → ∃ r e', call key (items + itemSize * i) e = .ok (r, e') ∧ I e' ∧ r.sign = sign i

/-- the array is sorted: the key is greater than the first elements and less than the last ones -/
def SortedFor (n : ℕ) (sign : ℕ → ℤ) : Prop := ∀ i j, i ≤ j → j < n → sign j ≤ sign i

/-- an element that matches the key, or NULL if there is none -/
def Found (items n itemSize : ℕ) (sign : ℕ → ℤ) (p : ℕ) : Prop :=
  (∃ i < n, sign i = 0 ∧ p = items + itemSize * i) ∨ p = 0 ∧ ∀ i < n, sign i ≠ 0

section

variable {E : Type} {call : ℕ → ℕ → E → Except Panic (ℤ × E)} {key items n itemSize fuel low len : ℕ} {I : E → Prop} {sign : ℕ → ℤ}
  {e : E}

theorem itemPtr_ok {i : ℕ} (hlast : items < 2 ^ 32) (hfits : items + itemSize * n ≤ 2 ^ 32) (hi : i < n) :
    itemSize * i < 2 ^ 32 ∧ items + itemSize * i < 2 ^ 32 := by
  have hend : itemSize * i + itemSize ≤ itemSize * n := by
    rw [← Nat.mul_succ]
    exact Nat.mul_le_mul_left itemSize hi
  rcases Nat.eq_zero_or_pos itemSize with rfl | hpos
  · rw [Nat.zero_mul]
    exact ⟨by decide, hlast⟩
  · omega

/-- **The loop**: no element outside of the range from `low` on of length `len` matches; the induction is on the turns, which the
length of the range bounds. -/
theorem bsearchLoop_spec (hc : Consults call key items n itemSize I sign) (hsorted : SortedFor n sign) (hlast : items < 2 ^ 32)
    (hfits : items + itemSize * n ≤ 2 ^ 32) (hn : n < 2 ^ 32) (he : I e) (hlen : len < fuel) (hrange : low + len ≤ n)
    (hbelow : ∀ i < low, sign i ≠ 0) (habove : ∀ i < n, low + len ≤ i → sign i ≠ 0) :
    ∃ p e', bsearchLoop call key items itemSize fuel low len e = .ok (p, e') ∧ I e' ∧ Found items n itemSize sign p := by
  induction fuel generalizing low len e with
  | zero => exact absurd hlen (Nat.not_lt_zero len)
  | succ fuel ih =>
    unfold bsearchLoop
    by_cases hzero : len = 0
    · rw [if_pos hzero]
      refine ⟨0, e, rfl, he, .inr ⟨rfl, fun i hi => ?_⟩⟩
      rcases Nat.lt_or_ge i low with h | h
      · exact hbelow i h
      · exact habove i hi (by omega)
    rw [if_neg hzero]
    have hmiddle : low + len / 2 < n := by omega
    obtain ⟨hoffset, hptr⟩ := itemPtr_ok hlast hfits hmiddle
    obtain ⟨r, e', hcall, he', hsign⟩ := hc.returns e (low + len / 2) he hmiddle
    have hitem : Mem.ptrAdd items (itemSize * (low + len / 2)) 1 = .ok (items + itemSize * (low + len / 2)) := by
      rw [Mem.ptrAdd, Nat.mul_one, if_pos hptr]
    dsimp only
    rw [add32_ok (by omega), ok_bind, mul32_ok hoffset, ok_bind, hitem, ok_bind, hcall, ok_bind]
    dsimp only
    by_cases hequal : r = 0
    · rw [if_pos hequal]
      refine ⟨_, e', rfl, he', .inl ⟨low + len / 2, hmiddle, ?_, rfl⟩⟩
      rw [← hsign, hequal, Int.sign_zero]
    rw [if_neg hequal]
    by_cases hgreater : 0 < r
    · rw [if_pos hgreater]
      rw [Int.sign_eq_one_of_pos hgreater] at hsign
      refine ih he' (by omega) (by omega) (fun i hi => ?_) (fun i hi h => habove i hi (by omega))
      -- nothing before the middle is greater than it
      have hle := hsorted i (low + len / 2) (by omega) hmiddle
      omega
    · rw [if_neg hgreater]
      rw [Int.sign_eq_neg_one_of_neg (by omega)] at hsign
      refine ih he' (by omega) (by omega) hbelow (fun i hi h => ?_)
      have hle := hsorted (low + len / 2) i h hi
      omega

end

/-- **`bsearch`** ends with an element that matches, if there is one, and else with NULL; it calls the comparator with the key
and a pointer to an element only. -/
theorem bsearch_finds {E : Type} {call : ℕ → ℕ → E → Except Panic (ℤ × E)} {key items itemCount itemSize : UInt32} {I : E → Prop}
    {sign : ℕ → ℤ} {e : E} (hfits : items.toNat + itemSize.toNat * itemCount.toNat ≤ 2 ^ 32)
    (hc : Consults call key.toNat items.toNat itemCount.toNat itemSize.toNat I sign) (hsorted : SortedFor itemCount.toNat sign)
    (he : I e) : ∃ p e', bsearch call key.toNat items.toNat itemSize.toNat itemCount.toNat e = .ok (p, e') ∧ I e' ∧
      Found items.toNat itemCount.toNat itemSize.toNat sign p := by
  refine bsearchLoop_spec hc hsorted items.toNat_lt hfits itemCount.toNat_lt he (Nat.lt_succ_self _) (Nat.zero_add _).le ?_ ?_
  · intro i hi
    exact absurd hi (Nat.not_lt_zero i)
  · intro i hi h
    exact absurd hi (by omega)

/-- a comparator of bytes -/
def compareBytes (p q : ℕ) (bytes : Words.Bytes) : Except Panic (ℤ × Words.Bytes) := pure ((bytes p).toNat - (bytes q).toNat, bytes)

/-- the key 3, and behind it an array of 1, 3, 3 and 7 -/
def threeAndArray : Words.Bytes := Words.store (fun _ => 0) 4095 [3, 1, 3, 3, 7]

theorem bsearch_finds_three : ∃ p e', bsearch compareBytes 4095 4096 1 4 threeAndArray = .ok (p, e') ∧ (p = 4097 ∨ p = 4098) := by
  have hsize : (4095 : UInt32).toNat = 4095 ∧ (4096 : UInt32).toNat = 4096 ∧ (4 : UInt32).toNat = 4 ∧ (1 : UInt32).toNat = 1 :=
    ⟨rfl, rfl, rfl, rfl⟩
  have hfinds := @bsearch_finds _ compareBytes 4095 4096 4 1 (fun bytes => bytes = threeAndArray)
    (fun i => [1, 0, 0, -1].getD i 0) threeAndArray
  rw [hsize.1, hsize.2.1, hsize.2.2.1, hsize.2.2.2] at hfinds
  have hconsults : Consults compareBytes 4095 4096 4 1 (fun bytes => bytes = threeAndArray) fun i => [1, 0, 0, -1].getD i 0 := by
    refine ⟨fun bytes i h hi => ?_⟩
    subst h
    refine ⟨_, _, rfl, rfl, ?_⟩
    interval_cases i <;> decide
  have hsorted : SortedFor 4 fun i => [1, 0, 0, -1].getD i 0 := by
    intro i j hij hj
    interval_cases j <;> interval_cases i <;> decide
  obtain ⟨p, e', hbsearch, -, hfound⟩ := hfinds (by decide) hconsults hsorted rfl
  refine ⟨p, e', hbsearch, ?_⟩
  rcases hfound with ⟨i, hi, hsign, rfl⟩ | ⟨-, hnone⟩
  · interval_cases i
    · exact absurd hsign (by decide)
    · exact .inl rfl
    · exact .inr rfl
    · exact absurd hsign (by decide)
  · exact absurd rfl (hnone 1 (by decide))

end TouchHLE.Bsearch
