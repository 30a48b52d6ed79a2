/-
Blocks of memory with an identity of their own: what is allocated at an address after the first block there was freed is another
block. Nothing here names the program being modelled.

- `Blocks`: where the blocks begin that are there, and how often each was freed. `alloc`, `free`: one block.
- `freed_eq_one`: a block that is not there any more was freed once. `freeAll_spec`: several blocks.
-/
import Mathlib.Tactic

namespace TouchHLE

structure Blocks where
  /-- the number of the block that begins at an address -/
  block : ℕ → Option ℕ
  allocated : ℕ
  /-- how often a block was freed -/
  freed : ℕ → ℕ
  known : ∀ x n, block x = some n → n < allocated ∧ freed n = 0
  injective : ∀ x y n, block x = some n → block y = some n → x = y
  once : ∀ n < allocated, (∃ x, block x = some n) ∨ freed n = 1
  fresh : ∀ n, allocated ≤ n → freed n = 0

namespace Blocks

def empty : Blocks where
  block _ := none
  allocated := 0
  freed _ := 0
  known _ _ h := absurd h (Option.some_ne_none _).symm
  injective _ _ _ h _ := absurd h (Option.some_ne_none _).symm
  once _ h := absurd h (Nat.not_lt_zero _)
  fresh _ _ := rfl

variable {m m' : Blocks} {x y n : ℕ} {xs : List ℕ} {block : ℕ → Option ℕ}

theorem update_block_none (h : Function.update block x none y = some n) : y ≠ x ∧ block y = some n := by
  by_cases hyx : y = x
  · rw [hyx, Function.update_self] at h
    cases h
  · rw [Function.update_of_ne hyx] at h
    exact ⟨hyx, h⟩

theorem update_block_some {k : ℕ} (h : Function.update block x (some k) y = some n) :
    y = x ∧ n = k ∨ y ≠ x ∧ block y = some n := by
  by_cases hyx : y = x
  · rw [hyx, Function.update_self] at h
    exact .inl ⟨hyx, (Option.some.inj h).symm⟩
  · rw [Function.update_of_ne hyx] at h
    exact .inr ⟨hyx, h⟩

/-- a new block where there is none -/
def alloc (m : Blocks) (x : ℕ) (h : m.block x = none) : Blocks where
  block := Function.update m.block x (some m.allocated)
  allocated := m.allocated + 1
  freed := m.freed
  known y n hy := by
    rcases update_block_some hy with ⟨-, rfl⟩ | ⟨-, hy⟩
    · exact ⟨Nat.lt_succ_self _, m.fresh _ (le_refl _)⟩
    · exact ⟨Nat.lt_succ_of_lt (m.known y n hy).1, (m.known y n hy).2⟩
  injective y z n hy hz := by
    rcases update_block_some hy with ⟨hyx, hn⟩ | ⟨-, hold⟩ <;> rcases update_block_some hz with ⟨hzx, hn'⟩ | ⟨-, hold'⟩
    · exact hyx.trans hzx.symm
    · rw [hn] at hold'
      exact absurd (m.known z _ hold').1 (lt_irrefl _)
    · rw [hn'] at hold
      exact absurd (m.known y _ hold).1 (lt_irrefl _)
    · exact m.injective y z n hold hold'
  once n hn := by
    rcases Nat.lt_succ_iff_lt_or_eq.1 hn with hlt | rfl
    · rcases m.once n hlt with ⟨y, hy⟩ | hfreed
      · have hyx : y ≠ x := fun heq => Option.some_ne_none n (hy.symm.trans (heq ▸ h))
        exact .inl ⟨y, by rw [Function.update_of_ne hyx, hy]⟩
      · exact .inr hfreed
    · exact .inl ⟨x, by rw [Function.update_self]⟩
  fresh n hn := m.fresh n (Nat.le_of_succ_le hn)

/-- the block at an address is freed -/
def free (m : Blocks) (x : ℕ) (h : (m.block x).isSome) : Blocks where
  block := Function.update m.block x none
  allocated := m.allocated
  freed := Function.update m.freed ((m.block x).get h) 1
  known y n hy := by
    obtain ⟨hyx, hy⟩ := update_block_none hy
    have hne : n ≠ (m.block x).get h := by
      rintro rfl
      exact hyx (m.injective y x _ hy (Option.some_get h).symm)
    rw [Function.update_of_ne hne]
    exact m.known y n hy
  injective y z n hy hz := m.injective y z n (update_block_none hy).2 (update_block_none hz).2
  once n hn := by
    by_cases heq : n = (m.block x).get h
    · right
      rw [heq, Function.update_self]
    · rw [Function.update_of_ne heq]
      rcases m.once n hn with ⟨y, hy⟩ | hfreed
      · have hyx : y ≠ x := by
          rintro rfl
          refine heq ?_
          simp only [hy, Option.get_some]
        exact .inl ⟨y, by rw [Function.update_of_ne hyx, hy]⟩
      · exact .inr hfreed
  fresh n hn := by
    have hlt := (m.known x _ (Option.some_get h).symm).1
    rw [Function.update_of_ne (by omega)]
    exact m.fresh n hn

theorem freed_eq_zero (h : m.block x = some n) : m.freed n = 0 := (m.known x n h).2

/-- **A block that is not there any more** was freed once. -/
theorem freed_eq_one (hn : n < m.allocated) (h : ∀ x, m.block x ≠ some n) : m.freed n = 1 := by
  rcases m.once n hn with ⟨x, hx⟩ | hfreed
  · exact absurd hx (h x)
  · exact hfreed

/-- the blocks at some addresses are freed one after the other, if they are there -/
def freeAll : List ℕ → Blocks → Option Blocks
  | [], m => some m
  | x :: xs, m => if h : (m.block x).isSome then freeAll xs (m.free x h) else none

/-- `m'` is what is left of `m` when the blocks at some addresses were freed. -/
structure Frees (m : Blocks) (xs : List ℕ) (m' : Blocks) : Prop where
  allocated : m'.allocated = m.allocated
  gone : ∀ x ∈ xs, m'.block x = none
  kept : ∀ x, x ∉ xs → m'.block x = m.block x

theorem Frees.back (h : Frees m xs m') (hx : m'.block x = some n) : x ∉ xs ∧ m.block x = some n := by
  by_cases hmem : x ∈ xs
  · exact absurd (hx.symm.trans (h.gone x hmem)) (Option.some_ne_none n)
  · exact ⟨hmem, (h.kept x hmem).symm.trans hx⟩

theorem frees_nil : Frees m [] m := ⟨rfl, fun _ h => absurd h List.not_mem_nil, fun _ _ => rfl⟩

theorem Frees.cons (h : (m.block x).isSome) (hrest : Frees (m.free x h) xs m') (hx : x ∉ xs) : Frees m (x :: xs) m' := by
  refine ⟨hrest.allocated, fun y hy => ?_, fun y hy => ?_⟩
  · rcases List.mem_cons.1 hy with rfl | hy
    · exact (hrest.kept y hx).trans (Function.update_self _ _ _)
    · exact hrest.gone y hy
  · rw [List.mem_cons, not_or] at hy
    exact (hrest.kept y hy.2).trans (Function.update_of_ne hy.1 _ _)

/-- **Several blocks** that are all there, at different addresses, can be freed one after the other. -/
theorem freeAll_spec (hlive : ∀ x ∈ xs, (m.block x).isSome) (hnodup : xs.Nodup) : ∃ m', freeAll xs m = some m' ∧ Frees m xs m' := by
  induction xs generalizing m with
  | nil => exact ⟨m, rfl, frees_nil⟩
  | cons x xs ih =>
    obtain ⟨hx, hnodup⟩ := List.nodup_cons.1 hnodup
    have h := hlive x List.mem_cons_self
    have hrest : ∀ y ∈ xs, ((m.free x h).block y).isSome := by
      intro y hy
      have hyx : y ≠ x := fun heq => hx (heq ▸ hy)
      have hsame : (m.free x h).block y = m.block y := Function.update_of_ne hyx _ _
      rw [hsame]
      exact hlive y (List.mem_cons_of_mem x hy)
    obtain ⟨m', hfree, hfrees⟩ := ih hrest hnodup
    exact ⟨m', by rw [freeAll, dif_pos h, hfree], hfrees.cons h hx⟩

end Blocks

end TouchHLE
