/-
Lists that are cut into pieces of one length, of which the last can be shorter, and loops over them.

- `pieces_cons`: the first piece and the others.
- `length_pieces`: how many there are. `dvd_length`: what divides the length of all of them.
- `collect_ok`: a loop over pieces that gives as many elements for each.
-/
import TouchHLE.Lib.Machine

namespace TouchHLE.Pieces

open Machine

variable {α β ε : Type} {n m k : ℕ} {l p : List α}

/-- no more than `k` pieces -/
def piecesWithin (n : ℕ) : ℕ → List α → List (List α)
  | 0, _ => []
  | k + 1, l => if l.isEmpty then [] else l.take n :: piecesWithin n k (l.drop n)

def pieces (n : ℕ) (l : List α) : List (List α) := piecesWithin n l.length l

/-- the outcomes of a loop over a list, one behind the other -/
def collect (f : α → Except ε (List β)) : List α → Except ε (List β)
  | [] => pure []
  | a :: l => do
    let first ← f a
    let rest ← collect f l
    pure (first ++ rest)

@[simp] theorem pieces_nil : pieces n ([] : List α) = [] := rfl

theorem piecesWithin_eq (hn : 0 < n) (hk : l.length ≤ k) : piecesWithin n k l = pieces n l := by
  unfold pieces
  induction k using Nat.strong_induction_on generalizing l with
  | _ k ih =>
    cases l with
    | nil => cases k <;> rfl
    | cons a l =>
      obtain ⟨k, rfl⟩ : ∃ j, k = j + 1 := ⟨k - 1, by simp only [List.length_cons] at hk; omega⟩
      have hdrop : ((a :: l).drop n).length ≤ l.length := by
        rw [List.length_drop, List.length_cons]
        omega
      rw [List.length_cons] at hk ⊢
      rw [piecesWithin, piecesWithin, ih k (Nat.lt_succ_self k) (hdrop.trans (by omega)), ← ih l.length (by omega) hdrop]

theorem pieces_cons (hn : 0 < n) (hl : l ≠ []) : pieces n l = l.take n :: pieces n (l.drop n) := by
  cases l with
  | nil => exact absurd rfl hl
  | cons a l =>
    have hdrop : ((a :: l).drop n).length ≤ l.length := by
      rw [List.length_drop, List.length_cons]
      omega
    rw [← piecesWithin_eq hn hdrop]
    rfl

/-- **Induction on the pieces** -/
@[elab_as_elim]
theorem pieces_induction {motive : List α → Prop} (hn : 0 < n) (nil : motive [])
    (cons : ∀ l, l ≠ [] → motive (l.drop n) → motive l) (l : List α) : motive l := by
  induction hk : l.length using Nat.strong_induction_on generalizing l with
  | _ k ih =>
    by_cases hl : l = []
    · exact hl ▸ nil
    · have hpos := List.length_pos_of_ne_nil hl
      exact cons l hl (ih _ (by rw [List.length_drop]; omega) _ rfl)

theorem length_pieces (hn : 0 < n) (l : List α) : (pieces n l).length = (l.length + n - 1) / n := by
  induction l using pieces_induction hn with
  | nil => exact (Nat.div_eq_of_lt (by simp only [List.length_nil]; omega)).symm
  | cons l hl ih =>
    have hpos := List.length_pos_of_ne_nil hl
    rw [pieces_cons hn hl, List.length_cons, ih, List.length_drop]
    by_cases hle : n ≤ l.length
    · rw [show l.length + n - 1 = l.length - n + n - 1 + n by omega, Nat.add_div_right _ hn]
    · rw [Nat.div_eq_of_lt (by omega), show l.length + n - 1 = l.length - 1 + n by omega, Nat.add_div_right _ hn,
        Nat.div_eq_of_lt (by omega)]

/-- what divides the length of the list and that of the pieces -/
theorem dvd_length (hn : 0 < n) (hm : m ∣ n) (hl : m ∣ l.length) : ∀ p ∈ pieces n l, m ∣ p.length ∧ 0 < p.length ∧
    p.length ≤ n := by
  induction l using pieces_induction hn with
  | nil =>
    intro p hp
    cases hp
  | cons l hne ih =>
    intro p hp
    rw [pieces_cons hn hne] at hp
    have hpos := List.length_pos_of_ne_nil hne
    rcases List.mem_cons.1 hp with rfl | hp
    · rw [List.length_take]
      refine ⟨?_, by omega, min_le_left _ _⟩
      rcases min_choice n l.length with h | h <;> rw [h] <;> assumption
    · refine ih ?_ p hp
      rw [List.length_drop]
      exact Nat.dvd_sub hl hm

theorem length_of_dvd (hn : 0 < n) (hl : n ∣ l.length) (hp : p ∈ pieces n l) : p.length = n := by
  obtain ⟨hdvd, hpos, hle⟩ := dvd_length hn dvd_rfl hl p hp
  exact le_antisymm hle (Nat.le_of_dvd hpos hdvd)

/-- **A loop that gives as many elements for each piece** -/
theorem collect_ok {f : α → Except ε (List β)} {l : List α} (h : ∀ a ∈ l, ∃ out, f a = .ok out ∧ out.length = m) :
    ∃ out, collect f l = .ok out ∧ out.length = m * l.length := by
  induction l with
  | nil => exact ⟨[], rfl, rfl⟩
  | cons a l ih =>
    obtain ⟨first, hfirst, hlength⟩ := h a List.mem_cons_self
    obtain ⟨rest, hrest, hlength'⟩ := ih fun b hb => h b (List.mem_cons_of_mem a hb)
    refine ⟨first ++ rest, ?_, ?_⟩
    · rw [collect, hfirst, ok_bind, hrest]
      rfl
    · rw [List.length_append, hlength, hlength', List.length_cons, Nat.mul_succ, add_comm]

end TouchHLE.Pieces
