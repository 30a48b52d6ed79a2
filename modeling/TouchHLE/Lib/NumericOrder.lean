/-
The order of texts that takes every run of digits for one number.

- `Token`, `tokens`: a text as numbers and other elements. `tokens_append`, `tokens_digits`: where it can be cut.
- `order`: the lexicographic order of the tokens, where numbers stand between the elements below the digits and those above.
- `order_numbers`: numbers go by their value.
- `Until`: something that is to hold of the tokens that are compared.
-/
import Mathlib.Tactic

namespace TouchHLE.NumericOrder

open Std

variable {α : Type}

inductive Token (α : Type) where
  | number (n : ℕ)
  | unit (u : α)
deriving DecidableEq

/-- a number with one more digit -/
def push (n d : ℕ) : ℕ := n * 10 + d

section

variable (digit : α → Option ℕ)

/-- the tokens of a text, after a number that has begun -/
def tokensFrom : Option ℕ → List α → List (Token α)
  | acc, [] => (acc.map .number).toList
  | acc, u :: l =>
    match digit u with
    | some d => tokensFrom (some (push (acc.getD 0) d)) l
    | none => (acc.map .number).toList ++ .unit u :: tokensFrom none l

def tokens (l : List α) : List (Token α) := tokensFrom digit none l

def IsDigit (u : α) : Prop := (digit u).isSome

/-- the value of digits -/
def decimal (l : List α) : ℕ := l.foldl (fun n u => push n ((digit u).getD 0)) 0

end

section

variable (key : α → ℕ) (zero : ℕ)

/-- below the digits, a number, above the digits -/
def group : Token α → ℕ
  | .number _ => 1
  | .unit u => if key u < zero then 0 else 2

def value : Token α → ℕ
  | .number n => n
  | .unit u => key u

def orderTokens : Token α → Token α → Ordering := compareLex (compareOn (group key zero)) (compareOn (value key))

/-- **The order** -/
def order (digit : α → Option ℕ) (l m : List α) : Ordering :=
  List.compareLex (orderTokens key zero) (tokens digit l) (tokens digit m)

end

/-- `p` holds of the tokens at the same places, up to the first ones that differ -/
def Until (p : Token α → Token α → Prop) : List (Token α) → List (Token α) → Prop
  | t :: l, t' :: l' => p t t' ∧ (t = t' → Until p l l')
  | _, _ => True

variable {digit : α → Option ℕ} {key : α → ℕ} {zero : ℕ} {l m d d' : List α} {u : α} {acc : Option ℕ}

/-! ## Tokens -/

theorem tokensFrom_digit {n : ℕ} (h : digit u = some n) :
    tokensFrom digit acc (u :: l) = tokensFrom digit (some (push (acc.getD 0) n)) l := by
  rw [tokensFrom, h]

theorem tokensFrom_unit (h : digit u = none) :
    tokensFrom digit acc (u :: l) = (acc.map .number).toList ++ .unit u :: tokens digit l := by
  rw [tokensFrom, h]
  rfl

/-- a number ends where there is no digit -/
theorem tokensFrom_end (h : ∀ u ∈ l.head?, ¬IsDigit digit u) :
    tokensFrom digit acc l = (acc.map .number).toList ++ tokens digit l := by
  cases l with
  | nil => rw [tokens, tokensFrom, tokensFrom, Option.map_none, Option.toList_none, List.append_nil]
  | cons u l =>
    have hu : digit u = none := Option.not_isSome_iff_eq_none.1 (h u rfl)
    rw [tokens, tokensFrom_unit hu, tokensFrom_unit hu]
    rfl

/-- before an element that is no digit -/
theorem tokensFrom_append (h : ∀ u ∈ m.head?, ¬IsDigit digit u) :
    tokensFrom digit acc (l ++ m) = tokensFrom digit acc l ++ tokens digit m := by
  induction l generalizing acc with
  | nil => exact tokensFrom_end h
  | cons u l ih =>
    rw [List.cons_append]
    cases hu : digit u with
    | some n => rw [tokensFrom_digit hu, tokensFrom_digit hu, ih]
    | none =>
      have hrest : tokens digit (l ++ m) = tokens digit l ++ tokens digit m := ih
      rw [tokensFrom_unit hu, tokensFrom_unit hu, hrest, List.append_assoc, List.cons_append]

/-- behind an element that is no digit -/
theorem tokens_append (h : ∀ u ∈ l.getLast?, ¬IsDigit digit u) :
    tokens digit (l ++ m) = tokens digit l ++ tokens digit m := by
  rcases List.eq_nil_or_concat' l with rfl | ⟨l, u, rfl⟩
  · rfl
  · have hu : digit u = none := Option.not_isSome_iff_eq_none.1 (h u (by simp))
    have hend : ∀ m : List α, ∀ v ∈ (u :: m).head?, ¬IsDigit digit v := by
      intro m v hv
      cases hv
      exact Option.not_isSome_iff_eq_none.2 hu
    have hcut : ∀ m : List α, tokens digit (l ++ u :: m) = tokens digit l ++ .unit u :: tokens digit m := by
      intro m
      rw [tokens, tokensFrom_append (hend m), tokens, tokens, tokensFrom_unit hu]
      rfl
    rw [List.append_assoc, List.singleton_append, hcut, hcut, List.append_assoc]
    rfl

theorem tokensFrom_digits {n : ℕ} (h : ∀ u ∈ d, IsDigit digit u) (hm : ∀ u ∈ m.head?, ¬IsDigit digit u) :
    tokensFrom digit (some n) (d ++ m) = .number (d.foldl (fun n u => push n ((digit u).getD 0)) n) :: tokens digit m := by
  induction d generalizing n with
  | nil => exact tokensFrom_end hm
  | cons u d ih =>
    obtain ⟨k, hk⟩ := Option.isSome_iff_exists.1 (h u List.mem_cons_self)
    rw [List.cons_append, tokensFrom_digit hk, ih fun v hv => h v (List.mem_cons_of_mem _ hv), List.foldl_cons, hk]
    rfl

/-- **A run of digits** is one token. -/
theorem tokens_digits (hne : d ≠ []) (h : ∀ u ∈ d, IsDigit digit u) (hm : ∀ u ∈ m.head?, ¬IsDigit digit u) :
    tokens digit (d ++ m) = .number (decimal digit d) :: tokens digit m := by
  obtain ⟨u, d, rfl⟩ := List.exists_cons_of_ne_nil hne
  obtain ⟨k, hk⟩ := Option.isSome_iff_exists.1 (h u List.mem_cons_self)
  rw [List.cons_append, tokens, tokensFrom_digit hk, tokensFrom_digits (fun v hv => h v (List.mem_cons_of_mem _ hv)) hm,
    decimal, List.foldl_cons, hk]
  rfl

/-! ## The order -/

instance : OrientedCmp (orderTokens key zero) := inferInstanceAs (OrientedCmp (compareLex _ _))

instance : TransCmp (orderTokens key zero) := inferInstanceAs (TransCmp (compareLex _ _))

theorem order_swap (l m : List α) : order key zero digit l m = (order key zero digit m l).swap :=
  @OrientedCmp.eq_swap _ (List.compareLex (orderTokens key zero)) _ _ _

theorem order_trans {a b c : List α} (hab : (order key zero digit a b).isLE) (hbc : (order key zero digit b c).isLE) :
    (order key zero digit a c).isLE :=
  @TransCmp.isLE_trans _ (List.compareLex (orderTokens key zero)) _ _ _ _ hab hbc

theorem compareLex_append {β : Type} {cmp : β → β → Ordering} [ReflCmp cmp] (p l m : List β) :
    List.compareLex cmp (p ++ l) (p ++ m) = List.compareLex cmp l m := by
  induction p with
  | nil => rfl
  | cons t p ih =>
    have hself : cmp t t = .eq := ReflCmp.compare_self
    rw [List.cons_append, List.cons_append, List.compareLex_cons_cons, hself, Ordering.eq_then, ih]

/-- **Numbers** behind a common beginning go by their value. -/
theorem order_numbers {p x y : List α} (hp : ∀ u ∈ p.getLast?, ¬IsDigit digit u) (hne : d ≠ []) (hne' : d' ≠ [])
    (hd : ∀ u ∈ d, IsDigit digit u) (hd' : ∀ u ∈ d', IsDigit digit u) (hx : ∀ u ∈ x.head?, ¬IsDigit digit u)
    (hy : ∀ u ∈ y.head?, ¬IsDigit digit u) : order key zero digit (p ++ (d ++ x)) (p ++ (d' ++ y)) =
      (compare (decimal digit d) (decimal digit d')).then (order key zero digit x y) := by
  have hnumbers : ∀ n n' : ℕ, orderTokens key zero (.number n : Token α) (.number n') = compare n n' := by
    intro n n'
    rw [orderTokens, compareLex]
    rfl
  rw [order, tokens_append hp, tokens_append hp, compareLex_append, tokens_digits hne hd hx, tokens_digits hne' hd' hy,
    List.compareLex_cons_cons, hnumbers]
  rfl

end TouchHLE.NumericOrder
