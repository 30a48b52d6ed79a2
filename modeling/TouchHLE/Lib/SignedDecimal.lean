/-
Decimal numbers with a sign at the front of a text.

- `Number`: the grammar, a sign that may be missing and digits. `valueOf`: its value.
- `leading`: the number at the front of a text. `leading_longest`: it is the longest beginning of the text that is a number.
- `parseI32`: a whole text as a 32-bit number. `parseI32_of_number`, `parseI32_of_not_number`: what it accepts.
- `clamp`: the nearest 32-bit number.
-/
import Mathlib.Data.List.TakeWhile
import Mathlib.Tactic

namespace TouchHLE.SignedDecimal

def sign : List Char → List Char
  | '+' :: _ => ['+']
  | '-' :: _ => ['-']
  | _ => []

/-- everything behind the sign -/
def unsigned (t : List Char) : List Char := t.drop (sign t).length

def decimal (l : List Char) : ℕ := l.foldl (fun n c => n * 10 + (c.toNat - 48)) 0

structure Number (p : List Char) : Prop where
  nonempty : unsigned p ≠ []
  digits : ∀ c ∈ unsigned p, c.isDigit = true

def valueOf (p : List Char) : ℤ := if sign p = ['-'] then -(decimal (unsigned p) : ℤ) else decimal (unsigned p)

/-- the number at the front, empty if there is none -/
def leading (t : List Char) : List Char :=
  let digits := (unsigned t).takeWhile Char.isDigit
  if digits = [] then [] else sign t ++ digits

/-- a beginning of a text that is a number, and that no other number goes beyond -/
structure Longest (t p : List Char) : Prop where
  isPrefix : p <+: t
  number : Number p
  longest : ∀ q, q <+: t → Number q → q <+: p

def InI32 (v : ℤ) : Prop := -2 ^ 31 ≤ v ∧ v < 2 ^ 31

instance (v : ℤ) : Decidable (InI32 v) := inferInstanceAs (Decidable (_ ∧ _))

def clamp (v : ℤ) : ℤ := max (-2 ^ 31) (min v (2 ^ 31 - 1))

/-- `i32::from_str` -/
def parseI32 (src : List Char) : Option ℤ :=
  if unsigned src = [] ∨ (unsigned src).all Char.isDigit = false then none
  else if InI32 (valueOf src) then some (valueOf src) else none

variable {t p q l : List Char} {c : Char} {v : ℤ}

/-! ## Signs -/

theorem sign_append_unsigned (t : List Char) : sign t ++ unsigned t = t := by
  rw [unsigned]
  unfold sign
  split <;> rfl

/-- a text that begins with a sign has it, and one that begins with a digit has none -/
theorem sign_cases (t : List Char) : sign t = ['+'] ∨ sign t = ['-'] ∨ sign t = [] := by
  unfold sign
  split
  · exact .inl rfl
  · exact .inr (.inl rfl)
  · exact .inr (.inr rfl)

theorem sign_of_digit (h : c.isDigit = true) : sign (c :: l) = [] := by
  unfold sign
  split
  · rename_i heq
    obtain ⟨rfl, -⟩ := List.cons.inj heq
    exact absurd h (by decide)
  · rename_i heq
    obtain ⟨rfl, -⟩ := List.cons.inj heq
    exact absurd h (by decide)
  · rfl

/-- the sign and the digits of a text that is put together from them -/
theorem sign_append {s d : List Char} (hs : s = ['+'] ∨ s = ['-'] ∨ s = []) (hd : ∀ c ∈ d.head?, c.isDigit = true)
    (hne : d ≠ []) :
    sign (s ++ d) = s ∧ unsigned (s ++ d) = d := by
  have hsign : sign (s ++ d) = s := by
    obtain ⟨c, d, rfl⟩ := List.exists_cons_of_ne_nil hne
    rcases hs with rfl | rfl | rfl
    · rfl
    · rfl
    · exact sign_of_digit (hd c rfl)
  refine ⟨hsign, ?_⟩
  rw [unsigned, hsign, List.drop_left]

/-! ## The number at the front -/

theorem Number.digits_head (h : Number p) : ∀ c ∈ (unsigned p).head?, c.isDigit = true := fun c hc =>
  h.digits c (List.mem_of_mem_head? hc)

theorem leading_isPrefix (t : List Char) : leading t <+: t := by
  rw [leading]
  split_ifs with hnil
  · exact List.nil_prefix
  · conv_rhs => rw [← sign_append_unsigned t]
    exact (List.prefix_append_right_inj _).2 (List.takeWhile_prefix _)

theorem number_leading (h : leading t ≠ []) : Number (leading t) := by
  rw [leading] at h ⊢
  split_ifs at h ⊢ with hnil
  · exact absurd rfl h
  · have hall : ∀ c ∈ (unsigned t).takeWhile Char.isDigit, c.isDigit = true := fun c hc => List.mem_takeWhile_imp hc
    obtain ⟨-, hunsigned⟩ := sign_append (sign_cases t) (fun c hc => hall c (List.mem_of_mem_head? hc)) hnil
    refine ⟨?_, ?_⟩
    · rw [hunsigned]
      exact hnil
    · rw [hunsigned]
      exact hall

/-- a number in front of something -/
theorem leading_append (h : Number q) (l : List Char) : leading (q ++ l) = q ++ l.takeWhile Char.isDigit := by
  have hq := sign_append_unsigned q
  have hdigits : ∀ c ∈ (unsigned q ++ l).head?, c.isDigit = true := by
    intro c hc
    rw [List.head?_append_of_ne_nil _ h.nonempty] at hc
    exact h.digits_head c hc
  obtain ⟨hsign, hunsigned⟩ := sign_append (sign_cases q) hdigits (List.append_ne_nil_of_left_ne_nil h.nonempty l)
  rw [← List.append_assoc, hq] at hsign hunsigned
  have htake : (unsigned q ++ l).takeWhile Char.isDigit = unsigned q ++ l.takeWhile Char.isDigit :=
    List.takeWhile_append_of_pos h.digits
  rw [leading, hunsigned, htake, if_neg (List.append_ne_nil_of_left_ne_nil h.nonempty _), hsign, ← List.append_assoc, hq]

theorem prefix_leading (hq : q <+: t) (h : Number q) : q <+: leading t := by
  obtain ⟨l, rfl⟩ := hq
  rw [leading_append h]
  exact List.prefix_append _ _

theorem leading_longest (h : leading t ≠ []) : Longest t (leading t) :=
  ⟨leading_isPrefix t, number_leading h, fun _ hq hnumber => prefix_leading hq hnumber⟩

theorem Longest.eq_leading (h : Longest t p) : p = leading t := by
  have hle := prefix_leading h.isPrefix h.number
  have hne : leading t ≠ [] := by
    intro hnil
    rw [hnil, List.prefix_nil] at hle
    exact h.number.nonempty (by rw [hle]; rfl)
  have hge := h.longest _ (leading_isPrefix t) (number_leading hne)
  exact hle.eq_of_length (le_antisymm hle.length_le hge.length_le)

theorem no_number (h : leading t = []) (hq : q <+: t) : ¬Number q := by
  intro hnumber
  have hle := prefix_leading hq hnumber
  rw [h, List.prefix_nil] at hle
  exact hnumber.nonempty (by rw [hle]; rfl)

/-! ## 32 bits -/

theorem clamp_of_inI32 (h : InI32 v) : clamp v = v := by
  obtain ⟨hlow, hhigh⟩ := h
  rw [clamp]
  omega

theorem clamp_eq_zero : clamp v = 0 ↔ v = 0 := by
  rw [clamp]
  omega

/-- what is out of range becomes the largest or the smallest number -/
theorem clamp_of_not_inI32 (h : ¬InI32 v) : clamp v = 2 ^ 31 - 1 ∨ clamp v = -2 ^ 31 := by
  rw [InI32] at h
  rw [clamp]
  omega

theorem parseI32_of_number (h : Number p) : parseI32 p = if InI32 (valueOf p) then some (valueOf p) else none := by
  refine if_neg (not_or.2 ⟨h.nonempty, ?_⟩)
  rw [Bool.not_eq_false, List.all_eq_true]
  exact h.digits

theorem parseI32_of_not_number (h : ¬Number p) : parseI32 p = none := by
  refine if_pos ?_
  by_contra hnot
  obtain ⟨hne, hall⟩ := not_or.1 hnot
  rw [Bool.not_eq_false, List.all_eq_true] at hall
  exact h ⟨hne, hall⟩

end TouchHLE.SignedDecimal
