/-
Lists that are split at a separator.

- `parts`, `join`: the non-empty parts, and parts with a separator between them. `parts_join`: the round trip.
- `parts_flatten`: the parts hold everything but the separators.
- `rsplitOnce`: what is before and after the last separator. `rsplitOnce_eq_some`: exactly one list is split so.
- `trimEndMatches`: a list without separators at its end.
-/
import Mathlib.Data.List.DropRight
import Mathlib.Tactic

namespace TouchHLE.Separated

variable {α : Type} [DecidableEq α]

def parts (sep : α) (l : List α) : List (List α) := (l.splitOn sep).filter (!·.isEmpty)

def join (sep : α) (ps : List (List α)) : List α := [sep].intercalate ps

def rsplitOnce (sep : α) (l : List α) : Option (List α × List α) :=
  if sep ∈ l then some ((l.rdropWhile (· != sep)).dropLast, l.rtakeWhile (· != sep)) else none

def trimEndMatches (sep : α) (l : List α) : List α := l.rdropWhile (· == sep)

variable {sep : α} {l m p rest last : List α} {ps : List (List α)}

/-! ## Parts -/

theorem parts_append_cons (sep : α) (l m : List α) : parts sep (l ++ sep :: m) = parts sep l ++ parts sep m := by
  rw [parts, List.splitOn_append_cons_self, List.filter_append]
  rfl

@[simp]
theorem parts_nil (sep : α) : parts sep [] = [] := rfl

@[simp]
theorem parts_cons (sep : α) (l : List α) : parts sep (sep :: l) = parts sep l := parts_append_cons sep [] l

@[simp]
theorem parts_concat (sep : α) (l : List α) : parts sep (l ++ [sep]) = parts sep l := by
  rw [parts_append_cons, parts_nil, List.append_nil]

theorem parts_append_replicate (sep : α) (l : List α) (n : ℕ) : parts sep (l ++ List.replicate n sep) = parts sep l := by
  induction n with
  | zero => rw [List.replicate_zero, List.append_nil]
  | succ n ih => rw [List.replicate_succ', ← List.append_assoc, parts_concat, ih]

/-- a list without separators -/
theorem parts_of_notMem (h : sep ∉ l) : parts sep l = if l = [] then [] else [l] := by
  rw [parts, List.splitOn_eq_singleton h]
  cases l with
  | nil => rfl
  | cons a l => rfl

theorem notMem_of_mem_splitOn (h : p ∈ l.splitOn sep) : sep ∉ p := by
  induction l generalizing p with
  | nil =>
    obtain rfl := List.mem_singleton.1 h
    exact List.not_mem_nil
  | cons a l ih =>
    obtain ⟨q, qs, hq⟩ := List.exists_cons_of_ne_nil (List.splitOn_ne_nil sep l)
    rw [List.splitOn_cons_eq_if_modifyHead, hq] at h
    rw [hq] at ih
    split_ifs at h with ha
    · rcases List.mem_cons.1 h with rfl | h
      · exact List.not_mem_nil
      · exact ih h
    · rcases List.mem_cons.1 h with rfl | h
      · intro hmem
        rcases List.mem_cons.1 hmem with rfl | hmem
        · exact ha (beq_self_eq_true _)
        · exact ih List.mem_cons_self hmem
      · exact ih (List.mem_cons_of_mem _ h)

theorem of_mem_parts (h : p ∈ parts sep l) : p ≠ [] ∧ sep ∉ p := by
  obtain ⟨hmem, hne⟩ := List.mem_filter.1 h
  refine ⟨fun hnil => ?_, notMem_of_mem_splitOn hmem⟩
  subst hnil
  exact Bool.false_ne_true hne

omit [DecidableEq α] in
@[simp]
theorem join_nil (sep : α) : join sep [] = [] := rfl

omit [DecidableEq α] in
theorem join_cons (sep : α) (p : List α) (ps : List (List α)) :
    join sep (p :: ps) = if ps = [] then p else p ++ sep :: join sep ps := by
  cases ps with
  | nil => simp [join, List.intercalate]
  | cons q ps => simp [join, List.intercalate, List.intersperse]

/-- **The parts** of parts with a separator between them -/
theorem parts_join (h : ∀ p ∈ ps, p ≠ [] ∧ sep ∉ p) : parts sep (join sep ps) = ps := by
  induction ps with
  | nil => rfl
  | cons p ps ih =>
    obtain ⟨hne, hsep⟩ := h p List.mem_cons_self
    have hp : parts sep p = [p] := by rw [parts_of_notMem hsep, if_neg hne]
    rw [join_cons]
    split_ifs with hnil
    · rw [hnil, hp]
    · rw [parts_append_cons, hp, ih fun q hq => h q (List.mem_cons_of_mem _ hq), List.singleton_append]

theorem join_ne_nil (h : ∀ p ∈ ps, p ≠ [] ∧ sep ∉ p) (hps : ps ≠ []) : join sep ps ≠ [] := by
  intro hnil
  have hparts := parts_join h
  rw [hnil, parts_nil] at hparts
  exact hps hparts.symm

/-- parts that are not empty do not begin with a separator -/
theorem head?_join (h : ∀ p ∈ ps, p ≠ [] ∧ sep ∉ p) : (join sep ps).head? ≠ some sep := by
  cases ps with
  | nil => exact Option.some_ne_none sep ∘ Eq.symm
  | cons p ps =>
    obtain ⟨hne, hsep⟩ := h p List.mem_cons_self
    obtain ⟨a, p, rfl⟩ := List.exists_cons_of_ne_nil hne
    have ha : (join sep ((a :: p) :: ps)).head? = some a := by
      rw [join_cons]
      split_ifs <;> rfl
    rw [ha]
    intro heq
    exact hsep (Option.some.inj heq ▸ List.mem_cons_self)

/-- everything but the separators -/
theorem parts_flatten (sep : α) (l : List α) : (parts sep l).flatten = l.filter (· != sep) := by
  induction hn : l.length using Nat.strong_induction_on generalizing l with
  | _ n ih =>
    by_cases hmem : sep ∈ l
    · obtain ⟨a, b, rfl⟩ := List.append_of_mem hmem
      rw [List.length_append, List.length_cons] at hn
      rw [parts_append_cons, List.flatten_append, ih a.length (by omega) a rfl, ih b.length (by omega) b rfl,
        List.filter_append, List.filter_cons_of_neg (by simp)]
    · rw [parts_of_notMem hmem, List.filter_eq_self.2 fun a ha => bne_iff_ne.2 (ne_of_mem_of_not_mem ha hmem)]
      split_ifs with hnil
      · rw [hnil]
        rfl
      · exact List.flatten_singleton

/-! ## The last separator -/

theorem rsplitOnce_append (rest : List α) (h : sep ∉ last) : rsplitOnce sep (rest ++ sep :: last) = some (rest, last) := by
  have hdrop : (rest ++ sep :: last).rdropWhile (· != sep) = rest ++ [sep] := by
    induction last using List.reverseRecOn with
    | nil => exact List.rdropWhile_concat_neg _ _ _ (by simp)
    | append_singleton last a ih =>
      have ha : a ≠ sep := fun heq => h (heq ▸ List.mem_append_right _ List.mem_cons_self)
      rw [← List.cons_append, ← List.append_assoc, List.rdropWhile_concat_pos (· != sep) _ _ (bne_iff_ne.2 ha)]
      exact ih fun hmem => h (List.mem_append_left _ hmem)
  have htake : rest ++ [sep] ++ (rest ++ sep :: last).rtakeWhile (· != sep) = rest ++ sep :: last := by
    rw [← hdrop, List.rdropWhile_append_rtakeWhile]
  rw [rsplitOnce, if_pos (List.mem_append_right _ List.mem_cons_self), hdrop, List.dropLast_concat]
  rw [List.append_assoc, List.singleton_append, List.append_cancel_left_eq, List.cons.injEq] at htake
  rw [htake.2]

theorem rsplitOnce_eq_none : rsplitOnce sep l = none ↔ sep ∉ l := by
  rw [rsplitOnce]
  split_ifs with h
  · exact ⟨fun hnone => absurd hnone (by simp), fun hnot => absurd h hnot⟩
  · exact ⟨fun _ => h, fun _ => rfl⟩

omit [DecidableEq α] in
theorem exists_last (h : sep ∈ l) : ∃ rest last, l = rest ++ sep :: last ∧ sep ∉ last := by
  obtain ⟨after, before, hl, hnot⟩ := List.eq_append_cons_of_mem (List.mem_reverse.2 h)
  refine ⟨before.reverse, after.reverse, ?_, fun hmem => hnot (List.mem_reverse.1 hmem)⟩
  rw [← List.reverse_reverse l, hl, List.reverse_append, List.reverse_cons, List.append_assoc]
  rfl

theorem rsplitOnce_eq_some : rsplitOnce sep l = some (rest, last) ↔ l = rest ++ sep :: last ∧ sep ∉ last := by
  constructor
  · intro h
    have hmem : sep ∈ l := by
      by_contra hnot
      rw [rsplitOnce_eq_none.2 hnot] at h
      exact Option.some_ne_none _ h.symm
    obtain ⟨rest', last', rfl, hlast⟩ := exists_last hmem
    rw [rsplitOnce_append rest' hlast] at h
    cases h
    exact ⟨rfl, hlast⟩
  · rintro ⟨rfl, hlast⟩
    exact rsplitOnce_append rest hlast

/-! ## The end of a list -/

theorem exists_trim (sep : α) (l : List α) : ∃ n, l = trimEndMatches sep l ++ List.replicate n sep := by
  have hall : ∀ a ∈ l.rtakeWhile (· == sep), a = sep := fun a ha => by simpa using List.mem_rtakeWhile_imp ha
  refine ⟨(l.rtakeWhile (· == sep)).length, ?_⟩
  rw [← List.eq_replicate_of_mem hall]
  exact List.rdropWhile_append_rtakeWhile.symm

theorem getLast?_trim (sep : α) (l : List α) : (trimEndMatches sep l).getLast? ≠ some sep := by
  intro h
  have hne : trimEndMatches sep l ≠ [] := fun hnil => by rw [hnil] at h; exact Option.some_ne_none _ h.symm
  rw [List.getLast?_eq_getLast_of_ne_nil hne] at h
  exact List.rdropWhile_last_not _ _ hne (beq_iff_eq.2 (Option.some.inj h))

theorem trim_eq_nil : trimEndMatches sep l = [] ↔ ∀ a ∈ l, a = sep := by
  rw [trimEndMatches, List.rdropWhile_eq_nil_iff]
  exact forall₂_congr fun a _ => beq_iff_eq

@[simp]
theorem parts_trim (sep : α) (l : List α) : parts sep (trimEndMatches sep l) = parts sep l := by
  obtain ⟨n, hn⟩ := exists_trim sep l
  conv_rhs => rw [hn, parts_append_replicate]

end TouchHLE.Separated
