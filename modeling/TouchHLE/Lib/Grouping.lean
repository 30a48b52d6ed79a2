/-
Lists of groups: elements that are collected under keys, as in a hash map of sets. Nothing here names the program being
modelled.

- `group`, `push`: the group of a key; an element is added to it.
- `Grouped`: what is in which group, as a function from the elements to the keys.
- `Grouped.push`, `Grouped.filterMap`: adding an element, and going through the groups in any order.
-/
import TouchHLE.Lib.Assoc

namespace TouchHLE.Grouping

open TouchHLE

variable {κ τ β : Type} [DecidableEq κ] [DecidableEq τ]

/-- the group of a key -/
def group (k : κ) (l : List (κ × List τ)) : Option (List τ) := l.lookup k

def push (k : κ) (t : τ) (l : List (κ × List τ)) : List (κ × List τ) := Assoc.insert k (((group k l).getD []).insert t) l

/-- **The groups** hold the elements that the function has a key for, each under its key only. -/
structure Grouped (l : List (κ × List τ)) (f : τ → Option κ) : Prop where
  nodup : (l.map Prod.fst).Nodup
  mem : ∀ k ts, group k l = some ts → ∀ t, t ∈ ts ↔ f t = some k
  has : ∀ t k, f t = some k → ∃ ts, group k l = some ts

variable {l l' : List (κ × List τ)} {f f' : τ → Option κ} {k : κ} {t : τ} {ts : List τ}

theorem Grouped.nil : Grouped ([] : List (κ × List τ)) fun _ => none := ⟨List.nodup_nil, nofun, nofun⟩

/-- a group that is empty or not there holds nothing -/
theorem Grouped.mem_getD (h : Grouped l f) : t ∈ (group k l).getD [] ↔ f t = some k := by
  cases hk : group k l with
  | some ts => exact h.mem k ts hk t
  | none =>
    refine iff_of_false List.not_mem_nil fun hf => ?_
    obtain ⟨ts, hts⟩ := h.has t k hf
    rw [hk] at hts
    cases hts

/-- **One more element** -/
theorem Grouped.push (h : Grouped l f) (hk : f' t = some k) (hnew : f t = none) (hf : ∀ t', t' ≠ t → f' t' = f t') :
    Grouped (push k t l) f' := by
  refine ⟨Assoc.nodup_insert h.nodup, fun k' ts hts t' => ?_, fun t' k' hf' => ?_⟩
  · by_cases hkk : k' = k
    · subst hkk
      rw [group, Grouping.push, Assoc.lookup_insert_self] at hts
      cases hts
      rw [List.mem_insert_iff, h.mem_getD]
      by_cases ht : t' = t
      · rw [ht]
        exact iff_of_true (.inl rfl) hk
      · rw [hf t' ht, or_iff_right ht]
    · rw [group, Grouping.push, Assoc.lookup_insert_of_ne hkk] at hts
      rw [h.mem k' ts hts]
      by_cases ht : t' = t
      · rw [ht, hnew, hk]
        refine iff_of_false nofun fun heq => hkk (Option.some.inj heq).symm
      · rw [hf t' ht]
  · by_cases hkk : k' = k
    · rw [hkk]
      exact ⟨_, Assoc.lookup_insert_self⟩
    · rw [group, Grouping.push, Assoc.lookup_insert_of_ne hkk]
      refine h.has t' k' ?_
      rwa [← hf t']
      rintro rfl
      rw [hk] at hf'
      exact hkk (Option.some.inj hf').symm

/-- what is in an entry, in the terms of the function -/
theorem Grouped.mem_entry (h : Grouped l f) {e : κ × List τ} (he : e ∈ l) : t ∈ e.2 ↔ f t = some e.1 :=
  h.mem e.1 e.2 (Assoc.lookup_of_mem h.nodup he) t

/-- **Through the groups**, in any order, an element is found once, under its key. -/
theorem Grouped.filterMap (h : Grouped l f) (hl : l'.Perm l) (g : κ → Option β) :
    (l'.filterMap fun e => if t ∈ e.2 then g e.1 else none) = ((f t).bind g).toList := by
  have hnone (m : List (κ × List τ)) (hm : ∀ e ∈ m, t ∉ e.2) : (m.filterMap fun e => if t ∈ e.2 then g e.1 else none) = [] :=
    List.filterMap_eq_nil_iff.2 fun e he => if_neg (hm e he)
  have hmem {e : κ × List τ} (he : e ∈ l') : t ∈ e.2 ↔ f t = some e.1 := h.mem_entry (hl.mem_iff.1 he)
  cases hf : f t with
  | none =>
    refine hnone l' fun e he hte => ?_
    rw [hmem he, hf] at hte
    cases hte
  | some k =>
    obtain ⟨ts, hts⟩ := h.has t k hf
    obtain ⟨l₁, l₂, rfl⟩ := List.append_of_mem (hl.mem_iff.2 (Assoc.mem_of_lookup hts))
    have hkeys : ((l₁ ++ (k, ts) :: l₂).map Prod.fst).Nodup := (hl.map _).nodup_iff.2 h.nodup
    rw [List.map_append, List.map_cons, List.nodup_append, List.nodup_cons] at hkeys
    have hother {e : κ × List τ} (he : e ∈ l₁ ++ (k, ts) :: l₂) (hne : e.1 ≠ k) : t ∉ e.2 := by
      rw [hmem he, hf]
      exact fun heq => hne (Option.some.inj heq).symm
    have hbefore : ∀ e ∈ l₁, t ∉ e.2 := fun e he =>
      hother (List.mem_append_left _ he) (hkeys.2.2 e.1 (List.mem_map_of_mem he) k List.mem_cons_self)
    have hafter : ∀ e ∈ l₂, t ∉ e.2 := by
      intro e he
      refine hother (List.mem_append_right _ (List.mem_cons_of_mem _ he)) ?_
      intro heq
      exact hkeys.2.1.1 (List.mem_map.2 ⟨e, he, heq⟩)
    rw [List.filterMap_append, List.filterMap_cons, hnone l₁ hbefore, hnone l₂ hafter]
    have hin : t ∈ ts := (h.mem k ts hts t).2 hf
    rw [if_pos hin, List.nil_append, Option.bind_some]
    cases g k <;> rfl

end TouchHLE.Grouping
