/-
The paths in a tree, each before those below it. Nothing here names the program being modelled.

- `descendants`, `descendantsOf`: the paths of everything below the root.
- `Distinct`: the children of every node have different names.
- `mem_descendants`: these are the paths at which there is something.
- `descendants_ordered`: no path comes after one below it, nor twice.
-/
import TouchHLE.Lib.Tree

namespace TouchHLE.Tree

variable {K L N : Type}

mutual

def descendants : Tree K L N → List (List K)
  | .leaf _ => []
  | .node _ cs => descendantsOf cs

def descendantsOf : List (K × Tree K L N) → List (List K)
  | [] => []
  | (k, c) :: cs => ([k] :: (descendants c).map (k :: ·)) ++ descendantsOf cs

end

variable [DecidableEq K] {t c : Tree K L N} {cs : List (K × Tree K L N)} {k : K} {n : N} {p q : List K}

def Distinct (t : Tree K L N) : Prop := ∀ p c, t.lookup p = some c → (c.children.map Prod.fst).Nodup

theorem descendantsOf_eq (cs : List (K × Tree K L N)) :
    descendantsOf cs = cs.flatMap fun e => [e.1] :: (descendants e.2).map (e.1 :: ·) := by
  induction cs with
  | nil => rfl
  | cons e cs ih => rw [descendantsOf, ih, List.flatMap_cons]

theorem cons_mem_descendantsOf : k :: p ∈ descendantsOf cs ↔ ∃ c, (k, c) ∈ cs ∧ (p = [] ∨ p ∈ descendants c) := by
  rw [descendantsOf_eq, List.mem_flatMap]
  constructor
  · rintro ⟨⟨k', c⟩, he, hp⟩
    rcases List.mem_cons.1 hp with hp | hp
    · obtain ⟨rfl, rfl⟩ := List.cons.inj hp
      exact ⟨c, he, .inl rfl⟩
    · obtain ⟨p', hp', heq⟩ := List.mem_map.1 hp
      obtain ⟨rfl, rfl⟩ := List.cons.inj heq
      exact ⟨c, he, .inr hp'⟩
  · rintro ⟨c, he, hp⟩
    refine ⟨(k, c), he, ?_⟩
    rcases hp with rfl | hp
    · exact List.mem_cons_self
    · exact List.mem_cons_of_mem _ (List.mem_map.2 ⟨p, hp, rfl⟩)

theorem nil_notMem_descendants : [] ∉ descendants t := by
  cases t with
  | leaf l => exact List.not_mem_nil
  | node n cs =>
    rw [descendants, descendantsOf_eq, List.mem_flatMap]
    rintro ⟨e, -, hp⟩
    rcases List.mem_cons.1 hp with hp | hp
    · cases hp
    · obtain ⟨p, -, hp⟩ := List.mem_map.1 hp
      cases hp

/-- different names: a child is found by its name -/
theorem child_of_mem (hn : (cs.map Prod.fst).Nodup) (hc : (k, c) ∈ cs) : child cs k = some c := Assoc.lookup_of_mem hn hc

theorem Distinct.keys (h : (node n cs).Distinct) : (cs.map Prod.fst).Nodup := h [] _ lookup_nil

theorem Distinct.child (h : (node n cs).Distinct) (hc : (k, c) ∈ cs) : c.Distinct := by
  intro p d hd
  refine h (k :: p) d ?_
  rw [lookup_cons, children, child_of_mem h.keys hc, Option.bind_some, hd]

theorem Distinct.leaf {l : L} : (leaf l : Tree K L N).Distinct := by
  intro p c hc
  cases p with
  | nil =>
    rw [lookup_nil] at hc
    cases hc
    exact List.nodup_nil
  | cons k p => cases hc

theorem Distinct.of_node (hkeys : (cs.map Prod.fst).Nodup) (hcs : ∀ k c, (k, c) ∈ cs → c.Distinct) : (node n cs).Distinct := by
  intro p d hd
  cases p with
  | nil =>
    rw [lookup_nil] at hd
    cases hd
    exact hkeys
  | cons k p =>
    rw [lookup_cons, children, Option.bind_eq_some_iff] at hd
    obtain ⟨c, hc, hd⟩ := hd
    exact hcs k c (Assoc.mem_of_lookup hc) p d hd

/-- **What is listed** is what there is. -/
theorem mem_descendants (h : t.Distinct) : p ∈ descendants t ↔ p ≠ [] ∧ t.lookup p ≠ none := by
  induction p generalizing t with
  | nil => exact iff_of_false nil_notMem_descendants fun hp => hp.1 rfl
  | cons k p ih =>
    rw [and_iff_right (List.cons_ne_nil k p)]
    cases t with
    | leaf l => exact iff_of_false List.not_mem_nil fun hp => hp rfl
    | node n cs =>
      rw [descendants, cons_mem_descendantsOf, lookup_cons, children]
      constructor
      · rintro ⟨c, hc, hp⟩
        rw [child_of_mem h.keys hc, Option.bind_some]
        rcases hp with rfl | hp
        · rw [lookup_nil]
          exact Option.some_ne_none c
        · exact ((ih (h.child hc)).1 hp).2
      · intro hp
        cases hc : Tree.child cs k with
        | none =>
          rw [hc] at hp
          exact absurd rfl hp
        | some c =>
          have hmem : (k, c) ∈ cs := Assoc.mem_of_lookup hc
          rw [hc, Option.bind_some] at hp
          refine ⟨c, hmem, ?_⟩
          by_cases hnil : p = []
          · exact .inl hnil
          · exact .inr ((ih (h.child hmem)).2 ⟨hnil, hp⟩)

/-- below different children -/
theorem not_prefix_of_ne {k k' : K} (hne : k ≠ k') : ¬k' :: q <+: k :: p := fun h => hne (List.cons_prefix_cons.1 h).1.symm

/-- **The order**: what comes later is not above what came before, and not the same. -/
theorem descendants_ordered {t : Tree K L N} (h : t.Distinct) : (descendants t).Pairwise fun p q => ¬q <+: p := by
  match t with
  | .leaf l => exact List.Pairwise.nil
  | .node n cs =>
    have hkeys := h.keys
    have hchild {k : K} {c : Tree K L N} (hc : (k, c) ∈ cs) := h.child hc
    clear h
    rw [descendants, descendantsOf_eq]
    rw [List.pairwise_flatMap]
    refine ⟨fun ⟨k, c⟩ he => ?_, ?_⟩
    · have hordered := descendants_ordered (hchild he)
      refine List.pairwise_cons.2 ⟨fun p hp => ?_, ?_⟩
      · obtain ⟨p', hp', rfl⟩ := List.mem_map.1 hp
        rintro ⟨r, hr⟩
        have hnil : p' ++ r = [] := (List.cons.inj hr).2
        exact nil_notMem_descendants ((List.append_eq_nil_iff.1 hnil).1 ▸ hp')
      · rw [List.pairwise_map]
        exact hordered.imp fun hpq hprefix => hpq (List.cons_prefix_cons.1 hprefix).2
    · rw [List.Nodup, List.pairwise_map] at hkeys
      refine hkeys.imp fun {e e'} hne p hp q hq => ?_
      have hhead {e : K × Tree K L N} {p : List K} (hp : p ∈ [e.1] :: (descendants e.2).map (e.1 :: ·)) : ∃ p', p = e.1 :: p' := by
        rcases List.mem_cons.1 hp with rfl | hp
        · exact ⟨[], rfl⟩
        · obtain ⟨p', -, rfl⟩ := List.mem_map.1 hp
          exact ⟨p', rfl⟩
      obtain ⟨p, rfl⟩ := hhead hp
      obtain ⟨q, rfl⟩ := hhead hq
      exact not_prefix_of_ne hne
termination_by sizeOf t
decreasing_by
  have h1 := List.sizeOf_lt_of_mem he
  have h2 : sizeOf (k, c) = 1 + sizeOf k + sizeOf c := rfl
  simp only [Tree.node.sizeOf_spec]
  omega

end TouchHLE.Tree
