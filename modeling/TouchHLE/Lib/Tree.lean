/-
Trees with labels at the leaves and at the inner nodes, whose children have names: the directories of a file system. Nothing
here names the program being modelled.

- `Tree`, `lookup`, `labelAt`: the tree, the subtree at a path and what is written at its root.
- `alter`, `insertAt`, `removeAt`: the children of the node at a path are changed, one is added or replaced, one is removed.
- `labelAt_insertAt`, `labelAt_removeAt`: below the changed child the labels are those of the new one, elsewhere they are as before.
- `mapPaths`: a copy of a tree that is relabelled, where the new labels depend on the path.
-/
import TouchHLE.Lib.Assoc

namespace TouchHLE

inductive Tree (K L N : Type) where
  | leaf (label : L)
  | node (label : N) (children : List (K × Tree K L N))

namespace Tree

variable {K L N L' N' P : Type} [DecidableEq K]

def label : Tree K L N → L ⊕ N
  | leaf l => .inl l
  | node n _ => .inr n

def children : Tree K L N → List (K × Tree K L N)
  | leaf _ => []
  | node _ cs => cs

/-- the child of that name -/
def child (cs : List (K × Tree K L N)) (k : K) : Option (Tree K L N) := cs.lookup k

/-- the subtree at a path -/
def lookup : Tree K L N → List K → Option (Tree K L N)
  | t, [] => some t
  | t, k :: p =>
    match child t.children k with
    | none => none
    | some c => lookup c p

def labelAt (t : Tree K L N) (p : List K) : Option (L ⊕ N) := (t.lookup p).map label

/-- the children of the node at the path are changed, if there is such a node -/
def alter (f : List (K × Tree K L N) → List (K × Tree K L N)) : Tree K L N → List K → Tree K L N
  | leaf l, _ => leaf l
  | node n cs, [] => node n (f cs)
  | node n cs, k :: p =>
    match child cs k with
    | none => node n cs
    | some c => node n (Assoc.insert k (alter f c p) cs)

def insertAt (t : Tree K L N) (p : List K) (k : K) (c : Tree K L N) : Tree K L N := alter (Assoc.insert k c) t p

def removeAt (t : Tree K L N) (p : List K) (k : K) : Tree K L N := alter (Assoc.erase k) t p

variable {t c : Tree K L N} {k k' : K} {p q : List K} {n : N} {cs : List (K × Tree K L N)} {l : L}

@[simp] theorem child_insert_self : child (Assoc.insert k c cs) k = some c := Assoc.lookup_insert_self

theorem child_insert_of_ne (h : k' ≠ k) : child (Assoc.insert k c cs) k' = child cs k' := Assoc.lookup_insert_of_ne h

@[simp] theorem child_erase_self : child (Assoc.erase k cs) k = none := Assoc.lookup_erase_self

theorem child_erase_of_ne (h : k' ≠ k) : child (Assoc.erase k cs) k' = child cs k' := Assoc.lookup_erase_of_ne h

/-! ## Looking up -/

@[simp] theorem lookup_nil : t.lookup [] = some t := by
  cases t <;> rfl

theorem lookup_cons : t.lookup (k :: p) = (child t.children k).bind fun c => c.lookup p := by
  rw [lookup]
  cases child t.children k <;> rfl

theorem lookup_append : t.lookup (p ++ q) = (t.lookup p).bind fun c => c.lookup q := by
  induction p generalizing t with
  | nil => rw [List.nil_append, lookup_nil, Option.bind_some]
  | cons k p ih =>
    rw [List.cons_append, lookup_cons, lookup_cons]
    cases child t.children k with
    | none => rfl
    | some c => exact ih

theorem labelAt_append : t.labelAt (p ++ q) = (t.lookup p).bind fun c => c.labelAt q := by
  rw [labelAt, lookup_append]
  cases t.lookup p <;> rfl

theorem labelAt_cons : t.labelAt (k :: p) = (child t.children k).bind fun c => c.labelAt p := by
  rw [labelAt, lookup_cons]
  cases child t.children k <;> rfl

theorem labelAt_of_lookup (h : t.lookup p = some c) : t.labelAt p = some c.label := by
  rw [labelAt, h, Option.map_some]

theorem lookup_of_labelAt {x : L ⊕ N} (h : t.labelAt p = some x) : ∃ c, t.lookup p = some c ∧ c.label = x :=
  Option.map_eq_some_iff.1 h

theorem lookup_node (h : t.labelAt p = some (.inr n)) : ∃ cs, t.lookup p = some (node n cs) := by
  obtain ⟨c, hc, hlabel⟩ := lookup_of_labelAt h
  cases c with
  | leaf l => cases hlabel
  | node n' cs =>
    obtain rfl : n' = n := Sum.inr.inj hlabel
    exact ⟨cs, hc⟩

theorem lookup_leaf (h : t.labelAt p = some (.inl l)) : t.lookup p = some (leaf l) := by
  obtain ⟨c, hc, hlabel⟩ := lookup_of_labelAt h
  cases c with
  | leaf l' =>
    obtain rfl : l' = l := Sum.inl.inj hlabel
    exact hc
  | node n' cs => cases hlabel

/-- nothing is below a leaf -/
theorem labelAt_below_leaf (h : t.labelAt p = some (.inl l)) : t.labelAt (p ++ k :: q) = none := by
  rw [labelAt_append, lookup_leaf h, Option.bind_some, labelAt_cons]
  rfl

/-- what has something below it is a node -/
theorem node_above (h : t.labelAt (p ++ k :: q) ≠ none) : ∃ n, t.labelAt p = some (.inr n) := by
  cases hlabel : t.labelAt p with
  | none =>
    rw [labelAt, Option.map_eq_none_iff] at hlabel
    rw [labelAt_append, hlabel] at h
    exact absurd rfl h
  | some x =>
    cases x with
    | inl l => exact absurd (labelAt_below_leaf hlabel) h
    | inr n => exact ⟨n, rfl⟩

/-- nothing is below what there is not -/
theorem labelAt_below_none (h : t.labelAt p = none) : t.labelAt (p ++ q) = none := by
  rw [labelAt, Option.map_eq_none_iff] at h
  rw [labelAt_append, h, Option.bind_none]

theorem labelAt_child (h : t.lookup p = some c) : t.labelAt (p ++ [k]) = (child c.children k).map label := by
  rw [labelAt_append, h, Option.bind_some, labelAt_cons]
  cases child c.children k with
  | none => rfl
  | some c => rw [Option.bind_some, labelAt, lookup_nil]

theorem lookup_child (h : t.lookup p = some (node n cs)) : t.lookup (p ++ [k]) = child cs k := by
  rw [lookup_append, h, Option.bind_some, lookup_cons, children]
  cases child cs k with
  | none => rfl
  | some c => exact lookup_nil

theorem labelAt_child_node (h : t.lookup p = some (node n cs)) : t.labelAt (p ++ [k]) = (child cs k).map label := labelAt_child h

/-! ## Changing children -/

variable {f : List (K × Tree K L N) → List (K × Tree K L N)}

/-- the changed node -/
theorem lookup_alter_self (h : t.lookup p = some (node n cs)) : (alter f t p).lookup p = some (node n (f cs)) := by
  induction p generalizing t with
  | nil =>
    rw [lookup_nil] at h
    cases h
    rw [lookup_nil, alter]
  | cons k p ih =>
    cases t with
    | leaf l =>
      rw [lookup_cons] at h
      cases h
    | node n' cs' =>
      rw [lookup_cons, children] at h
      cases hk : child cs' k with
      | none =>
        rw [hk] at h
        cases h
      | some c =>
        rw [hk, Option.bind_some] at h
        rw [alter, hk, lookup_cons, children, child_insert_self, Option.bind_some]
        exact ih h

/-- **Outside the changed children** every label is as before. -/
theorem labelAt_alter_of_ne (hf : ∀ k', k' ≠ k → ∀ cs, child (f cs) k' = child cs k') (h : ¬p ++ [k] <+: q) :
    (alter f t p).labelAt q = t.labelAt q := by
  induction p generalizing t q with
  | nil =>
    cases t with
    | leaf l => rfl
    | node n cs =>
      cases q with
      | nil => rfl
      | cons k' q =>
        have hne : k' ≠ k := by
          rintro rfl
          exact h ⟨q, rfl⟩
        rw [alter, labelAt_cons, labelAt_cons, children, children, hf k' hne]
  | cons k₁ p ih =>
    cases t with
    | leaf l => rfl
    | node n cs =>
      rw [alter]
      cases hk : child cs k₁ with
      | none => rfl
      | some c =>
        cases q with
        | nil => rfl
        | cons k' q =>
          rw [labelAt_cons, labelAt_cons, children, children]
          by_cases heq : k' = k₁
          · subst heq
            rw [child_insert_self, hk, Option.bind_some, Option.bind_some]
            exact ih fun hprefix => h (List.cons_prefix_cons.2 ⟨rfl, hprefix⟩)
          · rw [child_insert_of_ne heq]

theorem labelAt_insertAt (h : t.lookup p = some (node n cs)) (q : List K) :
    (insertAt t p k c).labelAt (p ++ k :: q) = c.labelAt q := by
  rw [insertAt, labelAt_append, lookup_alter_self h, Option.bind_some, labelAt_cons, children, child_insert_self,
    Option.bind_some]

theorem labelAt_insertAt_of_ne (h : ¬p ++ [k] <+: q) : (insertAt t p k c).labelAt q = t.labelAt q :=
  labelAt_alter_of_ne (fun _ hne _ => child_insert_of_ne hne) h

theorem labelAt_removeAt (h : t.lookup p = some (node n cs)) (q : List K) : (removeAt t p k).labelAt (p ++ k :: q) = none := by
  rw [removeAt, labelAt_append, lookup_alter_self h, Option.bind_some, labelAt_cons, children, child_erase_self,
    Option.bind_none]

theorem labelAt_removeAt_of_ne (h : ¬p ++ [k] <+: q) : (removeAt t p k).labelAt q = t.labelAt q :=
  labelAt_alter_of_ne (fun _ hne _ => child_erase_of_ne hne) h

/-! ## Copies -/

section

variable (leafLabel : P → L → L') (nodeLabel : P → N → N') (join : P → K → P)

mutual

/-- the tree with labels that depend on the path from the root -/
def mapPaths : P → Tree K L N → Tree K L' N'
  | p, .leaf l => .leaf (leafLabel p l)
  | p, .node n cs => .node (nodeLabel p n) (mapChildren p cs)

def mapChildren : P → List (K × Tree K L N) → List (K × Tree K L' N')
  | _, [] => []
  | p, (k, c) :: cs => (k, mapPaths (join p k) c) :: mapChildren p cs

end

theorem lookup_mapChildren (p : P) :
    child (mapChildren leafLabel nodeLabel join p cs) k =
      (child cs k).map fun c => mapPaths leafLabel nodeLabel join (join p k) c := by
  induction cs with
  | nil => rfl
  | cons e cs ih =>
    obtain ⟨k', c⟩ := e
    rw [mapChildren, child, child, List.lookup_cons, List.lookup_cons]
    cases hk : k == k' with
    | true =>
      obtain rfl := eq_of_beq hk
      rfl
    | false => exact ih

theorem labelAt_mapPaths (p : P) (q : List K) : (mapPaths leafLabel nodeLabel join p t).labelAt q =
    (t.labelAt q).map (Sum.map (leafLabel (q.foldl join p)) (nodeLabel (q.foldl join p))) := by
  induction q generalizing t p with
  | nil =>
    cases t <;> rfl
  | cons k q ih =>
    rw [labelAt_cons, labelAt_cons]
    cases t with
    | leaf l => rfl
    | node n cs =>
      rw [mapPaths, children, children, lookup_mapChildren]
      cases child cs k with
      | none => rfl
      | some c => exact ih (join p k)

end

end Tree

end TouchHLE
