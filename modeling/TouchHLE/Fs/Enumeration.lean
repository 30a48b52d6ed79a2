/-
`Fs::enumerate_recursive`: everything below a directory, with two stacks in place of a recursion.

- `Walk`, `walk`, `enumerateRecursive`: the loop, which may take a number of rounds.
- `walk_iterator`: an iterator is used up after what is below its directory was listed.
- `enumerate_recursive`: what is listed.
-/
import TouchHLE.Fs.FileSystem
import TouchHLE.Lib.Preorder

namespace TouchHLE.Fs

open Machine

/-- the stacks, with the last element first, and the paths so far -/
structure Walk where
  componentStack : List Component
  iteratorStack : List (List (Component × FsNode))
  paths : List Path

/-- `component_stack.join("/")` -/
def joinComponents (components : List Component) : Path := ['/'].intercalate components

def walk : ℕ → Walk → Except Panic Walk
  | 0, _ => throw .tooDeep
  | rounds + 1, ⟨componentStack, iteratorStack, paths⟩ =>
    match iteratorStack with
    | [] => throw .missing
    | ((nextComponent, nextNode) :: currentIterator) :: iterators =>
      let components := nextComponent :: componentStack
      let paths := paths ++ [joinComponents components.reverse]
      match nextNode with
      | .node _ children => walk rounds ⟨components, children :: currentIterator :: iterators, paths⟩
      | .leaf _ => walk rounds ⟨componentStack, currentIterator :: iterators, paths⟩
    | [] :: iterators =>
      match componentStack with
      | [] => pure ⟨[], iterators, paths⟩
      | _ :: components => walk rounds ⟨components, iterators, paths⟩

/-- the result says whether the path is one of a directory -/
def enumerateRecursive (rounds : ℕ) (fs : Fs) (path : Path) : Except Panic (Option (List Path)) := do
  match ← lookupNode fs path with
  | some (.node _ children) => do
    let s ← walk rounds ⟨[], [children], []⟩
    assert (s.componentStack.isEmpty && s.iteratorStack.isEmpty) .stacksLeft
    pure (some s.paths)
  | _ => pure none

/-- the paths below a directory whose own components are on the stack -/
def listed (componentStack : List Component) (children : List (Component × FsNode)) : List Path :=
  (Tree.descendantsOf children).map fun p => joinComponents (componentStack.reverse ++ p)

theorem listed_cons {componentStack : List Component} {name : Component} {node : FsNode} {children : List (Component × FsNode)} :
    listed componentStack ((name, node) :: children) = joinComponents (name :: componentStack).reverse ::
      (listed (name :: componentStack) node.children ++ listed componentStack children) := by
  have hnode : Tree.descendants node = Tree.descendantsOf node.children := by
    cases node <;> rfl
  simp only [listed, Tree.descendantsOf, hnode, List.map_append, List.map_cons, List.map_map, List.reverse_cons,
    List.append_assoc, List.nil_append, List.cons_append, Function.comp_def]

/-- **An iterator** is used up after some rounds, and all that is below its directory has been listed. -/
theorem walk_iterator (children : List (Component × FsNode)) (componentStack : List Component)
    (iterators : List (List (Component × FsNode))) (paths : List Path) : ∃ n, ∀ rounds,
      walk (n + rounds) ⟨componentStack, children :: iterators, paths⟩ =
        walk rounds ⟨componentStack, [] :: iterators, paths ++ listed componentStack children⟩ := by
  match children with
  | [] =>
    refine ⟨0, fun rounds => ?_⟩
    rw [Nat.zero_add, listed, Tree.descendantsOf, List.map_nil, List.append_nil]
  | (name, .leaf label) :: children =>
    obtain ⟨n, hn⟩ := walk_iterator children componentStack iterators (paths ++ [joinComponents (name :: componentStack).reverse])
    refine ⟨n + 1, fun rounds => ?_⟩
    rw [Nat.add_right_comm, walk, hn rounds, listed_cons, List.append_assoc]
    rfl
  | (name, .node label grandchildren) :: children =>
    -- down, and back again
    obtain ⟨m, hm⟩ := walk_iterator grandchildren (name :: componentStack) (children :: iterators)
      (paths ++ [joinComponents (name :: componentStack).reverse])
    obtain ⟨n, hn⟩ := walk_iterator children componentStack iterators
      (paths ++ [joinComponents (name :: componentStack).reverse] ++ listed (name :: componentStack) grandchildren)
    refine ⟨m + (n + 1) + 1, fun rounds => ?_⟩
    rw [Nat.add_right_comm, walk, Nat.add_assoc, hm, Nat.add_right_comm, walk, hn rounds, listed_cons, List.append_assoc,
      List.append_assoc]
    rfl
termination_by sizeOf children

/-- **The loop** ends with both stacks empty. -/
theorem walk_ends (children : List (Component × FsNode)) :
    ∃ n, ∀ rounds, n ≤ rounds → walk rounds ⟨[], [children], []⟩ = .ok ⟨[], [], (Tree.descendantsOf children).map joinComponents⟩ := by
  obtain ⟨n, hn⟩ := walk_iterator children [] [] []
  refine ⟨n + 1, fun rounds hle => ?_⟩
  obtain ⟨extra, rfl⟩ := Nat.exists_eq_add_of_le hle
  rw [Nat.add_assoc, hn, Nat.add_comm, walk]
  rfl

/-- names without slashes can be told apart when they are joined -/
theorem joinComponents_inj {p q : List Component} (hp : p ≠ []) (hq : q ≠ []) (hp' : ∀ name ∈ p, '/' ∉ name)
    (hq' : ∀ name ∈ q, '/' ∉ name) (h : joinComponents p = joinComponents q) : p = q := by
  calc p = (joinComponents p).splitOn '/' := (List.splitOn_intercalate '/' hp' hp).symm
    _ = (joinComponents q).splitOn '/' := by rw [h]
    _ = q := List.splitOn_intercalate '/' hq' hq

/-- **Everything below a directory** is listed, by its path from there, once and after the directory that it is in; then both stacks
are empty. -/
theorem enumerate_recursive {fs : Fs} {path : Path} {dir : FsNode} {writeable : Option Path} {children : List (Component × FsNode)}
    (hlookup : lookupNode fs path = .ok (some dir)) (hdir : dir = .node writeable children) (hdistinct : dir.Distinct) :
    ∃ below : List (List Component),
      (∃ n, ∀ rounds, n ≤ rounds → enumerateRecursive rounds fs path = .ok (some (below.map joinComponents))) ∧
        (∀ p, p ∈ below ↔ p ≠ [] ∧ dir.lookup p ≠ none) ∧ below.Nodup ∧ (below.Pairwise fun p q => ¬q <+: p) ∧
        ((∀ p, dir.lookup p ≠ none → ∀ name ∈ p, '/' ∉ name) → (below.map joinComponents).Nodup) := by
  subst hdir
  have hordered := Tree.descendants_ordered hdistinct
  have hnodup : (Tree.descendantsOf children).Nodup :=
    List.Pairwise.imp (fun {p q} hpq (heq : p = q) => hpq (heq ▸ List.prefix_refl _)) hordered
  refine ⟨Tree.descendantsOf children, ?_, fun p => Tree.mem_descendants hdistinct, hnodup, hordered, fun hnames => ?_⟩
  · obtain ⟨n, hn⟩ := walk_ends children
    refine ⟨n, fun rounds hle => ?_⟩
    rw [enumerateRecursive, hlookup, ok_bind]
    dsimp only
    rw [hn rounds hle]
    rfl
  · refine hnodup.map_on fun p hp q hq heq => ?_
    obtain ⟨hp, hp'⟩ := (Tree.mem_descendants hdistinct).1 hp
    obtain ⟨hq, hq'⟩ := (Tree.mem_descendants hdistinct).1 hq
    exact joinComponents_inj hp hq (hnames p hp') (hnames q hq') heq

/-- a file in a directory, and a file -/
def twoFiles : List (Component × FsNode) :=
  [(['d'], .node none [(['f'], .leaf ⟨.ipaFileRef 0, false⟩)]), (['g'], .leaf ⟨.ipaFileRef 1, false⟩)]

theorem twoFiles_distinct : (Tree.node none twoFiles : FsNode).Distinct := by
  refine Tree.Distinct.of_node (by decide) fun name c hc => ?_
  rcases List.mem_cons.1 hc with heq | hc
  · obtain ⟨rfl, rfl⟩ := Prod.mk.inj heq
    refine Tree.Distinct.of_node (by decide) fun name c hc => ?_
    obtain ⟨rfl, rfl⟩ := Prod.mk.inj (List.mem_singleton.1 hc)
    exact Tree.Distinct.leaf
  · obtain ⟨rfl, rfl⟩ := Prod.mk.inj (List.mem_singleton.1 hc)
    exact Tree.Distinct.leaf

theorem enumerate_recursive_sample : ∃ below : List (List Component),
    ∃ n, ∀ rounds, n ≤ rounds → enumerateRecursive rounds ⟨.node none twoFiles, ['/']⟩ ['/'] = .ok (some (below.map joinComponents)) := by
  have hlookup : lookupNode ⟨.node none twoFiles, ['/']⟩ ['/'] = .ok (some (.node none twoFiles)) := rfl
  obtain ⟨below, hrounds, -⟩ := enumerate_recursive hlookup rfl twoFiles_distinct
  exact ⟨below, hrounds⟩

example : enumerateRecursive 9 ⟨.node none twoFiles, ['/']⟩ ['/'] = .ok (some [['d'], ['d', '/', 'f'], ['g']]) := by decide

end TouchHLE.Fs
