/-
The order in which binaries are loaded (`generate_binary_load_order` of `environment.rs`): a binary comes after the
libraries that it depends on and that are in the app's bundle.

- `nodeToIndex`, `addNode`: the maps that the first loop builds; `LoadSort`: the variables of the second.
- `edges`: the dependencies in the order in which they are found; `DependsOn`: one of them.
- `built_dependents`, `built_inDegrees`: what the maps are in terms of the dependencies.
- `load_order_spec`: there is an order exactly if there is no cycle, and it is a right one.
-/
import TouchHLE.Dyld.Linker
import TouchHLE.Lib.Kahn

namespace TouchHLE

open Machine Kahn

namespace Dyld

structure BinaryDependencyNode where
  name : String
  dependencies : List String

/-- the messages of `generate_binary_load_order` -/
inductive LoadOrderError where
  /-- "Failed to find {:?} name mapping" -/
  | mapping (name : String)
  /-- "Failed to sort nodes, cycle with {:?}" -/
  | cycle (name : String)
deriving DecidableEq, Repr

/-- `node_to_index`; of several nodes of one name the last is in the map -/
def nodeToIndex (graph : List BinaryDependencyNode) : String → Option ℕ :=
  graph.zipIdx.foldl (fun m node => Function.update m node.1.name (some node.2)) fun _ => none

/-- the name that a dependency has in the map, if it is there -/
def dependencyName (path : String) : String := (stripPrefix "/usr/lib/" path).getD path

/-- the maps over the indexes of the nodes; the in-degrees are `i32`s, which count load commands of one binary -/
structure LoadGraph where
  nodeDependents : ℕ → Option (List ℕ)
  nodeInDegrees : ℕ → Option ℤ

/-- the maps before the first loop -/
def LoadGraph.new (graph : List BinaryDependencyNode) : LoadGraph :=
  { nodeDependents := fun _ => none
    nodeInDegrees := fun idx => if graph.any fun node => nodeToIndex graph node.name = some idx then some 0 else none }

/-- binary `edge.1` depends on binary `edge.2` -/
def LoadGraph.addEdge (g : LoadGraph) (edge : ℕ × ℕ) : LoadGraph :=
  { nodeDependents := Function.update g.nodeDependents edge.2 (some ((g.nodeDependents edge.2).getD [] ++ [edge.1]))
    nodeInDegrees := Function.update g.nodeInDegrees edge.1 ((g.nodeInDegrees edge.1).map (· + 1)) }

/-- a dependency that is not in the bundle is ignored -/
def LoadGraph.addDependency (graph : List BinaryDependencyNode) (binIndex : ℕ) (g : LoadGraph) (path : String) : LoadGraph :=
  match nodeToIndex graph (dependencyName path) with
  | none => g
  | some dylibIndex => g.addEdge (binIndex, dylibIndex)

def LoadGraph.addNode (graph : List BinaryDependencyNode) (g : LoadGraph) (node : BinaryDependencyNode) :
    Except LoadOrderError LoadGraph :=
  match nodeToIndex graph node.name with
  | none => .error (.mapping node.name)
  | some binIndex => .ok (node.dependencies.foldl (addDependency graph binIndex) g)

/-- the variables of the loop that sorts; `dependents` are those of the last node that are still to be counted -/
structure LoadSort where
  leafNodes : List ℕ
  nodeInDegrees : ℕ → Option ℤ
  sortedIndices : List ℕ
  dependents : List ℕ

/-- a round of the inner loop, or the beginning of one of the outer loop -/
def LoadSort.next (nodeDependents : ℕ → Option (List ℕ)) (s : LoadSort) : Option LoadSort :=
  match s.dependents, s.leafNodes with
  | dependant :: dependents, leafNodes =>
    match s.nodeInDegrees dependant with
    | none => some { s with dependents := dependents }
    | some inDegree =>
      some { s with
        dependents := dependents
        nodeInDegrees := Function.update s.nodeInDegrees dependant (some (inDegree - 1))
        leafNodes := if inDegree - 1 = 0 then leafNodes ++ [dependant] else leafNodes }
  | [], node :: leafNodes =>
    some { s with
      leafNodes := leafNodes
      sortedIndices := s.sortedIndices ++ [node]
      dependents := (nodeDependents node).getD [] }
  | [], [] => none

/-- the loops, of at most as many rounds as the number says -/
def LoadSort.loop (nodeDependents : ℕ → Option (List ℕ)) : ℕ → LoadSort → Except Panic LoadSort
  | 0, _ => .error .tooDeep
  | rounds + 1, s =>
    match s.next nodeDependents with
    | none => .ok s
    | some s => s.loop nodeDependents rounds

/-- the variables before the loop, with the order in which the map of the in-degrees is iterated over -/
def LoadSort.start (g : LoadGraph) (order : List ℕ) : LoadSort :=
  { leafNodes := order.filter fun idx => g.nodeInDegrees idx = some 0
    nodeInDegrees := g.nodeInDegrees
    sortedIndices := []
    dependents := [] }

def generateBinaryLoadOrder (graph : List BinaryDependencyNode) (order : List ℕ) :
    Except Panic (Except LoadOrderError (List ℕ)) := do
  match graph.foldlM (LoadGraph.addNode graph) (.new graph) with
  | .error e => pure (.error e)
  | .ok g =>
    let rounds := graph.length + (graph.map fun node => node.dependencies.length).sum + 1
    let s ← (LoadSort.start g order).loop g.nodeDependents rounds
    match order.find? fun idx => (s.nodeInDegrees idx).any (0 < ·) with
    | some index => do
      let node ← unwrap graph[index]? .missing
      pure (.error (.cycle node.name))
    | none => do
      -- the names are logged
      let _ ← s.sortedIndices.mapM fun index => unwrap graph[index]? .missing
      pure (.ok s.sortedIndices)

/-! ## Dependencies -/

/-- binary `i` depends on binary `j` of the list -/
def DependsOn (graph : List BinaryDependencyNode) (i j : ℕ) : Prop :=
  ∃ node lib path, graph[i]? = some node ∧ graph[j]? = some lib ∧ path ∈ node.dependencies ∧ dependencyName path = lib.name

/-- the dependencies of a node on listed binaries, by their indexes -/
def nodeEdges (graph : List BinaryDependencyNode) (node : BinaryDependencyNode) : List (ℕ × ℕ) :=
  match nodeToIndex graph node.name with
  | none => []
  | some i => node.dependencies.filterMap fun path => (nodeToIndex graph (dependencyName path)).map (Prod.mk i)

/-- all dependencies, as the first loop finds them -/
def edges (graph : List BinaryDependencyNode) : List (ℕ × ℕ) := graph.flatMap (nodeEdges graph)

variable {graph l : List BinaryDependencyNode} {node : BinaryDependencyNode} {g : LoadGraph} {name : String} {i j : ℕ}
  {order : List ℕ} {s s' : LoadSort} {nodeDependents : ℕ → Option (List ℕ)} {es : List (ℕ × ℕ)} {edge : ℕ × ℕ}

theorem nodeToIndex_concat : nodeToIndex (l ++ [node]) = Function.update (nodeToIndex l) node.name (some l.length) := by
  rw [nodeToIndex, List.zipIdx_append, List.foldl_append, nodeToIndex]
  simp only [List.zipIdx_singleton, List.foldl_cons, List.foldl_nil, Nat.zero_add]

/-- **The map of the names**, if they are different -/
theorem nodeToIndex_eq_some (hn : (graph.map BinaryDependencyNode.name).Nodup) :
    nodeToIndex graph name = some i ↔ ∃ node, graph[i]? = some node ∧ node.name = name := by
  induction graph using List.reverseRecOn with
  | nil => simp [nodeToIndex]
  | append_singleton l node ih =>
    rw [List.map_append, List.nodup_append] at hn
    obtain ⟨hl, -, hdisj⟩ := hn
    rw [nodeToIndex_concat, Function.update_apply]
    split_ifs with heq
    · subst heq
      constructor
      · intro h
        cases h
        exact ⟨node, List.getElem?_concat_length, rfl⟩
      · rintro ⟨node', hget, hname⟩
        by_cases hi : i < l.length
        · rw [List.getElem?_append_left hi] at hget
          exact absurd hname (hdisj _ (List.mem_map_of_mem (List.mem_of_getElem? hget)) _ (List.mem_singleton.2 rfl))
        · have hlt := (List.getElem?_eq_some_iff.1 hget).1
          rw [List.length_append, List.length_singleton] at hlt
          exact congrArg some (Nat.le_antisymm (Nat.le_of_not_lt hi) (Nat.le_of_lt_succ hlt))
    · rw [ih hl]
      constructor
      · rintro ⟨node', hget, hname⟩
        exact ⟨node', by rw [List.getElem?_append_left (List.getElem?_eq_some_iff.1 hget).1, hget], hname⟩
      · rintro ⟨node', hget, hname⟩
        refine ⟨node', ?_, hname⟩
        by_cases hi : i < l.length
        · rwa [List.getElem?_append_left hi] at hget
        · rw [List.getElem?_append_right (Nat.le_of_not_lt hi)] at hget
          rw [List.mem_singleton.1 (List.mem_of_getElem? hget)] at hname
          exact absurd hname.symm heq

theorem nodeToIndex_of_getElem? (hn : (graph.map BinaryDependencyNode.name).Nodup) (h : graph[i]? = some node) :
    nodeToIndex graph node.name = some i := (nodeToIndex_eq_some hn).2 ⟨node, h, rfl⟩

/-- **The edges are the dependencies.** -/
theorem mem_edges (hn : (graph.map BinaryDependencyNode.name).Nodup) : (i, j) ∈ edges graph ↔ DependsOn graph i j := by
  rw [edges, List.mem_flatMap]
  constructor
  · rintro ⟨node, hnode, hedge⟩
    obtain ⟨k, hk⟩ := List.mem_iff_getElem?.1 hnode
    rw [nodeEdges, nodeToIndex_of_getElem? hn hk, List.mem_filterMap] at hedge
    obtain ⟨path, hpath, hedge⟩ := hedge
    obtain ⟨j', hj, heq⟩ := Option.map_eq_some_iff.1 hedge
    obtain ⟨rfl, rfl⟩ := Prod.mk.inj heq
    obtain ⟨lib, hlib, hname⟩ := (nodeToIndex_eq_some hn).1 hj
    exact ⟨node, lib, path, hk, hlib, hpath, hname.symm⟩
  · rintro ⟨node, lib, path, hi, hj, hpath, hname⟩
    refine ⟨node, List.mem_of_getElem? hi, ?_⟩
    rw [nodeEdges, nodeToIndex_of_getElem? hn hi, List.mem_filterMap]
    exact ⟨path, hpath, by rw [(nodeToIndex_eq_some hn).2 ⟨lib, hj, hname.symm⟩, Option.map_some]⟩

theorem DependsOn.lt (h : DependsOn graph i j) : i < graph.length ∧ j < graph.length := by
  obtain ⟨_, _, _, hi, hj, -⟩ := h
  exact ⟨(List.getElem?_eq_some_iff.1 hi).1, (List.getElem?_eq_some_iff.1 hj).1⟩

/-! ## The maps -/

theorem foldl_addDependency {paths : List String} :
    paths.foldl (LoadGraph.addDependency graph i) g =
      (paths.filterMap fun path => (nodeToIndex graph (dependencyName path)).map (Prod.mk i)).foldl LoadGraph.addEdge g := by
  induction paths generalizing g with
  | nil => rfl
  | cons path paths ih =>
    rw [List.foldl_cons, ih, List.filterMap_cons, LoadGraph.addDependency]
    cases nodeToIndex graph (dependencyName path) <;> rfl

/-- **The first loop** adds the edges. -/
theorem foldlM_addNode (h : ∀ node ∈ l, nodeToIndex graph node.name ≠ none) :
    l.foldlM (LoadGraph.addNode graph) g = .ok ((l.flatMap (nodeEdges graph)).foldl LoadGraph.addEdge g) := by
  induction l generalizing g with
  | nil => rfl
  | cons node l ih =>
    obtain ⟨i, hi⟩ := Option.ne_none_iff_exists'.1 (h node List.mem_cons_self)
    have hnode : LoadGraph.addNode graph g node = .ok ((nodeEdges graph node).foldl LoadGraph.addEdge g) := by
      rw [LoadGraph.addNode, nodeEdges, hi]
      exact congrArg Except.ok foldl_addDependency
    rw [List.foldlM_cons, hnode, ok_bind, ih fun node' h' => h node' (List.mem_cons_of_mem _ h'), List.flatMap_cons,
      List.foldl_append]

/-- the dependents of a binary, one entry for each dependency -/
def dependentsOf (edges : List (ℕ × ℕ)) (j : ℕ) : List ℕ := (edges.filter fun edge => edge.2 = j).map Prod.fst

theorem addEdge_dependents : (g.addEdge edge).nodeDependents j =
    if j = edge.2 then some ((g.nodeDependents edge.2).getD [] ++ [edge.1]) else g.nodeDependents j := by
  simp only [LoadGraph.addEdge, Function.update_apply]

theorem addEdge_inDegrees : (g.addEdge edge).nodeInDegrees i =
    if i = edge.1 then (g.nodeInDegrees edge.1).map (· + 1) else g.nodeInDegrees i := by
  simp only [LoadGraph.addEdge, Function.update_apply]

theorem built_dependents :
    ((es.foldl LoadGraph.addEdge g).nodeDependents j).getD [] = (g.nodeDependents j).getD [] ++ dependentsOf es j := by
  induction es generalizing g with
  | nil => exact (List.append_nil _).symm
  | cons edge es ih =>
    rw [List.foldl_cons, ih, addEdge_dependents, dependentsOf, dependentsOf, List.filter_cons]
    by_cases hj : edge.2 = j
    · rw [if_pos hj.symm, if_pos (decide_eq_true hj), List.map_cons, Option.getD_some, hj, List.append_assoc,
        List.singleton_append]
    · rw [if_neg (Ne.symm hj), if_neg fun h => hj (of_decide_eq_true h)]

theorem built_inDegrees :
    (es.foldl LoadGraph.addEdge g).nodeInDegrees i =
      (g.nodeInDegrees i).map fun d => d + ((es.countP fun edge => edge.1 = i : ℕ) : ℤ) := by
  induction es generalizing g with
  | nil =>
    rw [List.foldl_nil, List.countP_nil]
    cases g.nodeInDegrees i <;> simp
  | cons edge es ih =>
    rw [List.foldl_cons, ih, addEdge_inDegrees, List.countP_cons]
    by_cases hi : edge.1 = i
    · rw [if_pos hi.symm, if_pos (decide_eq_true hi), hi, Option.map_map]
      congr 1
      funext d
      simp only [Function.comp_apply]
      push_cast
      ring
    · rw [if_neg (Ne.symm hi), if_neg fun h => hi (of_decide_eq_true h), Nat.add_zero]

/-- the edges that are counted at their ends are all edges -/
theorem sum_countP {n : ℕ} (p : ℕ × ℕ → Bool) (h : ∀ edge ∈ es, edge.2 < n) :
    ∑ j ∈ Finset.range n, (es.filter fun edge => edge.2 = j).countP p = es.countP p := by
  induction es with
  | nil => simp
  | cons edge es ih =>
    have hsplit : ∀ j, ((edge :: es).filter fun edge => edge.2 = j).countP p =
        (es.filter fun edge => edge.2 = j).countP p + if edge.2 = j then (if p edge then 1 else 0) else 0 := by
      intro j
      rw [List.filter_cons]
      by_cases hj : edge.2 = j
      · rw [if_pos (decide_eq_true hj), if_pos hj, List.countP_cons]
      · rw [if_neg fun h => hj (of_decide_eq_true h), if_neg hj, Nat.add_zero]
    rw [Finset.sum_congr rfl fun j _ => hsplit j, Finset.sum_add_distrib, List.countP_cons,
      ih fun edge he => h edge (List.mem_cons_of_mem _ he), Finset.sum_ite_eq, if_pos]
    exact Finset.mem_range.2 (h edge List.mem_cons_self)

/-! ## Sorting -/

/-- the state of the algorithm on the graph of the dependencies: every binary has an in-degree -/
structure LoadSort.Sorts (graph : List BinaryDependencyNode) (s : LoadSort) : Prop where
  keys : ∀ i, (s.nodeInDegrees i).isSome = true ↔ i < graph.length
  sorting : Sorting (Finset.range graph.length) (dependentsOf (edges graph)) (fun i => (s.nodeInDegrees i).getD 0)
    s.leafNodes s.sortedIndices s.dependents

/-- the rounds that are left -/
def LoadSort.roundsLeft (graph : List BinaryDependencyNode) (s : LoadSort) : ℕ :=
  stepsLeft (Finset.range graph.length) (dependentsOf (edges graph)) s.sortedIndices s.dependents

theorem mem_dependentsOf : i ∈ dependentsOf es j ↔ (i, j) ∈ es := by
  rw [dependentsOf, List.mem_map]
  constructor
  · rintro ⟨⟨i', j'⟩, h, rfl⟩
    obtain ⟨hin, hj⟩ := List.mem_filter.1 h
    rw [← of_decide_eq_true hj]
    exact hin
  · intro h
    exact ⟨(i, j), List.mem_filter.2 ⟨h, decide_eq_true rfl⟩, rfl⟩

/-- **The edges of the graph are the dependencies**, the other way round. -/
theorem edge_iff (hn : (graph.map BinaryDependencyNode.name).Nodup) :
    Edge (Finset.range graph.length) (dependentsOf (edges graph)) j i ↔ DependsOn graph i j := by
  rw [Edge, Finset.mem_range, Finset.mem_range, mem_dependentsOf, mem_edges hn]
  exact ⟨fun h => h.2.2, fun h => ⟨h.lt.2, h.lt.1, h⟩⟩

/-- the map of the dependents has the edges -/
def HasDependents (graph : List BinaryDependencyNode) (nodeDependents : ℕ → Option (List ℕ)) : Prop :=
  ∀ j, (nodeDependents j).getD [] = dependentsOf (edges graph) j

/-- **A round** is a step of the algorithm. -/
theorem LoadSort.next_sorts (hn : (graph.map BinaryDependencyNode.name).Nodup)
    (hd : HasDependents graph nodeDependents) (h : s.Sorts graph) (hs : s.next nodeDependents = some s') :
    s'.Sorts graph ∧ s.roundsLeft graph = s'.roundsLeft graph + 1 := by
  obtain ⟨leafNodes, inDegrees, sorted, dependents⟩ := s
  obtain ⟨hkeys, hsorting⟩ := h
  unfold LoadSort.next at hs
  simp only at hkeys hsorting hs
  cases dependents with
  | cons dependant dependents =>
    have hlt := Finset.mem_range.1 (hsorting.inside dependant List.mem_cons_self)
    obtain ⟨inDegree, hdeg⟩ := Option.isSome_iff_exists.1 ((hkeys dependant).2 hlt)
    simp only [hdeg] at hs
    cases hs
    refine ⟨⟨fun i => ?_, ?_⟩, rfl⟩
    · change (Function.update inDegrees dependant (some (inDegree - 1)) i).isSome = true ↔ _
      rw [Function.update_apply]
      split_ifs with hi
      · exact iff_of_true rfl (hi ▸ hlt)
      · exact hkeys i
    · have hstep := hsorting.countDown
      simp only [hdeg, Option.getD_some] at hstep
      have hdegrees : (fun i => (Function.update inDegrees dependant (some (inDegree - 1)) i).getD 0) =
          Function.update (fun i => (inDegrees i).getD 0) dependant (inDegree - 1) := by
        funext i
        rw [Function.update_apply, Function.update_apply]
        split_ifs <;> rfl
      simp only [hdegrees]
      exact hstep
  | nil =>
    cases leafNodes with
    | nil => cases hs
    | cons node leafNodes =>
      cases hs
      refine ⟨⟨hkeys, ?_⟩, ?_⟩
      · simp only [hd node]
        exact hsorting.pop fun i hi => Finset.mem_range.2 ((mem_edges hn).1 (mem_dependentsOf.1 hi)).lt.1
      · simp only [LoadSort.roundsLeft, hd node]
        exact stepsLeft_pop hsorting

/-- **The loop ends** when there are no leaves and nothing to count. -/
theorem LoadSort.loop_sorts (hn : (graph.map BinaryDependencyNode.name).Nodup)
    (hd : HasDependents graph nodeDependents) {rounds : ℕ} (h : s.Sorts graph) (hr : s.roundsLeft graph < rounds) :
    ∃ s', s.loop nodeDependents rounds = .ok s' ∧ s'.Sorts graph ∧ s'.leafNodes = [] ∧ s'.dependents = [] := by
  induction rounds generalizing s with
  | zero => exact absurd hr (Nat.not_lt_zero _)
  | succ rounds ih =>
    cases hs : s.next nodeDependents with
    | some s1 =>
      obtain ⟨h1, hleft⟩ := next_sorts hn hd h hs
      obtain ⟨s', h2, hend⟩ := ih h1 (by rw [hleft] at hr; exact Nat.lt_of_succ_lt_succ hr)
      exact ⟨s', by rw [LoadSort.loop, hs]; exact h2, hend⟩
    | none =>
      refine ⟨s, by rw [LoadSort.loop, hs], h, ?_⟩
      unfold LoadSort.next at hs
      split at hs
      · split at hs <;> cases hs
      · cases hs
      · rename_i hdependents hleaf
        exact ⟨hleaf, hdependents⟩

/-- no in-degree falls below zero in the loop -/
theorem LoadSort.nonneg_of_next (hn : (graph.map BinaryDependencyNode.name).Nodup)
    (hd : HasDependents graph nodeDependents) (h : s.Sorts graph)
    (hr : Relation.ReflTransGen (fun s s' => s.next nodeDependents = some s') s s') :
    ∀ i d, s'.nodeInDegrees i = some d → 0 ≤ d := by
  have h' : s'.Sorts graph := by
    induction hr with
    | refl => exact h
    | tail _ hs ih => exact (next_sorts hn hd ih hs).1
  intro i d hdeg
  have hlt := (h'.keys i).1 (Option.isSome_iff_exists.2 ⟨d, hdeg⟩)
  have hnonneg := h'.sorting.nonneg (Finset.mem_range.2 hlt)
  simp only [hdeg, Option.getD_some] at hnonneg
  exact hnonneg

/-! ## The beginning -/

/-- the maps that the first loop leaves -/
def LoadGraph.built (graph : List BinaryDependencyNode) : LoadGraph := (edges graph).foldl LoadGraph.addEdge (.new graph)

theorem foldlM_built (hn : (graph.map BinaryDependencyNode.name).Nodup) :
    graph.foldlM (LoadGraph.addNode graph) (.new graph) = .ok (.built graph) := by
  apply foldlM_addNode
  intro node hnode
  obtain ⟨i, hi⟩ := List.mem_iff_getElem?.1 hnode
  rw [nodeToIndex_of_getElem? hn hi]
  exact Option.some_ne_none i

theorem built_hasDependents : HasDependents graph (LoadGraph.built graph).nodeDependents :=
  fun _ => built_dependents

/-- every binary has an in-degree, the number of its dependencies -/
theorem built_inDegree (hn : (graph.map BinaryDependencyNode.name).Nodup) : (LoadGraph.built graph).nodeInDegrees i =
    if i < graph.length then some (((edges graph).countP fun edge => edge.1 = i : ℕ) : ℤ) else none := by
  have hany : (graph.any fun node => nodeToIndex graph node.name = some i) = true ↔ i < graph.length := by
    rw [List.any_eq_true]
    constructor
    · rintro ⟨node, -, h⟩
      obtain ⟨node', hget, -⟩ := (nodeToIndex_eq_some hn).1 (of_decide_eq_true h)
      exact (List.getElem?_eq_some_iff.1 hget).1
    · intro hlt
      have hget : graph[i]? = some graph[i] := List.getElem?_eq_getElem hlt
      exact ⟨graph[i], List.getElem_mem hlt, decide_eq_true (nodeToIndex_of_getElem? hn hget)⟩
  have hnew : (LoadGraph.new graph).nodeInDegrees i = if i < graph.length then some 0 else none :=
    if_congr hany rfl rfl
  rw [LoadGraph.built, built_inDegrees, hnew]
  split_ifs
  · rw [Option.map_some, zero_add]
  · rfl

theorem edges_lt (hn : (graph.map BinaryDependencyNode.name).Nodup) : ∀ edge ∈ edges graph, edge.2 < graph.length :=
  fun edge h => ((mem_edges (i := edge.1) (j := edge.2) hn).1 h).lt.2

/-- **The variables before the loop** -/
theorem LoadSort.start_sorts (hn : (graph.map BinaryDependencyNode.name).Nodup) (ho : order.Perm (List.range graph.length)) :
    (LoadSort.start (.built graph) order).Sorts graph where
  keys i := by
    simp only [LoadSort.start, built_inDegree hn]
    split_ifs with hi
    · exact iff_of_true rfl hi
    · exact iff_of_false (fun h => nomatch h) hi
  sorting := by
    apply Sorting.start
    · exact (ho.nodup_iff.2 List.nodup_range).filter _
    · intro i hi
      simp only [LoadSort.start, built_inDegree hn, if_pos (Finset.mem_range.1 hi), Option.getD_some]
      rw [← sum_countP _ (edges_lt hn)]
      simp only [dependentsOf, List.count, List.countP_map]
      rfl
    · intro i
      rw [LoadSort.start, List.mem_filter, ho.mem_iff, List.mem_range, Finset.mem_range]
      simp only [built_inDegree hn]
      refine and_congr_right fun hi => ?_
      rw [if_pos hi, decide_eq_true_iff, Option.getD_some, Option.some_inj]

/-- the rounds of the loop are enough -/
theorem LoadSort.start_roundsLeft (order : List ℕ) (hn : (graph.map BinaryDependencyNode.name).Nodup) :
    (LoadSort.start (.built graph) order).roundsLeft graph <
      graph.length + (graph.map fun node => node.dependencies.length).sum + 1 := by
  have hedges : (edges graph).length ≤ (graph.map fun node => node.dependencies.length).sum := by
    rw [edges, List.length_flatMap]
    refine List.sum_le_sum fun node _ => ?_
    unfold nodeEdges
    split
    · exact Nat.zero_le _
    · exact List.length_filterMap_le _ _
  have hlength : ∑ j ∈ Finset.range graph.length, (dependentsOf (edges graph) j).length = (edges graph).length := by
    have hcount := sum_countP (fun _ => true) (edges_lt hn)
    simp only [List.countP_true] at hcount
    simpa only [dependentsOf, List.length_map] using hcount
  have hleft : (LoadSort.start (.built graph) order).roundsLeft graph = graph.length + (edges graph).length := by
    simp only [LoadSort.roundsLeft, stepsLeft, LoadSort.start, List.toFinset_nil, Finset.sdiff_empty, List.length_nil,
      Nat.add_zero, Finset.sum_add_distrib, hlength, Finset.sum_const, Finset.card_range, smul_eq_mul, Nat.mul_one]
  rw [hleft]
  exact Nat.lt_succ_of_le (Nat.add_le_add_left hedges _)

/-! ## The order -/

/-- the binaries whose names are logged are there -/
theorem lookUp_ok {is : List ℕ} (h : ∀ i ∈ is, i < graph.length) :
    ∃ nodes, is.mapM (fun index => unwrap graph[index]? .missing) = .ok nodes := by
  induction is with
  | nil => exact ⟨[], rfl⟩
  | cons i is ih =>
    obtain ⟨nodes, hnodes⟩ := ih fun i' hi => h i' (List.mem_cons_of_mem i hi)
    have hlt := h i List.mem_cons_self
    have hnode : unwrap graph[i]? .missing = .ok graph[i] := unwrap_eq_ok.2 (List.getElem?_eq_getElem hlt)
    refine ⟨graph[i] :: nodes, ?_⟩
    simp only [List.mapM_cons, hnode, ok_bind, hnodes, pure_eq_ok]

/-- the first loop and the second have been run -/
theorem generate_eq (hn : (graph.map BinaryDependencyNode.name).Nodup) (ho : order.Perm (List.range graph.length)) :
    ∃ s : LoadSort, s.Sorts graph ∧ s.leafNodes = [] ∧ s.dependents = [] ∧
      ((∀ i < graph.length, i ∈ s.sortedIndices) ∧ generateBinaryLoadOrder graph order = .ok (.ok s.sortedIndices) ∨
        ∃ i node, i < graph.length ∧ i ∉ s.sortedIndices ∧ graph[i]? = some node ∧
          generateBinaryLoadOrder graph order = .ok (.error (.cycle node.name))) := by
  obtain ⟨s, hloop, hsorts, hleaf, hdependents⟩ :=
    LoadSort.loop_sorts hn built_hasDependents (LoadSort.start_sorts hn ho) (LoadSort.start_roundsLeft order hn)
  refine ⟨s, hsorts, hleaf, hdependents, ?_⟩
  have hsorting := hsorts.sorting
  rw [hleaf, hdependents] at hsorting
  -- a positive in-degree is that of a binary that is not in the order
  have hpos : ∀ i ∈ order, (s.nodeInDegrees i).any (0 < ·) = true ↔ i ∉ s.sortedIndices := by
    intro i hi
    have hlt := List.mem_range.1 (ho.mem_iff.1 hi)
    obtain ⟨d, hd⟩ := Option.isSome_iff_exists.1 ((hsorts.keys i).2 hlt)
    have hiff := hsorting.pos_iff (Finset.mem_range.2 hlt)
    rw [hd, Option.getD_some] at hiff
    rw [hd, Option.any_some, decide_eq_true_iff, hiff]
  simp only [generateBinaryLoadOrder, foldlM_built hn, hloop, ok_bind]
  cases hfind : order.find? fun idx => (s.nodeInDegrees idx).any (0 < ·) with
  | some i =>
    have hi := List.mem_of_find?_eq_some hfind
    have hlt := List.mem_range.1 (ho.mem_iff.1 hi)
    have hany : (s.nodeInDegrees i).any (0 < ·) = true :=
      List.find?_some (p := fun idx => (s.nodeInDegrees idx).any (0 < ·)) hfind
    refine Or.inr ⟨i, graph[i], hlt, (hpos i hi).1 hany, List.getElem?_eq_getElem hlt, ?_⟩
    simp only [List.getElem?_eq_getElem hlt, unwrap, ok_bind, pure_eq_ok]
  | none =>
    have hall : ∀ i < graph.length, i ∈ s.sortedIndices := by
      intro i hlt
      have hi : i ∈ order := ho.mem_iff.2 (List.mem_range.2 hlt)
      by_contra hnot
      exact List.find?_eq_none.1 hfind i hi ((hpos i hi).2 hnot)
    refine Or.inl ⟨hall, ?_⟩
    obtain ⟨nodes, hnodes⟩ := lookUp_ok fun i hi => Finset.mem_range.1 (hsorting.subset i (List.mem_append_left _ hi))
    simp only [hnodes, ok_bind, pure_eq_ok]

/-- **The load order.** For binaries with distinct names, and any order in which the maps are iterated over, the function
gives an order exactly if the dependencies have no cycle, and else an error with the name of a binary. The order has
every binary once, and each after the listed binaries that it depends on. In the loop no in-degree falls below zero. -/
theorem load_order_spec (graph : List BinaryDependencyNode) (order : List ℕ)
    (hn : (graph.map BinaryDependencyNode.name).Nodup) (ho : order.Perm (List.range graph.length)) :
    ((∃ sorted, generateBinaryLoadOrder graph order = .ok (.ok sorted)) ↔
        ∀ i, ¬ Relation.TransGen (DependsOn graph) i i) ∧
      (∀ sorted, generateBinaryLoadOrder graph order = .ok (.ok sorted) →
        sorted.Perm (List.range graph.length) ∧
          ∀ l i, l ++ [i] <+: sorted → ∀ j, DependsOn graph i j → j ∈ l) ∧
      ((∀ sorted, generateBinaryLoadOrder graph order ≠ .ok (.ok sorted)) →
        ∃ node ∈ graph, generateBinaryLoadOrder graph order = .ok (.error (.cycle node.name))) ∧
      ∃ g, graph.foldlM (LoadGraph.addNode graph) (.new graph) = .ok g ∧
        ∀ s, Relation.ReflTransGen (fun s s' => s.next g.nodeDependents = some s') (LoadSort.start g order) s →
          ∀ i d, s.nodeInDegrees i = some d → 0 ≤ d := by
  obtain ⟨s, hsorts, hleaf, hdependents, hcases⟩ := generate_eq hn ho
  have hsorting := hsorts.sorting
  rw [hleaf, hdependents] at hsorting
  have hedge : Edge (Finset.range graph.length) (dependentsOf (edges graph)) = Function.swap (DependsOn graph) := by
    funext j i
    exact propext (edge_iff hn)
  have hcycle : (∀ i < graph.length, i ∈ s.sortedIndices) ↔ ∀ i, ¬ Relation.TransGen (DependsOn graph) i i := by
    have hcomplete := hsorting.complete_iff
    simp only [hedge, Relation.transGen_swap, Finset.mem_range] at hcomplete
    exact hcomplete
  refine ⟨?_, ?_, ?_, .built graph, foldlM_built hn, fun s hr =>
    LoadSort.nonneg_of_next hn built_hasDependents (LoadSort.start_sorts hn ho) hr⟩
  · rw [← hcycle]
    rcases hcases with ⟨hall, heq⟩ | ⟨i, node, hlt, hnot, -, heq⟩
    · exact iff_of_true ⟨_, heq⟩ hall
    · refine iff_of_false ?_ fun hall => hnot (hall i hlt)
      rintro ⟨sorted, heq'⟩
      rw [heq] at heq'
      cases heq'
  · intro sorted heq'
    rcases hcases with ⟨hall, heq⟩ | ⟨i, node, hlt, hnot, -, heq⟩
    · rw [heq] at heq'
      obtain rfl := Except.ok.inj (Except.ok.inj heq')
      have hnodup := hsorting.nodup
      have hsubset := hsorting.subset
      rw [List.append_nil] at hnodup hsubset
      refine ⟨(List.perm_ext_iff_of_nodup hnodup List.nodup_range).2 fun i => ?_, fun l i hl j hd => ?_⟩
      · rw [List.mem_range]
        exact ⟨fun hi => Finset.mem_range.1 (hsubset i hi), hall i⟩
      · exact hsorting.before l i hl j ((edge_iff hn).2 hd)
    · rw [heq] at heq'
      cases heq'
  · intro hno
    rcases hcases with ⟨-, heq⟩ | ⟨i, node, -, -, hget, heq⟩
    · exact absurd heq (hno _)
    · exact ⟨node, List.mem_of_getElem? hget, heq⟩

/-- a diamond with a duplicate edge, a prefix and a library that is not listed; the map is iterated over backwards -/
theorem load_order_diamond :
    let graph : List BinaryDependencyNode := [⟨"D", ["B", "/usr/lib/C", "B"]⟩, ⟨"B", ["A"]⟩, ⟨"C", ["A", "libSystem"]⟩, ⟨"A", []⟩]
    generateBinaryLoadOrder graph [3, 2, 1, 0] = .ok (.ok [3, 1, 2, 0]) ∧ [3, 1, 2, 0].Perm (List.range 4) ∧
      ∀ l i, l ++ [i] <+: [3, 1, 2, 0] → ∀ j, DependsOn graph i j → j ∈ l := by
  have heq : generateBinaryLoadOrder
      [⟨"D", ["B", "/usr/lib/C", "B"]⟩, ⟨"B", ["A"]⟩, ⟨"C", ["A", "libSystem"]⟩, ⟨"A", []⟩] [3, 2, 1, 0] =
      .ok (.ok [3, 1, 2, 0]) := by decide +kernel
  exact ⟨heq, (load_order_spec _ [3, 2, 1, 0] (by decide +kernel) (by decide)).2.1 _ heq⟩

end Dyld

end TouchHLE
