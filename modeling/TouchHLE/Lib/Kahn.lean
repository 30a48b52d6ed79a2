/-
Topological sorting by counting (Kahn's algorithm), on a finite graph that may have several edges between two nodes. The
nodes that no counted edge leads to are in a queue; the first of them is put into the order, and the edges from it are
taken off the counts one by one.

- `Edge`: there is an edge between two of the nodes. `Sorting`: what is known in the middle of the algorithm.
- `Sorting.pop`, `Sorting.countDown`: the two kinds of steps keep it; `stepsLeft`: each of them takes one off.
- `Sorting.nonneg`: no count falls below zero.
- `Sorting.complete_iff`: at the end all nodes are in the order exactly if there is no cycle.
-/
import Mathlib.Tactic

namespace TouchHLE.Kahn

variable {α : Type} [DecidableEq α]

/-- an edge between nodes of the graph; `out` has the ends of the edges from a node, once for each edge -/
def Edge (nodes : Finset α) (out : α → List α) (a b : α) : Prop := a ∈ nodes ∧ b ∈ nodes ∧ b ∈ out a

/-- the number of edges from nodes that are not in the order yet -/
def incoming (nodes : Finset α) (out : α → List α) (sorted : List α) (a : α) : ℕ :=
  ∑ b ∈ nodes \ sorted.toFinset, (out b).count a

/-- the number of steps to the end: one for each node that is not in the order, and one for each edge from it -/
def stepsLeft (nodes : Finset α) (out : α → List α) (sorted rest : List α) : ℕ :=
  ∑ b ∈ nodes \ sorted.toFinset, (1 + (out b).length) + rest.length

/-- **In the middle of the algorithm**: `rest` are the ends of the edges from the last node of the order that are still in
the counts. -/
structure Sorting (nodes : Finset α) (out : α → List α) (deg : α → ℤ) (queue sorted rest : List α) : Prop where
  nodup : (sorted ++ queue).Nodup
  subset : ∀ a ∈ sorted ++ queue, a ∈ nodes
  inside : ∀ a ∈ rest, a ∈ nodes
  degree : ∀ a ∈ nodes, deg a = (incoming nodes out sorted a + rest.count a : ℕ)
  ready : ∀ a ∈ nodes, deg a = 0 ↔ a ∈ sorted ++ queue
  before : ∀ l a, l ++ [a] <+: sorted → ∀ b, Edge nodes out b a → b ∈ l

variable {nodes : Finset α} {out : α → List α} {deg : α → ℤ} {queue sorted rest : List α} {a b : α}

/-- the node that is put into the order takes its edges with it -/
theorem sum_concat (f : α → ℕ) (ha : a ∈ nodes) (hs : a ∉ sorted) :
    ∑ b ∈ nodes \ sorted.toFinset, f b = f a + ∑ b ∈ nodes \ (sorted ++ [a]).toFinset, f b := by
  have hin : a ∈ nodes \ sorted.toFinset := Finset.mem_sdiff.2 ⟨ha, fun h => hs (List.mem_toFinset.1 h)⟩
  have herase : nodes \ (sorted ++ [a]).toFinset = (nodes \ sorted.toFinset).erase a := by
    ext b
    simp only [Finset.mem_sdiff, List.mem_toFinset, List.mem_append, List.mem_singleton, Finset.mem_erase]
    tauto
  rw [herase, Finset.add_sum_erase _ f hin]

/-- a node without incoming edges has all its predecessors in the order -/
theorem mem_sorted_of_incoming (h : incoming nodes out sorted a = 0) (he : Edge nodes out b a) : b ∈ sorted := by
  by_contra hb
  have hin : b ∈ nodes \ sorted.toFinset := Finset.mem_sdiff.2 ⟨he.1, fun h => hb (List.mem_toFinset.1 h)⟩
  have hzero : (out b).count a = 0 := Finset.sum_eq_zero_iff.1 h b hin
  exact List.count_eq_zero.1 hzero he.2.2

/-- a node with incoming edges has a predecessor that is not in the order -/
theorem exists_of_incoming (h : incoming nodes out sorted a ≠ 0) : ∃ b ∈ nodes, b ∉ sorted ∧ a ∈ out b := by
  obtain ⟨b, hb, hne⟩ := Finset.exists_ne_zero_of_sum_ne_zero h
  obtain ⟨hn, hs⟩ := Finset.mem_sdiff.1 hb
  refine ⟨b, hn, fun h => hs (List.mem_toFinset.2 h), ?_⟩
  by_contra hnot
  exact hne (List.count_eq_zero.2 hnot)

/-! ## The steps -/

/-- **The beginning**: all edges are counted, and the nodes without any are in the queue. -/
theorem Sorting.start (hq : queue.Nodup) (hdeg : ∀ a ∈ nodes, deg a = (∑ b ∈ nodes, (out b).count a : ℕ))
    (hready : ∀ a, a ∈ queue ↔ a ∈ nodes ∧ deg a = 0) : Sorting nodes out deg queue [] [] where
  nodup := hq
  subset a ha := ((hready a).1 ha).1
  inside a ha := nomatch ha
  degree a ha := by rw [hdeg a ha, incoming, List.toFinset_nil, Finset.sdiff_empty, List.count_nil, Nat.add_zero]
  ready a ha := ⟨fun h => (hready a).2 ⟨ha, h⟩, fun h => ((hready a).1 h).2⟩
  before l a h := absurd (List.prefix_nil.1 h) (List.append_ne_nil_of_right_ne_nil l (List.cons_ne_nil a []))

/-- **A node is put into the order.** -/
theorem Sorting.pop (h : Sorting nodes out deg (a :: queue) sorted []) (hout : ∀ b ∈ out a, b ∈ nodes) :
    Sorting nodes out deg queue (sorted ++ [a]) (out a) := by
  have hmem : a ∈ sorted ++ a :: queue := List.mem_append_right _ List.mem_cons_self
  have ha : a ∈ nodes := h.subset a hmem
  have hs : a ∉ sorted := fun hin => List.disjoint_of_nodup_append h.nodup hin List.mem_cons_self
  have hlist : sorted ++ [a] ++ queue = sorted ++ a :: queue := by rw [List.append_assoc, List.singleton_append]
  refine ⟨hlist ▸ h.nodup, hlist ▸ h.subset, hout, fun b hb => ?_, fun b hb => ?_, ?_⟩
  · rw [h.degree b hb, incoming, incoming, sum_concat _ ha hs, List.count_nil, Nat.add_zero, Nat.add_comm]
  · rw [hlist]
    exact h.ready b hb
  · intro l c hl b he
    rcases List.prefix_concat_iff.1 hl with heq | hl
    · obtain ⟨rfl, hc⟩ := List.append_inj' heq rfl
      obtain rfl := List.singleton_inj.1 hc
      have hzero := (h.ready c ha).2 hmem
      rw [h.degree c ha, List.count_nil, Nat.add_zero, Nat.cast_eq_zero] at hzero
      exact mem_sorted_of_incoming hzero he
    · exact h.before l c hl b he

/-- the counts do not fall below zero -/
theorem Sorting.nonneg (h : Sorting nodes out deg queue sorted rest) (ha : a ∈ nodes) : 0 ≤ deg a := by
  rw [h.degree a ha]
  exact Int.natCast_nonneg _

/-- **An edge is taken off the count**, and its end is put into the queue if it was the last one. -/
theorem Sorting.countDown (h : Sorting nodes out deg queue sorted (a :: rest)) :
    Sorting nodes out (Function.update deg a (deg a - 1)) (if deg a - 1 = 0 then queue ++ [a] else queue) sorted rest := by
  have ha : a ∈ nodes := h.inside a List.mem_cons_self
  have hdeg := h.degree a ha
  rw [List.count_cons_self] at hdeg
  have hpos : deg a ≠ 0 := by
    rw [hdeg]
    exact Int.natCast_ne_zero.2 (Nat.succ_ne_zero _)
  have hnot : a ∉ sorted ++ queue := fun hin => hpos ((h.ready a ha).2 hin)
  have hmem : ∀ b, b ∈ sorted ++ (if deg a - 1 = 0 then queue ++ [a] else queue) ↔
      b ∈ sorted ++ queue ∨ deg a - 1 = 0 ∧ b = a := by
    intro b
    split_ifs with hz
    · simp only [List.mem_append, List.mem_singleton, hz, true_and, or_assoc]
    · simp only [List.mem_append, hz, false_and, or_false]
  constructor
  case nodup =>
    split_ifs with hz
    · rw [← List.append_assoc, List.nodup_append]
      refine ⟨h.nodup, List.nodup_singleton a, fun b hb c hc => ?_⟩
      rintro rfl
      exact hnot (List.mem_singleton.1 hc ▸ hb)
    · exact h.nodup
  case subset =>
    intro b hb
    rcases (hmem b).1 hb with hb | ⟨-, rfl⟩
    · exact h.subset b hb
    · exact ha
  case inside => exact fun b hb => h.inside b (List.mem_cons_of_mem a hb)
  case degree =>
    intro b hb
    rw [Function.update_apply]
    split_ifs with hba
    · rw [hba, hdeg]
      push_cast
      ring
    · rw [h.degree b hb, List.count_cons_of_ne (Ne.symm hba)]
  case ready =>
    intro b hb
    rw [hmem b, Function.update_apply]
    split_ifs with hba
    · subst hba
      exact ⟨fun hz => Or.inr ⟨hz, rfl⟩, fun h' => h'.elim (fun hin => absurd hin hnot) And.left⟩
    · rw [h.ready b hb]
      exact ⟨Or.inl, fun h' => h'.resolve_right fun h' => hba h'.2⟩
  case before => exact h.before

theorem stepsLeft_pop (h : Sorting nodes out deg (a :: queue) sorted []) :
    stepsLeft nodes out sorted [] = stepsLeft nodes out (sorted ++ [a]) (out a) + 1 := by
  have hmem : a ∈ sorted ++ a :: queue := List.mem_append_right _ List.mem_cons_self
  have hs : a ∉ sorted := fun hin => List.disjoint_of_nodup_append h.nodup hin List.mem_cons_self
  rw [stepsLeft, stepsLeft, sum_concat _ (h.subset a hmem) hs, List.length_nil]
  ring

theorem stepsLeft_countDown : stepsLeft nodes out sorted (a :: rest) = stepsLeft nodes out sorted rest + 1 := rfl

/-! ## The end -/

/-- an order in which every node comes after its predecessors leaves no cycle -/
theorem not_transGen_of_before (hsub : ∀ a ∈ nodes, a ∈ sorted)
    (hbefore : ∀ l a, l ++ [a] <+: sorted → ∀ b, Edge nodes out b a → b ∈ l) :
    ¬ Relation.TransGen (Edge nodes out) a a := by
  have hlt : ∀ b c, Edge nodes out b c → sorted.idxOf b < sorted.idxOf c := by
    intro b c he
    obtain ⟨l₁, l₂, hsplit, hnot⟩ := List.eq_append_cons_of_mem (hsub c he.2.1)
    have hb : b ∈ l₁ := hbefore l₁ c ⟨l₂, by rw [hsplit, List.append_assoc, List.singleton_append]⟩ b he
    rw [hsplit, List.idxOf_append_of_mem hb, List.idxOf_append_of_notMem hnot]
    exact (List.idxOf_lt_length_of_mem hb).trans_le (Nat.le_add_right _ _)
  have htrans : ∀ b c, Relation.TransGen (Edge nodes out) b c → sorted.idxOf b < sorted.idxOf c := by
    intro b c h
    induction h with
    | single he => exact hlt _ _ he
    | tail _ he ih => exact ih.trans (hlt _ _ he)
  exact fun h => lt_irrefl _ (htrans a a h)

/-- **A finite set in which every element has a predecessor has a cycle.** -/
theorem exists_cycle {r : α → α → Prop} {s : Finset α} (hne : s.Nonempty) (h : ∀ a ∈ s, ∃ b ∈ s, r b a) :
    ∃ a, Relation.TransGen r a a := by
  by_contra hno
  have hstrict : IsStrictOrder α (Relation.TransGen r) :=
    { irrefl := not_exists.1 hno, trans := fun _ _ _ => Relation.TransGen.trans }
  have hwf : (s : Set α).WellFoundedOn (Relation.TransGen r) := s.finite_toSet.wellFoundedOn
  obtain ⟨a, ha⟩ := hne
  obtain ⟨⟨m, hm⟩, -, hmin⟩ := WellFounded.has_min hwf Set.univ ⟨⟨a, ha⟩, trivial⟩
  obtain ⟨b, hb, hr⟩ := h m hm
  exact hmin ⟨b, hb⟩ trivial (Relation.TransGen.single hr)

/-- **At the end** all nodes are in the order exactly if there is no cycle. -/
theorem Sorting.complete_iff (h : Sorting nodes out deg [] sorted []) :
    (∀ a ∈ nodes, a ∈ sorted) ↔ ∀ a, ¬ Relation.TransGen (Edge nodes out) a a := by
  refine ⟨fun hsub a => not_transGen_of_before hsub h.before, fun hno => ?_⟩
  by_contra hnot
  -- each of the nodes that are left has a predecessor among them
  have hne : (nodes \ sorted.toFinset).Nonempty := by
    simp only [not_forall] at hnot
    obtain ⟨a, ha, hs⟩ := hnot
    exact ⟨a, Finset.mem_sdiff.2 ⟨ha, fun hin => hs (List.mem_toFinset.1 hin)⟩⟩
  obtain ⟨a, ha⟩ := exists_cycle (r := Edge nodes out) hne fun a ha => by
    obtain ⟨hn, hs⟩ := Finset.mem_sdiff.1 ha
    have hdeg : deg a ≠ 0 := by
      intro hz
      have hin := (h.ready a hn).1 hz
      rw [List.append_nil] at hin
      exact hs (List.mem_toFinset.2 hin)
    rw [h.degree a hn, List.count_nil, Nat.add_zero, Nat.cast_ne_zero] at hdeg
    obtain ⟨b, hb, hbs, he⟩ := exists_of_incoming hdeg
    exact ⟨b, Finset.mem_sdiff.2 ⟨hb, fun hin => hbs (List.mem_toFinset.1 hin)⟩, hb, hn, he⟩
  exact hno a ha

/-- at the end the nodes that are left are those whose count is positive -/
theorem Sorting.pos_iff (h : Sorting nodes out deg [] sorted []) (ha : a ∈ nodes) : 0 < deg a ↔ a ∉ sorted := by
  have hready := h.ready a ha
  rw [List.append_nil] at hready
  rw [← hready]
  exact ⟨fun hpos hz => by rw [hz] at hpos; exact lt_irrefl _ hpos, fun hne => (h.nonneg ha).lt_of_ne (Ne.symm hne)⟩

end TouchHLE.Kahn
