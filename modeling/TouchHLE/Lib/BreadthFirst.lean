/-
Breadth-first traversals of forests. The nodes are visited with a queue: the first is taken off and visited, and its
children are put at the end. A visit can fail.

- `bfs`: the traversal. `order`: the nodes that it visits, in order.
- `Forest`: every node has one parent at most, and the roots have none.
- `Reached`: the nodes below the roots.
- `bfs_eq_run`: the traversal is a run over its order. `order_nodup`, `mem_order`, `order_parent`: the order has all nodes
  below the roots once, each after its parent.
-/
import TouchHLE.Lib.Machine

namespace TouchHLE.BreadthFirst

open Machine

variable {α S E : Type}

/-- the traversal, of at most as many nodes as the first number says -/
def bfs (children : α → List α) (visit : S → α → Except E S) (exhausted : E) : ℕ → List α → S → Except E S
  | _, [], s => .ok s
  | 0, _ :: _, _ => .error exhausted
  | n + 1, a :: queue, s => visit s a >>= fun s' => bfs children visit exhausted n (queue ++ children a) s'

def order (children : α → List α) : ℕ → List α → List α
  | _, [] => []
  | 0, _ :: _ => []
  | n + 1, a :: queue => a :: order children n (queue ++ children a)

/-- the nodes that are still in the queue when so many have been visited -/
def left (children : α → List α) : ℕ → List α → List α
  | _, [] => []
  | 0, a :: queue => a :: queue
  | n + 1, a :: queue => left children n (queue ++ children a)

/-- the roots have no parents, and the other nodes one at most -/
structure Forest (children : α → List α) (roots : List α) : Prop where
  nodup : roots.Nodup
  nodup_children (a : α) : (children a).Nodup
  parent {a b c : α} : c ∈ children a → c ∈ children b → a = b
  rootless {a b : α} : b ∈ children a → b ∉ roots

/-- the nodes below the roots -/
inductive Reached (children : α → List α) (roots : List α) : α → Prop where
  | root {a : α} : a ∈ roots → Reached children roots a
  | child {a b : α} : Reached children roots a → b ∈ children a → Reached children roots b

/-- the traversal with the nodes visited `seen` and the nodes in the queue -/
structure Frontier (children : α → List α) (roots seen queue : List α) : Prop where
  nodup : (seen ++ queue).Nodup
  reached : ∀ a ∈ seen ++ queue, Reached children roots a
  rooted : ∀ a ∈ roots, a ∈ seen ++ queue
  closed : ∀ a ∈ seen, ∀ b ∈ children a, b ∈ seen ++ queue
  queued : ∀ b ∈ queue, b ∈ roots ∨ ∃ a ∈ seen, b ∈ children a
  parents : ∀ l₁ b l₂, seen = l₁ ++ b :: l₂ → b ∈ roots ∨ ∃ a ∈ l₁, b ∈ children a

variable {children : α → List α} {roots seen queue : List α} {visit : S → α → Except E S} {exhausted : E} {n : ℕ} {a : α}

theorem bfs_eq_run {s : S} (h : left children n queue = []) :
    bfs children visit exhausted n queue s = run visit s (order children n queue) := by
  induction n generalizing queue s with
  | zero =>
    cases queue with
    | nil => rfl
    | cons a queue => cases h
  | succ n ih =>
    cases queue with
    | nil => rfl
    | cons a queue =>
      rw [bfs, order, run_cons]
      exact congrArg _ (funext fun s' => ih h)

theorem Frontier.start (hf : Forest children roots) : Frontier children roots [] roots where
  nodup := hf.nodup
  reached := fun a ha => .root ha
  rooted := fun a ha => ha
  closed := fun a ha => nomatch ha
  queued := fun b hb => .inl hb
  parents := fun l₁ b l₂ h => absurd h (by simp)

/-- one node is visited -/
theorem Frontier.step (hf : Forest children roots) (h : Frontier children roots seen (a :: queue)) :
    Frontier children roots (seen ++ [a]) (queue ++ children a) := by
  have hnodup := h.nodup
  have hperm : seen ++ [a] ++ (queue ++ children a) = seen ++ a :: queue ++ children a := by simp
  have ha : a ∉ seen := fun ha => (List.nodup_append.1 hnodup).2.2 a ha a List.mem_cons_self rfl
  constructor
  · rw [hperm, List.nodup_append]
    refine ⟨hnodup, hf.nodup_children a, ?_⟩
    rintro b hb c hc rfl
    -- a child of `a` is neither a root nor a child of another node
    have hnot : ¬(b ∈ roots ∨ ∃ a' ∈ seen, b ∈ children a') := by
      rintro (hroot | ⟨a', ha', hb'⟩)
      · exact hf.rootless hc hroot
      · exact ha (hf.parent hb' hc ▸ ha')
    rcases List.mem_append.1 hb with hb | hb
    · obtain ⟨l₁, l₂, rfl⟩ := List.append_of_mem hb
      rcases h.parents l₁ b l₂ rfl with hroot | ⟨a', ha', hb'⟩
      · exact hnot (.inl hroot)
      · exact hnot (.inr ⟨a', List.mem_append_left _ ha', hb'⟩)
    · exact hnot (h.queued b hb)
  · intro b hb
    rw [hperm] at hb
    rcases List.mem_append.1 hb with hb | hb
    · exact h.reached b hb
    · exact .child (h.reached a (by simp)) hb
  · intro b hb
    rw [hperm]
    exact List.mem_append_left _ (h.rooted b hb)
  · intro b hb c hc
    rw [hperm]
    rcases List.mem_append.1 hb with hb | hb
    · exact List.mem_append_left _ (h.closed b hb c hc)
    · rw [List.mem_singleton] at hb
      subst hb
      exact List.mem_append_right _ hc
  · intro b hb
    rcases List.mem_append.1 hb with hb | hb
    · rcases h.queued b (List.mem_cons_of_mem a hb) with hroot | ⟨a', ha', hb'⟩
      · exact .inl hroot
      · exact .inr ⟨a', List.mem_append_left _ ha', hb'⟩
    · exact .inr ⟨a, by simp, hb⟩
  · intro l₁ b l₂ heq
    rcases List.eq_nil_or_concat l₂ with rfl | ⟨l, x, rfl⟩
    · obtain ⟨rfl, hab⟩ := List.append_inj' heq rfl
      obtain rfl : a = b := by simpa using hab
      exact h.queued a List.mem_cons_self
    · rw [List.concat_eq_append, ← List.cons_append, ← List.append_assoc] at heq
      exact h.parents l₁ b l (List.append_inj' heq rfl).1

theorem Frontier.order (hf : Forest children roots) (h : Frontier children roots seen queue) (n : ℕ) :
    Frontier children roots (seen ++ order children n queue) (left children n queue) := by
  induction n generalizing seen queue with
  | zero =>
    cases queue with
    | nil => simpa [BreadthFirst.order, left] using h
    | cons a queue => simpa [BreadthFirst.order, left] using h
  | succ n ih =>
    cases queue with
    | nil => simpa [BreadthFirst.order, left] using h
    | cons a queue =>
      have hrest := ih (h.step hf)
      rwa [List.append_assoc, List.singleton_append] at hrest

theorem left_length (hleft : left children n queue ≠ []) : (order children n queue).length = n := by
  induction n generalizing queue with
  | zero => cases queue <;> rfl
  | succ n ih =>
    cases queue with
    | nil => exact absurd rfl hleft
    | cons a queue => rw [order, List.length_cons, ih hleft]

/-- **Enough steps.** The queue gets empty if there are as many steps as nodes. -/
theorem left_eq_nil {nodes : List α} (hf : Forest children roots)
    (hnodes : ∀ a, Reached children roots a → a ∈ nodes) (hn : nodes.length ≤ n) : left children n roots = [] := by
  by_contra hleft
  have hfront := (Frontier.start hf).order hf n
  rw [List.nil_append] at hfront
  have hlength : (order children n roots ++ left children n roots).length ≤ nodes.length :=
    (List.subperm_of_subset hfront.nodup fun a ha => hnodes a (hfront.reached a ha)).length_le
  have hpos := List.length_pos_iff.2 hleft
  rw [List.length_append, left_length hleft] at hlength
  omega

section

variable (hf : Forest children roots) (hleft : left children n roots = [])

include hf hleft

theorem frontier_order : Frontier children roots (order children n roots) [] := by
  have hfront := (Frontier.start hf).order hf n
  rwa [List.nil_append, hleft] at hfront

theorem order_nodup : (order children n roots).Nodup := by simpa using (frontier_order hf hleft).nodup

/-- the traversal visits the nodes below the roots -/
theorem mem_order : a ∈ order children n roots ↔ Reached children roots a := by
  have hfront := frontier_order hf hleft
  constructor
  · exact fun ha => hfront.reached a (List.mem_append_left _ ha)
  · intro ha
    induction ha with
    | root ha => simpa using hfront.rooted _ ha
    | child _ hb ih => simpa using hfront.closed _ ih _ hb

/-- a node is visited after its parent -/
theorem order_parent {l₁ l₂ : List α} (h : order children n roots = l₁ ++ a :: l₂) :
    a ∈ roots ∨ ∃ b ∈ l₁, a ∈ children b := (frontier_order hf hleft).parents l₁ a l₂ h

end

end TouchHLE.BreadthFirst
