/-
Who owns the buffers of the audio queues: they are freed once, by the guest or with their queue.

- `Conserves`: what has to hold of each call. `Spares`: no buffer is freed that a handler still has to deliver.
- `Sound`: each buffer has a block of its own and one for its data, and one queue has it. `Waits`: so have those that
  wait for a callback.
- `buffers_conserved`: runs. The handlers do not know when a buffer that they still have to deliver is freed.
-/
import TouchHLE.AudioToolbox.QueueBuffers

namespace TouchHLE.BufferOwnership

open Machine
open AudioQueue (finishHandler)

/-! ## What has to hold -/

variable {A : OpenAl} {w : ToolboxState A} {q : ℕ}

/-- a buffer of a queue, with its blocks -/
structure Has (w : ToolboxState A) (q buffer : ℕ) (p : Made) : Prop where
  queue : w.memory.block q = p.queue
  descriptor : w.memory.block buffer = some p.descriptor
  data : w.memory.block (w.audioData buffer) = some p.data

/-- a queue has the buffer -/
def Owned (w : ToolboxState A) (p : Made) : Prop :=
  ∃ q queue, w.audioQueues q = some queue ∧ ∃ buffer ∈ queue.object.buffers, Has w q buffer p

/-- **Each buffer is freed exactly once**: as long as the queue has it that it was allocated for, it is not freed, and
afterwards its descriptor and its data were freed once. -/
def FreedOnce (w : ToolboxState A) : Prop :=
  ∀ p ∈ w.made, Owned w p ∧ w.memory.freed p.descriptor = 0 ∧ w.memory.freed p.data = 0 ∨
    ¬Owned w p ∧ w.memory.freed p.descriptor = 1 ∧ w.memory.freed p.data = 1

/-- the play queues have live buffers only, of their own queue -/
def QueuesLive (w : ToolboxState A) : Prop :=
  ∀ q queue, w.audioQueues q = some queue → ∀ buffer ∈ queue.object.bufferQueue, ∃ p ∈ w.made, Has w q buffer p

/-- the calls that free buffers -/
def Frees : Op → Prop
  | .freeBuffer _ _ | .dispose _ true => True
  | _ => False

/-- **What holds of each call**: it frees nothing that is not there, an error changes nothing, and the buffers are as
they should be. -/
structure Conserves (w : ToolboxState A) (o : Op) : Prop where
  frees : Frees o → step w o ≠ .error .unknownAllocation
  refused : ∀ status w', call w o = .ok (status, w') → status ≠ 0 → w' = w
  freedOnce : ∀ w', step w o = .ok w' → FreedOnce w'
  queuesLive : ∀ w', step w o = .ok w' → QueuesLive w'
  /-- no callback is called with a buffer that was freed -/
  delivered : ∀ w', step w o = .ok w' → ∀ c ∈ w'.calls, c.2 = false

/-- the buffers that a call frees -/
def freedBy (w : ToolboxState A) : Op → List ℕ
  | .freeBuffer q buffer =>
    (w.audioQueues q).elim [] fun queue =>
      if buffer ∈ queue.object.buffers ∧ buffer ∉ queue.object.bufferQueue then [buffer] else []
  | .dispose q true => (w.audioQueues q).elim [] fun queue => queue.object.buffers
  | _ => []

/-- no buffer is freed that a handler still has to call the callback with -/
def Spares (w : ToolboxState A) (o : Op) : Prop :=
  ∀ buffer ∈ freedBy w o, ∀ handler ∈ w.handlers, ∀ reused ∈ handler.stage.waiting, reused.buffer ≠ buffer

/-! ## The invariants -/

/-- no address has the blocks of the buffer any more -/
def Gone (w : ToolboxState A) (p : Made) : Prop := ∀ n ∈ p.blocks, ∀ x, w.memory.block x ≠ some n

/-- **The invariant**: every buffer has two blocks of its own, and is in the list of one queue or gone. -/
structure Sound (w : ToolboxState A) : Prop where
  /-- a queue has a block, which is not of a buffer -/
  queues : ∀ q queue, w.audioQueues q = some queue → ∃ n, w.memory.block q = some n ∧ n ∉ w.made.flatMap Made.blocks
  known : ∀ n ∈ w.made.flatMap Made.blocks, n < w.memory.allocated
  distinct : (w.made.flatMap Made.blocks).Nodup
  has : ∀ q queue, w.audioQueues q = some queue → ∀ buffer ∈ queue.object.buffers, ∃ p ∈ w.made, Has w q buffer p
  kept : ∀ p ∈ w.made, Owned w p ∨ Gone w p
  nodup : ∀ q queue, w.audioQueues q = some queue → queue.object.buffers.Nodup
  queued : ∀ q queue, w.audioQueues q = some queue → ∀ buffer ∈ queue.object.bufferQueue, buffer ∈ queue.object.buffers

/-- the buffers that wait for a callback are there, and none was freed before its callback -/
structure Waits (w : ToolboxState A) : Prop where
  waiting : ∀ handler ∈ w.handlers, ∀ reused ∈ handler.stage.waiting, ∃ p ∈ w.made,
    w.memory.block reused.buffer = some p.descriptor ∧ reused.block = some p.descriptor
  calls : ∀ c ∈ w.calls, c.2 = false

section

variable {w w' : ToolboxState A} {q q' buffer buffer' x n i : ℕ} {p p' : Made} {queue : Queue A} {object :
  AudioQueue.State A} {xs : List ℕ}
  {memory : Blocks} {status : ℤ} {buffers : List ℕ} {o : Op} {op : AudioQueue.Op} {queue' : Queue A} {audioData : ℕ}

theorem Has.block (h : Has w q buffer p) (hx : x ∈ blocksOf w buffer) : ∃ n ∈ p.blocks, w.memory.block x = some n := by
  rcases List.mem_cons.1 hx with rfl | hx
  · exact ⟨p.data, List.mem_cons_self, h.data⟩
  · rw [List.mem_singleton.1 hx]
    exact ⟨p.descriptor, List.mem_cons_of_mem _ List.mem_cons_self, h.descriptor⟩

theorem Has.isSome (h : Has w q buffer p) (hx : x ∈ blocksOf w buffer) : (w.memory.block x).isSome := by
  obtain ⟨n, -, hn⟩ := h.block hx
  rw [hn]
  rfl

/-- a block belongs to one buffer -/
theorem Sound.same (h : Sound w) (hp : p ∈ w.made) (hp' : p' ∈ w.made) (hn : n ∈ p.blocks) (hn' : n ∈ p'.blocks) :
    p = p' := by
  have hpairwise := (List.nodup_flatMap.1 h.distinct).2
  by_contra hne
  have hsymm : Std.Symm (fun p p' : Made => List.Disjoint p.blocks p'.blocks) := ⟨fun _ _ h => h.symm⟩
  exact hpairwise.forall hp hp' hne hn hn'

theorem Sound.ne_block (h : Sound w) (hqueue : w.audioQueues q = some queue) (hp : p ∈ w.made)
    (hx : ∃ n ∈ p.blocks, w.memory.block x = some n) :
    q ≠ x := by
  rintro rfl
  obtain ⟨n, hn, hblock⟩ := hx
  obtain ⟨k, hk, hnot⟩ := h.queues q queue hqueue
  cases hk.symm.trans hblock
  exact hnot (List.mem_flatMap.2 ⟨p, hp, hn⟩)

/-- **An address** belongs to one buffer of one queue. -/
theorem Sound.unique (h : Sound w) (hqueue : w.audioQueues q = some queue)
    (hqueue' : w.audioQueues q' = some queue')
    (hb : buffer ∈ queue.object.buffers) (hb' : buffer' ∈ queue'.object.buffers) (hx : x ∈ blocksOf w buffer)
    (hx' : x ∈ blocksOf w buffer') : q = q' ∧ buffer = buffer' := by
  obtain ⟨p, hp, hhas⟩ := h.has q queue hqueue buffer hb
  obtain ⟨p', hp', hhas'⟩ := h.has q' queue' hqueue' buffer' hb'
  obtain ⟨n, hn, hblock⟩ := hhas.block hx
  obtain ⟨n', hn', hblock'⟩ := hhas'.block hx'
  cases hblock.symm.trans hblock'
  obtain rfl := h.same hp hp' hn hn'
  obtain ⟨k, hk, -⟩ := h.queues q queue hqueue
  exact ⟨w.memory.injective q q' k hk (hhas'.queue.trans (hhas.queue.symm.trans hk)),
    w.memory.injective buffer buffer' _ hhas.descriptor hhas'.descriptor⟩

/-- what the invariant says of the blocks -/
theorem Sound.freedOnce (h : Sound w) : FreedOnce w := by
  intro p hp
  have hmem (n : ℕ) (hn : n ∈ p.blocks) : n ∈ w.made.flatMap Made.blocks := List.mem_flatMap.2 ⟨p, hp, hn⟩
  have hdescriptor : p.descriptor ∈ p.blocks := List.mem_cons_of_mem _ List.mem_cons_self
  have hdata : p.data ∈ p.blocks := List.mem_cons_self
  rcases h.kept p hp with howned | hgone
  · obtain ⟨q, queue, hqueue, buffer, hb, hhas⟩ := howned
    exact .inl ⟨⟨q, queue, hqueue, buffer, hb, hhas⟩, Blocks.freed_eq_zero hhas.descriptor, Blocks.freed_eq_zero hhas.data⟩
  · refine .inr ⟨?_, Blocks.freed_eq_one (h.known _ (hmem _ hdescriptor)) (hgone _ hdescriptor),
      Blocks.freed_eq_one (h.known _ (hmem _ hdata)) (hgone _ hdata)⟩
    rintro ⟨q, queue, -, buffer, -, hhas⟩
    exact hgone _ hdescriptor buffer hhas.descriptor

theorem Sound.queuesLive (h : Sound w) : QueuesLive w :=
  fun q queue hqueue buffer hb => h.has q queue hqueue buffer (h.queued q queue hqueue buffer hb)

/-- the invariant says nothing of the handlers -/
theorem Sound.congr (h : Sound w) (hqueues : w'.audioQueues = w.audioQueues) (hmemory : w'.memory = w.memory)
    (hdata : w'.audioData = w.audioData) (hmade : w'.made = w.made) : Sound w' := by
  cases w
  cases w'
  cases hqueues
  cases hmemory
  cases hdata
  cases hmade
  exact ⟨h.queues, h.known, h.distinct, fun q queue hq b hb => (by
    obtain ⟨p, hp, hhas⟩ := h.has q queue hq b hb
    exact ⟨p, hp, hhas.queue, hhas.descriptor, hhas.data⟩), fun p hp => (by
    rcases h.kept p hp with ⟨q, queue, hq, b, hb, hhas⟩ | hgone
    · exact .inl ⟨q, queue, hq, b, hb, hhas.queue, hhas.descriptor, hhas.data⟩
    · exact .inr hgone), h.nodup, h.queued⟩

theorem setObject_self : (w.setObject q queue object).audioQueues q = some { queue with object := object } :=
    Function.update_self _ _ _

theorem setObject_of_ne (h : q' ≠ q) : (w.setObject q queue object).audioQueues q' = w.audioQueues q' :=
    Function.update_of_ne h _ _

/-- A queue is replaced by one with the same buffers. -/
theorem Sound.setObject (h : Sound w) (hqueue : w.audioQueues q = some queue) (hplays : Plays queue.object object) :
    Sound (w.setObject q queue object) := by
  have hback : ∀ q' queue', (w.setObject q queue object).audioQueues q' = some queue' →
      ∃ queue₀, w.audioQueues q' = some queue₀ ∧ Plays queue₀.object queue'.object := by
    intro q' queue' hq'
    by_cases heq : q' = q
    · subst heq
      cases setObject_self.symm.trans hq'
      exact ⟨queue, hqueue, hplays⟩
    · exact ⟨queue', (setObject_of_ne heq).symm.trans hq', .of_eq rfl rfl⟩
  refine ⟨fun q' queue' hq' => ?_, h.known, h.distinct, fun q' queue' hq' b hb => ?_, fun p hp => ?_, fun q' queue' hq' =>
    ?_,
    fun q' queue' hq' b hb => ?_⟩
  · obtain ⟨queue₀, hqueue₀, -⟩ := hback q' queue' hq'
    exact h.queues q' queue₀ hqueue₀
  · obtain ⟨queue₀, hqueue₀, hplays₀⟩ := hback q' queue' hq'
    rw [hplays₀.buffers] at hb
    obtain ⟨p, hp, hhas⟩ := h.has q' queue₀ hqueue₀ b hb
    exact ⟨p, hp, hhas.queue, hhas.descriptor, hhas.data⟩
  · rcases h.kept p hp with ⟨q', queue', hq', b, hb, hhas⟩ | hgone
    · by_cases heq : q' = q
      · subst heq
        cases hqueue.symm.trans hq'
        exact .inl ⟨q', _, setObject_self, b, by rwa [hplays.buffers], hhas.queue, hhas.descriptor, hhas.data⟩
      · exact .inl ⟨q', queue', (setObject_of_ne heq).trans hq', b, hb, hhas.queue, hhas.descriptor, hhas.data⟩
    · exact .inr hgone
  · obtain ⟨queue₀, hqueue₀, hplays₀⟩ := hback q' queue' hq'
    rw [hplays₀.buffers]
    exact h.nodup q' queue₀ hqueue₀
  · obtain ⟨queue₀, hqueue₀, hplays₀⟩ := hback q' queue' hq'
    rw [hplays₀.buffers]
    rcases hplays₀.queued b hb with hb | hb
    · exact h.queued q' queue₀ hqueue₀ b hb
    · exact hb

/-! ### Blocks are freed -/

/-- what is freed with some buffers of a queue -/
def freedBlocks (w : ToolboxState A) (buffers : List ℕ) : List ℕ := buffers.flatMap (blocksOf w)

theorem Sound.freedBlocks_live (h : Sound w) (hqueue : w.audioQueues q = some queue)
    (hsub : ∀ b ∈ buffers, b ∈ queue.object.buffers) : ∀ x ∈ freedBlocks w buffers, (w.memory.block x).isSome := by
  intro x hx
  obtain ⟨b, hb, hx⟩ := List.mem_flatMap.1 hx
  obtain ⟨p, -, hhas⟩ := h.has q queue hqueue b (hsub b hb)
  exact hhas.isSome hx

theorem Sound.freedBlocks_nodup (h : Sound w) (hqueue : w.audioQueues q = some queue)
    (hsub : ∀ b ∈ buffers, b ∈ queue.object.buffers) (hnodup : buffers.Nodup) : (freedBlocks w buffers).Nodup := by
  refine List.nodup_flatMap.2 ⟨fun b hb => ?_, hnodup.pairwise_of_forall_ne fun b hb b' hb' hne => ?_⟩
  · obtain ⟨p, hp, hhas⟩ := h.has q queue hqueue b (hsub b hb)
    have hblocks := (List.nodup_flatMap.1 h.distinct).1 p hp
    refine List.nodup_cons.2 ⟨fun hmem => ?_, List.nodup_singleton b⟩
    rw [List.mem_singleton] at hmem
    have hdata := hhas.data
    rw [hmem] at hdata
    have heq := Option.some.inj (hdata.symm.trans hhas.descriptor)
    exact (List.nodup_cons.1 hblocks).1 (List.mem_singleton.2 heq)
  · intro x hx hx'
    exact hne (h.unique hqueue hqueue (hsub b hb) (hsub b' hb') hx hx').2

theorem Sound.queue_not_freed (h : Sound w) (hqueue : w.audioQueues q = some queue)
    (hqueue' : w.audioQueues q' = some queue') (hsub : ∀ b ∈ buffers, b ∈ queue'.object.buffers) :
    q ∉ freedBlocks w buffers := by
  intro hmem
  obtain ⟨b, hb, hx⟩ := List.mem_flatMap.1 hmem
  obtain ⟨p, hp, hhas⟩ := h.has q' queue' hqueue' b (hsub b hb)
  exact h.ne_block hqueue hp (hhas.block hx) rfl

/-- **Blocks are freed**: the queues that are left have none of them, and the buffers that no queue has any more are
gone. -/
theorem Sound.free {queues : ℕ → Option (Queue A)} (h : Sound w) (hfrees : Blocks.Frees w.memory xs memory)
    (hback : ∀ q' queue', queues q' = some queue' → ∃ queue₀, w.audioQueues q' = some queue₀ ∧
      queue'.object.buffers.Sublist queue₀.object.buffers ∧ ∀ b ∈ queue'.object.bufferQueue, b ∈ queue'.object.buffers)
    (hkeep : ∀ q' queue', queues q' = some queue' → q' ∉ xs ∧ ∀ b ∈ queue'.object.buffers, ∀ x ∈ blocksOf w b, x ∉ xs)
    (hgone : ∀ q' queue', w.audioQueues q' = some queue' → ∀ b ∈ queue'.object.buffers,
      (∃ queue₁, queues q' = some queue₁ ∧ b ∈ queue₁.object.buffers) ∨ ∀ x ∈ blocksOf w b, x ∈ xs) :
    Sound { w with audioQueues := queues, memory := memory } := by
  have hhas' : ∀ q' queue', queues q' = some queue' → ∀ b ∈ queue'.object.buffers, ∀ p, Has w q' b p →
      Has { w with audioQueues := queues, memory := memory } q' b p := by
    intro q' queue' hq' b hb p hhas
    obtain ⟨hq, hblocks⟩ := hkeep q' queue' hq'
    exact ⟨(hfrees.kept _ hq).trans hhas.queue,
      (hfrees.kept _ (hblocks b hb b (List.mem_cons_of_mem _ List.mem_cons_self))).trans hhas.descriptor,
      (hfrees.kept _ (hblocks b hb _ List.mem_cons_self)).trans hhas.data⟩
  refine ⟨fun q' queue' hq' => ?_, fun n hn => ?_, h.distinct, fun q' queue' hq' b hb => ?_, fun p hp => ?_,
    fun q' queue' hq' => ?_,
    fun q' queue' hq' => ?_⟩
  · obtain ⟨queue₀, hqueue₀, -⟩ := hback q' queue' hq'
    obtain ⟨n, hn, hnot⟩ := h.queues q' queue₀ hqueue₀
    exact ⟨n, (hfrees.kept _ (hkeep q' queue' hq').1).trans hn, hnot⟩
  · exact (h.known n hn).trans_eq hfrees.allocated.symm
  · obtain ⟨queue₀, hqueue₀, hsub, -⟩ := hback q' queue' hq'
    obtain ⟨p, hp, hhas⟩ := h.has q' queue₀ hqueue₀ b (hsub.subset hb)
    exact ⟨p, hp, hhas' q' queue' hq' b hb p hhas⟩
  · have hstays : Gone w p → Gone { w with audioQueues := queues, memory := memory } p :=
      fun hgone n hn x hx => hgone n hn x (hfrees.back hx).2
    rcases h.kept p hp with ⟨q', queue', hq', b, hb, hhas⟩ | hold
    · rcases hgone q' queue' hq' b hb with ⟨queue₁, hqueue₁, hb₁⟩ | hfreed
      · exact .inl ⟨q', queue₁, hqueue₁, b, hb₁, hhas' q' queue₁ hqueue₁ b hb₁ p hhas⟩
      · right
        intro n hn x hx
        obtain ⟨hnot, hblock⟩ := hfrees.back hx
        rcases List.mem_cons.1 hn with rfl | hn
        · obtain rfl := w.memory.injective _ _ _ hblock hhas.data
          exact hnot (hfreed _ List.mem_cons_self)
        · rw [List.mem_singleton.1 hn] at hblock
          obtain rfl := w.memory.injective _ _ _ hblock hhas.descriptor
          exact hnot (hfreed _ (List.mem_cons_of_mem _ List.mem_cons_self))
    · exact .inr (hstays hold)
  · obtain ⟨queue₀, hqueue₀, hsub, -⟩ := hback q' queue' hq'
    exact hsub.nodup (h.nodup q' queue₀ hqueue₀)
  · obtain ⟨queue₀, hqueue₀, -, hqueued⟩ := hback q' queue' hq'
    exact hqueued

/-- one buffer -/
theorem Sound.freeBuffer (h : Sound w) (hqueue : w.audioQueues q = some queue) (hb : buffer ∈ queue.object.buffers)
    (hfrees : Blocks.Frees w.memory (blocksOf w buffer) memory) (hnot : buffer ∉ queue.object.bufferQueue) :
    Sound { w.setObject q queue { queue.object with buffers := queue.object.buffers.erase buffer } with memory :=
      memory } := by
  have hnodup := h.nodup q queue hqueue
  have hfreed : freedBlocks w [buffer] = blocksOf w buffer := List.append_nil _
  have hsub : ∀ b ∈ [buffer], b ∈ queue.object.buffers := fun b hb' => (List.mem_singleton.1 hb') ▸ hb
  refine Sound.free (w := w) h hfrees (fun q' queue' hq' => ?_) (fun q' queue' hq' => ?_) (fun q' queue' hq' b hb' => ?_)
  · by_cases heq : q' = q
    · subst heq
      cases setObject_self.symm.trans hq'
      exact ⟨queue, hqueue, List.erase_sublist, fun b hb' => (hnodup.mem_erase_iff).2
        ⟨fun heq => hnot (heq ▸ hb'), h.queued q' queue hqueue b hb'⟩⟩
    · have hold := (setObject_of_ne heq).symm.trans hq'
      exact ⟨queue', hold, .refl _, h.queued q' queue' hold⟩
  · by_cases heq : q' = q
    · subst heq
      cases setObject_self.symm.trans hq'
      refine ⟨hfreed ▸ h.queue_not_freed hqueue hqueue hsub, fun b hb' x hx hx' => ?_⟩
      obtain ⟨hne, hmem⟩ := hnodup.mem_erase_iff.1 hb'
      exact hne (h.unique hqueue hqueue hmem hb hx hx').2
    · have hold := (setObject_of_ne heq).symm.trans hq'
      exact ⟨hfreed ▸ h.queue_not_freed hold hqueue hsub, fun b hb' x hx hx' => heq (h.unique hold hqueue hb' hb hx hx').1⟩
  · by_cases heq : q' = q
    · subst heq
      cases hqueue.symm.trans hq'
      by_cases hbb : b = buffer
      · rw [hbb]
        exact .inr fun x hx => hx
      · exact .inl ⟨_, setObject_self, hnodup.mem_erase_iff.2 ⟨hbb, hb'⟩⟩
    · exact .inl ⟨queue', (setObject_of_ne heq).trans hq', hb'⟩

/-- a queue with all of its buffers -/
theorem Sound.dispose (h : Sound w) (hqueue : w.audioQueues q = some queue)
    (hfrees : Blocks.Frees w.memory (q :: freedBlocks w queue.object.buffers) memory) :
    Sound { w with audioQueues := Function.update w.audioQueues q none, memory := memory } := by
  have hold : ∀ q' queue', Function.update w.audioQueues q none q' = some queue' → q' ≠ q ∧ w.audioQueues q' =
      some queue' := by
    intro q' queue' hq'
    by_cases heq : q' = q
    · rw [heq, Function.update_self] at hq'
      cases hq'
    · rw [Function.update_of_ne heq] at hq'
      exact ⟨heq, hq'⟩
  refine Sound.free h hfrees (fun q' queue' hq' => ?_) (fun q' queue' hq' => ?_) (fun q' queue' hq' b hb' => ?_)
  · obtain ⟨-, hq'⟩ := hold q' queue' hq'
    exact ⟨queue', hq', .refl _, h.queued q' queue' hq'⟩
  · obtain ⟨hne, hqueue'⟩ := hold q' queue' hq'
    refine ⟨fun hmem => ?_, fun b hb x hx hmem => ?_⟩
    · rcases List.mem_cons.1 hmem with heq | hmem
      · exact hne heq
      · exact h.queue_not_freed hqueue' hqueue (fun _ hb => hb) hmem
    · rcases List.mem_cons.1 hmem with rfl | hmem
      · obtain ⟨p, hp, hhas⟩ := h.has q' queue' hqueue' b hb
        exact h.ne_block hqueue hp (hhas.block hx) rfl
      · obtain ⟨b', hb', hx'⟩ := List.mem_flatMap.1 hmem
        exact hne (h.unique hqueue' hqueue hb hb' hx hx').1
  · by_cases heq : q' = q
    · subst heq
      cases hqueue.symm.trans hq'
      exact .inr fun x hx => List.mem_cons_of_mem _ (List.mem_flatMap.2 ⟨b, hb', hx⟩)
    · exact .inl ⟨queue', (Function.update_of_ne heq _ _).trans hq', hb'⟩

/-! ### Blocks are allocated -/

/-- `memory'` has the blocks of `memory`, and others that are new. -/
structure Grows (memory memory' : Blocks) : Prop where
  allocated : memory.allocated ≤ memory'.allocated
  kept : ∀ x n, memory.block x = some n → memory'.block x = some n
  back : ∀ x n, n < memory.allocated → memory'.block x = some n → memory.block x = some n

theorem Grows.trans {memory' memory'' : Blocks} (h : Grows memory memory') (h' : Grows memory' memory'') :
    Grows memory memory'' :=
  ⟨h.allocated.trans h'.allocated, fun x n hx => h'.kept x n (h.kept x n hx),
    fun x n hn hx => h.back x n hn (h'.back x n (hn.trans_le h.allocated) hx)⟩

theorem alloc_grows {memory memory' : Blocks} (h : alloc x memory = .ok memory') :
    Grows memory memory' ∧ memory'.allocated = memory.allocated + 1 ∧ memory.block x = none ∧ memory'.block x =
      some memory.allocated := by
  unfold alloc at h
  split_ifs at h with hfree
  cases h
  have hblock : (memory.alloc x hfree.1).block = Function.update memory.block x (some memory.allocated) := rfl
  refine ⟨⟨Nat.le_succ _, fun y n hy => ?_, fun y n hn hy => ?_⟩, rfl, hfree.1, by rw [hblock, Function.update_self]⟩
  · have hne : y ≠ x := fun heq => Option.some_ne_none n (hy.symm.trans (heq ▸ hfree.1))
    rw [hblock, Function.update_of_ne hne, hy]
  · rw [hblock] at hy
    rcases Blocks.update_block_some hy with ⟨-, rfl⟩ | ⟨-, hy⟩
    · exact absurd hn (lt_irrefl _)
    · exact hy

theorem Has.grows (h : Has w q buffer p) (hgrows : Grows w.memory w'.memory)
    (hdata : w'.audioData buffer = w.audioData buffer)
    (hqueue : (w.memory.block q).isSome) : Has w' q buffer p := by
  obtain ⟨n, hn⟩ := Option.isSome_iff_exists.1 hqueue
  refine ⟨?_, hgrows.kept _ _ h.descriptor, ?_⟩
  · rw [← h.queue, hn]
    exact hgrows.kept _ _ hn
  · rw [hdata]
    exact hgrows.kept _ _ h.data

theorem Gone.grows (h : Gone w p) (hknown : ∀ n ∈ p.blocks, n < w.memory.allocated) (hgrows : Grows w.memory w'.memory) :
    Gone w' p :=
  fun n hn x hx => h n hn x (hgrows.back x n (hknown n hn) hx)

theorem Sound.isSome (h : Sound w) (hqueue : w.audioQueues q = some queue) : (w.memory.block q).isSome := by
  obtain ⟨n, hn, -⟩ := h.queues q queue hqueue
  rw [hn]
  rfl

theorem Sound.known_blocks (h : Sound w) (hp : p ∈ w.made) : ∀ n ∈ p.blocks, n < w.memory.allocated :=
  fun n hn => h.known n (List.mem_flatMap.2 ⟨p, hp, hn⟩)

/-- `AudioQueueNewOutput` -/
theorem Sound.newOutput {supported : Bool} (h : Sound w) (hs : audioQueueNewOutput w q supported = .ok w') : Sound w' := by
  obtain ⟨memory, hmemory, hs⟩ := bind_eq_ok.1 hs
  cases hs
  obtain ⟨hgrows, hallocated, hfree, hblock⟩ := alloc_grows hmemory
  have hold : ∀ q' queue', Function.update w.audioQueues q (some ⟨supported, AudioQueue.start []⟩) q' = some queue' →
      q' = q ∧ queue' = ⟨supported, AudioQueue.start []⟩ ∨ w.audioQueues q' = some queue' := by
    intro q' queue' hq'
    by_cases heq : q' = q
    · rw [heq, Function.update_self] at hq'
      exact .inl ⟨heq, (Option.some.inj hq').symm⟩
    · rw [Function.update_of_ne heq] at hq'
      exact .inr hq'
  refine ⟨fun q' queue' hq' => ?_, fun n hn => (h.known n hn).trans_le hgrows.allocated, h.distinct,
    fun q' queue' hq' b hb => ?_,
    fun p hp => ?_, fun q' queue' hq' => ?_, fun q' queue' hq' => ?_⟩
  · rcases hold q' queue' hq' with ⟨rfl, -⟩ | hq'
    · exact ⟨_, hblock, fun hmem => absurd (h.known _ hmem) (lt_irrefl _)⟩
    · obtain ⟨n, hn, hnot⟩ := h.queues q' queue' hq'
      exact ⟨n, hgrows.kept _ _ hn, hnot⟩
  · rcases hold q' queue' hq' with ⟨-, rfl⟩ | hq'
    · exact absurd hb List.not_mem_nil
    · obtain ⟨p, hp, hhas⟩ := h.has q' queue' hq' b hb
      exact ⟨p, hp, hhas.grows hgrows rfl (h.isSome hq')⟩
  · rcases h.kept p hp with ⟨q', queue', hq', b, hb, hhas⟩ | hgone
    · have hne : q' ≠ q := by
        rintro rfl
        exact Option.isSome_iff_ne_none.1 (h.isSome hq') hfree
      exact .inl ⟨q', queue', (Function.update_of_ne hne _ _).trans hq', b, hb, hhas.grows hgrows rfl (h.isSome hq')⟩
    · exact .inr (hgone.grows (h.known_blocks hp) hgrows)
  · rcases hold q' queue' hq' with ⟨-, rfl⟩ | hq'
    · exact List.nodup_nil
    · exact h.nodup q' queue' hq'
  · rcases hold q' queue' hq' with ⟨-, rfl⟩ | hq'
    · exact fun b hb => absurd hb List.not_mem_nil
    · exact h.queued q' queue' hq'

/-- **A new buffer** has two new blocks. -/
theorem Sound.allocate {memory' : Blocks} (h : Sound w) (hqueue : w.audioQueues q = some queue)
    (hdata : alloc audioData w.memory = .ok memory) (hbuffer : alloc buffer memory = .ok memory') :
    Sound { w.setObject q queue { queue.object with buffers := queue.object.buffers ++ [buffer] } with
      memory := memory'
      audioData := Function.update w.audioData buffer audioData
      made := w.made ++ [⟨w.memory.block q, memory.allocated, w.memory.allocated⟩] } := by
  obtain ⟨hgrows₁, hallocated₁, hfree₁, hblock₁⟩ := alloc_grows hdata
  obtain ⟨hgrows₂, hallocated₂, hfree₂, hblock₂⟩ := alloc_grows hbuffer
  have hgrows := hgrows₁.trans hgrows₂
  -- there was no block at the address of the descriptor
  have hfree : w.memory.block buffer = none := by
    cases hb : w.memory.block buffer with
    | none => rfl
    | some n => exact absurd ((hgrows₁.kept _ _ hb).symm.trans hfree₂) (Option.some_ne_none n)
  have hnew : ∀ q' queue', w.audioQueues q' = some queue' → buffer ∉ queue'.object.buffers := by
    intro q' queue' hq' hmem
    obtain ⟨p, -, hhas⟩ := h.has q' queue' hq' buffer hmem
    exact absurd (hfree.symm.trans hhas.descriptor) (Option.some_ne_none _).symm
  set w' : ToolboxState A := { w.setObject q queue { queue.object with buffers := queue.object.buffers ++ [buffer] } with
    memory := memory'
    audioData := Function.update w.audioData buffer audioData
    made := w.made ++ [⟨w.memory.block q, memory.allocated, w.memory.allocated⟩] } with hw'
  have hflat : w'.made.flatMap Made.blocks = w.made.flatMap Made.blocks ++ [w.memory.allocated, memory.allocated] := by
    rw [hw', List.flatMap_append]
    rfl
  have hself :
      w'.audioQueues q = some ⟨queue.supported, { queue.object with buffers := queue.object.buffers ++ [buffer] }⟩ :=
        setObject_self
  have hother : ∀ q', q' ≠ q → w'.audioQueues q' = w.audioQueues q' := fun q' hne => setObject_of_ne hne
  have hhas' : ∀ q' queue', w.audioQueues q' = some queue' → ∀ b ∈ queue'.object.buffers, ∀ p, Has w q' b p →
      Has w' q' b p := by
    intro q' queue' hq' b hb p hhas
    have hne : b ≠ buffer := fun heq => hnew q' queue' hq' (heq ▸ hb)
    exact hhas.grows hgrows (Function.update_of_ne hne _ _) (h.isSome hq')
  have hadded : Has w' q buffer ⟨w.memory.block q, memory.allocated, w.memory.allocated⟩ := by
    obtain ⟨n, hn⟩ := Option.isSome_iff_exists.1 (h.isSome hqueue)
    refine ⟨?_, hblock₂, ?_⟩
    · rw [hn]
      exact hgrows.kept _ _ hn
    · have hsame : w'.audioData buffer = audioData := Function.update_self _ _ _
      rw [hsame]
      exact hgrows₂.kept _ _ hblock₁
  refine ⟨fun q' queue' hq' => ?_, fun n hn => ?_, ?_, fun q' queue' hq' b hb => ?_, fun p hp => ?_, fun q' queue' hq' =>
    ?_,
    fun q' queue' hq' => ?_⟩
  · obtain ⟨queue₀, hqueue₀⟩ : ∃ queue₀, w.audioQueues q' = some queue₀ := by
      by_cases heq : q' = q
      · exact ⟨queue, heq ▸ hqueue⟩
      · exact ⟨queue', (hother q' heq).symm.trans hq'⟩
    obtain ⟨n, hn, hnot⟩ := h.queues q' queue₀ hqueue₀
    have hlt := (w.memory.known q' n hn).1
    refine ⟨n, hgrows.kept _ _ hn, fun hmem => ?_⟩
    rw [hflat, List.mem_append, List.mem_cons, List.mem_singleton] at hmem
    rcases hmem with hmem | heq | heq
    · exact hnot hmem
    · omega
    · omega
  · have hall : w'.memory.allocated = w.memory.allocated + 2 := by
      rw [hw', hallocated₂, hallocated₁]
    rw [hflat, List.mem_append, List.mem_cons, List.mem_singleton] at hn
    rcases hn with hn | rfl | rfl
    · exact (h.known n hn).trans_le hgrows.allocated
    · omega
    · omega
  · rw [hflat, List.nodup_append]
    refine ⟨h.distinct, List.nodup_cons.2 ⟨fun hmem => ?_, List.nodup_singleton _⟩, fun a ha b hb heq => ?_⟩
    · rw [List.mem_singleton] at hmem
      omega
    · have hlt := h.known a ha
      rw [List.mem_cons, List.mem_singleton] at hb
      omega
  · by_cases heq : q' = q
    · subst heq
      cases hself.symm.trans hq'
      rcases List.mem_append.1 hb with hb | hb
      · obtain ⟨p, hp, hhas⟩ := h.has q' queue hqueue b hb
        exact ⟨p, List.mem_append_left _ hp, hhas' q' queue hqueue b hb p hhas⟩
      · rw [List.mem_singleton.1 hb]
        exact ⟨_, List.mem_append_right _ (List.mem_singleton_self _), hadded⟩
    · have hold := (hother q' heq).symm.trans hq'
      obtain ⟨p, hp, hhas⟩ := h.has q' queue' hold b hb
      exact ⟨p, List.mem_append_left _ hp, hhas' q' queue' hold b hb p hhas⟩
  · rcases List.mem_append.1 hp with hp | hp
    · rcases h.kept p hp with ⟨q', queue', hq', b, hb, hhas⟩ | hgone
      · by_cases heq : q' = q
        · subst heq
          cases hqueue.symm.trans hq'
          exact .inl ⟨q', _, hself, b, List.mem_append_left _ hb, hhas' q' queue hqueue b hb p hhas⟩
        · exact .inl ⟨q', queue', (hother q' heq).trans hq', b, hb, hhas' q' queue' hq' b hb p hhas⟩
      · exact .inr (hgone.grows (h.known_blocks hp) hgrows)
    · rw [List.mem_singleton.1 hp]
      exact .inl ⟨q, _, hself, buffer, List.mem_append_right _ (List.mem_singleton_self _), hadded⟩
  · by_cases heq : q' = q
    · subst heq
      cases hself.symm.trans hq'
      exact List.nodup_append.2 ⟨h.nodup q' queue hqueue, List.nodup_singleton _,
        fun a ha b hb heq => hnew q' queue hqueue (List.mem_singleton.1 hb ▸ heq ▸ ha)⟩
    · exact h.nodup q' queue' ((hother q' heq).symm.trans hq')
  · by_cases heq : q' = q
    · subst heq
      cases hself.symm.trans hq'
      exact fun b hb => List.mem_append_left _ (h.queued q' queue hqueue b hb)
    · exact h.queued q' queue' ((hother q' heq).symm.trans hq')

/-! ### The functions -/

theorem allocateBuffer_cases (hs : audioQueueAllocateBuffer w q audioData buffer =
    .ok (status, w')) :
    w' = w ∨ status = 0 ∧ ∃ queue memory memory', w.audioQueues q = some queue ∧ alloc audioData w.memory = .ok memory ∧
      alloc buffer memory = .ok memory' ∧
      w' = { w.setObject q queue { queue.object with buffers := queue.object.buffers ++ [buffer] } with
        memory := memory'
        audioData := Function.update w.audioData buffer audioData
        made := w.made ++ [⟨w.memory.block q, memory.allocated, w.memory.allocated⟩] } := by
  unfold audioQueueAllocateBuffer at hs
  split_ifs at hs
  · cases hs
    exact .inl rfl
  · obtain ⟨queue, hqueue, hs⟩ := bind_eq_ok.1 hs
    obtain ⟨memory, hdata, hs⟩ := bind_eq_ok.1 hs
    obtain ⟨memory', hbuffer, hs⟩ := bind_eq_ok.1 hs
    cases hs
    exact .inr ⟨rfl, queue, memory, memory', unwrap_eq_ok.1 hqueue, hdata, hbuffer, rfl⟩

theorem enqueueBuffer_cases (hs : audioQueueEnqueueBuffer w q buffer = .ok (status, w')) :
    w' = w ∨ status = 0 ∧ ∃ queue, w.audioQueues q = some queue ∧
      w' = w.setObject q queue (AudioQueue.audioQueueEnqueueBuffer buffer queue.object) := by
  unfold audioQueueEnqueueBuffer at hs
  split_ifs at hs
  · cases hs
    exact .inl rfl
  · obtain ⟨queue, hqueue, hs⟩ := bind_eq_ok.1 hs
    split_ifs at hs with hmem
    · cases hs
      exact .inr ⟨rfl, queue, unwrap_eq_ok.1 hqueue, rfl⟩
    · cases hs
      exact .inl rfl

theorem freeBuffer_cases (hs : audioQueueFreeBuffer w q buffer = .ok (status, w')) :
    w' = w ∨ status = 0 ∧ ∃ queue memory, w.audioQueues q = some queue ∧ buffer ∉ queue.object.bufferQueue ∧
      buffer ∈ queue.object.buffers ∧ Blocks.freeAll (blocksOf w buffer) w.memory = some memory ∧
      w' = { w.setObject q queue { queue.object with buffers := queue.object.buffers.erase buffer } with memory :=
        memory } := by
  unfold audioQueueFreeBuffer at hs
  split_ifs at hs
  · cases hs
    exact .inl rfl
  · obtain ⟨queue, hqueue, hs⟩ := bind_eq_ok.1 hs
    split_ifs at hs with hqueued hmem
    · cases hs
      exact .inl rfl
    · obtain ⟨memory, hmemory, hs⟩ := bind_eq_ok.1 hs
      cases hs
      exact .inr ⟨rfl, queue, memory, unwrap_eq_ok.1 hqueue, hqueued, hmem, unwrap_eq_ok.1 hmemory, rfl⟩
    · cases hs
      exact .inl rfl

theorem dispose_cases {immediate : Bool} (hs : audioQueueDispose w q immediate = .ok (status, w')) :
    w' = w ∨ status = 0 ∧ immediate = true ∧ ∃ queue memory, w.audioQueues q = some queue ∧
      Blocks.freeAll (q :: freedBlocks w queue.object.buffers) w.memory = some memory ∧
      w' = { w with audioQueues := Function.update w.audioQueues q none, memory := memory } := by
  unfold audioQueueDispose at hs
  split_ifs at hs
  · cases hs
    exact .inl rfl
  · obtain ⟨u, himmediate, hs⟩ := bind_eq_ok.1 hs
    obtain ⟨queue, hqueue, hs⟩ := bind_eq_ok.1 hs
    obtain ⟨memory, hmemory, hs⟩ := bind_eq_ok.1 hs
    cases hs
    exact .inr ⟨rfl, assert_eq_ok.1 himmediate, queue, memory, unwrap_eq_ok.1 hqueue, unwrap_eq_ok.1 hmemory, rfl⟩

theorem otherFunction_cases (hs : otherFunction w q op = .ok (status, w')) :
    w' = w ∨ status = 0 ∧ ∃ queue object, w.audioQueues q = some queue ∧
      AudioQueue.step queue.supported queue.object op = .ok object ∧ w' = w.setObject q queue object := by
  unfold otherFunction at hs
  split_ifs at hs
  · cases hs
    exact .inl rfl
  · obtain ⟨queue, hqueue, hs⟩ := bind_eq_ok.1 hs
    obtain ⟨object, hobject, hs⟩ := bind_eq_ok.1 hs
    cases hs
    exact .inr ⟨rfl, queue, object, unwrap_eq_ok.1 hqueue, hobject, rfl⟩

/-- the buffers of a queue can be freed, and with them the queue -/
theorem Sound.freeAll_queue (h : Sound w) (hqueue : w.audioQueues q = some queue) :
    ∃ memory, Blocks.freeAll (q :: freedBlocks w queue.object.buffers) w.memory = some memory ∧
      Blocks.Frees w.memory (q :: freedBlocks w queue.object.buffers) memory := by
  have hsub : ∀ b ∈ queue.object.buffers, b ∈ queue.object.buffers := fun _ hb => hb
  refine Blocks.freeAll_spec (fun x hx => ?_)
    (List.nodup_cons.2 ⟨h.queue_not_freed hqueue hqueue hsub, h.freedBlocks_nodup hqueue hsub (h.nodup q queue hqueue)⟩)
  rcases List.mem_cons.1 hx with rfl | hx
  · exact h.isSome hqueue
  · exact h.freedBlocks_live hqueue hsub x hx

theorem Sound.freeAll_buffer (h : Sound w) (hqueue : w.audioQueues q = some queue) (hb : buffer ∈ queue.object.buffers) :
    ∃ memory, Blocks.freeAll (blocksOf w buffer) w.memory = some memory ∧
      Blocks.Frees w.memory (blocksOf w buffer) memory := by
  have hfreed : freedBlocks w [buffer] = blocksOf w buffer := List.append_nil _
  have hsub : ∀ b ∈ [buffer], b ∈ queue.object.buffers := fun b hb' => (List.mem_singleton.1 hb') ▸ hb
  rw [← hfreed]
  exact Blocks.freeAll_spec (h.freedBlocks_live hqueue hsub) (h.freedBlocks_nodup hqueue hsub (List.nodup_singleton _))

/-! ### The handlers -/

/-- **A handler that goes on** calls the callback with the next buffer that waits, or it has no more buffers and comes
to its end. -/
theorem goOn_cases (hs : goOn w i = .ok w') :
    (∃ reused rest isRunning q, w.handlers[i]? = some ⟨q, .calling (reused :: rest) isRunning⟩ ∧
      w' = { w with
        handlers := w.handlers.set i ⟨q, .calling rest isRunning⟩
        calls := w.calls ++ [(reused.buffer, decide (w.memory.block reused.buffer ≠ reused.block))] }) ∨
    ∃ q queue object, w.audioQueues q = some queue ∧ Plays queue.object object ∧
      (w' = { w.setObject q queue object with handlers := w.handlers.set i ⟨q, .notifying⟩ } ∨
        w' = { w.setObject q queue object with handlers := w.handlers.eraseIdx i }) := by
  obtain ⟨⟨q, stage⟩, hhandler, hs⟩ := bind_eq_ok.1 hs
  have hhandler := unwrap_eq_ok.1 hhandler
  cases stage with
  | calling buffers isRunning =>
    cases buffers with
    | nil =>
      obtain ⟨queue, hqueue, hs⟩ := bind_eq_ok.1 hs
      obtain ⟨object, hfinish, hs⟩ := bind_eq_ok.1 hs
      dsimp only at hs
      split_ifs at hs
      · cases hs
        exact .inr ⟨q, queue, object, unwrap_eq_ok.1 hqueue, finishHandler_plays hfinish, .inl rfl⟩
      · cases hs
        exact .inr ⟨q, queue, object, unwrap_eq_ok.1 hqueue, finishHandler_plays hfinish, .inr rfl⟩
    | cons reused rest =>
      cases hs
      exact .inl ⟨reused, rest, isRunning, q, hhandler, rfl⟩
  | notifying =>
    obtain ⟨queue, hqueue, hs⟩ := bind_eq_ok.1 hs
    cases hs
    exact .inr ⟨q, queue, { queue.object with isRunningHandler := false, handler := none }, unwrap_eq_ok.1 hqueue,
      .of_eq rfl rfl, .inr rfl⟩

theorem Sound.goOn (h : Sound w) (hs : BufferOwnership.goOn w i = .ok w') : Sound w' := by
  rcases goOn_cases hs with ⟨reused, rest, isRunning, q, -, rfl⟩ | ⟨q, queue, object, hqueue, hplays, rfl | rfl⟩
  · exact h.congr rfl rfl rfl rfl
  · exact (h.setObject hqueue hplays).congr rfl rfl rfl rfl
  · exact (h.setObject hqueue hplays).congr rfl rfl rfl rfl

theorem Waits.goOn (h : Waits w) (hs : BufferOwnership.goOn w i = .ok w') : Waits w' := by
  rcases goOn_cases hs with ⟨reused, rest, isRunning, q, hhandler, rfl⟩ | ⟨q, queue, object, hqueue, hplays, rfl | rfl⟩
  · have hmem := List.mem_of_getElem? hhandler
    refine ⟨fun handler hh r hr => ?_, fun c hc => ?_⟩
    · rcases List.mem_or_eq_of_mem_set hh with hh | rfl
      · exact h.waiting handler hh r hr
      · exact h.waiting _ hmem r (List.mem_cons_of_mem _ hr)
    · rcases List.mem_append.1 hc with hc | hc
      · exact h.calls c hc
      · obtain ⟨p, -, hblock, hreused⟩ := h.waiting _ hmem reused List.mem_cons_self
        rw [List.mem_singleton.1 hc, decide_eq_false_iff_not, not_not]
        exact hblock.trans hreused.symm
  · refine ⟨fun handler hh r hr => ?_, h.calls⟩
    rcases List.mem_or_eq_of_mem_set hh with hh | rfl
    · exact h.waiting handler hh r hr
    · exact absurd hr List.not_mem_nil
  · exact ⟨fun handler hh r hr => h.waiting handler (List.mem_of_mem_eraseIdx hh) r hr, h.calls⟩

/-- **The handler begins** with the processed buffers of the queue. -/
theorem handle_cases (hs : handleAudioQueue w q = .ok w') : w' = w ∨
    ∃ queue object, ∃ buffers : List ℕ, ∃ isRunning, w.audioQueues q = some queue ∧ Plays queue.object object ∧
      (∀ b ∈ buffers, b ∈ queue.object.bufferQueue) ∧
      goOn { w.setObject q queue object with
        handlers :=
          w.handlers ++ [⟨q, .calling (buffers.map fun b => ⟨b, w.memory.block b⟩) isRunning⟩] } w.handlers.length =
            .ok w' := by
  obtain ⟨queue, hqueue, hs⟩ := bind_eq_ok.1 hs
  have hqueue := unwrap_eq_ok.1 hqueue
  cases hsource : queue.object.alSource with
  | none =>
    rw [hsource] at hs
    cases hs
    exact .inl rfl
  | some source =>
    rw [hsource] at hs
    dsimp only at hs
    split_ifs at hs with hskip
    · cases hs
      exact .inl rfl
    · obtain ⟨⟨buffers, source', object⟩, hrun, hs⟩ := bind_eq_ok.1 hs
      obtain ⟨hbuffers, htaken⟩ := unqueueBuffers_plays hrun
      have htaken : queue.object.bufferQueue = buffers ++ object.bufferQueue := htaken
      refine .inr ⟨queue, { object with alSource := some source' }, buffers, object.isRunning, hqueue,
        ⟨hbuffers, fun b hb => .inl ?_⟩,
        fun b hb => ?_, hs⟩
      · rw [htaken]
        exact List.mem_append_right _ hb
      · rw [htaken]
        exact List.mem_append_left _ hb

theorem Sound.handle (h : Sound w) (hs : handleAudioQueue w q = .ok w') : Sound w' := by
  rcases handle_cases hs with rfl | ⟨queue, object, buffers, isRunning, hqueue, hplays, -, hs⟩
  · exact h
  · refine Sound.goOn ?_ hs
    exact (h.setObject hqueue hplays).congr rfl rfl rfl rfl

theorem Waits.handle (h : Waits w) (hsound : Sound w) (hs : handleAudioQueue w q = .ok w') : Waits w' := by
  rcases handle_cases hs with rfl | ⟨queue, object, buffers, isRunning, hqueue, -, htaken, hs⟩
  · exact h
  · refine Waits.goOn ?_ hs
    refine ⟨fun handler hh r hr => ?_, h.calls⟩
    rcases List.mem_append.1 hh with hh | hh
    · exact h.waiting handler hh r hr
    · rw [List.mem_singleton.1 hh] at hr
      obtain ⟨b, hb, rfl⟩ := List.mem_map.1 hr
      obtain ⟨p, hp, hhas⟩ := hsound.has q queue hqueue b (hsound.queued q queue hqueue b (htaken b hb))
      exact ⟨p, hp, hhas.descriptor, hhas.descriptor⟩

/-- the buffers that wait are not among those that are freed -/
theorem Waits.free (h : Waits w) (hsound : Sound w) (hqueue : w.audioQueues q = some queue)
    (hsub : ∀ b ∈ buffers, b ∈ queue.object.buffers) (hfrees : Blocks.Frees w.memory xs w'.memory)
    (hxs : ∀ x ∈ xs, x = q ∨ x ∈ freedBlocks w buffers)
    (hspares : ∀ b ∈ buffers, ∀ handler ∈ w.handlers, ∀ reused ∈ handler.stage.waiting, reused.buffer ≠ b)
    (hmade : w'.made = w.made) (hhandlers : w'.handlers = w.handlers) (hcalls : w'.calls = w.calls) : Waits w' := by
  refine ⟨fun handler hh reused hr => ?_, fun c hc => h.calls c (hcalls ▸ hc)⟩
  rw [hhandlers] at hh
  obtain ⟨p, hp, hblock, hreused⟩ := h.waiting handler hh reused hr
  have hdescriptor : p.descriptor ∈ p.blocks := List.mem_cons_of_mem _ List.mem_cons_self
  refine ⟨p, hmade ▸ hp, (hfrees.kept _ fun hmem => ?_).trans hblock, hreused⟩
  rcases hxs _ hmem with heq | hmem
  · exact hsound.ne_block hqueue hp ⟨p.descriptor, hdescriptor, hblock⟩ heq.symm
  · obtain ⟨b, hb, hx⟩ := List.mem_flatMap.1 hmem
    obtain ⟨p', hp', hhas⟩ := hsound.has q queue hqueue b (hsub b hb)
    rcases List.mem_cons.1 hx with heq | hx
    · -- a descriptor is not the data of a buffer
      have hdata := hhas.data
      rw [← heq, hblock] at hdata
      have hnumber := Option.some.inj hdata
      have hsame := hsound.same hp hp' hdescriptor (hnumber ▸ List.mem_cons_self)
      have hblocks := (List.nodup_flatMap.1 hsound.distinct).1 p hp
      rw [← hsame] at hnumber
      exact (List.nodup_cons.1 hblocks).1 (List.mem_singleton.2 hnumber.symm)
    · exact hspares b hb handler hh reused hr (List.mem_singleton.1 hx)

/-! ## The result -/

theorem step_eq_ok : step w o = .ok w' ↔ ∃ status, call w o = .ok (status, w') := by
  refine ⟨fun h => ?_, fun ⟨status, h⟩ => ?_⟩
  · obtain ⟨⟨status, t⟩, hcall, h⟩ := bind_eq_ok.1 h
    cases h
    exact ⟨status, hcall⟩
  · rw [step, h]
    rfl

theorem step_eq_error {e : Panic} (h : step w o = .error e) : call w o = .error e := by
  cases hcall : call w o with
  | error e' =>
    rw [step, hcall] at h
    cases h
    rfl
  | ok r =>
    rw [step, hcall] at h
    cases h

/-- the functions that are not of the buffers -/
theorem other_cases (hs : call w (.other q op) = .ok (status, w')) :
    w' = w ∨ status = 0 ∧ ∃ queue object, w.audioQueues q = some queue ∧ Plays queue.object object ∧ w' =
      w.setObject q queue object := by
  have hother (hhandle : op ≠ .handle) (hreturned : op ≠ .returned) (hs : otherFunction w q op = .ok (status, w')) :
      w' = w ∨ status = 0 ∧ ∃ queue object, w.audioQueues q = some queue ∧ Plays queue.object object ∧ w' =
        w.setObject q queue object := by
    rcases otherFunction_cases hs with heq | ⟨hstatus, queue, object, hqueue, hstep, heq⟩
    · exact .inl heq
    · exact .inr ⟨hstatus, queue, object, hqueue, otherStep_plays hhandle hreturned hstep, heq⟩
  cases op with
  | handle => cases hs
  | returned => cases hs
  | _ => exact hother (fun h => (by cases h)) (fun h => (by cases h)) hs

theorem Sound.step (h : Sound w) (hs : BufferOwnership.step w o = .ok w') : Sound w' := by
  obtain ⟨status, hs⟩ := step_eq_ok.1 hs
  cases o with
  | newOutput q supported =>
    obtain ⟨t, hnew, hs⟩ := bind_eq_ok.1 hs
    cases hs
    exact h.newOutput hnew
  | allocateBuffer q audioData buffer =>
    rcases allocateBuffer_cases hs with rfl | ⟨-, queue, memory, memory', hqueue, hdata, hbuffer, rfl⟩
    · exact h
    · exact h.allocate hqueue hdata hbuffer
  | enqueueBuffer q buffer =>
    rcases enqueueBuffer_cases hs with rfl | ⟨-, queue, hqueue, rfl⟩
    · exact h
    · have hstep : AudioQueue.step queue.supported queue.object (.enqueueBuffer buffer) =
          .ok (AudioQueue.audioQueueEnqueueBuffer buffer queue.object) := rfl
      exact h.setObject hqueue (otherStep_plays (fun h => (by cases h)) (fun h => (by cases h)) hstep)
  | freeBuffer q buffer =>
    rcases freeBuffer_cases hs with rfl | ⟨-, queue, memory, hqueue, hnot, hmem, hfree, rfl⟩
    · exact h
    · obtain ⟨memory', hfree', hfrees⟩ := h.freeAll_buffer hqueue hmem
      cases hfree.symm.trans hfree'
      exact h.freeBuffer hqueue hmem hfrees hnot
  | dispose q immediate =>
    rcases dispose_cases hs with rfl | ⟨-, -, queue, memory, hqueue, hfree, rfl⟩
    · exact h
    · obtain ⟨memory', hfree', hfrees⟩ := h.freeAll_queue hqueue
      cases hfree.symm.trans hfree'
      exact h.dispose hqueue hfrees
  | other q op =>
    rcases other_cases hs with rfl | ⟨-, queue, object, hqueue, hplays, rfl⟩
    · exact h
    · exact h.setObject hqueue hplays
  | handle q =>
    obtain ⟨t, hhandle, hs⟩ := bind_eq_ok.1 hs
    cases hs
    exact h.handle hhandle
  | returned i =>
    obtain ⟨t, hgo, hs⟩ := bind_eq_ok.1 hs
    cases hs
    exact h.goOn hgo

/-- the blocks that are there stay -/
theorem Waits.congr (h : Waits w) (hmemory : ∀ x n, w.memory.block x = some n → w'.memory.block x = some n)
    (hmade : ∀ p ∈ w.made, p ∈ w'.made) (hhandlers : w'.handlers = w.handlers) (hcalls : w'.calls = w.calls) :
    Waits w' := by
  refine ⟨fun handler hh reused hr => ?_, fun c hc => h.calls c (hcalls ▸ hc)⟩
  obtain ⟨p, hp, hblock, hreused⟩ := h.waiting handler (hhandlers ▸ hh) reused hr
  exact ⟨p, hmade p hp, hmemory _ _ hblock, hreused⟩

theorem Waits.step (h : Waits w) (hsound : Sound w) (hspares : Spares w o)
    (hs : BufferOwnership.step w o = .ok w') :
    Waits w' := by
  obtain ⟨status, hs⟩ := step_eq_ok.1 hs
  cases o with
  | newOutput q supported =>
    obtain ⟨t, hnew, hs⟩ := bind_eq_ok.1 hs
    cases hs
    obtain ⟨memory, hmemory, hnew⟩ := bind_eq_ok.1 hnew
    cases hnew
    exact h.congr (alloc_grows hmemory).1.kept (fun p hp => hp) rfl rfl
  | allocateBuffer q audioData buffer =>
    rcases allocateBuffer_cases hs with rfl | ⟨-, queue, memory, memory', -, hdata, hbuffer, rfl⟩
    · exact h
    · exact h.congr ((alloc_grows hdata).1.trans (alloc_grows hbuffer).1).kept (fun p hp =>
        List.mem_append_left _ hp) rfl rfl
  | enqueueBuffer q buffer =>
    rcases enqueueBuffer_cases hs with rfl | ⟨-, queue, hqueue, rfl⟩
    · exact h
    · exact h.congr (fun x n hx => hx) (fun p hp => hp) rfl rfl
  | freeBuffer q buffer =>
    rcases freeBuffer_cases hs with rfl | ⟨-, queue, memory, hqueue, hnot, hmem, hfree, rfl⟩
    · exact h
    · obtain ⟨memory', hfree', hfrees⟩ := hsound.freeAll_buffer hqueue hmem
      cases hfree.symm.trans hfree'
      have hfreed : freedBlocks w [buffer] = blocksOf w buffer := List.append_nil _
      have hsub : ∀ b ∈ [buffer], b ∈ queue.object.buffers := fun b hb => (List.mem_singleton.1 hb) ▸ hmem
      refine h.free hsound hqueue hsub hfrees (fun x hx => .inr (hfreed ▸ hx)) (fun b hb => hspares b ?_) rfl rfl rfl
      rw [freedBy, hqueue, Option.elim_some, if_pos ⟨hmem, hnot⟩]
      exact hb
  | dispose q immediate =>
    rcases dispose_cases hs with rfl | ⟨-, himmediate, queue, memory, hqueue, hfree, rfl⟩
    · exact h
    · obtain ⟨memory', hfree', hfrees⟩ := hsound.freeAll_queue hqueue
      cases hfree.symm.trans hfree'
      refine h.free hsound hqueue (fun b hb => hb) hfrees (fun x hx => List.mem_cons.1 hx) (fun b hb =>
        hspares b ?_) rfl rfl rfl
      rw [himmediate, freedBy, hqueue, Option.elim_some]
      exact hb
  | other q op =>
    rcases other_cases hs with rfl | ⟨-, queue, object, -, -, rfl⟩
    · exact h
    · exact h.congr (fun x n hx => hx) (fun p hp => hp) rfl rfl
  | handle q =>
    obtain ⟨t, hhandle, hs⟩ := bind_eq_ok.1 hs
    cases hs
    exact h.handle hsound hhandle
  | returned i =>
    obtain ⟨t, hgo, hs⟩ := bind_eq_ok.1 hs
    cases hs
    exact h.goOn hgo

/-- nothing is freed that is not there -/
theorem Sound.frees (h : Sound w) (ho : Frees o) : BufferOwnership.step w o ≠ .error .unknownAllocation := by
  intro hs
  have hs := step_eq_error hs
  cases o with
  | freeBuffer q buffer =>
    change audioQueueFreeBuffer w q buffer = _ at hs
    unfold audioQueueFreeBuffer at hs
    split_ifs at hs
    · cases hs
    · cases hqueue : w.audioQueues q with
      | none =>
        rw [hqueue] at hs
        cases hs
      | some queue =>
        rw [hqueue, unwrap, ok_bind] at hs
        split_ifs at hs with hqueued hmem
        · cases hs
        · obtain ⟨memory, hfree, -⟩ := h.freeAll_buffer hqueue hmem
          rw [hfree] at hs
          cases hs
        · cases hs
  | dispose q immediate =>
    cases immediate with
    | false => exact absurd ho id
    | true =>
      change audioQueueDispose w q true = _ at hs
      unfold audioQueueDispose at hs
      split_ifs at hs
      · cases hs
      · cases hqueue : w.audioQueues q with
        | none =>
          rw [hqueue] at hs
          cases hs
        | some queue =>
          obtain ⟨memory, hfree, -⟩ := h.freeAll_queue hqueue
          unfold freedBlocks at hfree
          rw [hqueue, unwrap, ok_bind, hfree] at hs
          cases hs
  | _ => exact absurd ho id

/-- **An error changes nothing.** -/
theorem call_refused (hs : call w o = .ok (status, w')) (hstatus : status ≠ 0) : w' = w := by
  cases o with
  | newOutput q supported =>
    obtain ⟨t, -, hs⟩ := bind_eq_ok.1 hs
    cases hs
    exact absurd rfl hstatus
  | allocateBuffer q audioData buffer => exact (allocateBuffer_cases hs).resolve_right fun h => hstatus h.1
  | enqueueBuffer q buffer => exact (enqueueBuffer_cases hs).resolve_right fun h => hstatus h.1
  | freeBuffer q buffer => exact (freeBuffer_cases hs).resolve_right fun h => hstatus h.1
  | dispose q immediate => exact (dispose_cases hs).resolve_right fun h => hstatus h.1
  | other q op => exact (other_cases hs).resolve_right fun h => hstatus h.1
  | handle q =>
    obtain ⟨t, -, hs⟩ := bind_eq_ok.1 hs
    cases hs
    exact absurd rfl hstatus
  | returned i =>
    obtain ⟨t, -, hs⟩ := bind_eq_ok.1 hs
    cases hs
    exact absurd rfl hstatus

theorem sound_initial : Sound (initial : ToolboxState A) :=
  ⟨fun _ _ h => (by cases h), fun _ h => absurd h List.not_mem_nil, List.nodup_nil, fun _ _ h => (by cases h),
    fun _ h => absurd h List.not_mem_nil, fun _ _ h => (by cases h), fun _ _ h => (by cases h)⟩

theorem waits_initial : Waits (initial : ToolboxState A) :=
  ⟨fun _ h => absurd h List.not_mem_nil, fun _ h => absurd h List.not_mem_nil⟩

theorem conserves (h : Sound w) (hw : Waits w) (hspares : Spares w o) : Conserves w o where
  frees := h.frees
  refused _ _ hs hstatus := call_refused hs hstatus
  freedOnce _ hs := (h.step hs).freedOnce
  queuesLive _ hs := (h.step hs).queuesLive
  delivered _ hs := (hw.step h hspares hs).calls

/-- **The buffers of all queues**, from a state in which they are as they should be -/
theorem conserved_from {ops : List Op} (h : Sound w) (hw : Waits w) (hl : LegalRun step Spares w ops) :
    LegalRun step Conserves w ops := by
  induction ops generalizing w with
  | nil => trivial
  | cons o ops ih => exact ⟨conserves h hw hl.1, fun w' hs => ih (h.step hs) (hw.step h hl.1 hs) (hl.2 w' hs)⟩

end

/-- **The buffers of all queues**, in every run in which no buffer is freed, and no queue disposed of, while a handler
still has to call the callback with the buffer, or with one of the queue: each is freed exactly once, errors change
nothing, the play queues have live buffers only, and the callbacks too are called with live buffers only. -/
theorem buffers_conserved (A : OpenAl) (ops : List Op) (h : LegalRun step Spares (initial : ToolboxState A) ops) :
    LegalRun step Conserves (initial : ToolboxState A) ops :=
  conserved_from sound_initial waits_initial h

instance (w : ToolboxState A) (o : Op) : Decidable (Spares w o) :=
  inferInstanceAs (Decidable (∀ buffer ∈ freedBy w o, ∀ handler ∈ w.handlers, ∀ reused ∈ handler.stage.waiting,
    reused.buffer ≠ buffer))

/-- a queue with two buffers that are both played when its handler begins -/
def playTwo : List Op :=
  [.newOutput 4 true, .allocateBuffer 4 8 12, .allocateBuffer 4 16 20, .enqueueBuffer 4 12, .enqueueBuffer 4 20,
    .other 4 .start,
    .other 4 (.mix 2), .handle 4]

/-- The callback frees the buffer that it is called with. -/
theorem buffers_conserved_own : LegalRun step Conserves (initial : ToolboxState AudioQueue.softAl)
    (playTwo ++ [.freeBuffer 4 12, .returned 0, .returned 0, .dispose 4 true]) :=
  buffers_conserved AudioQueue.softAl _ (by decide +kernel)

/-- the callback frees the other buffer -/
def freesOther : List Op := playTwo ++ [.freeBuffer 4 20]

def freedOther : ToolboxState AudioQueue.softAl := (run step initial freesOther).toOption.getD initial

/-- The callback is called with a buffer that it has freed the time before. -/
theorem freed_delivered :
    ¬LegalRun step Conserves (initial : ToolboxState AudioQueue.softAl) (freesOther ++ [.returned 0]) := by
  intro h
  have hbefore : run step initial freesOther = .ok freedOther := eq_ok_of_toOption (by decide +kernel)
  have hlast := eq_ok_of_toOption (x := step freedOther (.returned 0)) (d := initial) (by decide +kernel)
  have hcalls := (h.append.2 freedOther hbefore).1.delivered _ hlast
  exact absurd hcalls (by decide +kernel)

end TouchHLE.BufferOwnership
