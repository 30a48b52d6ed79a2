/-
The buffers that the guest allocates for audio queues (`AudioQueueAllocateBuffer`, `AudioQueueFreeBuffer` and so on in
`audio_queue.rs`). A queue has a list of its buffers, which it frees, and `handle_audio_queue` has a list of its own
while it calls the guest.

- `ToolboxState`: the queues, the guest memory as blocks with identities, and the handlers that wait for a callback. A
  handler lives on when its queue is disposed of.
- `Op`, `call`: the calls, made at any time, and the returns of the callbacks, in any order.
- `Plays`: what the functions that are not of the buffers do to the lists of a queue.
-/
import TouchHLE.AudioToolbox.AudioQueue
import TouchHLE.Lib.Blocks

namespace TouchHLE.BufferOwnership

open Machine
open AudioQueue (unqueueBuffers finishHandler primeAudioQueue audioQueueReset)

variable {A : OpenAl}

/-! ## The functions -/

structure Queue (A : OpenAl) where
  /-- `is_supported_audio_format` -/
  supported : Bool
  object : AudioQueue.State A

/-- a buffer in the list of a handler, with the block that was there when it was put into it -/
structure Reused where
  buffer : ℕ
  block : Option ℕ

inductive Stage where
  | calling (buffersToReuse : List Reused) (isRunning : AudioQueueIsRunning)
  | notifying

/-- the buffers that the callback is still to be called with -/
def Stage.waiting : Stage → List Reused
  | .calling buffersToReuse _ => buffersToReuse
  | .notifying => []

structure RunningHandler where
  queue : ℕ
  stage : Stage

/-- the blocks of a buffer that was allocated, and that of its queue -/
structure Made where
  queue : Option ℕ
  descriptor : ℕ
  data : ℕ

def Made.blocks (p : Made) : List ℕ := [p.data, p.descriptor]

structure ToolboxState (A : OpenAl) where
  audioQueues : ℕ → Option (Queue A)
  memory : Blocks
  /-- the field of the descriptor at an address -/
  audioData : ℕ → ℕ
  handlers : List RunningHandler
  /-- all buffers that were allocated so far -/
  made : List Made
  /-- the buffers that callbacks were called with, and whether they had been freed by then -/
  calls : List (ℕ × Bool)

def paramErr : ℤ := -50
def invalidBuffer : ℤ := -66687
def bufferInQueue : ℤ := -66679

/-- `Mem::alloc`, with the address that it gives -/
def alloc (ptr : ℕ) (m : Blocks) : Except Panic Blocks :=
  if h : m.block ptr = none ∧ ptr ≠ 0 then pure (m.alloc ptr h.1) else throw .notEnabled

variable (w : ToolboxState A) (q : ℕ)

def ToolboxState.setObject (queue : Queue A) (object : AudioQueue.State A) : ToolboxState A :=
  { w with audioQueues := Function.update w.audioQueues q (some { queue with object := object }) }

/-- what is freed with a buffer, in order -/
def blocksOf (buffer : ℕ) : List ℕ := [w.audioData buffer, buffer]

def audioQueueNewOutput (supported : Bool) : Except Panic (ToolboxState A) := do
  let memory ← alloc q w.memory
  pure { w with memory := memory, audioQueues := Function.update w.audioQueues q (some ⟨supported, AudioQueue.start []⟩) }

def audioQueueAllocateBuffer (audioData buffer : ℕ) : Except Panic (ℤ × ToolboxState A) :=
  if q = 0 then pure (paramErr, w)
  else do
    let queue ← unwrap (w.audioQueues q) .missing
    let memory ← alloc audioData w.memory
    let memory' ← alloc buffer memory
    let w' := w.setObject q queue { queue.object with buffers := queue.object.buffers ++ [buffer] }
    pure (0, { w' with
      memory := memory'
      audioData := Function.update w.audioData buffer audioData
      made := w.made ++ [⟨w.memory.block q, memory.allocated, w.memory.allocated⟩] })

def audioQueueEnqueueBuffer (buffer : ℕ) : Except Panic (ℤ × ToolboxState A) :=
  if q = 0 then pure (paramErr, w)
  else do
    let queue ← unwrap (w.audioQueues q) .missing
    if buffer ∉ queue.object.buffers then pure (invalidBuffer, w)
    else pure (0, w.setObject q queue (AudioQueue.audioQueueEnqueueBuffer buffer queue.object))

def audioQueueFreeBuffer (buffer : ℕ) : Except Panic (ℤ × ToolboxState A) :=
  if q = 0 then pure (paramErr, w)
  else do
    let queue ← unwrap (w.audioQueues q) .missing
    if buffer ∈ queue.object.bufferQueue then pure (bufferInQueue, w)
    else if buffer ∈ queue.object.buffers then do
      let memory ← unwrap (Blocks.freeAll (blocksOf w buffer) w.memory) .unknownAllocation
      let w' := w.setObject q queue { queue.object with buffers := queue.object.buffers.erase buffer }
      pure (0, { w' with memory := memory })
    else pure (invalidBuffer, w)

/-- `AudioQueueDispose`, but for the source -/
def audioQueueDispose (immediate : Bool) : Except Panic (ℤ × ToolboxState A) :=
  if q = 0 then pure (paramErr, w)
  else do
    assert immediate .todo
    let queue ← unwrap (w.audioQueues q) .missing
    let memory ← unwrap (Blocks.freeAll (q :: queue.object.buffers.flatMap (blocksOf w)) w.memory) .unknownAllocation
    pure (0, { w with audioQueues := Function.update w.audioQueues q none, memory := memory })

/-- the other functions for a queue -/
def otherFunction (op : AudioQueue.Op) : Except Panic (ℤ × ToolboxState A) :=
  if q = 0 then pure (paramErr, w)
  else do
    let queue ← unwrap (w.audioQueues q) .missing
    let object ← AudioQueue.step queue.supported queue.object op
    pure (0, w.setObject q queue object)

/-- A handler goes on: it calls the callback with the next buffer, or comes to its end. -/
def goOn (i : ℕ) : Except Panic (ToolboxState A) := do
  let handler ← unwrap w.handlers[i]? .notEnabled
  match handler.stage with
  | .calling (reused :: rest) isRunning =>
    pure { w with
      handlers := w.handlers.set i ⟨handler.queue, .calling rest isRunning⟩
      calls := w.calls ++ [(reused.buffer, decide (w.memory.block reused.buffer ≠ reused.block))] }
  | .calling [] isRunning => do
    let queue ← unwrap (w.audioQueues handler.queue) .missing
    let object ← finishHandler queue.supported isRunning queue.object
    let w' := w.setObject handler.queue queue object
    if object.handler.isSome then pure { w' with handlers := w.handlers.set i ⟨handler.queue, .notifying⟩ }
    else pure { w' with handlers := w.handlers.eraseIdx i }
  | .notifying => do
    let queue ← unwrap (w.audioQueues handler.queue) .missing
    let w' := w.setObject handler.queue queue { queue.object with isRunningHandler := false, handler := none }
    pure { w' with handlers := w.handlers.eraseIdx i }

def handleAudioQueue : Except Panic (ToolboxState A) := do
  let queue ← unwrap (w.audioQueues q) .missing
  match queue.object.alSource with
  | none => pure w
  | some source =>
    if !queue.supported || queue.object.isRunningHandler then pure w
    else do
      let (buffers, source, object) ← unqueueBuffers
        (A.queue source).length source { queue.object with isRunningHandler := true }
      let handler := ⟨q, .calling (buffers.map fun b => ⟨b, w.memory.block b⟩) object.isRunning⟩
      goOn { w.setObject q queue { object with alSource := some source } with handlers :=
        w.handlers ++ [handler] } w.handlers.length

/-! ## Runs -/

inductive Op where
  | newOutput (q : ℕ) (supported : Bool)
  /-- with the addresses that are allocated -/
  | allocateBuffer (q audioData buffer : ℕ)
  | enqueueBuffer (q buffer : ℕ)
  | freeBuffer (q buffer : ℕ)
  | dispose (q : ℕ) (immediate : Bool)
  /-- the other functions, and OpenAL that goes on with the buffers -/
  | other (q : ℕ) (op : AudioQueue.Op)
  /-- the run loop comes to a queue -/
  | handle (q : ℕ)
  /-- the guest code that a handler has called returns -/
  | returned (i : ℕ)

/-- with the status that the guest gets -/
def call : Op → Except Panic (ℤ × ToolboxState A)
  | .newOutput q supported => do
    let w' ← audioQueueNewOutput w q supported
    pure (0, w')
  | .allocateBuffer q audioData buffer => audioQueueAllocateBuffer w q audioData buffer
  | .enqueueBuffer q buffer => audioQueueEnqueueBuffer w q buffer
  | .freeBuffer q buffer => audioQueueFreeBuffer w q buffer
  | .dispose q immediate => audioQueueDispose w q immediate
  | .other _ .handle | .other _ .returned => throw .notEnabled
  | .other q op => otherFunction w q op
  | .handle q => do
    let w' ← handleAudioQueue w q
    pure (0, w')
  | .returned i => do
    let w' ← goOn w i
    pure (0, w')

def step (w : ToolboxState A) (o : Op) : Except Panic (ToolboxState A) := do
  let (_, w') ← call w o
  pure w'

def initial : ToolboxState A := ⟨fun _ => none, Blocks.empty, fun _ => 0, [], [], []⟩

/-! ## The play queue -/

section

variable {supported : Bool} {s s' : AudioQueue.State A} {source source' : A.Source} {fuel : ℕ} {isRunning :
  AudioQueueIsRunning}
  {buffers : List ℕ}

/-- what the functions of a queue do to its lists -/
structure Plays (s s' : AudioQueue.State A) : Prop where
  buffers : s'.buffers = s.buffers
  queued : ∀ b ∈ s'.bufferQueue, b ∈ s.bufferQueue ∨ b ∈ s.buffers

theorem Plays.of_eq (hb : s'.buffers = s.buffers) (hq : s'.bufferQueue = s.bufferQueue) : Plays s s' :=
  ⟨hb, fun b h => .inl (by rwa [← hq])⟩

theorem Plays.trans {t : AudioQueue.State A} (h : Plays s t) (h' : Plays t s') : Plays s s' := by
  refine ⟨h'.buffers.trans h.buffers, fun b hb => ?_⟩
  rcases h'.queued b hb with hb | hb
  · exact h.queued b hb
  · right
    rwa [← h.buffers]

theorem primeLoop_plays (h : AudioQueue.primeLoop fuel source s = .ok s') : Plays s s' := by
  induction fuel generalizing source s with
  | zero =>
    unfold AudioQueue.primeLoop at h
    obtain ⟨-, -, h⟩ := bind_eq_ok.1 h
    split_ifs at h with hdone
    cases h
    exact .of_eq rfl rfl
  | succ fuel ih =>
    unfold AudioQueue.primeLoop at h
    obtain ⟨-, -, h⟩ := bind_eq_ok.1 h
    split_ifs at h with hdone
    · cases h
      exact .of_eq rfl rfl
    · obtain ⟨buffer, -, h⟩ := bind_eq_ok.1 h
      have hfill : Plays s (AudioQueue.fillBuffer s buffer).2 := by
        unfold AudioQueue.fillBuffer
        cases s.alUnusedBuffers.getLast? <;> exact .of_eq rfl rfl
      exact hfill.trans (ih h)

theorem prime_plays (h : primeAudioQueue supported s = .ok s') : Plays s s' := by
  unfold primeAudioQueue at h
  split_ifs at h
  · exact primeLoop_plays h
  · cases h
    exact .of_eq rfl rfl

/-- **The buffers that are taken out** are the first of the queue. -/
theorem unqueueBuffers_plays (h : unqueueBuffers fuel source s = .ok (buffers, source', s')) :
    s'.buffers = s.buffers ∧ s.bufferQueue = buffers ++ s'.bufferQueue := by
  induction fuel generalizing source s buffers with
  | zero =>
    unfold unqueueBuffers at h
    split_ifs at h with hdone
    cases h
    exact ⟨rfl, rfl⟩
  | succ fuel ih =>
    unfold unqueueBuffers at h
    split_ifs at h with hdone
    · cases h
      exact ⟨rfl, rfl⟩
    · obtain ⟨b, -, h⟩ := bind_eq_ok.1 h
      obtain ⟨buffer, hbuffer, h⟩ := bind_eq_ok.1 h
      obtain ⟨⟨buffers', source₁, s₁⟩, hrun, h⟩ := bind_eq_ok.1 h
      cases h
      obtain ⟨hbuffers, hqueue⟩ := ih hrun
      have htail : s.bufferQueue.tail = buffers' ++ s'.bufferQueue := hqueue
      obtain ⟨rest, hrest⟩ := List.head?_eq_some_iff.1 (unwrap_eq_ok.1 hbuffer)
      rw [hrest, List.tail_cons] at htail
      exact ⟨hbuffers, by rw [hrest, htail, List.cons_append]⟩

theorem reset_plays (h : audioQueueReset s = .ok s') : Plays s s' := by
  unfold audioQueueReset at h
  cases hsource : s.alSource with
  | none =>
    rw [hsource] at h
    cases h
    exact ⟨rfl, fun b hb => absurd hb List.not_mem_nil⟩
  | some source =>
    rw [hsource] at h
    obtain ⟨⟨buffers, source₁, s₁⟩, hrun, h⟩ := bind_eq_ok.1 h
    cases h
    exact ⟨(unqueueBuffers_plays hrun).1, fun b hb => absurd hb List.not_mem_nil⟩

theorem finishStopping_plays (h : AudioQueue.finishStopping s = .ok s') : Plays s s' := by
  obtain ⟨t, hreset, h⟩ := bind_eq_ok.1 h
  cases h
  exact (reset_plays hreset).trans (.of_eq rfl rfl)

theorem finishHandler_plays (h : finishHandler supported isRunning s = .ok s') : Plays s s' := by
  obtain ⟨t, hprime, h⟩ := bind_eq_ok.1 h
  -- the state in which the source was played or not
  obtain ⟨t', ht', hplay⟩ :
      ∃ t', (if isRunning ≠ .stopped ∧ AudioQueue.ranOut t = true then { t with alSource := t.alSource.map A.play }
      else t) = t' ∧ Plays t t' := ⟨_, rfl, by split_ifs <;> exact .of_eq rfl rfl⟩
  refine ((prime_plays hprime).trans hplay).trans ?_
  simp only [ht'] at h
  split_ifs at h with hstopping
  · obtain ⟨t₂, hfinish, h⟩ := bind_eq_ok.1 h
    cases h
    exact (finishStopping_plays hfinish).trans (.of_eq rfl rfl)
  · cases h
    exact .of_eq rfl rfl

theorem otherStep_plays {op : AudioQueue.Op} (hhandle : op ≠ .handle) (hreturned : op ≠ .returned)
    (h : AudioQueue.step supported s op = .ok s') : Plays s s' := by
  cases op with
  | enqueueBuffer buffer =>
    cases h
    unfold AudioQueue.audioQueueEnqueueBuffer
    split_ifs with hmem
    · refine ⟨rfl, fun b hb => ?_⟩
      rcases List.mem_append.1 hb with hb | hb
      · exact .inl hb
      · rw [List.mem_singleton.1 hb]
        exact .inr hmem
    · exact .of_eq rfl rfl
  | prime => exact prime_plays h
  | start =>
    obtain ⟨t, hprime, h⟩ := bind_eq_ok.1 h
    refine (prime_plays hprime).trans ?_
    dsimp only at h
    split_ifs at h
    · obtain ⟨source, -, h⟩ := bind_eq_ok.1 h
      cases h
      exact .of_eq rfl rfl
    · cases h
      exact .of_eq rfl rfl
  | pause =>
    cases h
    exact .of_eq rfl rfl
  | stop immediate =>
    cases immediate with
    | false =>
      cases h
      split_ifs <;> exact .of_eq rfl rfl
    | true =>
      have hfinish := finishStopping_plays h
      exact ⟨hfinish.buffers, hfinish.queued⟩
  | reset => exact reset_plays h
  | mix k =>
    cases h
    exact .of_eq rfl rfl
  | handle => exact absurd rfl hhandle
  | returned => exact absurd rfl hreturned

end

end TouchHLE.BufferOwnership
