/-
Output audio queues (`audio_queue.rs`). The buffers that an app enqueues are decoded into buffers of OpenAL, which has a
queue of its own, and the two queues have to go together.

- `OpenAl`: a source of OpenAL and the rules for its queue.
- `State`, `primeAudioQueue`, `unqueueBuffers`, `handleAudioQueue`, `audioQueueReset` and so on: the functions. What guest
  code does in a callback is a number of further steps.
- `Paired`: the buffers at the source are the first of the queue, in order.
- `paired_iff`: runs. `primed_reset`: a source that was never played keeps its buffers when the queue is reset.
-/
import TouchHLE.Lib.Machine
import TouchHLE.Panic

namespace TouchHLE

open Machine

/-! ## OpenAL -/

/-- `AL_SOURCE_STATE` -/
inductive SourceState where
  | initial
  | playing
  | paused
  | stopped
deriving DecidableEq

/-- the sources of OpenAL, with the rules that there are for the queue of a source -/
structure OpenAl where
  Source : Type
  gen : Source
  /-- the names of the queued buffers, the oldest first -/
  queue : Source → List ℕ
  processed : Source → ℕ
  state : Source → SourceState
  queueBuffer : Source → ℕ → Source
  /-- the removal of the oldest buffer -/
  unqueueBuffer : Source → Source
  play : Source → Source
  pause : Source → Source
  stop : Source → Source
  /-- what the source does by itself while time goes by -/
  mix : ℕ → Source → Source
  queue_gen : queue gen = []
  processed_le : ∀ s, processed s ≤ (queue s).length
  /-- nothing is processed before the source is played, and everything when it has stopped -/
  processed_initial : ∀ s, state s = .initial → processed s = 0
  processed_stopped : ∀ s, state s = .stopped → processed s = (queue s).length
  queue_queueBuffer : ∀ s b, queue (queueBuffer s b) = queue s ++ [b]
  /-- only processed buffers can be removed -/
  unqueued : ∀ s, 0 < processed s → queue (unqueueBuffer s) = (queue s).tail ∧
    processed (unqueueBuffer s) = processed s - 1 ∧ state (unqueueBuffer s) = state s
  queue_play : ∀ s, queue (play s) = queue s
  queue_pause : ∀ s, queue (pause s) = queue s
  queue_mix : ∀ k s, queue (mix k s) = queue s
  /-- a source can only be stopped when it was played -/
  stopped : ∀ s, state s = .playing ∨ state s = .paused → state (stop s) = .stopped ∧ queue (stop s) = queue s
  not_stopped : ∀ s, state s = .initial ∨ state s = .stopped → stop s = s

/-! ## The functions -/

inductive AudioQueueIsRunning where
  | running
  | stopping
  | stopped
deriving DecidableEq

structure AudioQueueHostObject (A : OpenAl) where
  /-- the buffers of the guest -/
  buffers : List ℕ
  bufferQueue : List ℕ
  isRunning : AudioQueueIsRunning
  alSource : Option A.Source
  alUnusedBuffers : List ℕ
  isRunningHandler : Bool

/-- guest code that `handle_audio_queue` has called -/
inductive Handler where
  /-- the callback for a buffer; those that come next, and what `is_running` was before -/
  | calling (buffersToReuse : List ℕ) (isRunning : AudioQueueIsRunning)
  /-- the listener of the property, at the end -/
  | notifying

namespace AudioQueue

structure State (A : OpenAl) extends AudioQueueHostObject A where
  /-- how many buffers OpenAL was asked for; these are their names -/
  generated : ℕ
  /-- the buffer of the guest that a buffer of OpenAL was filled from -/
  content : ℕ → ℕ
  handler : Option Handler

variable {A : OpenAl}

/-- a buffer of OpenAL, filled from a buffer of the guest -/
def fillBuffer (s : State A) (buffer : ℕ) : ℕ × State A :=
  match s.alUnusedBuffers.getLast? with
  | some b => (b, { s with alUnusedBuffers := s.alUnusedBuffers.dropLast, content := Function.update s.content b buffer })
  | none => (s.generated,
      { s with generated := s.generated + 1, content := Function.update s.content s.generated buffer })

/-- the loop of `prime_audio_queue`, which is done at most as often as the first argument says -/
def primeLoop : ℕ → A.Source → State A → Except Panic (State A)
  | fuel, source, s => do
    let queued := (A.queue source).length
    assert (queued ≤ s.bufferQueue.length) .audioQueue
    if 1 < queued - A.processed source ∨ queued = s.bufferQueue.length then pure { s with alSource := some source }
    else match fuel with
      | 0 => throw .tooDeep
      | fuel + 1 => do
        let buffer ← unwrap s.bufferQueue[queued]? .index
        let (b, s) := fillBuffer s buffer
        primeLoop fuel (A.queueBuffer source b) s

/-- `supported`: whether there is a decoder for the format of the queue -/
def primeAudioQueue (supported : Bool) (s : State A) : Except Panic (State A) :=
  if supported then primeLoop s.bufferQueue.length (s.alSource.getD A.gen) s else pure s

/-- `unqueue_buffers`, with what both callers do with each buffer, at most as often as the first argument says; the buffers
of the guest that have become free -/
def unqueueBuffers : ℕ → A.Source → State A → Except Panic (List ℕ × A.Source × State A)
  | fuel, source, s =>
    if A.processed source = 0 then pure ([], source, s)
    else match fuel with
      | 0 => throw .tooDeep
      | fuel + 1 => do
        let b ← unwrap (A.queue source).head? .index
        let buffer ← unwrap s.bufferQueue.head? .missing
        let (buffers, source, s) ← unqueueBuffers fuel (A.unqueueBuffer source)
          { s with alUnusedBuffers := s.alUnusedBuffers ++ [b], bufferQueue := s.bufferQueue.tail }
        pure (buffer :: buffers, source, s)

def audioQueueReset (s : State A) : Except Panic (State A) :=
  match s.alSource with
  | none => pure { s with bufferQueue := [] }
  | some source => do
    let source := if A.state source ≠ .stopped then A.stop source else source
    let (_, source, s) ← unqueueBuffers (A.queue source).length source s
    pure { s with alSource := some source, bufferQueue := [] }

/-- `finish_stopping_audio_queue` up to the call of the listener -/
def finishStopping (s : State A) : Except Panic (State A) := do
  let s ← audioQueueReset s
  pure { s with isRunning := .stopped }

def audioQueueStop (immediate : Bool) (s : State A) : Except Panic (State A) :=
  if immediate then finishStopping { s with alSource := s.alSource.map A.stop }
  else pure (if s.isRunning ≠ .stopped then { s with isRunning := .stopping } else s)

def audioQueueStart (supported : Bool) (s : State A) : Except Panic (State A) := do
  let s ← primeAudioQueue supported s
  let s := { s with isRunning := .running }
  if supported then do
    let source ← unwrap s.alSource .missing
    pure { s with alSource := some (A.play source) }
  else pure s

def audioQueuePause (s : State A) : State A := { s with isRunning := .stopped, alSource := s.alSource.map A.pause }

def audioQueueEnqueueBuffer (buffer : ℕ) (s : State A) : State A :=
  if buffer ∈ s.buffers then { s with bufferQueue := s.bufferQueue ++ [buffer] } else s

/-- the source has run out of data -/
def ranOut (s : State A) : Bool := s.alSource.any fun source => A.state source == .stopped

/-- `handle_audio_queue` after the last callback -/
def finishHandler (supported : Bool) (isRunning : AudioQueueIsRunning) (s : State A) : Except Panic (State A) := do
  let s ← primeAudioQueue supported s
  let s := if isRunning ≠ .stopped ∧ ranOut s then { s with alSource := s.alSource.map A.play } else s
  if isRunning = .stopping ∧ ranOut s then do
    let s ← finishStopping s
    pure { s with handler := some .notifying }
  else pure { s with isRunningHandler := false, handler := none }

/-- the next callback, if there is one -/
def nextCallback (supported : Bool) (isRunning : AudioQueueIsRunning) (s : State A) : List ℕ → Except Panic (State A)
  | [] => finishHandler supported isRunning s
  | _ :: buffers => pure { s with handler := some (.calling buffers isRunning) }

def handleAudioQueue (supported : Bool) (s : State A) : Except Panic (State A) :=
  match s.alSource with
  | none => pure s
  | some source =>
    if !supported || s.isRunningHandler then pure s
    else do
      let (buffersToReuse, source, s) ← unqueueBuffers (A.queue source).length source { s with isRunningHandler := true }
      nextCallback supported s.isRunning { s with alSource := some source } buffersToReuse

/-! ## Runs -/

inductive Op where
  | enqueueBuffer (buffer : ℕ)
  | prime
  | start
  | pause
  | stop (immediate : Bool)
  | reset
  /-- OpenAL goes on with the buffers -/
  | mix (k : ℕ)
  /-- the run loop comes to the queue -/
  | handle
  /-- the guest code that `handle_audio_queue` has called returns -/
  | returned

def step (supported : Bool) (s : State A) : Op → Except Panic (State A)
  | .enqueueBuffer buffer => pure (audioQueueEnqueueBuffer buffer s)
  | .prime => primeAudioQueue supported s
  | .start => audioQueueStart supported s
  | .pause => pure (audioQueuePause s)
  | .stop immediate => audioQueueStop immediate s
  | .reset => audioQueueReset s
  | .mix k => pure { s with alSource := s.alSource.map (A.mix k) }
  | .handle => handleAudioQueue supported s
  | .returned =>
    match s.handler with
    | none => throw .notEnabled
    | some (.calling buffers isRunning) => nextCallback supported isRunning s buffers
    | some .notifying => pure { s with isRunningHandler := false, handler := none }

/-- `AudioQueueNewOutput` -/
def start (buffers : List ℕ) : State A :=
  ⟨⟨buffers, [], .stopped, none, [], false⟩, 0, fun _ => 0, none⟩

/-- the buffers of the guest that the buffers at the source were filled from, in order -/
def queuedContent (s : State A) : List ℕ := (s.alSource.elim [] A.queue).map s.content

/-- **The two queues go together**: there are no more buffers at the source than in the queue, and the n-th of the one belongs
to the n-th of the other. -/
def Paired (s : State A) : Prop := queuedContent s <+: s.bufferQueue

/-- **No assertion fails** -/
def Holds (supported : Bool) (s : State A) (o : Op) : Prop := ∀ e, step supported s o = .error e → e = .notEnabled

/-- a source that was not played yet has no buffers when the queue is reset -/
def NotPrimed (s : State A) : Op → Prop
  | .reset | .stop true => ∀ source, s.alSource = some source → A.state source = .initial → A.queue source = []
  | _ => True

instance (s : State A) (o : Op) : Decidable (NotPrimed s o) :=
  match o with
  | .reset | .stop true =>
    inferInstanceAs (Decidable (∀ source ∈ s.alSource, A.state source = .initial → A.queue source = []))
  | .stop false | .enqueueBuffer _ | .prime | .start | .pause | .mix _ | .handle | .returned => inferInstanceAs (Decidable True)

/-! ## The two queues -/

section

variable {supported immediate : Bool} {source : A.Source} {s s' : State A} {buffer fuel b : ℕ} {isRunning : AudioQueueIsRunning}
  {source' : A.Source}

/-- a source and the queue: the buffers at the source belong to the first entries, and no buffer of OpenAL is in two places -/
structure Fits (source : A.Source) (s : State A) : Prop where
  paired : (A.queue source).map s.content <+: s.bufferQueue
  nodup : (A.queue source ++ s.alUnusedBuffers).Nodup
  small : ∀ b ∈ A.queue source ++ s.alUnusedBuffers, b < s.generated

/-- the invariant: the source that there is, or the one that would be made, fits the queue -/
def Sound (s : State A) : Prop := Fits (s.alSource.getD A.gen) s

theorem Sound.paired (h : Sound s) : Paired s := by
  have hqueue : s.alSource.elim [] A.queue = A.queue (s.alSource.getD A.gen) := by
    cases s.alSource with
    | none => exact A.queue_gen.symm
    | some source => rfl
  unfold Paired queuedContent
  rw [hqueue]
  exact Fits.paired h

theorem sound_of_source (hsource : s.alSource = some source) : Sound s ↔ Fits source s := by
  rw [Sound, hsource, Option.getD_some]

theorem Fits.congr (h : Fits source s) (hq : A.queue source' = A.queue source)
    (hb : s'.bufferQueue = s.bufferQueue) (hu : s'.alUnusedBuffers = s.alUnusedBuffers) (hg : s'.generated = s.generated)
    (hc : s'.content = s.content) : Fits source' s' := by
  obtain ⟨hpaired, hnodup, hsmall⟩ := h
  exact ⟨by rwa [hq, hb, hc], by rwa [hq, hu], by rwa [hq, hu, hg]⟩

/-- a prefix that is continued as the list goes on -/
theorem prefix_concat {l l' : List ℕ} (h : l <+: l') (hb : l'[l.length]? = some b) : l ++ [b] <+: l' := by
  obtain ⟨t, rfl⟩ := h
  rw [List.getElem?_append_right (le_refl _), Nat.sub_self] at hb
  cases t with
  | nil => cases hb
  | cons c t =>
    obtain rfl := Option.some.inj hb
    exact ⟨t, List.append_cons l c t |>.symm⟩

/-- **The next entry** of the queue is decoded into a buffer that is not in use. -/
theorem fillBuffer_fits (h : Fits source s) (hnext : s.bufferQueue[(A.queue source).length]? = some buffer) :
    Fits (A.queueBuffer source (fillBuffer s buffer).1) (fillBuffer s buffer).2 ∧
      (fillBuffer s buffer).2.bufferQueue = s.bufferQueue := by
  have hkey (b : ℕ) (hb : b ∉ A.queue source) :
      (A.queue source ++ [b]).map (Function.update s.content b buffer) <+: s.bufferQueue := by
    have hold : (A.queue source).map (Function.update s.content b buffer) = (A.queue source).map s.content :=
      List.map_congr_left fun x hx => Function.update_of_ne (fun heq => hb (by rwa [← heq])) _ _
    rw [List.map_append, hold, List.map_singleton, Function.update_self]
    exact prefix_concat h.paired (by rwa [List.length_map])
  unfold fillBuffer
  cases hlast : s.alUnusedBuffers.getLast? with
  | some b =>
    obtain ⟨l, hl⟩ := List.getLast?_eq_some_iff.1 hlast
    have hperm : (A.queue source ++ [b] ++ l).Perm (A.queue source ++ s.alUnusedBuffers) := by
      rw [hl, List.append_assoc]
      exact (List.perm_append_comm).append_left _
    have hnodup : (A.queue source ++ [b] ++ l).Nodup := hperm.nodup_iff.2 h.nodup
    have hb : b ∉ A.queue source := fun hmem =>
      List.disjoint_of_nodup_append (List.nodup_append.1 hnodup).1 hmem List.mem_cons_self
    refine ⟨⟨?_, ?_, ?_⟩, rfl⟩
    · rw [A.queue_queueBuffer]
      exact hkey b hb
    · dsimp only
      rwa [A.queue_queueBuffer, hl, List.dropLast_concat]
    · dsimp only
      rw [A.queue_queueBuffer, hl, List.dropLast_concat]
      exact fun x hx => h.small x (hperm.mem_iff.1 hx)
  | none =>
    have hnil : s.alUnusedBuffers = [] := List.getLast?_eq_none_iff.1 hlast
    have hlt : ∀ b ∈ A.queue source, b < s.generated := fun b hb => h.small b (List.mem_append_left _ hb)
    have hb : s.generated ∉ A.queue source := fun hmem => absurd (hlt _ hmem) (lt_irrefl _)
    have hnodup : (A.queue source).Nodup := (List.nodup_append.1 h.nodup).1
    refine ⟨⟨?_, ?_, ?_⟩, rfl⟩
    · rw [A.queue_queueBuffer]
      exact hkey s.generated hb
    · dsimp only
      rw [A.queue_queueBuffer, hnil, List.append_nil]
      exact List.nodup_append.2 ⟨hnodup, List.nodup_singleton _, fun x hx y hy heq => hb (by rwa [← List.mem_singleton.1 hy, ← heq])⟩
    · dsimp only
      rw [A.queue_queueBuffer, hnil, List.append_nil]
      intro x hx
      rcases List.mem_append.1 hx with hx | hx
      · exact Nat.lt_succ_of_lt (hlt x hx)
      · rw [List.mem_singleton.1 hx]
        exact Nat.lt_succ_self _

/-- no error -/
def Never (_ : Panic) : Prop := False

theorem primeLoop_spec (h : Fits source s) (hfuel : s.bufferQueue.length ≤ (A.queue source).length + fuel) :
    Ends Never (fun s' => ∃ source', s'.alSource = some source' ∧ Fits source' s') (primeLoop fuel source s) := by
  induction fuel generalizing source s with
  | zero =>
    have hle : (A.queue source).length ≤ s.bufferQueue.length := by
      have hprefix := h.paired.length_le
      rwa [List.length_map] at hprefix
    rw [primeLoop, assert_ok (decide_eq_true hle), ok_bind, if_pos (.inr (le_antisymm hle hfuel))]
    exact ⟨source, rfl, h.congr rfl rfl rfl rfl rfl⟩
  | succ fuel ih =>
    have hle : (A.queue source).length ≤ s.bufferQueue.length := by
      have hprefix := h.paired.length_le
      rwa [List.length_map] at hprefix
    rw [primeLoop, assert_ok (decide_eq_true hle), ok_bind]
    split_ifs with hbreak
    · exact ⟨source, rfl, h.congr rfl rfl rfl rfl rfl⟩
    · have hlt : (A.queue source).length < s.bufferQueue.length :=
        lt_of_le_of_ne hle fun heq => hbreak (.inr heq)
      have hnext := List.getElem?_eq_getElem hlt
      obtain ⟨hfits, hqueue⟩ := fillBuffer_fits h hnext
      dsimp only
      rw [hnext]
      refine ih hfits ?_
      rw [hqueue, A.queue_queueBuffer, List.length_append, List.length_singleton]
      omega

theorem prime_spec (h : Sound s) :
    Ends Never (fun s' => Sound s' ∧ (supported = true → s'.alSource.isSome)) (primeAudioQueue supported s) := by
  unfold primeAudioQueue
  split_ifs with hsupported
  · refine (primeLoop_spec h (Nat.le_add_left _ _)).mono ?_
    rintro s' ⟨source, hsource, hfits⟩
    exact ⟨(sound_of_source hsource).2 hfits, fun _ => by rw [hsource]; rfl⟩
  · exact ⟨h, fun hs => absurd hs hsupported⟩

/-- **Processed buffers** are removed from both queues. -/
theorem unqueueBuffers_spec (h : Fits source s) (hfuel : A.processed source ≤ fuel) :
    Ends Never (fun r => Fits r.2.1 r.2.2 ∧ A.processed r.2.1 = 0 ∧ A.state r.2.1 = A.state source ∧
      A.queue r.2.1 <:+ A.queue source) (unqueueBuffers fuel source s) := by
  induction fuel generalizing source s with
  | zero =>
    have hzero := Nat.le_zero.1 hfuel
    rw [unqueueBuffers, if_pos hzero]
    exact ⟨h, hzero, rfl, List.suffix_rfl⟩
  | succ fuel ih =>
    rw [unqueueBuffers]
    split_ifs with hzero
    · exact ⟨h, hzero, rfl, List.suffix_rfl⟩
    · have hpos := Nat.pos_of_ne_zero hzero
      obtain ⟨htail, hprocessed, hstate⟩ := A.unqueued source hpos
      obtain ⟨hpaired, hnodup, hsmall⟩ := h
      cases hqueue : A.queue source with
      | nil =>
        have hle := A.processed_le source
        rw [hqueue] at hle
        exact absurd hpos (Nat.not_lt.2 hle)
      | cons b rest =>
        rw [hqueue] at hpaired hnodup hsmall htail
        cases hbuffers : s.bufferQueue with
        | nil =>
          rw [hbuffers] at hpaired
          exact absurd (List.prefix_nil.1 hpaired) (List.cons_ne_nil _ _)
        | cons buffer buffers =>
          rw [hbuffers, List.map_cons, List.cons_prefix_cons] at hpaired
          have hfits : Fits (A.unqueueBuffer source)
              { s with alUnusedBuffers := s.alUnusedBuffers ++ [b], bufferQueue := buffers } := by
            have hperm : (rest ++ (s.alUnusedBuffers ++ [b])).Perm (b :: rest ++ s.alUnusedBuffers) := by
              rw [← List.append_assoc, List.cons_append]
              exact List.perm_append_singleton _ _
            refine ⟨?_, ?_, ?_⟩
            · rw [htail]
              exact hpaired.2
            · rw [htail]
              exact hperm.nodup_iff.2 hnodup
            · rw [htail]
              exact fun x hx => hsmall x (hperm.mem_iff.1 hx)
          have hrest := ih hfits (by omega)
          simp only [List.head?_cons, unwrap, ok_bind, List.tail_cons]
          refine hrest.bind ?_
          rintro ⟨buffers', source', s'⟩ ⟨hfits', hzero', hstate', hsuffix⟩
          rw [htail] at hsuffix
          exact ⟨hfits', hzero', hstate'.trans hstate, hsuffix.trans (List.suffix_cons b rest)⟩

/-- **A reset** clears both queues if the source was played before, or has no buffers. -/
theorem reset_spec (h : Sound s) (hc : ∀ source, s.alSource = some source → A.state source = .initial → A.queue source = []) :
    Ends Never Sound (audioQueueReset s) := by
  unfold audioQueueReset
  cases hsource : s.alSource with
  | none =>
    have hfits : Fits A.gen s := by
      rw [Sound, hsource] at h
      exact h
    refine ⟨?_, hfits.nodup, hfits.small⟩
    dsimp only [Option.getD_none]
    rw [A.queue_gen]
    exact List.nil_prefix
  | some source =>
    rw [sound_of_source hsource] at h
    -- the source that is left has nothing that is not processed
    obtain ⟨source', hstop, hqueue, hdone⟩ : ∃ source', (if A.state source ≠ .stopped then A.stop source else source) = source' ∧
        A.queue source' = A.queue source ∧ (A.state source' = .stopped ∨ A.queue source' = []) := by
      cases hstate : A.state source with
      | initial =>
        have hempty := hc source hsource hstate
        rw [if_pos (by decide), A.not_stopped source (.inl hstate)]
        exact ⟨source, rfl, rfl, .inr hempty⟩
      | stopped => exact ⟨source, if_neg (by decide), rfl, .inl hstate⟩
      | playing =>
        obtain ⟨hs, hq⟩ := A.stopped source (.inl hstate)
        exact ⟨_, if_pos (by decide), hq, .inl hs⟩
      | paused =>
        obtain ⟨hs, hq⟩ := A.stopped source (.inr hstate)
        exact ⟨_, if_pos (by decide), hq, .inl hs⟩
    dsimp only
    rw [hstop]
    have hfits : Fits source' s := h.congr hqueue rfl rfl rfl rfl
    refine (unqueueBuffers_spec hfits (A.processed_le source')).bind ?_
    rintro ⟨buffers, source₂, s₂⟩ ⟨hfits₂, hzero, hstate₂, hsuffix⟩
    have hempty : A.queue source₂ = [] := by
      rcases hdone with hstopped | hnone
      · rw [← List.length_eq_zero_iff, ← A.processed_stopped source₂ (hstate₂.trans hstopped)]
        exact hzero
      · rw [hnone] at hsuffix
        exact List.suffix_nil.1 hsuffix
    refine (sound_of_source rfl).2 ⟨?_, hfits₂.nodup, hfits₂.small⟩
    dsimp only
    rw [hempty]
    exact List.nil_prefix

/-- a queue that is not changed and not played through -/
theorem Sound.congr (h : Sound s) (hs : s'.alSource.getD A.gen = source')
    (hq : A.queue source' = A.queue (s.alSource.getD A.gen)) (hb : s'.bufferQueue = s.bufferQueue)
    (hu : s'.alUnusedBuffers = s.alUnusedBuffers) (hg : s'.generated = s.generated) (hc : s'.content = s.content) : Sound s' := by
  unfold Sound
  rw [hs]
  exact Fits.congr h hq hb hu hg hc

/-- a change of the source that leaves its queue alone -/
theorem Sound.map {f : A.Source → A.Source} (h : Sound s) (hf : ∀ source, A.queue (f source) = A.queue source) :
    Sound { s with alSource := s.alSource.map f } := by
  refine h.congr rfl ?_ rfl rfl rfl rfl
  cases s.alSource with
  | none => rfl
  | some source => exact hf source

theorem stop_queue (source : A.Source) : A.queue (A.stop source) = A.queue source := by
  cases hstate : A.state source with
  | initial => rw [A.not_stopped source (.inl hstate)]
  | stopped => rw [A.not_stopped source (.inr hstate)]
  | playing => exact (A.stopped source (.inl hstate)).2
  | paused => exact (A.stopped source (.inr hstate)).2

theorem stop_initial (h : A.state (A.stop source) = .initial) : A.state source = .initial := by
  cases hstate : A.state source with
  | initial => rfl
  | stopped => rw [A.not_stopped source (.inr hstate), hstate] at h; exact nomatch h
  | playing => rw [(A.stopped source (.inl hstate)).1] at h; exact nomatch h
  | paused => rw [(A.stopped source (.inr hstate)).1] at h; exact nomatch h

theorem finishStopping_spec (h : Sound s)
    (hc : ∀ source, s.alSource = some source → A.state source = .initial → A.queue source = []) :
    Ends Never Sound (finishStopping s) := by
  refine (reset_spec h hc).bind fun s' hs' => ?_
  exact hs'.congr rfl rfl rfl rfl rfl rfl

theorem finishHandler_spec (h : Sound s) : Ends Never Sound (finishHandler supported isRunning s) := by
  refine (prime_spec h).bind ?_
  rintro s₁ ⟨hs₁, -⟩
  have hplayed : Sound (if isRunning ≠ .stopped ∧ ranOut s₁ then { s₁ with alSource := s₁.alSource.map A.play } else s₁) := by
    split_ifs
    · exact hs₁.map A.queue_play
    · exact hs₁
  generalize (if isRunning ≠ .stopped ∧ ranOut s₁ then { s₁ with alSource := s₁.alSource.map A.play } else s₁) = s₂ at hplayed
  dsimp only
  split_ifs with hstop
  · refine (finishStopping_spec hplayed fun source hsource hinitial => ?_).bind fun s₃ hs₃ => ?_
    · -- the source has stopped, so it was played
      have hran := hstop.2
      rw [ranOut, hsource, Option.any_some, beq_iff_eq, hinitial] at hran
      cases hran
    · exact hs₃.congr rfl rfl rfl rfl rfl rfl
  · exact hplayed.congr rfl rfl rfl rfl rfl rfl

theorem nextCallback_spec {buffers : List ℕ} (h : Sound s) : Ends Never Sound (nextCallback supported isRunning s buffers) := by
  cases buffers with
  | nil => exact finishHandler_spec h
  | cons b buffers => exact h.congr rfl rfl rfl rfl rfl rfl

theorem handle_spec (h : Sound s) : Ends Never Sound (handleAudioQueue supported s) := by
  unfold handleAudioQueue
  split
  · exact h
  · rename_i source hsource
    have hfits : Fits source { s with isRunningHandler := true } := ((sound_of_source hsource).1 h).congr rfl rfl rfl rfl rfl
    split_ifs with hskip
    · exact h
    · refine (unqueueBuffers_spec hfits (A.processed_le source)).bind ?_
      rintro ⟨buffers, source₁, s₁⟩ ⟨hfits₁, -⟩
      exact nextCallback_spec ((sound_of_source rfl).2 (hfits₁.congr rfl rfl rfl rfl rfl))

/-- **Every step** keeps the two queues together, if a source that is reset was played before or has no buffers. -/
theorem step_spec {o : Op} (h : Sound s) (hc : NotPrimed s o) : Ends (fun e => e = .notEnabled) Sound (step supported s o) := by
  cases o with
  | enqueueBuffer buffer =>
    have hsound : Sound (audioQueueEnqueueBuffer buffer s) := by
      unfold audioQueueEnqueueBuffer
      split_ifs
      · exact ⟨(Fits.paired h).trans (List.prefix_append _ _), h.nodup, h.small⟩
      · exact h
    exact hsound
  | prime => exact ((prime_spec h).mono fun s' hs' => hs'.1).imp fun e he => he.elim
  | start =>
    have hstart : Ends Never Sound (audioQueueStart supported s) := by
      refine (prime_spec h).bind ?_
      rintro s₁ ⟨hs₁, hsome⟩
      dsimp only
      split_ifs with hsupported
      · obtain ⟨source, hsource⟩ := Option.isSome_iff_exists.1 (hsome hsupported)
        rw [hsource]
        exact hs₁.congr rfl (by rw [hsource]; exact A.queue_play source) rfl rfl rfl rfl
      · exact hs₁.congr rfl rfl rfl rfl rfl rfl
    exact hstart.imp fun e he => he.elim
  | pause => exact (h.map A.queue_pause).congr rfl rfl rfl rfl rfl rfl
  | stop immediate =>
    cases immediate with
    | false =>
      change Sound (if s.isRunning ≠ .stopped then { s with isRunning := .stopping } else s)
      split_ifs
      · exact h.congr rfl rfl rfl rfl rfl rfl
      · exact h
    | true =>
      refine (finishStopping_spec (h.map stop_queue) fun source hsource hinitial => ?_).imp fun e he => he.elim
      obtain ⟨source', hsource', rfl⟩ := Option.map_eq_some_iff.1 hsource
      rw [stop_queue]
      exact hc source' hsource' (stop_initial hinitial)
  | reset => exact (reset_spec h hc).imp fun e he => he.elim
  | mix k => exact h.map (A.queue_mix k)
  | handle => exact (handle_spec h).imp fun e he => he.elim
  | returned =>
    cases hhandler : s.handler with
    | none =>
      rw [step, hhandler]
      rfl
    | some handler =>
      cases handler with
      | calling buffers isRunning =>
        rw [step, hhandler]
        exact (nextCallback_spec h).imp fun e he => he.elim
      | notifying =>
        rw [step, hhandler]
        exact h.congr rfl rfl rfl rfl rfl rfl

/-- **A source that was not played yet** keeps its buffers when the queue is cleared. -/
theorem reset_initial (hsource : s.alSource = some source) (hinitial : A.state source = .initial) :
    audioQueueReset s = .ok { s with bufferQueue := [] } := by
  have hstop : A.stop source = source := A.not_stopped source (.inl hinitial)
  unfold audioQueueReset
  rw [hsource]
  dsimp only
  rw [hinitial, if_pos (by decide), hstop]
  have hnone : unqueueBuffers (A.queue source).length source s = .ok ([], source, s) := by
    cases (A.queue source).length <;> rw [unqueueBuffers, if_pos (A.processed_initial source hinitial)] <;> rfl
  rw [hnone]
  simp only [ok_bind, pure_eq_ok, ← hsource]

/-- an empty queue does not go with a source that has buffers -/
theorem not_paired (hsource : s.alSource = some source) (hqueue : A.queue source ≠ []) (hempty : s.bufferQueue = []) :
    ¬Paired s := by
  intro hpaired
  rw [Paired, hempty, queuedContent, hsource, List.prefix_nil, List.map_eq_nil_iff] at hpaired
  exact hqueue hpaired

/-- the step that resets such a source -/
theorem step_initial {o : Op} (hc : ¬NotPrimed s o) : ∃ s', step supported s o = .ok s' ∧ ¬Paired s' := by
  cases o with
  | reset =>
    simp only [NotPrimed, not_forall] at hc
    obtain ⟨source, hsource, hinitial, hqueue⟩ := hc
    exact ⟨_, reset_initial hsource hinitial, not_paired hsource hqueue rfl⟩
  | stop immediate =>
    cases immediate with
    | false => exact absurd trivial hc
    | true =>
      simp only [NotPrimed, not_forall] at hc
      obtain ⟨source, hsource, hinitial, hqueue⟩ := hc
      have hstop : s.alSource.map A.stop = some source := by
        rw [hsource, Option.map_some, A.not_stopped source (.inl hinitial)]
      refine ⟨{ s with alSource := s.alSource.map A.stop, bufferQueue := [], isRunning := .stopped }, ?_,
        not_paired hstop hqueue rfl⟩
      change finishStopping { s with alSource := s.alSource.map A.stop } = _
      rw [finishStopping, reset_initial hstop hinitial]
      rfl
  | enqueueBuffer _ | prime | start | pause | mix _ | handle | returned => exact absurd trivial hc

theorem start_sound (buffers : List ℕ) : Sound (start buffers : State A) := by
  refine ⟨?_, ?_, ?_⟩ <;> simp [start, A.queue_gen]

/-- **The two queues of an output queue** go together in every state of a run, and no assertion fails, if and only if the
queue is never reset with buffers at a source that was not played yet. -/
theorem paired_iff (A : OpenAl) (supported : Bool) (buffers : List ℕ) (ops : List Op) :
    Throughout (step supported) Paired (start buffers : State A) ops ∧
        LegalRun (step supported) (Holds supported) (start buffers : State A) ops ↔
      LegalRun (step supported) NotPrimed (start buffers : State A) ops := by
  have hlegal {s s' : State A} {o : Op} (h : step supported s o = .ok s') (hp : Paired s') : NotPrimed s o := by
    by_contra hc
    obtain ⟨t, ht, hnot⟩ := step_initial hc
    rw [h] at ht
    exact hnot (by rwa [← Except.ok.inj ht])
  refine legalRun_iff_of_kept (I := Sound) ?_ ?_ (start_sound buffers) (start_sound buffers).paired
  · intro s o s' hs _ h hp
    exact (step_spec hs (hlegal h hp)).ok h
  · intro s o hs _
    constructor
    · intro hc
      have hspec : Ends (· = .notEnabled) Sound (step supported s o) := step_spec hs hc
      exact ⟨fun e he => hspec.error he, fun s' h => (hspec.ok h).paired⟩
    · rintro ⟨-, hnext⟩
      by_contra hc
      obtain ⟨t, ht, hnot⟩ := step_initial hc
      exact hnot (hnext t ht)

end

/-! ## A source in software -/

/-- the source of an implementation of OpenAL -/
structure SoftSource where
  queue : List ℕ
  processed : ℕ
  state : SourceState
  processed_le : processed ≤ queue.length
  initial : state = .initial → processed = 0
  stopped : state = .stopped → processed = queue.length

namespace SoftSource

def queueBuffer (s : SoftSource) (b : ℕ) : SoftSource where
  queue := s.queue ++ [b]
  -- a source that has stopped counts every buffer as processed
  processed := if s.state = .stopped then s.queue.length + 1 else s.processed
  state := s.state
  processed_le := by
    have hle := s.processed_le
    rw [List.length_append, List.length_singleton]
    split_ifs <;> omega
  initial h := by rw [h, if_neg (by decide), s.initial h]
  stopped h := by rw [h, if_pos rfl, List.length_append, List.length_singleton]

def unqueueBuffer (s : SoftSource) : SoftSource where
  queue := if 0 < s.processed then s.queue.tail else s.queue
  processed := s.processed - 1
  state := s.state
  processed_le := by
    have hle := s.processed_le
    split_ifs with hpos
    · rw [List.length_tail]
      exact Nat.sub_le_sub_right hle 1
    · exact (Nat.sub_le _ _).trans hle
  initial h := by rw [s.initial h]
  stopped h := by
    have hstopped := s.stopped h
    split_ifs with hpos
    · rw [List.length_tail, hstopped]
    · rw [← hstopped, Nat.le_zero.1 (Nat.not_lt.1 hpos)]

/-- the state in which everything is processed -/
def done (s : SoftSource) : SoftSource := ⟨s.queue, s.queue.length, .stopped, le_rfl, nofun, fun _ => rfl⟩

def play (s : SoftSource) : SoftSource :=
  if s.queue = [] then s.done
  else ⟨s.queue, if s.state = .paused then s.processed else 0, .playing,
    by split_ifs; exacts [s.processed_le, Nat.zero_le _], nofun, nofun⟩

def pause (s : SoftSource) : SoftSource :=
  if s.state = .playing then ⟨s.queue, s.processed, .paused, s.processed_le, nofun, nofun⟩ else s

def stop (s : SoftSource) : SoftSource := if s.state = .initial then s else s.done

/-- `k` buffers are played -/
def mix (k : ℕ) (s : SoftSource) : SoftSource :=
  if s.state ≠ .playing then s
  else if h : s.processed + k < s.queue.length then ⟨s.queue, s.processed + k, .playing, h.le, nofun, nofun⟩
  else s.done

end SoftSource

/-- OpenAL with these sources -/
def softAl : OpenAl where
  Source := SoftSource
  gen := ⟨[], 0, .initial, le_rfl, fun _ => rfl, nofun⟩
  queue := SoftSource.queue
  processed := SoftSource.processed
  state := SoftSource.state
  queueBuffer := SoftSource.queueBuffer
  unqueueBuffer := SoftSource.unqueueBuffer
  play := SoftSource.play
  pause := SoftSource.pause
  stop := SoftSource.stop
  mix := SoftSource.mix
  queue_gen := rfl
  processed_le := SoftSource.processed_le
  processed_initial := SoftSource.initial
  processed_stopped := SoftSource.stopped
  queue_queueBuffer _ _ := rfl
  unqueued s h := ⟨if_pos h, rfl, rfl⟩
  queue_play s := by unfold SoftSource.play; split_ifs <;> rfl
  queue_pause s := by unfold SoftSource.pause; split_ifs <;> rfl
  queue_mix k s := by unfold SoftSource.mix; split_ifs <;> rfl
  stopped s h := by
    have hne : s.state ≠ .initial := by rcases h with h | h <;> rw [h] <;> decide
    rw [SoftSource.stop, if_neg hne]
    exact ⟨rfl, rfl⟩
  not_stopped s h := by
    unfold SoftSource.stop
    split_ifs with hinitial
    · rfl
    · have hstopped := h.resolve_left hinitial
      obtain ⟨queue, processed, state, hle, hinit, hstop⟩ := s
      obtain rfl := hstop hstopped
      obtain rfl : state = .stopped := hstopped
      rfl

/-- a queue that is played before it is reset -/
theorem paired_iff_played :
    Throughout (step true) Paired (start [1, 2] : State softAl)
        [.enqueueBuffer 1, .enqueueBuffer 2, .start, .mix 1, .handle, .returned, .reset, .enqueueBuffer 1, .prime] ∧
      LegalRun (step true) (Holds true) (start [1, 2] : State softAl)
        [.enqueueBuffer 1, .enqueueBuffer 2, .start, .mix 1, .handle, .returned, .reset, .enqueueBuffer 1, .prime] :=
  (paired_iff softAl true [1, 2] _).2 (by decide +kernel)

/-- A buffer at a source that was never played outlives the reset, and the next time that the queue is primed the assertion
fails. -/
theorem primed_reset :
    run (step true) (start [1] : State softAl) [.enqueueBuffer 1, .prime, .reset, .prime] = .error .audioQueue ∧
      ¬∀ (A : OpenAl) (supported : Bool) (buffers : List ℕ) (ops : List Op),
        Throughout (step supported) Paired (start buffers : State A) ops ∧
          LegalRun (step supported) (Holds supported) (start buffers : State A) ops := by
  refine ⟨rfl, fun hall => ?_⟩
  have hlast := (hall softAl true [1] [.enqueueBuffer 1, .prime, .reset]).1.2 _ rfl |>.2 _ rfl |>.2 _ rfl
  exact absurd hlast.length_le (by decide)

end AudioQueue

end TouchHLE
