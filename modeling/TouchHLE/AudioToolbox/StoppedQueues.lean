/-
Output audio queues that are stopped by their own callbacks (`handle_audio_queue` in `audio_queue.rs`). The handler reads
`is_running` before it calls the guest, and decides with it afterwards whether the source is played again.

- `counted`: any OpenAL, with a count of how often each source was played.
- `finishHandler_plays`: when the handler plays the source. `stays_stopped_iff`: runs.
-/
import TouchHLE.AudioToolbox.AudioQueue

namespace TouchHLE.AudioQueue

open Machine

/-- OpenAL with a count of the calls of `alSourcePlay` -/
def counted (A : OpenAl) : OpenAl where
  Source := A.Source × ℕ
  gen := (A.gen, 0)
  queue s := A.queue s.1
  processed s := A.processed s.1
  state s := A.state s.1
  queueBuffer s b := (A.queueBuffer s.1 b, s.2)
  unqueueBuffer s := (A.unqueueBuffer s.1, s.2)
  play s := (A.play s.1, s.2 + 1)
  pause s := (A.pause s.1, s.2)
  stop s := (A.stop s.1, s.2)
  mix k s := (A.mix k s.1, s.2)
  queue_gen := A.queue_gen
  processed_le s := A.processed_le s.1
  processed_initial s := A.processed_initial s.1
  processed_stopped s := A.processed_stopped s.1
  queue_queueBuffer s := A.queue_queueBuffer s.1
  unqueued s := A.unqueued s.1
  queue_play s := A.queue_play s.1
  queue_pause s := A.queue_pause s.1
  queue_mix k s := A.queue_mix k s.1
  stopped s := A.stopped s.1
  not_stopped s h := Prod.ext (A.not_stopped s.1 h) rfl

variable {A : OpenAl}

def played (source : (counted A).Source) : ℕ := Prod.snd source

/-- how often the source of the queue was played -/
def plays (s : State (counted A)) : ℕ := s.alSource.elim 0 played

/-- **A queue that is stopped stays so**: the handler does not play its source when the guest code it has called has
left the queue stopped. -/
def StaysStopped (s : State (counted A)) (o : Op) (s' : State (counted A)) : Prop :=
  o = .handle ∨ o = .returned → s.isRunning = .stopped → plays s' = plays s

/-- when the last callback returns and the queue is stopped, it was so before the first, or its source has data left -/
def StoppedBefore (s : State (counted A)) (o : Op) (_ : State (counted A)) : Prop :=
  ∀ isRunning, o = .returned → s.handler = some (.calling [] isRunning) → s.isRunning = .stopped →
    isRunning = .stopped ∨ ranOut s = false

/-- the handler runs for a queue with a source -/
structure Handled (supported : Bool) (s : State (counted A)) : Prop where
  source : ∀ buffers isRunning, s.handler = some (.calling buffers isRunning) → s.alSource.isSome
  supported : ∀ buffers isRunning, s.handler = some (.calling buffers isRunning) → supported = true

section

variable {supported : Bool} {s s' : State (counted A)} {source source' : (counted A).Source} {fuel : ℕ} {isRunning :
  AudioQueueIsRunning}
  {buffers : List ℕ}

/-- what the functions keep that do not play a source -/
structure Unplayed (s s' : State (counted A)) : Prop where
  plays : plays s' = plays s
  source : s.alSource.isSome → s'.alSource.isSome
  handler : s'.handler = s.handler

theorem Unplayed.refl (s : State (counted A)) : Unplayed s s := ⟨rfl, id, rfl⟩

theorem primeLoop_cases (hstate : ∀ (source : A.Source) b, A.state (A.queueBuffer source b) = A.state source)
    (h : primeLoop fuel source s = .ok s') : ∃ source', s'.alSource = some source' ∧ played source' = played source ∧
      (counted A).state source' = (counted A).state source ∧ s'.isRunning = s.isRunning ∧ s'.handler = s.handler := by
  induction fuel generalizing source s with
  | zero =>
    unfold primeLoop at h
    obtain ⟨-, -, h⟩ := bind_eq_ok.1 h
    split_ifs at h with hdone
    cases h
    exact ⟨source, rfl, rfl, rfl, rfl, rfl⟩
  | succ fuel ih =>
    unfold primeLoop at h
    obtain ⟨-, -, h⟩ := bind_eq_ok.1 h
    split_ifs at h with hdone
    · cases h
      exact ⟨source, rfl, rfl, rfl, rfl, rfl⟩
    · obtain ⟨buffer, -, h⟩ := bind_eq_ok.1 h
      obtain ⟨source', hsource, hplays, hstate', hrunning, hhandler⟩ := ih h
      have hfill : (fillBuffer s buffer).2.isRunning = s.isRunning ∧ (fillBuffer s buffer).2.handler = s.handler := by
        unfold fillBuffer
        cases s.alUnusedBuffers.getLast? <;> exact ⟨rfl, rfl⟩
      exact ⟨source', hsource, hplays, hstate'.trans (hstate _ _), hrunning.trans hfill.1, hhandler.trans hfill.2⟩

theorem unqueueBuffers_cases (h : unqueueBuffers fuel source s = .ok (buffers, source', s')) :
    played source' = played source ∧ s'.alSource = s.alSource ∧ s'.isRunning = s.isRunning ∧ s'.handler = s.handler := by
  induction fuel generalizing source s buffers with
  | zero =>
    unfold unqueueBuffers at h
    split_ifs at h with hdone
    cases h
    exact ⟨rfl, rfl, rfl, rfl⟩
  | succ fuel ih =>
    unfold unqueueBuffers at h
    split_ifs at h with hdone
    · cases h
      exact ⟨rfl, rfl, rfl, rfl⟩
    · obtain ⟨b, -, h⟩ := bind_eq_ok.1 h
      obtain ⟨buffer, -, h⟩ := bind_eq_ok.1 h
      obtain ⟨⟨buffers', source₁, s₁⟩, hrun, h⟩ := bind_eq_ok.1 h
      cases h
      have hrest := ih hrun
      exact hrest

theorem prime_cases (hstate : ∀ (source : A.Source) b, A.state (A.queueBuffer source b) = A.state source)
    (h : primeAudioQueue supported s = .ok s') :
    Unplayed s s' ∧ s'.isRunning = s.isRunning ∧ (s.alSource.isSome → ranOut s' = ranOut s) := by
  unfold primeAudioQueue at h
  split_ifs at h
  · obtain ⟨source', hsource', hplays, hstate', hrunning, hhandler⟩ := primeLoop_cases hstate h
    refine ⟨⟨?_, fun _ => by rw [hsource']; rfl, hhandler⟩, hrunning, fun hsome => ?_⟩
    · unfold plays
      rw [hsource', Option.elim_some, hplays]
      cases s.alSource <;> rfl
    · obtain ⟨source, hsource⟩ := Option.isSome_iff_exists.1 hsome
      rw [hsource, Option.getD_some] at hstate'
      rw [ranOut, ranOut, hsource', hsource, Option.any_some, Option.any_some, hstate']
  · cases h
    exact ⟨.refl s, rfl, fun _ => rfl⟩

theorem reset_cases (h : audioQueueReset s = .ok s') : Unplayed s s' := by
  unfold audioQueueReset at h
  cases hsource : s.alSource with
  | none =>
    rw [hsource] at h
    cases h
    refine ⟨?_, fun hsome => ?_, rfl⟩
    · unfold plays
      rw [hsource]
    · rw [hsource] at hsome
      cases hsome
  | some source =>
    rw [hsource] at h
    obtain ⟨⟨buffers, source₁, s₁⟩, hrun, h⟩ := bind_eq_ok.1 h
    cases h
    obtain ⟨hplayed, -, -, hhandler⟩ := unqueueBuffers_cases hrun
    refine ⟨?_, fun _ => rfl, hhandler⟩
    unfold plays
    rw [hsource, Option.elim_some, Option.elim_some, hplayed]
    split_ifs <;> rfl

theorem finishStopping_cases (h : finishStopping s = .ok s') : Unplayed s s' := by
  obtain ⟨t, hreset, h⟩ := bind_eq_ok.1 h
  cases h
  have hunplayed := reset_cases hreset
  exact ⟨hunplayed.plays, hunplayed.source, hunplayed.handler⟩

/-- **The end of the handler**: the source is played if the queue was not stopped at its beginning and the source has
no data left. -/
theorem finishHandler_cases (hstate : ∀ (source : A.Source) b, A.state (A.queueBuffer source b) = A.state source)
    (hsome : s.alSource.isSome) (h : finishHandler supported isRunning s = .ok s') :
    plays s' = plays s + (if isRunning ≠ .stopped ∧ ranOut s = true then 1 else 0) ∧ s'.alSource.isSome ∧
      ∀ buffers isRunning, s'.handler ≠ some (.calling buffers isRunning) := by
  obtain ⟨t, hprime, h⟩ := bind_eq_ok.1 h
  obtain ⟨hunplayed, -, hran⟩ := prime_cases hstate hprime
  have hran := hran hsome
  obtain ⟨source, hsource⟩ := Option.isSome_iff_exists.1 (hunplayed.source hsome)
  rw [← hran, ← hunplayed.plays]
  -- the state in which the source was played or not
  have hplay :
      ∃ t',
        (if isRunning ≠ .stopped ∧ ranOut t = true then { t with alSource := t.alSource.map (counted A).play } else t) =
        t' ∧
      plays t' = plays t + (if isRunning ≠ .stopped ∧ ranOut t = true then 1 else 0) ∧ t'.alSource.isSome := by
    refine ⟨_, rfl, ?_⟩
    split_ifs with hplay
    · unfold plays
      rw [hsource]
      exact ⟨rfl, rfl⟩
    · exact ⟨rfl, hunplayed.source hsome⟩
  obtain ⟨t', ht', hplays, hsome'⟩ := hplay
  simp only [ht'] at h
  split_ifs at h with hstopping
  · obtain ⟨t₂, hfinish, h⟩ := bind_eq_ok.1 h
    cases h
    have hfinished := finishStopping_cases hfinish
    exact ⟨hfinished.plays.trans hplays, hfinished.source hsome', fun buffers isRunning heq => by cases heq⟩
  · cases h
    exact ⟨hplays, hsome', fun buffers isRunning heq => by cases heq⟩

theorem nextCallback_cases (hstate : ∀ (source : A.Source) b, A.state (A.queueBuffer source b) = A.state source)
    (hsome : s.alSource.isSome) (hsupported : supported = true) (h : nextCallback supported isRunning s buffers = .ok s') :
    plays s' = plays s + (if buffers = [] ∧ isRunning ≠ .stopped ∧ ranOut s = true then 1 else 0) ∧
      Handled supported s' := by
  cases buffers with
  | nil =>
    obtain ⟨hplays, hsome', hnone⟩ := finishHandler_cases hstate hsome h
    refine ⟨?_, ⟨fun buffers isRunning heq => absurd heq (hnone _ _), fun buffers isRunning heq => absurd heq (hnone _ _)⟩⟩
    simpa only [true_and] using hplays
  | cons b buffers =>
    cases h
    refine ⟨?_, ⟨fun _ _ _ => hsome, fun _ _ _ => hsupported⟩⟩
    rw [if_neg fun h => List.cons_ne_nil _ _ h.1]
    rfl

theorem Handled.kept (h : Handled supported s) (hsource : s.alSource.isSome → s'.alSource.isSome)
    (hhandler : s'.handler = s.handler) :
    Handled supported s' :=
  ⟨fun buffers isRunning heq => hsource (h.source buffers isRunning (hhandler ▸ heq)),
    fun buffers isRunning heq => h.supported buffers isRunning (hhandler ▸ heq)⟩

/-- the steps that are not of the handler -/
theorem other_step {o : Op} (hstate : ∀ (source : A.Source) b, A.state (A.queueBuffer source b) = A.state source)
    (hhandle : o ≠ .handle) (hreturned : o ≠ .returned) (hs : step supported s o = .ok s') :
    (s.alSource.isSome → s'.alSource.isSome) ∧ s'.handler = s.handler := by
  cases o with
  | enqueueBuffer buffer =>
    cases hs
    unfold audioQueueEnqueueBuffer
    split_ifs <;> exact ⟨id, rfl⟩
  | prime =>
    have hunplayed := (prime_cases hstate hs).1
    exact ⟨hunplayed.source, hunplayed.handler⟩
  | start =>
    obtain ⟨t, hprime, hs⟩ := bind_eq_ok.1 hs
    have hunplayed := (prime_cases hstate hprime).1
    dsimp only at hs
    split_ifs at hs
    · obtain ⟨source, -, hs⟩ := bind_eq_ok.1 hs
      cases hs
      exact ⟨fun _ => rfl, hunplayed.handler⟩
    · cases hs
      exact ⟨hunplayed.source, hunplayed.handler⟩
  | pause =>
    cases hs
    exact ⟨fun h => by rw [audioQueuePause, Option.isSome_map]; exact h, rfl⟩
  | stop immediate =>
    cases immediate with
    | false =>
      cases hs
      split_ifs <;> exact ⟨id, rfl⟩
    | true =>
      have hunplayed := finishStopping_cases hs
      exact ⟨fun h => hunplayed.source (by rw [Option.isSome_map]; exact h), hunplayed.handler⟩
  | reset =>
    have hunplayed := reset_cases hs
    exact ⟨hunplayed.source, hunplayed.handler⟩
  | mix k =>
    cases hs
    exact ⟨fun h => by rw [Option.isSome_map]; exact h, rfl⟩
  | handle => exact absurd rfl hhandle
  | returned => exact absurd rfl hreturned

theorem handle_cases (hstate : ∀ (source : A.Source) b, A.state (A.queueBuffer source b) = A.state source)
    (hi : Handled supported s)
    (hs : handleAudioQueue supported s = .ok s') :
    Handled supported s' ∧ (s.isRunning = .stopped → plays s' = plays s) := by
  unfold handleAudioQueue at hs
  cases hsource : s.alSource with
  | none =>
    rw [hsource] at hs
    cases hs
    exact ⟨hi, fun _ => rfl⟩
  | some source =>
    rw [hsource] at hs
    dsimp only at hs
    split_ifs at hs with hskip
    · cases hs
      exact ⟨hi, fun _ => rfl⟩
    · obtain ⟨⟨buffers, source₁, s₁⟩, hrun, hs⟩ := bind_eq_ok.1 hs
      obtain ⟨hplayed, -, hrunning, -⟩ := unqueueBuffers_cases hrun
      have hsupported : supported = true := by
        cases supported
        · exact absurd rfl hskip
        · rfl
      have hsome : ({ s₁ with alSource := some source₁ } : State (counted A)).alSource.isSome := rfl
      obtain ⟨hplays, hhandled⟩ := nextCallback_cases hstate hsome hsupported hs
      refine ⟨hhandled, fun hstopped => ?_⟩
      rw [hplays, if_neg]
      · unfold plays
        rw [hsource, Option.elim_some, Option.elim_some, hplayed, add_zero]
      · intro h
        exact h.2.1 (hrunning.trans hstopped)

theorem step_handled {o : Op} (hstate : ∀ (source : A.Source) b, A.state (A.queueBuffer source b) = A.state source)
    (hi : Handled supported s) (hs : step supported s o = .ok s') :
    Handled supported s' ∧ (StaysStopped s o s' ↔ StoppedBefore s o s') := by
  by_cases hhandle : o = .handle
  · subst hhandle
    obtain ⟨hhandled, hplays⟩ := handle_cases hstate hi hs
    exact ⟨hhandled, fun _ isRunning h => (by cases h), fun _ _ => hplays⟩
  by_cases hreturned : o = .returned
  · subst hreturned
    unfold StaysStopped StoppedBefore
    cases hhandler : s.handler with
    | none =>
      rw [step, hhandler] at hs
      cases hs
    | some handler =>
      rw [step, hhandler] at hs
      cases handler with
      | notifying =>
        cases hs
        exact ⟨⟨fun _ _ h => (by cases h), fun _ _ h => (by cases h)⟩, fun _ _ _ h => (by cases h), fun _ _ _ => rfl⟩
      | calling buffers isRunning =>
        have hsome := hi.source buffers isRunning hhandler
        obtain ⟨hplays, hhandled⟩ := nextCallback_cases hstate hsome (hi.supported buffers isRunning hhandler) hs
        refine ⟨hhandled, fun h isRunning' _ heq hstopped => ?_, fun h _ hstopped => ?_⟩
        · cases heq
          have hsame := h (.inr rfl) hstopped
          rw [hplays] at hsame
          by_contra hnot
          rw [not_or, Bool.not_eq_false] at hnot
          rw [if_pos ⟨rfl, hnot⟩] at hsame
          omega
        · rw [hplays, if_neg, add_zero]
          rintro ⟨rfl, hrunning, hran⟩
          rcases h isRunning rfl rfl hstopped with hbefore | hleft
          · exact hrunning hbefore
          · rw [hran] at hleft
            cases hleft
  · obtain ⟨hsource, hhandler⟩ := other_step hstate hhandle hreturned hs
    exact ⟨hi.kept hsource hhandler, fun _ isRunning h => absurd h hreturned, fun _ h => by
      rcases h with h | h <;> contradiction⟩

/-- **A queue that its callback has stopped** stays stopped in every step of a run, if and only if in every step that
ends the last callback of a queue which is stopped then, the queue was stopped before the first one or its source has
data left. Buffers that are queued at a source leave its state alone. -/
theorem stays_stopped_iff (A : OpenAl) (hstate : ∀ (source : A.Source) b, A.state (A.queueBuffer source b) = A.state source)
    (supported : Bool) (buffers : List ℕ) (ops : List Op) :
    Along (step supported) StaysStopped (start buffers : State (counted A)) ops ↔
      Along (step supported) StoppedBefore (start buffers : State (counted A)) ops :=
  along_iff (I := Handled supported) (fun _ _ _ hi hs => (step_handled hstate hi hs).1)
    (fun _ _ _ hi hs => (step_handled hstate hi hs).2) ⟨fun _ _ h => (by cases h), fun _ _ h => (by cases h)⟩

end

/-- a callback that stops its queue at once -/
def stoppingCallback : List Op := [.enqueueBuffer 1, .start, .mix 1, .handle, .stop true, .returned]

theorem stays_stopped_paused : Along (step true) StaysStopped (start [1] : State (counted softAl)) stoppingCallback ↔
    Along (step true) StoppedBefore (start [1] : State (counted softAl)) stoppingCallback :=
  stays_stopped_iff softAl (fun _ _ => rfl) true [1] stoppingCallback

/-- the state in which the callback returns -/
def stoppedInCallback : State (counted softAl) :=
  (run (step true) (start [1]) (stoppingCallback.take 5)).toOption.getD (start [1])

/-- the source is played again after the queue was stopped -/
theorem stopped_plays : ¬Along (step true) StaysStopped (start [1] : State (counted softAl)) stoppingCallback := by
  intro h
  have hbefore : run (step true) (start [1]) (stoppingCallback.take 5) = .ok stoppedInCallback :=
    eq_ok_of_toOption (by decide +kernel)
  have hlast := eq_ok_of_toOption (x := step true stoppedInCallback .returned) (d := start [1]) (by decide +kernel)
  have hplays := Along.at (stoppingCallback.take 5) [] h hbefore hlast (.inr rfl) (by decide +kernel)
  exact absurd hplays (by decide +kernel)

end TouchHLE.AudioQueue
