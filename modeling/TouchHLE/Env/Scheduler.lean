/-
A scheduler pass: the scan in `Environment::run_inner` for a thread to run, and the switch and the relock after it.

- `candidate`: what the scan does with one thread. Seven kinds of block; all of them end the scan when the thread can be
  unblocked, except a wait for a condition variable, after which the scan goes on.
- `scan`, `pass`: the scan over all threads, starting behind the current one, and what follows from it.
- `ready`: whether a thread can be unblocked (or is not blocked).
- `candidate_cases`: everything the scan can do with one thread; `scan_inv` is the rule for the whole scan.
- `Fired`, `Ended`: the scan before its end and its end; `Found`: what is known in both.
- `pass_cases`: everything a pass can do.
-/
import TouchHLE.Env.Waiting

namespace TouchHLE

open Machine

namespace Env

/-- the variables of the scan -/
structure Scan where
  env : Env
  suitableThread : Option ThreadId
  nextAwakening : Option Instant
  mutexToRelock : Option MutexId

/-- how the scan goes on after a thread -/
inductive Flow where
  | next (sc : Scan)
  /-- `break` -/
  | stop (sc : Scan)
  /-- `return` from the run loop -/
  | returned (s : Env)

/-- thread `i` is the thread to run, and no longer blocked -/
def Scan.unblock (sc : Scan) (env : Env) (i : ThreadId) : Scan :=
  { sc with env := env.setBlocked i .notBlocked, suitableThread := some i }

/-- the return value of a thread that was joined, unless the pointer to write to is null -/
def writeReturnValue (s : Env) (joinee : Thread) (ptr : GuestPtr) : Except Panic Env :=
  if ptr = 0 then .ok s
  else
    match joinee.returnValue with
    | none => .error .noReturnValue
    | some v => do
      let mem ← s.mem.writeU32 ptr v
      pure { s with mem := mem }

/-- one iteration of the scan; `now i` is the time when it comes to thread `i` -/
def candidate (initialThread : ThreadId) (now : ThreadId → Instant) (sc : Scan) (i : ThreadId) : Except Panic Flow := do
  let s := sc.env
  let th ← s.get i
  if !th.active || th.inHostFunction then pure (.next sc)
  else
    match th.blockedBy with
    | .sleeping until_ =>
      if until_ ≤ now i then pure (.stop (sc.unblock s i))
      else
        let next := match sc.nextAwakening with
          | none => until_
          | some other => min other until_
        pure (.next { sc with nextAwakening := some next })
    | .mutex id =>
      if !s.mutexIsLocked id then pure (.stop { sc.unblock s i with mutexToRelock := some id }) else pure (.next sc)
    | .semaphore sem =>
      let v ← s.getSemaphore sem
      if v.value > 0 then
        let v := { v with value := v.value - 1, waiting := v.waiting.erase s.currentThread }
        pure (.stop (sc.unblock (s.setSemaphore sem (some v)) i))
      else pure (.next sc)
    | .condition cond =>
      let c ← s.getCondition cond
      match c.currMutex with
      | none => throw .noCondition
      | some mutex =>
        if c.waking.head? == some i && !s.mutexIsLocked mutex then
          let s := s.setCondition cond (some { c with waking := c.waking.tail })
          -- the scan does not end here
          pure (.next { sc.unblock s i with mutexToRelock := some mutex })
        else pure (.next sc)
    | .joining joinee ptr =>
      let j ← s.get joinee
      if !j.active then
        let s ← s.writeReturnValue j ptr
        pure (.stop (sc.unblock s i))
      else pure (.next sc)
    | .deferredReturn =>
      if i = initialThread then
        -- the thread is now on top of the host's call stack
        let s ← (s.setBlocked i .notBlocked).switchThread i
        pure (.returned s)
      else pure (.next sc)
    | .notBlocked => pure (.stop { sc with suitableThread := some i })

def scan (initialThread : ThreadId) (now : ThreadId → Instant) : Scan → List ThreadId → Except Panic Flow
  | sc, [] => .ok (.stop sc)
  | sc, i :: is =>
    candidate initialThread now sc i >>= fun
      | .next sc => scan initialThread now sc is
      | flow => .ok flow

/-- the threads in the order of the scan -/
def order (s : Env) : List ThreadId :=
  (List.range s.threads.length).map fun k => (s.currentThread + 1 + k) % s.threads.length

inductive PassResult where
  /-- a thread was chosen, and has the mutex that it waited for -/
  | resumed (s : Env)
  /-- no thread yet, but one will wake up -/
  | retry (s : Env)
  /-- the run loop is over: its initial thread has a deferred return -/
  | returned (s : Env)

def switchTo (s : Env) (t : ThreadId) : Except Panic Env :=
  if t ≠ s.currentThread then s.switchThread t else .ok s

def relockMutex (s : Env) : Option MutexId → Except Panic Env
  | some id => s.relockUnblockedMutex id
  | none => .ok s

/-- the choice after the scan -/
def dispatch (sc : Scan) : Except Panic PassResult := do
  match sc.suitableThread with
  | some t =>
    let s ← sc.env.switchTo t
    let s ← s.relockMutex sc.mutexToRelock
    pure (.resumed s)
  | none => if sc.nextAwakening.isSome then pure (.retry sc.env) else throw .deadlock

def Scan.start (s : Env) : Scan := ⟨s, none, none, none⟩

def pass (initialThread : ThreadId) (now : ThreadId → Instant) (s : Env) : Except Panic PassResult := do
  match ← scan initialThread now (.start s) s.order with
  | .returned s => pure (.returned s)
  | .next sc | .stop sc => dispatch sc

/-! ## When a thread can go on -/

/-- what a blocked thread waits for has happened -/
def unblockable (initialThread : ThreadId) (now : ThreadId → Instant) (s : Env) (i : ThreadId) : ThreadBlock → Bool
  | .notBlocked => true
  | .sleeping until_ => until_ ≤ now i
  | .mutex id => !s.mutexIsLocked id
  | .semaphore sem => (s.openSemaphores sem).any fun v => 0 < v.value
  | .condition cond => (s.conditionVariables cond).any fun c =>
      c.waking.head? == some i && c.currMutex.any fun id => !s.mutexIsLocked id
  | .joining joinee _ => (s.threads[joinee]?).any fun j => !j.active
  | .deferredReturn => i = initialThread

/-- the scan would choose this thread, if it came to it -/
def ready (initialThread : ThreadId) (now : ThreadId → Instant) (s : Env) (i : ThreadId) : Bool :=
  (s.threads[i]?).any fun th => th.active && !th.inHostFunction && s.unblockable initialThread now i th.blockedBy

/-- **Why a blocked thread is woken**: the state without its unblocking, and the mutex to lock for it -/
inductive Wakes (now : ThreadId → Instant) (s : Env) (i : ThreadId) : Env → Option MutexId → Prop
  | sleeping {until_ : Instant} (hb : s.blockedBy i = some (.sleeping until_)) (ht : until_ ≤ now i) : Wakes now s i s none
  | mutex {id : MutexId} (hb : s.blockedBy i = some (.mutex id)) (hl : s.mutexIsLocked id = false) :
      Wakes now s i s (some id)
  | semaphore {sem : GuestPtr} {v : Semaphore} (hb : s.blockedBy i = some (.semaphore sem))
      (hv : s.openSemaphores sem = some v) (hpos : 0 < v.value) :
      Wakes now s i (s.setSemaphore sem (some
        { v with value := v.value - 1, waiting := v.waiting.erase s.currentThread })) none
  | joining {joinee : ThreadId} {ptr : GuestPtr} {mem : Mem} (hb : s.blockedBy i = some (.joining joinee ptr)) :
      Wakes now s i { s with mem := mem } none

/-- a thread that waits for condition variable `cond` is first in its queue, and the mutex `id` is free -/
structure Signalled (s : Env) (i : ThreadId) (cond : GuestPtr) (c : CondHostObject) (id : MutexId) : Prop where
  blocked : s.blockedBy i = some (.condition cond)
  object : s.conditionVariables cond = some c
  mutex : c.currMutex = some id
  front : c.waking.head? = some i
  free : s.mutexIsLocked id = false

/-- the state after a condition variable's first signalled thread was woken -/
def wakeWaiter (s : Env) (i : ThreadId) (cond : GuestPtr) (c : CondHostObject) : Env :=
  (s.setCondition cond (some { c with waking := c.waking.tail })).setBlocked i .notBlocked

/-- the thread can execute guest code as far as its own record says -/
def Runnable (s : Env) (i : ThreadId) : Prop :=
  ∃ th, s.threads[i]? = some th ∧ th.active = true ∧ th.inHostFunction = false

variable {initialThread i j t : ThreadId} {now : ThreadId → Instant} {s s' : Env} {sc sc' : Scan} {flow : Flow}
  {id : MutexId} {is : List ThreadId} {b : ThreadBlock} {relock : Option MutexId}

theorem writeReturnValue_cases {th : Thread} {ptr : GuestPtr} (h : s.writeReturnValue th ptr = .ok s') :
    ∃ mem, s' = { s with mem := mem } := by
  unfold writeReturnValue at h
  split_ifs at h
  · cases h
    exact ⟨s.mem, rfl⟩
  · cases hv : th.returnValue with
    | none => rw [hv] at h; cases h
    | some v =>
      rw [hv] at h
      obtain ⟨mem, -, h⟩ := bind_eq_ok.1 h
      cases h
      exact ⟨mem, rfl⟩

/-- **What the scan does with one thread** -/
inductive Considered (initialThread : ThreadId) (now : ThreadId → Instant) (sc : Scan) (i : ThreadId) : Flow → Prop
  | skip (na : Option Instant) (hr : sc.env.ready initialThread now i = false) :
      Considered initialThread now sc i (.next { sc with nextAwakening := na })
  | running (hr : sc.env.ready initialThread now i = true) (hrun : sc.env.Runnable i)
      (hb : sc.env.blockedBy i = some .notBlocked) :
      Considered initialThread now sc i (.stop { sc with suitableThread := some i })
  | woken {s : Env} {relock : Option MutexId} (hr : sc.env.ready initialThread now i = true) (hrun : sc.env.Runnable i)
      (hw : Wakes now sc.env i s relock) :
      Considered initialThread now sc i (.stop { sc.unblock s i with mutexToRelock := relock.or sc.mutexToRelock })
  | signalled {cond : GuestPtr} {c : CondHostObject} {id : MutexId} (hr : sc.env.ready initialThread now i = true)
      (hrun : sc.env.Runnable i) (hs : Signalled sc.env i cond c id) :
      Considered initialThread now sc i
        (.next { sc with env := sc.env.wakeWaiter i cond c, suitableThread := some i, mutexToRelock := some id })
  | returned {s : Env} (hr : sc.env.ready initialThread now i = true) (hrun : sc.env.Runnable i)
      (hb : sc.env.blockedBy i = some .deferredReturn) (hi : i = initialThread)
      (hs : (sc.env.setBlocked i .notBlocked).switchThread i = .ok s) :
      Considered initialThread now sc i (.returned s)

theorem candidate_cases (h : candidate initialThread now sc i = .ok flow) : Considered initialThread now sc i flow := by
  obtain ⟨th, h1, h⟩ := bind_eq_ok.1 h
  rw [get_ok] at h1
  have hready : sc.env.ready initialThread now i =
      (th.active && !th.inHostFunction && sc.env.unblockable initialThread now i th.blockedBy) := by
    rw [ready, h1, Option.any_some]
  have hblocked : sc.env.blockedBy i = some th.blockedBy := by rw [blockedBy, h1, Option.map_some]
  by_cases hact : (!th.active || th.inHostFunction) = true
  · rw [if_pos hact] at h
    cases h
    refine .skip sc.nextAwakening ?_
    rw [hready]
    cases ha : th.active <;> cases hh : th.inHostFunction <;> simp_all
  · rw [if_neg hact] at h
    obtain ⟨ha, hh⟩ : th.active = true ∧ th.inHostFunction = false := by simpa using hact
    have hrun : sc.env.Runnable i := ⟨th, h1, ha, hh⟩
    rw [ha, hh] at hready
    simp only [Bool.not_false, Bool.and_self, Bool.true_and] at hready
    cases hb : th.blockedBy with
    | notBlocked =>
      simp only [hb] at h hready hblocked
      cases h
      exact .running hready hrun hblocked
    | sleeping u =>
      simp only [hb] at h hready hblocked
      by_cases ht : u ≤ now i
      · rw [if_pos ht] at h
        cases h
        exact .woken (hready.trans (by simpa [unblockable] using ht)) hrun (.sleeping hblocked ht)
      · rw [if_neg ht] at h
        cases h
        exact .skip _ (hready.trans (by simpa [unblockable] using ht))
    | mutex id =>
      simp only [hb] at h hready hblocked
      cases hl : sc.env.mutexIsLocked id with
      | false =>
        rw [hl] at h
        cases h
        have hwoken := Considered.woken (hready.trans (by simp [unblockable, hl])) hrun (.mutex hblocked hl)
        exact hwoken
      | true =>
        rw [hl] at h
        cases h
        exact .skip sc.nextAwakening (hready.trans (by simp [unblockable, hl]))
    | semaphore sem =>
      simp only [hb] at h hready hblocked
      obtain ⟨v, h2, h⟩ := bind_eq_ok.1 h
      rw [getSemaphore_ok] at h2
      by_cases hv : v.value > 0
      · rw [if_pos hv] at h
        cases h
        exact .woken (hready.trans (by simpa [unblockable, h2] using hv)) hrun (.semaphore hblocked h2 hv)
      · rw [if_neg hv] at h
        cases h
        exact .skip sc.nextAwakening (hready.trans (by simpa [unblockable, h2] using hv))
    | condition cond =>
      simp only [hb] at h hready hblocked
      obtain ⟨c, h2, h⟩ := bind_eq_ok.1 h
      rw [getCondition_ok] at h2
      split at h
      · cases h
      · rename_i id hm
        have hany : sc.env.ready initialThread now i = (c.waking.head? == some i && !sc.env.mutexIsLocked id) := by
          rw [hready, unblockable, h2, Option.any_some, hm, Option.any_some]
        by_cases hf : (c.waking.head? == some i && !sc.env.mutexIsLocked id) = true
        · rw [if_pos hf] at h
          cases h
          obtain ⟨hfront, hfree⟩ : c.waking.head? = some i ∧ sc.env.mutexIsLocked id = false := by simpa using hf
          exact .signalled (hany.trans hf) hrun ⟨hblocked, h2, hm, hfront, hfree⟩
        · rw [if_neg hf] at h
          cases h
          exact .skip sc.nextAwakening (hany.trans (Bool.not_eq_true _ ▸ hf))
    | joining joinee ptr =>
      simp only [hb] at h hready hblocked
      obtain ⟨j, h2, h⟩ := bind_eq_ok.1 h
      rw [get_ok] at h2
      cases hj : j.active with
      | false =>
        rw [hj] at h
        obtain ⟨s1, h3, h⟩ := bind_eq_ok.1 h
        cases h
        obtain ⟨mem, rfl⟩ := writeReturnValue_cases h3
        exact .woken (hready.trans (by simp [unblockable, h2, hj])) hrun (.joining hblocked)
      | true =>
        rw [hj] at h
        cases h
        exact .skip sc.nextAwakening (hready.trans (by simp [unblockable, h2, hj]))
    | deferredReturn =>
      simp only [hb] at h hready hblocked
      by_cases hi : i = initialThread
      · rw [if_pos hi] at h
        obtain ⟨s1, h2, h⟩ := bind_eq_ok.1 h
        cases h
        exact .returned (hready.trans (by simpa [unblockable] using hi)) hrun hblocked hi h2
      · rw [if_neg hi] at h
        cases h
        exact .skip sc.nextAwakening (hready.trans (by simpa [unblockable] using hi))

/-! ## The whole scan -/

/-- `P` of the variables of the scan if it goes on, `R` if it is over, `Q` of the state in which the run loop was left -/
def Flow.All (P R : Scan → Prop) (Q : Env → Prop) : Flow → Prop
  | .next sc => P sc
  | .stop sc => R sc
  | .returned s => Q s

/-- **Scan rule.** What each iteration keeps holds when the scan is over. -/
theorem scan_inv {P R : Scan → Prop} {Q : Env → Prop} (hend : ∀ sc, P sc → R sc)
    (hstep : ∀ sc i flow, P sc → Considered initialThread now sc i flow → flow.All P R Q) (h : P sc)
    (hr : scan initialThread now sc is = .ok flow) : flow.All P R Q := by
  induction is generalizing sc with
  | nil =>
    cases hr
    exact hend sc h
  | cons i is ih =>
    obtain ⟨flow1, h1, h2⟩ := bind_eq_ok.1 hr
    have hall := hstep sc i flow1 h (candidate_cases h1)
    cases flow1 with
    | next sc1 => exact ih hall h2
    | stop sc1 => cases h2; exact hall
    | returned s1 => cases h2; exact hall

/-- a thread's record without what blocks it -/
def shell (th : Thread) : Thread := { th with blockedBy := .notBlocked }

def shells (s : Env) : List Thread := s.threads.map shell

theorem shells_getElem? : s.shells[i]? = (s.threads[i]?).map shell := List.getElem?_map

theorem shells_setBlocked : (s.setBlocked i b).shells = s.shells := by
  apply List.ext_getElem?
  intro j
  rw [shells_getElem?, shells_getElem?, setBlocked, threads_modThread]
  split_ifs
  · rw [Option.map_map]
    rfl
  · rfl

theorem Runnable.of_shells (h : s'.shells = s.shells) (hr : s.Runnable i) : s'.Runnable i := by
  obtain ⟨th, h1, h2, h3⟩ := hr
  have h4 := shells_getElem? (s := s) (i := i)
  rw [h1, ← h, shells_getElem?, Option.map_some] at h4
  obtain ⟨th', h5, h6⟩ := Option.map_eq_some_iff.1 h4
  have hact : (shell th').active = (shell th).active := congrArg Thread.active h6
  have hhost : (shell th').inHostFunction = (shell th).inHostFunction := congrArg Thread.inHostFunction h6
  exact ⟨th', h5, hact.trans h2, hhost.trans h3⟩

theorem context_eq_shells : s.context i = (s.shells[i]?).bind Thread.context := by
  rw [context, shells_getElem?]
  cases s.threads[i]? <;> rfl

theorem context_of_shells (h : s'.shells = s.shells) : s'.context i = s.context i := by
  rw [context_eq_shells, context_eq_shells, h]

theorem length_of_shells (h : s'.shells = s.shells) : s'.threads.length = s.threads.length := by
  simpa [shells] using congrArg List.length h

theorem Runnable.lt_length (h : s.Runnable i) : i < s.threads.length := by
  obtain ⟨th, h1, -⟩ := h
  exact (List.getElem?_eq_some_iff.1 h1).1

theorem blockedBy_setBlocked_self (h : s.Runnable i) : (s.setBlocked i b).blockedBy i = some b := by
  obtain ⟨th, h1, -⟩ := h
  rw [blockedBy_setBlocked, if_pos rfl, blockedBy, h1, Option.map_some, Option.map_some]

theorem blockedBy_setBlocked_ne (h : i ≠ j) : (s.setBlocked i b).blockedBy j = s.blockedBy j := by
  rw [blockedBy_setBlocked, if_neg h]

/-- a wake-up changes neither the mutexes nor anything of a thread but what blocks it -/
theorem Wakes.frame (h : Wakes now s i s' relock) :
    s'.currentThread = s.currentThread ∧ s'.cpu = s.cpu ∧ s'.threads = s.threads ∧ s'.mutexState = s.mutexState ∧
      s'.conditionVariables = s.conditionVariables ∧ ∀ id, relock = some id → s.mutexIsLocked id = false := by
  cases h with
  | sleeping hb ht => exact ⟨rfl, rfl, rfl, rfl, rfl, fun _ h => nomatch h⟩
  | mutex hb hl =>
    refine ⟨rfl, rfl, rfl, rfl, rfl, fun id h => ?_⟩
    cases h
    exact hl
  | semaphore hb hv hpos => exact ⟨rfl, rfl, rfl, rfl, rfl, fun _ h => nomatch h⟩
  | joining hb => exact ⟨rfl, rfl, rfl, rfl, rfl, fun _ h => nomatch h⟩

/-- **What is known in the scan** that started in state `s` -/
structure Found (s : Env) (sc : Scan) : Prop where
  current : sc.env.currentThread = s.currentThread
  cpu : sc.env.cpu = s.cpu
  shells : sc.env.shells = s.shells
  mutexes : sc.env.mutexState = s.mutexState
  suitable : ∀ t, sc.suitableThread = some t → sc.env.Runnable t ∧ sc.env.blockedBy t = some .notBlocked
  relock : ∀ id, sc.mutexToRelock = some id → s.mutexIsLocked id = false
  idle : sc.suitableThread = none → sc.env = s ∧ sc.mutexToRelock = none

/-- **The scan before its end**: the waiters for condition variables that were woken in it -/
inductive Fired (s : Env) : Scan → Prop
  | start {na : Option Instant} : Fired s ⟨s, none, na, none⟩
  | signalled {sc : Scan} {i : ThreadId} {cond : GuestPtr} {c : CondHostObject} {id : MutexId} {na : Option Instant}
      (h : Fired s sc) (hrun : sc.env.Runnable i) (hs : Signalled sc.env i cond c id) :
      Fired s ⟨sc.env.wakeWaiter i cond c, some i, na, some id⟩

/-- **The end of the scan**: its last thread was not blocked or was woken, or there was no such thread -/
inductive Ended (now : ThreadId → Instant) (sc : Scan) : Scan → Prop
  | exhausted : Ended now sc sc
  | running {i : ThreadId} (hrun : sc.env.Runnable i) (hb : sc.env.blockedBy i = some .notBlocked) :
      Ended now sc { sc with suitableThread := some i }
  | woken {i : ThreadId} {s : Env} {relock : Option MutexId} (hrun : sc.env.Runnable i)
      (hw : Wakes now sc.env i s relock) :
      Ended now sc { sc.unblock s i with mutexToRelock := relock.or sc.mutexToRelock }

/-- the initial thread of the run loop has a deferred return, and the switch to it gave the state `s'` -/
def ReturnedTo (initialThread : ThreadId) (s s' : Env) : Prop :=
  ∃ sc, Fired s sc ∧ sc.env.Runnable initialThread ∧ sc.env.blockedBy initialThread = some .deferredReturn ∧
    (sc.env.setBlocked initialThread .notBlocked).switchThread initialThread = .ok s'

theorem Fired.skip {na : Option Instant} (h : Fired s sc) : Fired s { sc with nextAwakening := na } := by
  cases h with
  | start => exact .start
  | signalled h hrun hs => exact .signalled h hrun hs

theorem scan_ended (hr : scan initialThread now (.start s) is = .ok flow) :
    flow.All (Fired s) (fun sc => ∃ sc0, Fired s sc0 ∧ Ended now sc0 sc) (ReturnedTo initialThread s) := by
  refine scan_inv (fun sc h => ⟨sc, h, .exhausted⟩) (fun sc i flow h hc => ?_) .start hr
  cases hc with
  | skip na hr => exact h.skip
  | running hr hrun hb => exact ⟨sc, h, .running hrun hb⟩
  | woken hr hrun hw => exact ⟨sc, h, .woken hrun hw⟩
  | signalled hr hrun hs => exact .signalled h hrun hs
  | returned hr hrun hb hi hs =>
    subst hi
    exact ⟨sc, h, hrun, hb, hs⟩

/-- the relock after the scan, when the mutex is free -/
theorem relockMutex_cases (h : s.relockMutex relock = .ok s')
    (hfree : ∀ id, relock = some id → s.mutexIsLocked id = false) :
    (relock = none ∧ s' = s) ∨ ∃ id m, relock = some id ∧ s.mutexes id = some m ∧ m.locked = none ∧
      s' = s.setMutex id (some
        { m with locked := some (firstLock s.currentThread), waitingCount := m.waitingCount - 1 }) := by
  cases relock with
  | none =>
    cases h
    exact Or.inl ⟨rfl, rfl⟩
  | some id =>
    obtain ⟨m, h1, h2, h3⟩ := relock_cases h (hfree id rfl)
    exact Or.inr ⟨id, m, rfl, h1, h2, h3⟩

theorem mutexIsLocked_of_mutexState (h : s'.mutexState = s.mutexState) : s'.mutexIsLocked id = s.mutexIsLocked id := by
  rw [mutexIsLocked, mutexIsLocked, mutexes, mutexes, h]

theorem Fired.found (h : Fired s sc) : Found s sc := by
  induction h with
  | start => exact ⟨rfl, rfl, rfl, rfl, (fun _ h => nomatch h), (fun _ h => nomatch h), fun _ => ⟨rfl, rfl⟩⟩
  | signalled h hrun hs ih =>
    rename_i sc i cond c id na
    have hshells : (sc.env.wakeWaiter i cond c).shells = sc.env.shells := shells_setBlocked
    refine ⟨ih.current, ih.cpu, hshells.trans ih.shells, ih.mutexes, fun t ht => ?_, fun id' hid => ?_, fun h => nomatch h⟩
    · cases ht
      exact ⟨hrun.of_shells hshells, blockedBy_setBlocked_self (s := sc.env.setCondition _ _) hrun⟩
    · cases hid
      rw [← mutexIsLocked_of_mutexState ih.mutexes]
      exact hs.free

theorem Ended.found (h : Ended now sc sc') (hf : Found s sc) : Found s sc' := by
  cases h with
  | exhausted => exact hf
  | running hrun hb =>
    refine ⟨hf.current, hf.cpu, hf.shells, hf.mutexes, fun t ht => ?_, hf.relock, fun h => nomatch h⟩
    cases ht
    exact ⟨hrun, hb⟩
  | woken hrun hw =>
    rename_i i s1 relock
    obtain ⟨h1, h2, h3, h4, -, h5⟩ := hw.frame
    have hshells : (s1.setBlocked i .notBlocked).shells = sc.env.shells := by
      rw [shells_setBlocked, Env.shells, h3, ← Env.shells]
    have hrun1 : s1.Runnable i := by rw [Runnable, h3]; exact hrun
    refine ⟨h1.trans hf.current, h2.trans hf.cpu, hshells.trans hf.shells, h4.trans hf.mutexes, fun t ht => ?_,
      fun id hid => ?_, fun h => nomatch h⟩
    · cases ht
      exact ⟨hrun.of_shells hshells, blockedBy_setBlocked_self hrun1⟩
    · cases relock with
      | none => exact hf.relock id hid
      | some id' =>
        rw [← mutexIsLocked_of_mutexState hf.mutexes]
        exact h5 id hid

/-- **Who a woken waiter is**: nobody is unblocked before the end of the scan but waiters for condition variables. -/
theorem Fired.frame (h : Fired s sc) :
    sc.env.mutexState = s.mutexState ∧ sc.env.openSemaphores = s.openSemaphores ∧
      sc.env.currentThread = s.currentThread ∧
      ∀ t, sc.env.blockedBy t = s.blockedBy t ∨
        sc.env.blockedBy t = some .notBlocked ∧ ∃ cond, s.blockedBy t = some (.condition cond) := by
  induction h with
  | start => exact ⟨rfl, rfl, rfl, fun t => Or.inl rfl⟩
  | signalled h hrun hs ih =>
    rename_i sc i cond c id na
    obtain ⟨h1, h2, h3, h4⟩ := ih
    refine ⟨h1, h2, h3, fun t => ?_⟩
    by_cases hit : i = t
    · subst hit
      refine Or.inr ⟨blockedBy_setBlocked_self (s := sc.env.setCondition _ _) hrun, cond, ?_⟩
      rcases h4 i with heq | ⟨hn, -⟩
      · rw [← heq]
        exact hs.blocked
      · rw [hs.blocked] at hn
        cases hn
    · have hsame : (sc.env.wakeWaiter i cond c).blockedBy t = sc.env.blockedBy t := blockedBy_setBlocked_ne hit
      change (sc.env.wakeWaiter i cond c).blockedBy t = _ ∨ (sc.env.wakeWaiter i cond c).blockedBy t = _ ∧ _
      rw [hsame]
      exact h4 t

/-! ## What a pass can do -/

/-- **Everything a pass can do** -/
inductive Passed (initialThread : ThreadId) (now : ThreadId → Instant) (s : Env) : PassResult → Prop
  | resumed {sc0 sc : Scan} {t : ThreadId} {s1 s2 : Env}
      (hscan : scan initialThread now (.start s) s.order = .ok (.stop sc)) (hfired : Fired s sc0)
      (hend : Ended now sc0 sc) (ht : sc.suitableThread = some t) (hs : sc.env.switchTo t = .ok s1)
      (hr : s1.relockMutex sc.mutexToRelock = .ok s2) : Passed initialThread now s (.resumed s2)
  | retry {sc : Scan} (hscan : scan initialThread now (.start s) s.order = .ok (.stop sc))
      (hidle : sc.suitableThread = none) : Passed initialThread now s (.retry s)
  | returned {s1 : Env} (hscan : scan initialThread now (.start s) s.order = .ok (.returned s1)) (hr : ReturnedTo initialThread s s1) : Passed initialThread now s (.returned s1)

/-- the scan ends by a `break`, at its end, or by leaving the run loop -/
theorem scan_not_next (h : scan initialThread now sc is = .ok flow) : flow ≠ .next sc' := by
  induction is generalizing sc with
  | nil =>
    cases h
    intro heq
    cases heq
  | cons i is ih =>
    obtain ⟨flow1, h1, h2⟩ := bind_eq_ok.1 h
    cases flow1 with
    | next sc1 => exact ih h2
    | stop sc1 =>
      cases h2
      intro heq
      cases heq
    | returned s1 =>
      cases h2
      intro heq
      cases heq

theorem pass_cases {res : PassResult} (h : pass initialThread now s = .ok res) : Passed initialThread now s res := by
  obtain ⟨flow, h1, h⟩ := bind_eq_ok.1 h
  have hall := scan_ended h1
  cases flow with
  | next sc => exact absurd rfl (scan_not_next h1)
  | returned s1 =>
    cases h
    exact .returned h1 hall
  | stop sc =>
    obtain ⟨sc0, hfired, hend⟩ := hall
    simp only [dispatch] at h
    cases ht : sc.suitableThread with
    | none =>
      rw [ht] at h
      split_ifs at h
      cases h
      rw [((hend.found hfired.found).idle ht).1]
      exact .retry h1 ht
    | some t =>
      rw [ht] at h
      obtain ⟨s1, h2, h⟩ := bind_eq_ok.1 h
      obtain ⟨s2, h3, h⟩ := bind_eq_ok.1 h
      cases h
      exact .resumed h1 hfired hend ht h2 h3

end Env

end TouchHLE
