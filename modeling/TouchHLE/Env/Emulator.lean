/-
The emulator as a machine: guest code, host functions and scheduler passes take turns. The host's call stack is part of
the state, since the run loop is entered again by every host-to-guest call and has to be left in the opposite order.

- `Emulator`: the environment, the activations of `run_inner` and of host functions, and what happens next.
- `HostOp`: what a host function does to threads and synchronization objects; `Op`: a step of the machine.
- `step`: the parts of `run`, `run_call`, `run_inner` and `handle_cpu_state` between two turns.
- `apply_cases`, `step_cases`: everything that host code and a step can do.
-/
import TouchHLE.Env.Scheduler

namespace TouchHLE

open Machine Abi

namespace Env

/-- an activation on the host's call stack -/
inductive Frame where
  /-- `run_inner`, called by `run` (the root) or `run_call` -/
  | runInner (initialThread : ThreadId) (root : Bool) (wasInHostFunction : Bool)
  /-- a host function that guest code called; which thread called it is in no variable of the source -/
  | hostFunction (thread : ThreadId) (wasInHostFunction : Bool)
deriving DecidableEq, Repr

/-- what happens next -/
inductive Mode where
  | host
  | executing
  | scheduling
deriving DecidableEq, Repr

structure Emulator where
  env : Env
  frames : List Frame
  mode : Mode

/-- what host code does between two run loops -/
inductive HostOp where
  | setCpu (cpu : CpuContext)
  | setMem (mem : Mem)
  | newThread (startRoutine threadExitRoutine : GuestFunction) (userData : UInt32) (stackAlloc stackSize : ℕ)
  | sleep (until_ : Instant)
  | join (joinee : ThreadId) (ptr : GuestPtr)
  | initMutex (type : MutexType)
  | destroyMutex (id : MutexId)
  | lockMutex (id : MutexId)
  | unlockMutex (id : MutexId)
  | semInit (sem : GuestPtr) (value : UInt32)
  | semDestroy (sem : GuestPtr)
  | semPost (sem : GuestPtr)
  | semWait (sem : GuestPtr)
  | semTrywait (sem : GuestPtr)
  | condInit (cond : GuestPtr)
  | condWait (cond : GuestPtr) (mutex : MutexId)
  | condSignal (cond : GuestPtr)
  | condBroadcast (cond : GuestPtr)
  | condDestroy (cond : GuestPtr)

def HostOp.apply (s : Env) : HostOp → Except Panic Env
  | setCpu cpu => .ok { s with cpu := cpu }
  | setMem mem => .ok { s with mem := mem }
  | newThread startRoutine threadExitRoutine userData stackAlloc stackSize =>
    Prod.snd <$> s.newThread startRoutine threadExitRoutine userData stackAlloc stackSize
  | sleep until_ => s.sleepUntil until_
  | join joinee ptr => s.joinWithThread joinee ptr
  | initMutex type => Prod.snd <$> s.initMutex type
  | destroyMutex id => Prod.snd <$> s.destroyMutex id
  | lockMutex id => Prod.snd <$> s.lockMutex id
  | unlockMutex id => Prod.snd <$> s.unlockMutex id
  | semInit sem value => .ok (s.semInit sem value)
  | semDestroy sem => .ok (s.semDestroy sem)
  | semPost sem => s.semPost sem
  | semWait sem => s.semWait sem
  | semTrywait sem => Prod.snd <$> s.semTrywait sem
  | condInit cond => s.condInit cond
  | condWait cond mutex => s.condWait cond mutex
  | condSignal cond => s.condSignal cond
  | condBroadcast cond => s.condBroadcast cond
  | condDestroy cond => s.condDestroy cond

/-- a turn of the machine -/
inductive Op where
  /-- guest code runs -/
  | guest (cpu : CpuContext) (mem : Mem)
  /-- the thread has used up its ticks -/
  | outOfTicks
  /-- guest code calls a host function -/
  | svc
  | host (op : HostOp)
  /-- the host function returns -/
  | hostReturn
  /-- `Environment::run` -/
  | run
  /-- the host function calls guest code -/
  | runCall
  /-- `SVC_RETURN_TO_HOST` -/
  | returnToHost
  /-- `SVC_THREAD_EXIT` -/
  | threadExit
  /-- a scheduler pass, with the time at which it comes to each thread -/
  | schedule (now : ThreadId → Instant)

/-- whether the current thread is blocked; then the run loop schedules before it executes anything -/
def nextMode (s : Env) : Mode :=
  if s.blockedBy s.currentThread = some .notBlocked then .executing else .scheduling

/-- the beginning of `run_inner` -/
def enterRunInner (s : Env) : Except Panic Unit := do
  let th ← s.get s.currentThread
  assert th.active .inactive
  assert th.context.isNone .context

namespace Emulator

/-- `run_inner` returns to `run` or `run_call` -/
def leaveRunInner (s : Env) (initialThread : ThreadId) (root wasInHostFunction : Bool) (frames : List Frame) :
    Except Panic Emulator :=
  if root then .ok { env := s, frames := frames, mode := .host }
  else do
    assert (s.currentThread == initialThread) .wrongThread
    pure { env := s.setInHost s.currentThread wasInHostFunction, frames := frames, mode := .host }

/-- the thread's start routine has returned -/
def exitThread (s : Env) : Except Panic Env := do
  let th ← s.get s.currentThread
  assert th.inStartRoutine .threadExit
  assert th.stack.isSome .threadExit
  pure (s.modThread s.currentThread (·.exit (getElem s.cpu.regs 0 r0_lt)))

def step (e : Emulator) : Op → Except Panic Emulator
  | .guest cpu mem =>
    match e.mode with
    | .executing => .ok { e with env := { e.env with cpu := cpu, mem := mem } }
    | _ => .error .notEnabled
  | .outOfTicks =>
    match e.mode with
    | .executing => .ok { e with mode := .scheduling }
    | _ => .error .notEnabled
  | .svc =>
    match e.mode with
    | .executing => do
      let th ← e.env.get e.env.currentThread
      let env := e.env.setInHost e.env.currentThread true
      pure { env := env, frames := .hostFunction env.currentThread th.inHostFunction :: e.frames, mode := .host }
    | _ => .error .notEnabled
  | .host op =>
    match e.mode with
    | .host => do
      let env ← op.apply e.env
      pure { e with env := env }
    | _ => .error .notEnabled
  | .hostReturn =>
    match e.mode, e.frames with
    | .host, .hostFunction _ wasInHostFunction :: frames =>
      let env := e.env.setInHost e.env.currentThread wasInHostFunction
      .ok { env := env, frames := frames, mode := env.nextMode }
    | _, _ => .error .notEnabled
  | .run =>
    match e.mode, e.frames with
    | .host, [] => do
      enterRunInner e.env
      let th ← e.env.get e.env.currentThread
      pure { e with frames := [.runInner e.env.currentThread true th.inHostFunction], mode := e.env.nextMode }
    | _, _ => .error .notEnabled
  | .runCall =>
    match e.mode with
    | .host => do
      let th ← e.env.get e.env.currentThread
      let env := e.env.setInHost e.env.currentThread false
      enterRunInner env
      pure { env := env, frames := .runInner env.currentThread false th.inHostFunction :: e.frames, mode := env.nextMode }
    | _ => .error .notEnabled
  | .returnToHost =>
    match e.mode, e.frames with
    | .executing, .runInner initialThread root wasInHostFunction :: frames => do
      assert (!root) .rootReturn
      if e.env.currentThread = initialThread then leaveRunInner e.env initialThread root wasInHostFunction frames
      else
        -- the thread has to wait until it is on top of the host's call stack
        pure { e with env := e.env.setBlocked e.env.currentThread .deferredReturn, mode := .scheduling }
    | _, _ => .error .notEnabled
  | .threadExit =>
    match e.mode with
    | .executing => do
      let env ← exitThread e.env
      pure { e with env := env, mode := .scheduling }
    | _ => .error .notEnabled
  | .schedule now =>
    match e.mode, e.frames with
    | .scheduling, .runInner initialThread root wasInHostFunction :: frames => do
      match ← pass initialThread now e.env with
      | .resumed env => pure { e with env := env, mode := env.nextMode }
      | .retry env => pure { e with env := env }
      | .returned env => leaveRunInner env initialThread root wasInHostFunction frames
    | _, _ => .error .notEnabled

/-- the lowest address of the main thread's stack -/
def mainThreadStackLowEnd : ℕ := 2 ^ 32 - 2 ^ 20

/-- the thread that `Environment::new` begins with; it never terminates -/
def mainThread : Thread :=
  { active := true
    blockedBy := .notBlocked
    returnValue := none
    inStartRoutine := false
    inHostFunction := false
    context := none
    stack := some (mainThreadStackLowEnd, 2 ^ 32 - 1) }

/-- the state in which `Environment::new` has set up the main thread, with any memory and registers -/
def new (mem : Mem) (cpu : CpuContext) : Emulator :=
  { env :=
      { mem := mem
        cpu := cpu
        currentThread := 0
        threads := [mainThread]
        mutexState := { mutexes := fun _ => none, mutexCount := 0 }
        openSemaphores := fun _ => none
        conditionVariables := fun _ => none }
    frames := []
    mode := .host }

/-- the initial state with all memory and registers zero -/
def start : Emulator := new { bytes := fun _ => 0, nullSegmentSize := 0x1000 } .new

/-! ## What host code can do -/

end Emulator

/-- **Everything that host code can do** to threads and synchronization objects -/
inductive Applied (s : Env) : HostOp → Env → Prop
  | setCpu {cpu : CpuContext} : Applied s (.setCpu cpu) { s with cpu := cpu }
  | setMem {mem : Mem} : Applied s (.setMem mem) { s with mem := mem }
  | newThread {startRoutine threadExitRoutine : GuestFunction} {userData : UInt32} {stackAlloc stackSize : ℕ}
      {stack : ℕ × ℕ} {c : CpuContext} :
      Applied s (.newThread startRoutine threadExitRoutine userData stackAlloc stackSize)
        { s with threads := s.threads ++ [{ Thread.new stack with context := some c }] }
  | sleep {until_ : Instant} (hn : s.blockedBy s.currentThread = some .notBlocked) :
      Applied s (.sleep until_) (s.setBlocked s.currentThread (.sleeping until_))
  | join {joinee : ThreadId} {ptr : GuestPtr} (hn : s.blockedBy s.currentThread = some .notBlocked) :
      Applied s (.join joinee ptr) (s.setBlocked s.currentThread (.joining joinee ptr))
  | initMutex {type : MutexType} :
      Applied s (.initMutex type)
        (Env.setMutex { s with mutexState := { s.mutexState with mutexCount := s.mutexState.mutexCount + 1 } }
          s.mutexState.mutexCount (some { type := type, waitingCount := 0, locked := none }))
  | destroyBusy {id : MutexId} : Applied s (.destroyMutex id) s
  | destroyMutex {id : MutexId} {m : Mutex} (hm : s.mutexes id = some m) (hl : m.locked = none)
      (hw : m.waitingCount = 0) : Applied s (.destroyMutex id) (s.setMutex id none)
  | lockFree {id : MutexId} {m : Mutex} {s' : Env} (hr : s.lockMutex id = .ok (.ok 1, s'))
      (hm : s.mutexes id = some m) (hl : m.locked = none)
      (hs : s' = s.setMutex id (some { m with locked := some (firstLock s.currentThread) })) :
      Applied s (.lockMutex id) s'
  | lockDenied {id : MutexId} (hr : s.lockMutex id = .ok (.error .EDEADLK, s)) : Applied s (.lockMutex id) s
  | lockAgain {id : MutexId} {m : Mutex} {lock : Lock} {s' : Env}
      (hr : s.lockMutex id = .ok (.ok (lock.count + 1), s')) (hm : s.mutexes id = some m) (hl : m.locked = some lock)
      (ho : lock.owner = s.currentThread)
      (hs : s' = s.setMutex id (some { m with locked := some ⟨lock.owner, lock.count + 1, Nat.succ_pos _⟩ })) :
      Applied s (.lockMutex id) s'
  | lockBlocks {id : MutexId} {m : Mutex} {lock : Lock} {s' : Env} (hr : s.lockMutex id = .ok (.ok 1, s'))
      (hm : s.mutexes id = some m) (hl : m.locked = some lock) (ho : lock.owner ≠ s.currentThread)
      (hn : s.blockedBy s.currentThread = some .notBlocked)
      (hs : s' = (s.setMutex id (some { m with waitingCount := m.waitingCount + 1 })).setBlocked s.currentThread
        (.mutex id)) : Applied s (.lockMutex id) s'
  | unlockDenied {id : MutexId} (hr : s.unlockMutex id = .ok (.error .EPERM, s)) : Applied s (.unlockMutex id) s
  | unlocked {id : MutexId} {r : ℕ} {s' : Env} (hr : s.unlockMutex id = .ok (.ok r, s')) :
      Applied s (.unlockMutex id) s'
  | semInitAgain {sem : GuestPtr} {value : UInt32} {v : Semaphore} (hv : s.openSemaphores sem = some v) :
      Applied s (.semInit sem value) s
  | semInit {sem : GuestPtr} {value : UInt32} (hv : s.openSemaphores sem = none) :
      Applied s (.semInit sem value) (s.setSemaphore sem (some { value := asI32 value, waiting := ∅ }))
  | semDestroy {sem : GuestPtr} : Applied s (.semDestroy sem) (s.setSemaphore sem none)
  | semPost {sem : GuestPtr} {v : Semaphore} (hv : s.openSemaphores sem = some v) :
      Applied s (.semPost sem) (s.setSemaphore sem (some { v with value := v.value + 1 }))
  | semWaits {sem : GuestPtr} {v : Semaphore} (hv : s.openSemaphores sem = some v) (hpos : 0 < v.value) :
      Applied s (.semWait sem) (s.setSemaphore sem (some { v with value := v.value - 1 }))
  | semTries {sem : GuestPtr} {v : Semaphore} (hv : s.openSemaphores sem = some v) (hpos : 0 < v.value) :
      Applied s (.semTrywait sem) (s.setSemaphore sem (some { v with value := v.value - 1 }))
  | semFails {sem : GuestPtr} {v : Semaphore} (hv : s.openSemaphores sem = some v) (hpos : v.value ≤ 0) :
      Applied s (.semTrywait sem) s
  | semBlocks {sem : GuestPtr} {v : Semaphore} (hv : s.openSemaphores sem = some v) (hpos : v.value ≤ 0)
      (hn : s.blockedBy s.currentThread = some .notBlocked) :
      Applied s (.semWait sem)
        ((s.setSemaphore sem (some { v with waiting := insert s.currentThread v.waiting })).setBlocked
          s.currentThread (.semaphore sem))
  | condInit {cond : GuestPtr} (hc : s.conditionVariables cond = none) :
      Applied s (.condInit cond) (s.setCondition cond (some { waiting := [], waking := [], currMutex := none }))
  | condWait {cond : GuestPtr} {mutex : MutexId} {r : ℕ} {s1 : Env} {c : CondHostObject}
      (hu : s.unlockMutex mutex = .ok (.ok r, s1)) (hn : s1.blockedBy s1.currentThread = some .notBlocked)
      (hc : s1.conditionVariables cond = some c)
      (hm : c.currMutex = some mutex ∨ c.waking = [] ∧ c.waiting = []) :
      Applied s (.condWait cond mutex)
        ((s1.setCondition cond (some
          { c with currMutex := some mutex, waiting := c.waiting ++ [s1.currentThread] })).setBlocked s1.currentThread
          (.condition cond))
  | condSignalNone {cond : GuestPtr} : Applied s (.condSignal cond) s
  | condSignal {cond : GuestPtr} {c : CondHostObject} {t : ThreadId} {rest : List ThreadId}
      (hc : s.conditionVariables cond = some c) (hw : c.waiting = t :: rest) :
      Applied s (.condSignal cond)
        (s.setCondition cond (some { c with waiting := rest, waking := c.waking ++ [t] }))
  | condBroadcast {cond : GuestPtr} {c : CondHostObject} (hc : s.conditionVariables cond = some c) :
      Applied s (.condBroadcast cond)
        (s.setCondition cond (some { c with waiting := [], waking := c.waking ++ c.waiting }))
  | condDestroy {cond : GuestPtr} {c : CondHostObject} (hc : s.conditionVariables cond = some c)
      (hwait : c.waiting = []) (hwake : c.waking = []) : Applied s (.condDestroy cond) (s.setCondition cond none)

/-- a function whose result besides the state is dropped -/
theorem snd_map_eq_ok {α : Type} {s : Env} {x : Except Panic (α × Env)} (h : Prod.snd <$> x = .ok s) :
    ∃ a, x = .ok (a, s) := by
  cases x with
  | error e => cases h
  | ok p =>
    cases h
    exact ⟨p.1, rfl⟩

theorem apply_cases {s s' : Env} {op : HostOp} (h : op.apply s = .ok s') : Applied s op s' := by
  cases op with
  | setCpu cpu => cases h; exact .setCpu
  | setMem mem => cases h; exact .setMem
  | newThread startRoutine threadExitRoutine userData stackAlloc stackSize =>
    obtain ⟨t, h⟩ := snd_map_eq_ok h
    obtain ⟨-, stack, c, rfl⟩ := newThread_cases h
    exact .newThread
  | sleep until_ =>
    obtain ⟨_, h1, h⟩ := bind_eq_ok.1 h
    cases h
    exact .sleep (assertNotBlocked_ok h1)
  | join joinee ptr =>
    obtain ⟨_, h1, h⟩ := bind_eq_ok.1 h
    cases h
    exact .join (assertNotBlocked_ok h1)
  | initMutex type =>
    obtain ⟨id, h⟩ := snd_map_eq_ok h
    obtain ⟨rfl, rfl⟩ := initMutex_cases h
    exact .initMutex
  | destroyMutex id =>
    obtain ⟨r, h⟩ := snd_map_eq_ok h
    obtain ⟨m, hm, ⟨-, rfl, -⟩ | ⟨-, hl, hw, rfl⟩⟩ := destroyMutex_cases h
    · exact .destroyBusy
    · exact .destroyMutex hm hl hw
  | lockMutex id =>
    obtain ⟨r, h⟩ := snd_map_eq_ok h
    obtain ⟨m, hm, ⟨hl, rfl, hs⟩ | ⟨lock, hl, ⟨-, rfl, rfl⟩ | ⟨ho, -, rfl, hs⟩ | ⟨ho, rfl, hn, hs⟩⟩⟩ :=
      lockMutex_cases h
    · exact .lockFree h hm hl hs
    · exact .lockDenied h
    · exact .lockAgain h hm hl ho hs
    · exact .lockBlocks h hm hl ho hn hs
  | unlockMutex id =>
    obtain ⟨r, h⟩ := snd_map_eq_ok h
    obtain ⟨m, hm, ⟨rfl, rfl, -⟩ | ⟨lock, -, -, ⟨-, rfl, -⟩ | ⟨lock', -, -, -, rfl, -⟩⟩⟩ := unlockMutex_cases h
    · exact .unlockDenied h
    · exact .unlocked h
    · exact .unlocked h
  | semInit sem value =>
    cases h
    unfold Env.semInit
    cases hv : s.openSemaphores sem with
    | none => exact .semInit hv
    | some v => exact .semInitAgain hv
  | semDestroy sem => cases h; exact .semDestroy
  | semPost sem =>
    obtain ⟨v, hv, rfl⟩ := semPost_cases h
    exact .semPost hv
  | semWait sem =>
    obtain ⟨r, h⟩ := snd_map_eq_ok h
    obtain ⟨v, hv, ⟨hpos, -, rfl⟩ | ⟨hw, -, -⟩ | ⟨-, hpos, -, hn, rfl⟩⟩ := semDecrement_cases h
    · exact .semWaits hv hpos
    · cases hw
    · exact .semBlocks hv hpos hn
  | semTrywait sem =>
    obtain ⟨r, h⟩ := snd_map_eq_ok h
    obtain ⟨v, hv, ⟨hpos, -, rfl⟩ | ⟨-, hpos, -, rfl⟩ | ⟨hw, -, -, -, -⟩⟩ := semDecrement_cases h
    · exact .semTries hv hpos
    · exact .semFails hv hpos
    · cases hw
  | condInit cond =>
    obtain ⟨hc, rfl⟩ := condInit_cases h
    exact .condInit hc
  | condWait cond mutex =>
    obtain ⟨r, s1, c, hu, hn, hc, hm, rfl⟩ := condWait_cases h
    exact .condWait hu hn hc hm
  | condSignal cond =>
    obtain ⟨c, hc, ⟨-, rfl⟩ | ⟨tid, rest, hw, rfl⟩⟩ := condSignal_cases h
    · exact .condSignalNone
    · exact .condSignal hc hw
  | condBroadcast cond =>
    obtain ⟨c, hc, rfl⟩ := condBroadcast_cases h
    exact .condBroadcast hc
  | condDestroy cond =>
    obtain ⟨c, hc, hwait, hwake, rfl⟩ := condDestroy_cases h
    exact .condDestroy hc hwait hwake

namespace Emulator

/-! ## What a step can do -/

variable {e e' : Emulator} {o : Op} {s env : Env} {initialThread : ThreadId} {root was : Bool} {frames : List Frame}

/-- the part of `run_inner` that returns -/
theorem leaveRunInner_cases (h : leaveRunInner s initialThread root was frames = .ok e') :
    (root = true ∧ e' = { env := s, frames := frames, mode := .host }) ∨
      (root = false ∧ s.currentThread = initialThread ∧
        e' = { env := s.setInHost s.currentThread was, frames := frames, mode := .host }) := by
  unfold leaveRunInner at h
  split_ifs at h with hroot
  · cases h
    exact Or.inl ⟨hroot, rfl⟩
  · obtain ⟨_, h1, h⟩ := bind_eq_ok.1 h
    cases h
    exact Or.inr ⟨Bool.not_eq_true _ ▸ hroot, beq_iff_eq.1 (assert_cases h1), rfl⟩

/-- **Everything a step can do** -/
inductive Stepped (e : Emulator) : Op → Emulator → Prop
  | guest {cpu : CpuContext} {mem : Mem} (hm : e.mode = .executing) :
      Stepped e (.guest cpu mem) { e with env := { e.env with cpu := cpu, mem := mem } }
  | outOfTicks (hm : e.mode = .executing) : Stepped e .outOfTicks { e with mode := .scheduling }
  | svc {th : Thread} (hm : e.mode = .executing) (hth : e.env.threads[e.env.currentThread]? = some th) :
      Stepped e .svc
        { env := e.env.setInHost e.env.currentThread true
          frames := .hostFunction e.env.currentThread th.inHostFunction :: e.frames
          mode := .host }
  | host {op : HostOp} {env : Env} (hm : e.mode = .host) (h : op.apply e.env = .ok env) :
      Stepped e (.host op) { e with env := env }
  | hostReturn {t : ThreadId} {was : Bool} {frames : List Frame} (hm : e.mode = .host)
      (hf : e.frames = .hostFunction t was :: frames) :
      Stepped e .hostReturn
        { env := e.env.setInHost e.env.currentThread was
          frames := frames
          mode := (e.env.setInHost e.env.currentThread was).nextMode }
  | run {th : Thread} (hm : e.mode = .host) (hf : e.frames = []) (hth : e.env.threads[e.env.currentThread]? = some th)
      (ha : th.active = true) :
      Stepped e .run { e with frames := [.runInner e.env.currentThread true th.inHostFunction], mode := e.env.nextMode }
  | runCall {th : Thread} (hm : e.mode = .host) (hth : e.env.threads[e.env.currentThread]? = some th)
      (ha : th.active = true) :
      Stepped e .runCall
        { env := e.env.setInHost e.env.currentThread false
          frames := .runInner e.env.currentThread false th.inHostFunction :: e.frames
          mode := (e.env.setInHost e.env.currentThread false).nextMode }
  | returned {was : Bool} {frames : List Frame} (hm : e.mode = .executing)
      (hf : e.frames = .runInner e.env.currentThread false was :: frames) :
      Stepped e .returnToHost { env := e.env.setInHost e.env.currentThread was, frames := frames, mode := .host }
  | deferred (hm : e.mode = .executing) :
      Stepped e .returnToHost
        { e with env := e.env.setBlocked e.env.currentThread .deferredReturn, mode := .scheduling }
  | threadExit {th : Thread} (hm : e.mode = .executing) (hth : e.env.threads[e.env.currentThread]? = some th)
      (hr : th.inStartRoutine = true) :
      Stepped e .threadExit
        { e with
          env := e.env.modThread e.env.currentThread (·.exit (getElem e.env.cpu.regs 0 r0_lt))
          mode := .scheduling }
  | resumed {now : ThreadId → Instant} {initialThread : ThreadId} {root was : Bool} {frames : List Frame} {env : Env}
      (hm : e.mode = .scheduling) (hf : e.frames = .runInner initialThread root was :: frames)
      (hp : Passed initialThread now e.env (.resumed env)) :
      Stepped e (.schedule now) { e with env := env, mode := env.nextMode }
  | retry {now : ThreadId → Instant} {initialThread : ThreadId} {root was : Bool} {frames : List Frame}
      (hm : e.mode = .scheduling) (hf : e.frames = .runInner initialThread root was :: frames)
      (hp : Passed initialThread now e.env (.retry e.env)) : Stepped e (.schedule now) e
  | unwound {now : ThreadId → Instant} {initialThread : ThreadId} {root was : Bool} {frames : List Frame}
      {env env' : Env} (hm : e.mode = .scheduling) (hf : e.frames = .runInner initialThread root was :: frames)
      (hp : Passed initialThread now e.env (.returned env))
      (he : root = true ∧ env' = env ∨
        root = false ∧ env.currentThread = initialThread ∧ env' = env.setInHost env.currentThread was) :
      Stepped e (.schedule now) { env := env', frames := frames, mode := .host }

theorem enterRunInner_cases {u : Unit} (h : enterRunInner s = .ok u) :
    ∃ th, s.threads[s.currentThread]? = some th ∧ th.active = true ∧ th.context = none := by
  obtain ⟨th, h1, h⟩ := bind_eq_ok.1 h
  obtain ⟨_, h2, h3⟩ := bind_eq_ok.1 h
  exact ⟨th, get_ok.1 h1, assert_cases h2, Option.isNone_iff_eq_none.1 (assert_cases h3)⟩

theorem schedule_cases {now : ThreadId → Instant} (h : e.step (.schedule now) = .ok e') :
    Stepped e (.schedule now) e' := by
  simp only [step] at h
  split at h
  · rename_i initialThread root was frames hm hf
    obtain ⟨res, h1, h⟩ := bind_eq_ok.1 h
    have hp := pass_cases h1
    cases res with
    | resumed env =>
      cases h
      exact .resumed hm hf hp
    | retry env =>
      cases h
      cases hp with
      | retry hscan hidle => exact .retry hm hf (.retry hscan hidle)
    | returned env =>
      rcases leaveRunInner_cases h with ⟨hroot, rfl⟩ | ⟨hroot, hcur, rfl⟩
      · exact .unwound hm hf hp (Or.inl ⟨hroot, rfl⟩)
      · exact .unwound hm hf hp (Or.inr ⟨hroot, hcur, rfl⟩)
  · cases h

theorem step_cases (h : e.step o = .ok e') : Stepped e o e' := by
  cases o with
  | schedule now => exact schedule_cases h
  | guest cpu mem =>
    simp only [step] at h
    split at h <;> cases h
    exact .guest ‹_›
  | outOfTicks =>
    simp only [step] at h
    split at h <;> cases h
    exact .outOfTicks ‹_›
  | svc =>
    simp only [step] at h
    split at h
    · obtain ⟨th, h1, h⟩ := bind_eq_ok.1 h
      cases h
      exact .svc ‹_› (get_ok.1 h1)
    · cases h
  | host op =>
    simp only [step] at h
    split at h
    · obtain ⟨env, h1, h⟩ := bind_eq_ok.1 h
      cases h
      exact .host ‹_› h1
    · cases h
  | hostReturn =>
    simp only [step] at h
    split at h <;> cases h
    exact .hostReturn ‹_› ‹_›
  | run =>
    simp only [step] at h
    split at h
    · obtain ⟨_, h1, h⟩ := bind_eq_ok.1 h
      obtain ⟨th, h2, h⟩ := bind_eq_ok.1 h
      cases h
      obtain ⟨th', h3, ha, -⟩ := enterRunInner_cases h1
      rw [get_ok, h3] at h2
      cases h2
      exact .run ‹_› ‹_› h3 ha
    · cases h
  | runCall =>
    simp only [step] at h
    split at h
    · obtain ⟨th, h1, h⟩ := bind_eq_ok.1 h
      obtain ⟨_, h2, h⟩ := bind_eq_ok.1 h
      cases h
      rw [get_ok] at h1
      obtain ⟨th', h3, ha, -⟩ := enterRunInner_cases h2
      rw [setInHost, current_modThread, threads_modThread, if_pos rfl, h1] at h3
      cases h3
      exact .runCall ‹_› h1 ha
    · cases h
  | returnToHost =>
    simp only [step] at h
    split at h
    · rename_i initialThread root was frames hm hf
      obtain ⟨_, h1, h⟩ := bind_eq_ok.1 h
      have hroot : root = false := by simpa using assert_cases h1
      subst hroot
      split_ifs at h with hcur
      · subst hcur
        rcases leaveRunInner_cases h with ⟨h2, -⟩ | ⟨-, -, rfl⟩
        · cases h2
        · exact .returned hm hf
      · cases h
        exact .deferred hm
    · cases h
  | threadExit =>
    simp only [step] at h
    split at h
    · obtain ⟨env, h1, h⟩ := bind_eq_ok.1 h
      cases h
      obtain ⟨th, h2, h1⟩ := bind_eq_ok.1 h1
      obtain ⟨_, h3, h1⟩ := bind_eq_ok.1 h1
      obtain ⟨_, h4, h1⟩ := bind_eq_ok.1 h1
      cases h1
      exact .threadExit ‹_› (get_ok.1 h2) (assert_cases h3)
    · cases h

end Emulator

end Env

end TouchHLE
