/-
The emulator's threads (`environment.rs`): what is kept about each of them, and how the one CPU is shared.

- `Thread`, `ThreadBlock`: the record of a thread and what can block it.
- `Env`: the part of the environment that threads and synchronization work on.
- `switchThread`: the CPU state and the saved context of the new thread trade places.
- `newThread`, `sleepUntil`, `joinWithThread`, `blockOnMutex`: functions of host code.
- `switchThread_cases`: what a switch that does not panic has done.
-/
import TouchHLE.Abi.Args

namespace TouchHLE.Env

open Machine Abi

/-- index into the vector of threads; thread 0 is the main thread -/
abbrev ThreadId := ℕ

/-- a guest address of a synchronization object -/
abbrev GuestPtr := ℕ

abbrev MutexId := ℕ

/-- an instant of the host's clock -/
abbrev Instant := ℕ

/-- the state of the guest CPU, as the emulation library saves and loads it -/
structure CpuContext where
  regs : Regs
  extRegs : Vector UInt32 64
  cpsr : UInt32
  fpscr : UInt32
deriving DecidableEq

/-- `CpuContext::new` -/
def CpuContext.new : CpuContext := ⟨Vector.replicate 16 0, Vector.replicate 64 0, 0, 0⟩

/-- `Cpu::CPSR_THUMB` -/
def cpsrThumb : UInt32 := 0x20

/-- `Cpu::CPSR_USER_MODE` -/
def cpsrUserMode : UInt32 := 0x10

/-- `Cpu::branch` -/
def CpuContext.branch (c : CpuContext) (newPc : GuestFunction) : CpuContext :=
  let isThumb := newPc.ptr.bits &&& 1 == 1
  { c with
    regs := c.regs.set 15 (newPc.ptr.bits &&& ~~~1)
    cpsr := (c.cpsr &&& ~~~cpsrThumb) ||| (if isThumb then cpsrThumb else 0) }

/-- what a thread is blocked by -/
inductive ThreadBlock where
  | notBlocked
  | sleeping (until_ : Instant)
  | mutex (id : MutexId)
  | semaphore (sem : GuestPtr)
  | condition (cond : GuestPtr)
  | joining (joinee : ThreadId) (ptr : GuestPtr)
  /-- a host-to-guest call that is over but not yet at the top of the host's call stack -/
  | deferredReturn
deriving DecidableEq, Repr

structure Thread where
  active : Bool
  blockedBy : ThreadBlock
  inStartRoutine : Bool
  returnValue : Option UInt32
  inHostFunction : Bool
  context : Option CpuContext
  stack : Option (ℕ × ℕ)
deriving DecidableEq

/-- the record that `new_thread` adds -/
def Thread.new (stack : ℕ × ℕ) : Thread :=
  { active := true
    blockedBy := .notBlocked
    returnValue := none
    inStartRoutine := true
    inHostFunction := false
    context := some .new
    stack := some stack }

/-- the record of a thread whose start routine has returned a value -/
def Thread.exit (th : Thread) (returnValue : UInt32) : Thread :=
  { th with returnValue := some returnValue, active := false, stack := none }

/-! ## Synchronization objects -/

inductive MutexType where
  | normal
  | errorcheck
  | recursive
deriving DecidableEq, Repr

/-- the owner of a mutex and how often it has locked it -/
@[ext] structure Lock where
  owner : ThreadId
  count : ℕ
  count_pos : 0 < count
deriving Repr

instance : DecidableEq Lock := fun a b => decidable_of_iff (a.owner = b.owner ∧ a.count = b.count) Lock.ext_iff.symm

structure Mutex where
  type : MutexType
  waitingCount : ℕ
  locked : Option Lock
deriving DecidableEq, Repr

structure MutexState where
  mutexes : MutexId → Option Mutex
  mutexCount : ℕ

structure Semaphore where
  value : ℤ
  waiting : Finset ThreadId
deriving DecidableEq

structure CondHostObject where
  waiting : List ThreadId
  waking : List ThreadId
  currMutex : Option MutexId
deriving DecidableEq, Repr

end TouchHLE.Env

namespace TouchHLE

open Machine Abi Env

structure Env where
  mem : Mem
  cpu : CpuContext
  currentThread : ThreadId
  threads : List Thread
  mutexState : MutexState
  openSemaphores : GuestPtr → Option Semaphore
  conditionVariables : GuestPtr → Option CondHostObject

namespace Env

variable {s s' : Env} {i j t : ThreadId} {th : Thread}

/-! ## Reading and writing the records of threads -/

/-- `self.threads[i]` -/
def get (s : Env) (i : ThreadId) : Except Panic Thread :=
  match s.threads[i]? with
  | none => .error .index
  | some th => .ok th

def modThread (s : Env) (i : ThreadId) (f : Thread → Thread) : Env := { s with threads := s.threads.modify i f }

def setBlocked (s : Env) (i : ThreadId) (b : ThreadBlock) : Env := s.modThread i ({ · with blockedBy := b })

def setInHost (s : Env) (i : ThreadId) (v : Bool) : Env := s.modThread i ({ · with inHostFunction := v })

def setContext (s : Env) (i : ThreadId) (c : Option CpuContext) : Env := s.modThread i ({ · with context := c })

/-- what a thread is blocked by, if there is such a thread -/
def blockedBy (s : Env) (i : ThreadId) : Option ThreadBlock := (s.threads[i]?).map Thread.blockedBy

/-- the saved context of a thread -/
def context (s : Env) (i : ThreadId) : Option CpuContext := (s.threads[i]?).bind Thread.context

/-- the assertion that every blocking function starts with -/
def assertNotBlocked (s : Env) : Except Panic Unit := do
  let th ← s.get s.currentThread
  assert (th.blockedBy == .notBlocked) .alreadyBlocked

theorem get_ok : s.get i = .ok th ↔ s.threads[i]? = some th := by
  unfold get
  cases s.threads[i]? <;> simp

@[simp] theorem threads_modThread (f : Thread → Thread) :
    (s.modThread i f).threads[j]? = if i = j then (s.threads[j]?).map f else s.threads[j]? := by
  simp only [modThread, List.getElem?_modify]
  split_ifs <;> simp

@[simp] theorem length_modThread (f : Thread → Thread) : (s.modThread i f).threads.length = s.threads.length :=
  List.length_modify _ _ _

@[simp] theorem current_modThread (f : Thread → Thread) : (s.modThread i f).currentThread = s.currentThread := rfl

@[simp] theorem cpu_modThread (f : Thread → Thread) : (s.modThread i f).cpu = s.cpu := rfl

@[simp] theorem mutexState_modThread (f : Thread → Thread) : (s.modThread i f).mutexState = s.mutexState := rfl

@[simp] theorem semaphores_modThread (f : Thread → Thread) : (s.modThread i f).openSemaphores = s.openSemaphores := rfl

@[simp] theorem conditions_modThread (f : Thread → Thread) :
    (s.modThread i f).conditionVariables = s.conditionVariables := rfl

/-- a change of a record that leaves `blocked_by` alone -/
theorem blockedBy_modThread {f : Thread → Thread} (hf : ∀ th, (f th).blockedBy = th.blockedBy) :
    (s.modThread i f).blockedBy j = s.blockedBy j := by
  simp only [blockedBy, threads_modThread]
  split_ifs
  · cases s.threads[j]? <;> simp [hf]
  · rfl

@[simp] theorem blockedBy_setInHost {v : Bool} : (s.setInHost i v).blockedBy j = s.blockedBy j :=
  blockedBy_modThread fun _ => rfl

@[simp] theorem blockedBy_setContext {c : Option CpuContext} : (s.setContext i c).blockedBy j = s.blockedBy j :=
  blockedBy_modThread fun _ => rfl

theorem blockedBy_setBlocked {b : ThreadBlock} :
    (s.setBlocked i b).blockedBy j = if i = j then (s.blockedBy j).map fun _ => b else s.blockedBy j := by
  simp only [blockedBy, setBlocked, threads_modThread]
  split_ifs
  · cases s.threads[j]? <;> rfl
  · rfl

theorem assertNotBlocked_ok (h : s.assertNotBlocked = .ok ()) : s.blockedBy s.currentThread = some .notBlocked := by
  obtain ⟨th, h1, h2⟩ := bind_eq_ok.1 h
  rw [get_ok] at h1
  unfold assert at h2
  split_ifs at h2 with h3
  simp only [blockedBy, h1, Option.map_some, beq_iff_eq.1 h3]

/-! ## Sharing the CPU -/

def switchThread (s : Env) (newThread : ThreadId) : Except Panic Env := do
  assert (newThread != s.currentThread) .switchToSelf
  let th ← s.get newThread
  match th.context with
  | none => throw .context
  | some context =>
    let s := s.setContext newThread none
    let old ← s.get s.currentThread
    assert old.context.isNone .context
    pure { s.setContext s.currentThread (some s.cpu) with cpu := context, currentThread := newThread }

/-- **What a switch has done**: the new thread's context is in the CPU and the CPU's state is the old thread's context;
nothing else changed. -/
theorem switchThread_cases (h : s.switchThread t = .ok s') :
    t ≠ s.currentThread ∧ s.context s.currentThread = none ∧ s.currentThread < s.threads.length ∧
      ∃ c, s.context t = some c ∧ s' =
        { (s.setContext t none).setContext s.currentThread (some s.cpu) with cpu := c, currentThread := t } := by
  obtain ⟨_, h1, h⟩ := bind_eq_ok.1 h
  obtain ⟨th, h2, h⟩ := bind_eq_ok.1 h
  have hne : t ≠ s.currentThread := by
    unfold assert at h1
    split_ifs at h1 with h3
    simpa using h3
  cases hc : th.context with
  | none => rw [hc] at h; cases h
  | some c =>
    simp only [hc] at h
    obtain ⟨old, h4, h⟩ := bind_eq_ok.1 h
    obtain ⟨_, h5, h⟩ := bind_eq_ok.1 h
    cases h
    rw [get_ok, setContext, current_modThread, threads_modThread, if_neg hne] at h4
    refine ⟨hne, ?_, (List.getElem?_eq_some_iff.1 h4).1, c, by rw [context, get_ok.1 h2, Option.bind_some, hc], rfl⟩
    unfold assert at h5
    split_ifs at h5 with h6
    rw [context, h4, Option.bind_some, Option.isNone_iff_eq_none.1 h6]

/-- a switch between two threads that have what it needs does not panic -/
theorem switchThread_ok {c : CpuContext} (hne : t ≠ s.currentThread) (hcur : s.context s.currentThread = none)
    (hlt : s.currentThread < s.threads.length) (hc : s.context t = some c) :
    s.switchThread t = .ok
      { (s.setContext t none).setContext s.currentThread (some s.cpu) with cpu := c, currentThread := t } := by
  obtain ⟨th, h1, h2⟩ := Option.bind_eq_some_iff.1 hc
  obtain ⟨old, h3⟩ : ∃ old, s.threads[s.currentThread]? = some old := ⟨_, List.getElem?_eq_getElem hlt⟩
  have h4 : old.context = none := by rw [context, h3, Option.bind_some] at hcur; exact hcur
  have h5 : (s.setContext t none).get s.currentThread = .ok old := by
    rw [get_ok, setContext, threads_modThread, if_neg hne, h3]
  simp only [switchThread, assert_ok (show (t != s.currentThread) = true by simpa using hne), ok_bind, get_ok.2 h1, h2,
    setContext, current_modThread] at h5 ⊢
  simp only [h5, ok_bind, h4, Option.isNone_none, assert_ok, pure_eq_ok, cpu_modThread]

/-- switching to a thread, changing its registers and switching back -/
theorem switch_there_and_back {f : CpuContext → CpuContext} {s1 s2 : Env} (h1 : s.switchThread t = .ok s1)
    (h2 : Env.switchThread { s1 with cpu := f s1.cpu } s.currentThread = .ok s2) :
    ∃ c, s.context t = some c ∧ s2 = s.setContext t (some (f c)) := by
  obtain ⟨hne, hcur, hlt, c, hc, rfl⟩ := switchThread_cases h1
  obtain ⟨-, -, -, c2, hc2, rfl⟩ := switchThread_cases h2
  refine ⟨c, hc, ?_⟩
  obtain ⟨old, hold⟩ : ∃ old, s.threads[s.currentThread]? = some old := ⟨_, List.getElem?_eq_getElem hlt⟩
  have hnone : old.context = none := by rw [context, hold, Option.bind_some] at hcur; exact hcur
  -- the old thread gets back its own state, and its record is as before
  have hcpu : c2 = s.cpu := by
    simp only [context, setContext, modThread, List.getElem?_modify, hne, if_true, if_false, hold] at hc2
    simpa using hc2.symm
  have hthreads : ((((s.threads.modify t fun th => { th with context := none }).modify s.currentThread fun th =>
      { th with context := some s.cpu }).modify s.currentThread fun th => { th with context := none }).modify t fun th =>
      { th with context := some (f c) }) = s.threads.modify t fun th => { th with context := some (f c) } := by
    apply List.ext_getElem?
    intro k
    simp only [List.getElem?_modify]
    by_cases hk : t = k
    · subst hk
      cases s.threads[t]? <;> simp [Ne.symm hne]
    · by_cases hk2 : s.currentThread = k
      · subst hk2
        simp [hne, hold, ← hnone]
      · simp [hk, hk2]
  simp only [setContext, modThread, hcpu, hthreads]

/-! ## Functions of host code -/

/-- the registers a new thread starts with: `new_thread` between its two switches -/
def CpuContext.setUp (c : CpuContext) (startRoutine threadExitRoutine : GuestFunction) (userData stackHighAddr : UInt32) :
    CpuContext :=
  let c := { c with cpsr := cpsrUserMode, regs := (c.regs.set SP stackHighAddr SP_lt).set 0 userData r0_lt }
  let c := c.branch startRoutine
  { c with regs := c.regs.set 14 threadExitRoutine.ptr.bits r14_lt }

/-- `new_thread`, with the stack that `Mem::alloc` gave and the routine that the dynamic linker set up -/
def newThread (s : Env) (startRoutine threadExitRoutine : GuestFunction) (userData : UInt32)
    (stackAlloc stackSize : ℕ) : Except Panic (ThreadId × Env) := do
  let stackHighAddr ← add32 stackAlloc stackSize
  assert (stackHighAddr % 4 == 0) .stackAlignment
  let lastAddr ← sub32 stackHighAddr 1
  let s := { s with threads := s.threads ++ [Thread.new (stackAlloc, lastAddr)] }
  let newThreadId := s.threads.length - 1
  let oldThread := s.currentThread
  -- the registers can only be set up by switching to the new thread and back
  let s ← s.switchThread newThreadId
  let s := { s with cpu := s.cpu.setUp startRoutine threadExitRoutine userData (UInt32.ofNat stackHighAddr) }
  let s ← s.switchThread oldThread
  pure (newThreadId, s)

theorem modify_concat {α : Type*} (l : List α) (a : α) (f : α → α) : (l ++ [a]).modify l.length f = l ++ [f a] := by
  induction l with
  | nil => rfl
  | cons b l ih => rw [List.cons_append, List.length_cons, List.modify_succ_cons, ih, List.cons_append]

/-- **What `new_thread` has done**: there is one more thread, with a saved context; the two switches cancel out. -/
theorem newThread_cases {startRoutine threadExitRoutine : GuestFunction} {userData : UInt32} {stackAlloc stackSize : ℕ}
    (h : s.newThread startRoutine threadExitRoutine userData stackAlloc stackSize = .ok (t, s')) :
    t = s.threads.length ∧ ∃ stack c,
      s' = { s with threads := s.threads ++ [{ Thread.new stack with context := some c }] } := by
  obtain ⟨high, -, h⟩ := bind_eq_ok.1 h
  obtain ⟨_, _, h⟩ := bind_eq_ok.1 h
  obtain ⟨last, -, h⟩ := bind_eq_ok.1 h
  obtain ⟨s1, h1, h⟩ := bind_eq_ok.1 h
  obtain ⟨s2, h2, h⟩ := bind_eq_ok.1 h
  cases h
  have hlen : (s.threads ++ [Thread.new (stackAlloc, last)]).length - 1 = s.threads.length := by simp
  obtain ⟨c, -, h3⟩ := switch_there_and_back
    (f := fun c => c.setUp startRoutine threadExitRoutine userData (UInt32.ofNat high)) h1 h2
  refine ⟨hlen, (stackAlloc, last), c.setUp startRoutine threadExitRoutine userData (UInt32.ofNat high), h3.trans ?_⟩
  simp only [setContext, modThread, hlen, modify_concat]

/-- `sleep` as far as it is a tail call -/
def sleepUntil (s : Env) (until_ : Instant) : Except Panic Env := do
  s.assertNotBlocked
  pure (s.setBlocked s.currentThread (.sleeping until_))

def blockOnMutex (s : Env) (id : MutexId) : Except Panic Env := do
  s.assertNotBlocked
  pure (s.setBlocked s.currentThread (.mutex id))

def joinWithThread (s : Env) (joinee : ThreadId) (ptr : GuestPtr) : Except Panic Env := do
  s.assertNotBlocked
  pure (s.setBlocked s.currentThread (.joining joinee ptr))

end Env

end TouchHLE
