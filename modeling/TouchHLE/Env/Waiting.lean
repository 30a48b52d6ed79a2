/-
Semaphores (`libc/semaphore.rs`, `Environment::sem_decrement`, `sem_increment`) and condition variables
(`libc/pthread/cond.rs`). The caller of a blocking function blocks; the scheduler wakes it later.

- `semInit`, `semDestroy`, `semPost`, `semWait`, `semTrywait`: a semaphore is known by its guest address.
- `condInit`, `condWait`, `condSignal`, `condBroadcast`, `condDestroy`: a condition variable has a queue of threads that
  wait and a queue of those that were signalled, and the mutex that all of them wait with.
- `semDecrement_cases`, `condWait_cases` and so on: everything these functions can do when they do not panic.
-/
import TouchHLE.Env.Mutex

namespace TouchHLE

open Machine

namespace Env

def setSemaphore (s : Env) (sem : GuestPtr) (v : Option Semaphore) : Env :=
  { s with openSemaphores := Function.update s.openSemaphores sem v }

def setCondition (s : Env) (cond : GuestPtr) (v : Option CondHostObject) : Env :=
  { s with conditionVariables := Function.update s.conditionVariables cond v }

/-- `open_semaphores.get_mut(&sem).unwrap()` -/
def getSemaphore (s : Env) (sem : GuestPtr) : Except Panic Semaphore :=
  match s.openSemaphores sem with
  | none => .error .noSemaphore
  | some v => .ok v

/-- `condition_variables.get_mut(&cond).unwrap()` -/
def getCondition (s : Env) (cond : GuestPtr) : Except Panic CondHostObject :=
  match s.conditionVariables cond with
  | none => .error .noCondition
  | some c => .ok c

/-- the largest `i32` -/
def i32Max : ℤ := 2 ^ 31 - 1

/-- `value as i32` of a `u32` -/
def asI32 (value : UInt32) : ℤ := if value.toNat < 2 ^ 31 then value.toNat else value.toNat - 2 ^ 32

/-! ## Semaphores -/

/-- a semaphore that is open already stays as it is -/
def semInit (s : Env) (sem : GuestPtr) (value : UInt32) : Env :=
  match s.openSemaphores sem with
  | some _ => s
  | none => s.setSemaphore sem (some { value := asI32 value, waiting := ∅ })

def semDestroy (s : Env) (sem : GuestPtr) : Env := s.setSemaphore sem none

/-- whether the value was decremented, or the thread blocked so that it will be -/
def semDecrement (s : Env) (sem : GuestPtr) (waitOnLock : Bool) : Except Panic (Bool × Env) := do
  let v ← s.getSemaphore sem
  if v.value > 0 then pure (true, s.setSemaphore sem (some { v with value := v.value - 1 }))
  else if !waitOnLock then pure (false, s)
  else
    s.assertNotBlocked
    let s := s.setSemaphore sem (some { v with waiting := insert s.currentThread v.waiting })
    pure (true, s.setBlocked s.currentThread (.semaphore sem))

def semIncrement (s : Env) (sem : GuestPtr) : Except Panic Env := do
  let v ← s.getSemaphore sem
  assert (v.value + 1 ≤ i32Max) .overflow
  pure (s.setSemaphore sem (some { v with value := v.value + 1 }))

def semPost (s : Env) (sem : GuestPtr) : Except Panic Env := s.semIncrement sem

def semWait (s : Env) (sem : GuestPtr) : Except Panic Env := Prod.snd <$> s.semDecrement sem true

/-- whether it succeeded -/
def semTrywait (s : Env) (sem : GuestPtr) : Except Panic (Bool × Env) := s.semDecrement sem false

/-! ## Condition variables -/

/-- the opaque object's address is the one that `alloc_and_write` gave -/
def condInit (s : Env) (cond : GuestPtr) : Except Panic Env := do
  assert (s.conditionVariables cond).isNone .condExists
  pure (s.setCondition cond (some { waiting := [], waking := [], currMutex := none }))

/-- `mutex` is the id in the guest's mutex object -/
def condWait (s : Env) (cond : GuestPtr) (mutex : MutexId) : Except Panic Env := do
  let (res, s) ← s.unlockMutex mutex
  match res with
  | .error _ => throw .condMutex
  | .ok _ =>
    s.assertNotBlocked
    let c ← s.getCondition cond
    -- the same mutex as the other waiters, or no other waiters
    assert (c.currMutex == some mutex || (c.waking.isEmpty && c.waiting.isEmpty)) .condMutex
    let s := s.setCondition cond
      (some { c with currMutex := some mutex, waiting := c.waiting ++ [s.currentThread] })
    pure (s.setBlocked s.currentThread (.condition cond))

def condSignal (s : Env) (cond : GuestPtr) : Except Panic Env := do
  let c ← s.getCondition cond
  match c.waiting with
  | [] => pure s
  | tid :: waiting => pure (s.setCondition cond (some { c with waiting := waiting, waking := c.waking ++ [tid] }))

def condBroadcast (s : Env) (cond : GuestPtr) : Except Panic Env := do
  let c ← s.getCondition cond
  pure (s.setCondition cond (some { c with waiting := [], waking := c.waking ++ c.waiting }))

def condDestroy (s : Env) (cond : GuestPtr) : Except Panic Env := do
  let c ← s.getCondition cond
  assert (c.waiting.isEmpty && c.waking.isEmpty) .condBusy
  pure (s.setCondition cond none)

/-! ## Reading a changed object -/

variable {s s' : Env} {sem sem' cond cond' : GuestPtr} {id mutex : MutexId} {v : Semaphore} {c : CondHostObject}
  {ov : Option Semaphore} {oc : Option CondHostObject} {i : ThreadId}

theorem semaphores_setSemaphore :
    (s.setSemaphore sem ov).openSemaphores sem' = if sem' = sem then ov else s.openSemaphores sem' := by
  simp only [setSemaphore, Function.update_apply]

theorem conditions_setCondition :
    (s.setCondition cond oc).conditionVariables cond' = if cond' = cond then oc else s.conditionVariables cond' := by
  simp only [setCondition, Function.update_apply]

@[simp] theorem blockedBy_setSemaphore : (s.setSemaphore sem ov).blockedBy i = s.blockedBy i := rfl

@[simp] theorem blockedBy_setCondition : (s.setCondition cond oc).blockedBy i = s.blockedBy i := rfl

@[simp] theorem mutexes_setSemaphore : (s.setSemaphore sem ov).mutexes id = s.mutexes id := rfl

@[simp] theorem mutexes_setCondition : (s.setCondition cond oc).mutexes id = s.mutexes id := rfl

@[simp] theorem threads_setSemaphore : (s.setSemaphore sem ov).threads = s.threads := rfl

@[simp] theorem threads_setCondition : (s.setCondition cond oc).threads = s.threads := rfl

@[simp] theorem current_setSemaphore : (s.setSemaphore sem ov).currentThread = s.currentThread := rfl

@[simp] theorem current_setCondition : (s.setCondition cond oc).currentThread = s.currentThread := rfl

@[simp] theorem conditions_setSemaphore : (s.setSemaphore sem ov).conditionVariables = s.conditionVariables := rfl

@[simp] theorem semaphores_setCondition : (s.setCondition cond oc).openSemaphores = s.openSemaphores := rfl

theorem getSemaphore_ok : s.getSemaphore sem = .ok v ↔ s.openSemaphores sem = some v := by
  unfold getSemaphore
  cases s.openSemaphores sem <;> simp

theorem getCondition_ok : s.getCondition cond = .ok c ↔ s.conditionVariables cond = some c := by
  unfold getCondition
  cases s.conditionVariables cond <;> simp

/-! ## What the functions can do -/

/-- **A wait or a try** takes a unit, fails, or blocks the thread. -/
theorem semDecrement_cases {waitOnLock r : Bool} (h : s.semDecrement sem waitOnLock = .ok (r, s')) :
    ∃ v, s.openSemaphores sem = some v ∧
      ((0 < v.value ∧ r = true ∧ s' = s.setSemaphore sem (some { v with value := v.value - 1 })) ∨
        (waitOnLock = false ∧ v.value ≤ 0 ∧ r = false ∧ s' = s) ∨
        (waitOnLock = true ∧ v.value ≤ 0 ∧ r = true ∧ s.blockedBy s.currentThread = some .notBlocked ∧
          s' = (s.setSemaphore sem (some { v with waiting := insert s.currentThread v.waiting })).setBlocked
            s.currentThread (.semaphore sem))) := by
  obtain ⟨v, h1, h⟩ := bind_eq_ok.1 h
  refine ⟨v, getSemaphore_ok.1 h1, ?_⟩
  split_ifs at h with h2 h3
  · cases h
    exact Or.inl ⟨h2, rfl, rfl⟩
  · cases h
    exact Or.inr (Or.inl ⟨by simpa using h3, Int.not_lt.1 h2, rfl, rfl⟩)
  · obtain ⟨_, h4, h⟩ := bind_eq_ok.1 h
    cases h
    exact Or.inr (Or.inr ⟨by simpa using h3, Int.not_lt.1 h2, rfl, assertNotBlocked_ok h4, rfl⟩)

theorem semPost_cases (h : s.semPost sem = .ok s') :
    ∃ v, s.openSemaphores sem = some v ∧ s' = s.setSemaphore sem (some { v with value := v.value + 1 }) := by
  obtain ⟨v, h1, h⟩ := bind_eq_ok.1 h
  obtain ⟨_, _, h⟩ := bind_eq_ok.1 h
  cases h
  exact ⟨v, getSemaphore_ok.1 h1, rfl⟩

/-- **A wait on a condition variable**: the mutex was unlocked, and the thread is the last in the queue. -/
theorem condWait_cases (h : s.condWait cond mutex = .ok s') :
    ∃ r s1 c, s.unlockMutex mutex = .ok (.ok r, s1) ∧ s1.blockedBy s1.currentThread = some .notBlocked ∧
      s1.conditionVariables cond = some c ∧ (c.currMutex = some mutex ∨ c.waking = [] ∧ c.waiting = []) ∧
      s' = (s1.setCondition cond (some
        { c with currMutex := some mutex, waiting := c.waiting ++ [s1.currentThread] })).setBlocked s1.currentThread
        (.condition cond) := by
  obtain ⟨⟨res, s1⟩, h1, h⟩ := bind_eq_ok.1 h
  cases res with
  | error e => cases h
  | ok r =>
    simp only at h
    obtain ⟨_, h2, h⟩ := bind_eq_ok.1 h
    obtain ⟨c, h3, h⟩ := bind_eq_ok.1 h
    obtain ⟨_, h4, h⟩ := bind_eq_ok.1 h
    cases h
    refine ⟨r, s1, c, h1, assertNotBlocked_ok h2, getCondition_ok.1 h3, ?_, rfl⟩
    simpa using assert_cases h4

theorem condSignal_cases (h : s.condSignal cond = .ok s') :
    ∃ c, s.conditionVariables cond = some c ∧
      ((c.waiting = [] ∧ s' = s) ∨ ∃ tid rest, c.waiting = tid :: rest ∧
        s' = s.setCondition cond (some { c with waiting := rest, waking := c.waking ++ [tid] })) := by
  obtain ⟨c, h1, h⟩ := bind_eq_ok.1 h
  refine ⟨c, getCondition_ok.1 h1, ?_⟩
  cases hw : c.waiting with
  | nil =>
    rw [hw] at h
    cases h
    exact Or.inl ⟨rfl, rfl⟩
  | cons tid rest =>
    rw [hw] at h
    cases h
    exact Or.inr ⟨tid, rest, rfl, rfl⟩

theorem condBroadcast_cases (h : s.condBroadcast cond = .ok s') :
    ∃ c, s.conditionVariables cond = some c ∧
      s' = s.setCondition cond (some { c with waiting := [], waking := c.waking ++ c.waiting }) := by
  obtain ⟨c, h1, h⟩ := bind_eq_ok.1 h
  cases h
  exact ⟨c, getCondition_ok.1 h1, rfl⟩

theorem condDestroy_cases (h : s.condDestroy cond = .ok s') :
    ∃ c, s.conditionVariables cond = some c ∧ c.waiting = [] ∧ c.waking = [] ∧ s' = s.setCondition cond none := by
  obtain ⟨c, h1, h⟩ := bind_eq_ok.1 h
  obtain ⟨_, h2, h⟩ := bind_eq_ok.1 h
  cases h
  have h3 : c.waiting = [] ∧ c.waking = [] := by simpa using assert_cases h2
  exact ⟨c, getCondition_ok.1 h1, h3.1, h3.2, rfl⟩

theorem condInit_cases (h : s.condInit cond = .ok s') :
    s.conditionVariables cond = none ∧
      s' = s.setCondition cond (some { waiting := [], waking := [], currMutex := none }) := by
  obtain ⟨_, h1, h⟩ := bind_eq_ok.1 h
  cases h
  exact ⟨by simpa using assert_cases h1, rfl⟩

end Env

end TouchHLE
