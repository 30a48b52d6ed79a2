/-
Mutexes (`environment/mutex.rs`). A lock of a mutex that another thread owns reports success at once and blocks the
calling thread; the scheduler makes it the owner later (`relockUnblockedMutex`).

- `initMutex`, `destroyMutex`, `mutexIsLocked`, `lockMutex`, `unlockMutex`, `relockUnblockedMutex`: the functions of the
  source. The results are a lock count or an error number; misuse of a mutex that does not check errors panics.
- `lockMutex_cases`, `unlockMutex_cases`, `destroyMutex_cases`, `relock_cases`: everything these functions can do when
  they do not panic.
-/
import TouchHLE.Env.State

namespace TouchHLE

open Machine

namespace Env

inductive Errno where
  | EBUSY
  | EDEADLK
  | EPERM
deriving DecidableEq, Repr

def mutexes (s : Env) (id : MutexId) : Option Mutex := s.mutexState.mutexes id

def setMutex (s : Env) (id : MutexId) (m : Option Mutex) : Env :=
  { s with mutexState := { s.mutexState with mutexes := Function.update s.mutexState.mutexes id m } }

/-- `self.mutexes.get_mut(&id).unwrap()` -/
def getMutex (s : Env) (id : MutexId) : Except Panic Mutex :=
  match s.mutexes id with
  | none => .error .noMutex
  | some m => .ok m

/-- the largest `u32` -/
def u32Max : ℕ := 2 ^ 32 - 1

/-! ## The functions of the source -/

def initMutex (s : Env) (type : MutexType) : Except Panic (MutexId × Env) := do
  let id := s.mutexState.mutexCount
  assert (id + 1 < 2 ^ 64) .overflow
  let s := { s with mutexState := { s.mutexState with mutexCount := id + 1 } }
  pure (id, s.setMutex id (some { type := type, waitingCount := 0, locked := none }))

def destroyMutex (s : Env) (id : MutexId) : Except Panic (Except Errno Unit × Env) := do
  let m ← s.getMutex id
  if m.locked.isSome then pure (.error .EBUSY, s)
  else if m.waitingCount ≠ 0 then pure (.error .EBUSY, s)
  else pure (.ok (), s.setMutex id none)

def mutexIsLocked (s : Env) (id : MutexId) : Bool := (s.mutexes id).any fun m => m.locked.isSome

def lockMutex (s : Env) (id : MutexId) : Except Panic (Except Errno ℕ × Env) := do
  let m ← s.getMutex id
  match m.locked with
  | none => pure (.ok 1, s.setMutex id (some { m with locked := some ⟨s.currentThread, 1, Nat.one_pos⟩ }))
  | some lock =>
    if lock.owner = s.currentThread then
      match m.type with
      | .normal => throw .mutexMisuse
      | .errorcheck => pure (.error .EDEADLK, s)
      | .recursive =>
        assert (lock.count + 1 ≤ u32Max) .overflow
        let lock' : Lock := ⟨lock.owner, lock.count + 1, Nat.succ_pos _⟩
        pure (.ok (lock.count + 1), s.setMutex id (some { m with locked := some lock' }))
    else
      -- keeps the mutex from being destroyed; subtracted again when the scheduler relocks it
      assert (m.waitingCount + 1 ≤ u32Max) .overflow
      let s := s.setMutex id (some { m with waitingCount := m.waitingCount + 1 })
      let s ← s.blockOnMutex id
      -- the lock count is always 1 after a lock that blocks
      pure (.ok 1, s)

/-- an unlock by a thread that is not the owner -/
def unlockDenied (s : Env) (m : Mutex) : Except Panic (Except Errno ℕ × Env) :=
  match m.type with
  | .normal => .error .mutexMisuse
  | .errorcheck | .recursive => .ok (.error .EPERM, s)

def unlockMutex (s : Env) (id : MutexId) : Except Panic (Except Errno ℕ × Env) := do
  let m ← s.getMutex id
  match m.locked with
  | none => unlockDenied s m
  | some lock =>
    if lock.owner ≠ s.currentThread then unlockDenied s m
    else if h : lock.count = 1 then pure (.ok 0, s.setMutex id (some { m with locked := none }))
    else do
      assert (m.type == .recursive) .mutexMisuse
      let lock' : Lock := ⟨lock.owner, lock.count - 1, by have := lock.count_pos; omega⟩
      pure (.ok (lock.count - 1), s.setMutex id (some { m with locked := some lock' }))

/-- the scheduler's lock for the thread that it has just switched to -/
def relockUnblockedMutex (s : Env) (id : MutexId) : Except Panic Env := do
  let (res, s) ← s.lockMutex id
  match res with
  | .error _ => throw .mutexMisuse
  | .ok _ => do
    let m ← s.getMutex id
    if m.waitingCount > 0 then pure (s.setMutex id (some { m with waitingCount := m.waitingCount - 1 })) else pure s

/-! ## Reading a changed mutex -/

variable {s s' : Env} {id id' : MutexId} {m : Mutex} {om : Option Mutex} {i : ThreadId} {r : Except Errno ℕ}

theorem mutexes_setMutex : (s.setMutex id om).mutexes id' = if id' = id then om else s.mutexes id' := by
  simp only [mutexes, setMutex, Function.update_apply]

@[simp] theorem blockedBy_setMutex : (s.setMutex id om).blockedBy i = s.blockedBy i := rfl

@[simp] theorem threads_setMutex : (s.setMutex id om).threads = s.threads := rfl

@[simp] theorem current_setMutex : (s.setMutex id om).currentThread = s.currentThread := rfl

@[simp] theorem semaphores_setMutex : (s.setMutex id om).openSemaphores = s.openSemaphores := rfl

@[simp] theorem conditions_setMutex : (s.setMutex id om).conditionVariables = s.conditionVariables := rfl

@[simp] theorem cpu_setMutex : (s.setMutex id om).cpu = s.cpu := rfl

@[simp] theorem mutexes_modThread {f : Thread → Thread} : (s.modThread i f).mutexes id = s.mutexes id := rfl

@[simp] theorem mutexes_setBlocked {b : ThreadBlock} : (s.setBlocked i b).mutexes id = s.mutexes id := rfl

theorem getMutex_ok : s.getMutex id = .ok m ↔ s.mutexes id = some m := by
  unfold getMutex
  cases s.mutexes id <;> simp

theorem mutexIsLocked_eq_false : s.mutexIsLocked id = false ↔ ∀ m, s.mutexes id = some m → m.locked = none := by
  unfold mutexIsLocked
  cases s.mutexes id <;> simp

/-- the lock a thread gets when the mutex is free -/
def firstLock (t : ThreadId) : Lock := ⟨t, 1, Nat.one_pos⟩

/-! ## What the functions can do -/

theorem initMutex_cases {type : MutexType} (h : s.initMutex type = .ok (id, s')) :
    id = s.mutexState.mutexCount ∧ s' =
      Env.setMutex { s with mutexState := { s.mutexState with mutexCount := id + 1 } } id
        (some { type := type, waitingCount := 0, locked := none }) := by
  obtain ⟨_, _, h⟩ := bind_eq_ok.1 h
  cases h
  exact ⟨rfl, rfl⟩

theorem destroyMutex_cases {r : Except Errno Unit} (h : s.destroyMutex id = .ok (r, s')) :
    ∃ m, s.mutexes id = some m ∧
      (r = .error .EBUSY ∧ s' = s ∧ (m.locked.isSome ∨ m.waitingCount ≠ 0) ∨
        r = .ok () ∧ m.locked = none ∧ m.waitingCount = 0 ∧ s' = s.setMutex id none) := by
  obtain ⟨m, h1, h⟩ := bind_eq_ok.1 h
  refine ⟨m, getMutex_ok.1 h1, ?_⟩
  split_ifs at h with h2 h3
  · cases h
    exact Or.inl ⟨rfl, rfl, Or.inl h2⟩
  · cases h
    exact Or.inl ⟨rfl, rfl, Or.inr h3⟩
  · cases h
    exact Or.inr ⟨rfl, by simpa using h2, not_not.1 h3, rfl⟩

/-- **A lock** of a free mutex, of one's own mutex, or of another thread's mutex -/
theorem lockMutex_cases (h : s.lockMutex id = .ok (r, s')) :
    ∃ m, s.mutexes id = some m ∧
      ((m.locked = none ∧ r = .ok 1 ∧ s' = s.setMutex id (some { m with locked := some (firstLock s.currentThread) })) ∨
        ∃ lock, m.locked = some lock ∧
          ((lock.owner = s.currentThread ∧ r = .error .EDEADLK ∧ s' = s) ∨
            (lock.owner = s.currentThread ∧ m.type = .recursive ∧ r = .ok (lock.count + 1) ∧
              s' = s.setMutex id (some { m with locked := some ⟨lock.owner, lock.count + 1, Nat.succ_pos _⟩ })) ∨
            (lock.owner ≠ s.currentThread ∧ r = .ok 1 ∧ s.blockedBy s.currentThread = some .notBlocked ∧
              s' = (s.setMutex id (some { m with waitingCount := m.waitingCount + 1 })).setBlocked s.currentThread
                (.mutex id)))) := by
  obtain ⟨m, h1, h⟩ := bind_eq_ok.1 h
  refine ⟨m, getMutex_ok.1 h1, ?_⟩
  cases hl : m.locked with
  | none =>
    simp only [hl] at h
    cases h
    exact Or.inl ⟨rfl, rfl, rfl⟩
  | some lock =>
    simp only [hl] at h
    refine Or.inr ⟨lock, rfl, ?_⟩
    split_ifs at h with ho
    · cases ht : m.type with
      | normal => rw [ht] at h; cases h
      | errorcheck =>
        rw [ht] at h
        cases h
        exact Or.inl ⟨ho, rfl, rfl⟩
      | recursive =>
        simp only [ht] at h
        obtain ⟨_, _, h⟩ := bind_eq_ok.1 h
        cases h
        exact Or.inr (Or.inl ⟨ho, rfl, rfl, rfl⟩)
    · obtain ⟨_, _, h⟩ := bind_eq_ok.1 h
      obtain ⟨s1, h2, h⟩ := bind_eq_ok.1 h
      obtain ⟨_, h3, h2⟩ := bind_eq_ok.1 h2
      cases h2
      cases h
      exact Or.inr (Or.inr ⟨ho, rfl, assertNotBlocked_ok h3, rfl⟩)

/-- **An unlock** by a thread that does not own the mutex, the last one of the owner, or another one of the owner -/
theorem unlockMutex_cases (h : s.unlockMutex id = .ok (r, s')) :
    ∃ m, s.mutexes id = some m ∧
      ((r = .error .EPERM ∧ s' = s ∧ ∀ lock, m.locked = some lock → lock.owner ≠ s.currentThread) ∨
        ∃ lock, m.locked = some lock ∧ lock.owner = s.currentThread ∧
          ((lock.count = 1 ∧ r = .ok 0 ∧ s' = s.setMutex id (some { m with locked := none })) ∨
            ∃ lock' : Lock, lock'.owner = lock.owner ∧ lock'.count + 1 = lock.count ∧ m.type = .recursive ∧
              r = .ok lock'.count ∧ s' = s.setMutex id (some { m with locked := some lock' }))) := by
  obtain ⟨m, h1, h⟩ := bind_eq_ok.1 h
  refine ⟨m, getMutex_ok.1 h1, ?_⟩
  have hdenied : s.unlockDenied m = .ok (r, s') → r = .error .EPERM ∧ s' = s := fun h => by
    unfold unlockDenied at h
    split at h <;> cases h <;> exact ⟨rfl, rfl⟩
  cases hl : m.locked with
  | none =>
    simp only [hl] at h
    exact Or.inl ⟨(hdenied h).1, (hdenied h).2, fun _ h => nomatch h⟩
  | some lock =>
    simp only [hl] at h
    split_ifs at h with ho h2
    · refine Or.inl ⟨(hdenied h).1, (hdenied h).2, fun lock' h3 => ?_⟩
      cases h3
      exact ho
    · cases h
      exact Or.inr ⟨lock, rfl, not_not.1 ho, Or.inl ⟨h2, rfl, rfl⟩⟩
    · obtain ⟨_, h3, h⟩ := bind_eq_ok.1 h
      cases h
      refine Or.inr ⟨lock, rfl, not_not.1 ho, Or.inr ⟨⟨lock.owner, lock.count - 1, _⟩, rfl, ?_, ?_, rfl, rfl⟩⟩
      · have := lock.count_pos
        simp only
        omega
      · unfold assert at h3
        split_ifs at h3 with h4
        exact beq_iff_eq.1 h4

/-- an unlock concerns the mutex alone -/
theorem unlockMutex_frame (h : s.unlockMutex id = .ok (r, s')) :
    s'.threads = s.threads ∧ s'.cpu = s.cpu ∧ s'.currentThread = s.currentThread ∧
      s'.openSemaphores = s.openSemaphores ∧ s'.conditionVariables = s.conditionVariables := by
  obtain ⟨m, -, ⟨-, rfl, -⟩ | ⟨lock, -, -, ⟨-, -, rfl⟩ | ⟨lock', -, -, -, -, rfl⟩⟩⟩ := unlockMutex_cases h <;>
    exact ⟨rfl, rfl, rfl, rfl, rfl⟩

/-- **The scheduler's lock** of a mutex that it has found free: the current thread is the owner with count 1, and one
thread fewer is counted as waiting, if any was. -/
theorem relock_cases (h : s.relockUnblockedMutex id = .ok s') (hfree : s.mutexIsLocked id = false) :
    ∃ m, s.mutexes id = some m ∧ m.locked = none ∧ s' = s.setMutex id (some
      { m with locked := some (firstLock s.currentThread), waitingCount := m.waitingCount - 1 }) := by
  obtain ⟨⟨r, s1⟩, h1, h⟩ := bind_eq_ok.1 h
  obtain ⟨m, h2, h3⟩ := lockMutex_cases h1
  have hnone := mutexIsLocked_eq_false.1 hfree m h2
  refine ⟨m, h2, hnone, ?_⟩
  rcases h3 with ⟨-, rfl, rfl⟩ | ⟨lock, hsome, -⟩
  · simp only at h
    obtain ⟨m1, h4, h⟩ := bind_eq_ok.1 h
    rw [getMutex_ok, mutexes_setMutex, if_pos rfl] at h4
    cases h4
    have htwice : ∀ a b, (s.setMutex id a).setMutex id b = s.setMutex id b := fun a b => by
      simp only [setMutex, Function.update_idem]
    simp only at h
    split_ifs at h with hw
    · cases h
      rw [htwice]
    · cases h
      have hzero : m.waitingCount - 1 = m.waitingCount := by omega
      rw [hzero]
  · rw [hnone] at hsome
    cases hsome

end Env

end TouchHLE
