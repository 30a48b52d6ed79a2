/-
The mutexes of the guest (`libc/pthread/mutex.rs`), objects in guest memory that name a host mutex, and the locks of Foundation
(`frameworks/foundation/ns_lock.rs`), which own one.

- `PthreadMutex`, `checkOrRegisterMutex`: the object, which may have been initialized statically.
- `pthreadMutexInit`, `pthreadMutexLock`, `pthreadMutexTrylock`, `pthreadMutexUnlock`, `pthreadMutexDestroy`: the functions.
- `nsLockLock`, `nsLockUnlock`, `nsLockTryLock`: the methods of NSLock and of NSRecursiveLock.
- `destroy_iff`: a destruction that fails has wiped the object already.
- `trylock_iff`: the owner of a recursive mutex is told that it is busy.
-/
import TouchHLE.Env.Mutex

namespace TouchHLE.Env

open Machine Words

/-! ## The object -/

/-- "MuAt" -/
def magicMutexattr : UInt32 := 0x4D754174

/-- "MUTX" -/
def magicMutex : UInt32 := 0x4D555458

/-- `PTHREAD_MUTEX_INITIALIZER` -/
def magicMutexStatic : UInt32 := 0x32AAABA7

structure PthreadMutex where
  magic : UInt32
  mutexId : MutexId
deriving DecidableEq

def PthreadMutex.toBytes (m : PthreadMutex) : List UInt8 := leBytes m.magic ++ leDigits 8 m.mutexId

def PthreadMutex.ofBytes (bytes : List UInt8) : PthreadMutex := ⟨leWord (bytes.take 4), leNat (bytes.drop 4)⟩

/-- what a mutex that was destroyed looks like -/
def PthreadMutex.wiped : PthreadMutex := ⟨0, 0xFFFFFFFFFFFFFFFF⟩

def Errno.toInt : Errno → ℤ
  | .EBUSY => 16
  | .EDEADLK => 11
  | .EPERM => 1

def eInval : ℤ := 22

/-- `err().unwrap_or(0)` -/
def errno {α : Type} : Except Errno α → ℤ
  | .ok _ => 0
  | .error e => e.toInt

/-! ## The functions -/

def readMutex (s : Env) (mutex : GuestPtr) : Except Panic PthreadMutex := .ofBytes <$> s.mem.readBytes mutex 12

def writeMutex (s : Env) (mutex : GuestPtr) (m : PthreadMutex) : Except Panic Env := do
  let mem ← s.mem.writeBytes mutex m.toBytes
  pure { s with mem }

/-- `MutexType::try_from(type_).unwrap()` -/
def mutexType (type : ℤ) : Except Panic MutexType :=
  if type = 0 then .ok .normal else if type = 1 then .ok .errorcheck else if type = 2 then .ok .recursive else .error .conversion

/-- the end of `pthread_mutex_init` -/
def newMutex (s : Env) (mutex : GuestPtr) (type : MutexType) : Except Panic (ℤ × Env) := do
  let (mutexId, s) ← s.initMutex type
  let s ← s.writeMutex mutex ⟨magicMutex, mutexId⟩
  pure (0, s)

def pthreadMutexInit (s : Env) (mutex attr : GuestPtr) : Except Panic (ℤ × Env) :=
  if attr = 0 then s.newMutex mutex .normal
  else do
    let magic ← s.mem.readU32 attr
    if magic ≠ magicMutexattr then pure (eInval, s)
    else do
      let bytes ← s.mem.readBytes attr 12
      let type ← mutexType (leWord ((bytes.drop 4).take 4)).toInt32.toInt
      s.newMutex mutex type

/-- the result says whether it is a mutex -/
def checkOrRegisterMutex (s : Env) (mutex : GuestPtr) : Except Panic (Bool × Env) := do
  let magic ← s.mem.readU32 mutex
  if magic = magicMutexStatic then do
    let (_, s) ← s.pthreadMutexInit mutex 0
    pure (true, s)
  else pure (magic == magicMutex, s)

/-- the beginning of the functions below -/
def withMutex (s : Env) (mutex : GuestPtr) (f : Env → MutexId → Except Panic (ℤ × Env)) : Except Panic (ℤ × Env) := do
  let (isMutex, s) ← s.checkOrRegisterMutex mutex
  if !isMutex then pure (eInval, s)
  else do
    let data ← s.readMutex mutex
    f s data.mutexId

def pthreadMutexLock (s : Env) (mutex : GuestPtr) : Except Panic (ℤ × Env) :=
  s.withMutex mutex fun s mutexId => do
    let (res, s) ← s.lockMutex mutexId
    pure (errno res, s)

def pthreadMutexTrylock (s : Env) (mutex : GuestPtr) : Except Panic (ℤ × Env) :=
  s.withMutex mutex fun s mutexId =>
    if s.mutexIsLocked mutexId then pure (Errno.EBUSY.toInt, s) else s.pthreadMutexLock mutex

def pthreadMutexUnlock (s : Env) (mutex : GuestPtr) : Except Panic (ℤ × Env) :=
  s.withMutex mutex fun s mutexId => do
    let (res, s) ← s.unlockMutex mutexId
    pure (errno res, s)

def pthreadMutexDestroy (s : Env) (mutex : GuestPtr) : Except Panic (ℤ × Env) :=
  s.withMutex mutex fun s mutexId => do
    let s ← s.writeMutex mutex .wiped
    let (res, s) ← s.destroyMutex mutexId
    pure (errno res, s)

/-- `unwrap()` of what a lock or an unlock returns -/
def unwrapLock : Except Errno ℕ × Env → Except Panic Env
  | (.ok _, s) => .ok s
  | (.error _, _) => .error .mutexMisuse

/-- `lock` of NSLock, whose mutex is a normal one, and of NSRecursiveLock, whose mutex is recursive -/
def nsLockLock (s : Env) (mutexId : MutexId) : Except Panic Env := do unwrapLock (← s.lockMutex mutexId)

def nsLockUnlock (s : Env) (mutexId : MutexId) : Except Panic Env := do unwrapLock (← s.unlockMutex mutexId)

def nsLockTryLock (s : Env) (mutexId : MutexId) : Except Panic (Bool × Env) :=
  if s.mutexIsLocked mutexId then pure (false, s)
  else do
    let (res, s) ← s.lockMutex mutexId
    pure (res.isOk, s)

/-! ## Reading and writing the object -/

variable {s s' : Env} {mutex : GuestPtr} {id : MutexId} {m : PthreadMutex} {r : ℤ} {lock : Lock} {n : ℕ}

theorem ofBytes_toBytes (h : m.mutexId < 2 ^ 64) : PthreadMutex.ofBytes m.toBytes = m := by
  have hdigits : leNat (leDigits 8 m.mutexId) = m.mutexId := leNat_leDigits (by simpa using h)
  have htake : m.toBytes.take 4 = leBytes m.magic := List.take_left' leBytes_length
  have hdrop : m.toBytes.drop 4 = leDigits 8 m.mutexId := List.drop_left' leBytes_length
  rw [PthreadMutex.ofBytes, htake, hdrop, leWord_leBytes, hdigits]

theorem toBytes_length : m.toBytes.length = 12 := by
  rw [PthreadMutex.toBytes, List.length_append, leBytes_length, leDigits_length]

theorem readMutex_cases (h : s.readMutex mutex = .ok m) :
    s.mem.InRange mutex 12 ∧ m = .ofBytes (load s.mem.bytes mutex 12) := by
  unfold readMutex Mem.readBytes at h
  cases hcheck : s.mem.checkRange mutex 12 with
  | error e =>
    rw [hcheck] at h
    cases h
  | ok u =>
    rw [hcheck] at h
    exact ⟨Mem.inRange_of_checkRange hcheck, (Except.ok.inj h).symm⟩

theorem readMutex_ok (h : s.mem.InRange mutex 12) : s.readMutex mutex = .ok (.ofBytes (load s.mem.bytes mutex 12)) := by
  rw [readMutex, Mem.readBytes, Mem.checkRange_ok h]
  rfl

theorem writeMutex_cases (h : s.writeMutex mutex m = .ok s') :
    s.mem.InRange mutex 12 ∧ s' = { s with mem := { s.mem with bytes := store s.mem.bytes mutex m.toBytes } } := by
  obtain ⟨mem, hwrite, h⟩ := bind_eq_ok.1 h
  obtain ⟨hrange, rfl⟩ := Mem.writeBytes_cases hwrite
  rw [toBytes_length] at hrange
  exact ⟨hrange, (Except.ok.inj h).symm⟩

theorem writeMutex_ok (h : s.mem.InRange mutex 12) :
    s.writeMutex mutex m = .ok { s with mem := { s.mem with bytes := store s.mem.bytes mutex m.toBytes } } := by
  have hcheck : s.mem.checkRange mutex m.toBytes.length = .ok () := Mem.checkRange_ok (by rwa [toBytes_length])
  rw [writeMutex, Mem.writeBytes, hcheck]
  rfl

/-- what was written is read again -/
theorem readMutex_writeMutex (hid : m.mutexId < 2 ^ 64) (h : s.writeMutex mutex m = .ok s') : s'.readMutex mutex = .ok m := by
  obtain ⟨hrange, rfl⟩ := writeMutex_cases h
  have hload : load (store s.mem.bytes mutex m.toBytes) mutex 12 = m.toBytes := by
    rw [← toBytes_length (m := m), load_store]
  refine (readMutex_ok ?_).trans ?_
  · exact hrange
  · show Except.ok (PthreadMutex.ofBytes (load (store s.mem.bytes mutex m.toBytes) mutex 12)) = _
    rw [hload, ofBytes_toBytes hid]

/-- the magic number is the beginning of the object -/
theorem readU32_magic (h : s.readMutex mutex = .ok m) : s.mem.readU32 mutex = .ok m.magic := by
  obtain ⟨hrange, rfl⟩ := readMutex_cases h
  rw [Mem.readU32_ok ⟨hrange.1, by have := hrange.2; omega⟩, loadWord, PthreadMutex.ofBytes, load_take (by decide)]

/-! ## The object of a call -/

/-- the host mutex of an object that is initialized -/
def NamesMutex (s : Env) (mutex : GuestPtr) (id : MutexId) : Prop := s.readMutex mutex = .ok ⟨magicMutex, id⟩

theorem withMutex_of_names {f : Env → MutexId → Except Panic (ℤ × Env)} (h : NamesMutex s mutex id) :
    s.withMutex mutex f = f s id := by
  have hmagic : s.mem.readU32 mutex = .ok magicMutex := readU32_magic h
  unfold withMutex checkOrRegisterMutex
  rw [hmagic, ok_bind, if_neg (by decide), beq_self_eq_true]
  show (do let data ← s.readMutex mutex; f s data.mutexId) = _
  rw [h, ok_bind]

/-- the state in which an object that was initialized statically has got its mutex -/
theorem register_cases (h : s.newMutex mutex .normal = .ok (r, s')) :
    NamesMutex s' mutex s.mutexState.mutexCount ∧
      s'.mutexes s.mutexState.mutexCount = some { type := .normal, waitingCount := 0, locked := none } ∧
      s'.currentThread = s.currentThread := by
  unfold newMutex at h
  obtain ⟨⟨id, s₁⟩, hinit, h⟩ := bind_eq_ok.1 h
  obtain ⟨s₂, hwrite, h⟩ := bind_eq_ok.1 h
  obtain ⟨-, rfl⟩ := Prod.mk.inj (Except.ok.inj h)
  have hlt : s.mutexState.mutexCount + 1 < 2 ^ 64 := by
    obtain ⟨u, hassert, -⟩ := bind_eq_ok.1 hinit
    exact of_decide_eq_true (assert_cases hassert)
  obtain ⟨rfl, hset⟩ := initMutex_cases hinit
  have hnames : NamesMutex s₂ mutex s.mutexState.mutexCount := readMutex_writeMutex (Nat.lt_of_succ_lt hlt) hwrite
  obtain ⟨-, rfl⟩ := writeMutex_cases hwrite
  refine ⟨hnames, ?_, ?_⟩
  · rw [hset]
    exact Function.update_self _ _ _
  · rw [hset]
    rfl

/-- **The object of a call** is none, names its mutex, or gets one that is free first. -/
theorem withMutex_ends (s : Env) (mutex : GuestPtr) (f : Env → MutexId → Except Panic (ℤ × Env)) {P : ℤ × Env → Prop}
    (hnone : P (eInval, s)) (hnames : ∀ id, NamesMutex s mutex id → Ends (fun _ => True) P (f s id))
    (hnew : ∀ s' id, NamesMutex s' mutex id → s'.mutexes id = some { type := .normal, waitingCount := 0, locked := none } →
      Ends (fun _ => True) P (f s' id)) : Ends (fun _ => True) P (s.withMutex mutex f) := by
  unfold withMutex checkOrRegisterMutex
  cases hmagic : s.mem.readU32 mutex with
  | error e => exact trivial
  | ok magic =>
    rw [ok_bind]
    by_cases hstatic : magic = magicMutexStatic
    · rw [if_pos hstatic, pthreadMutexInit, if_pos rfl]
      cases hregister : s.newMutex mutex .normal with
      | error e => exact trivial
      | ok res =>
        obtain ⟨hnamed, hfree, -⟩ := register_cases hregister
        show Ends _ _ (do let data ← res.2.readMutex mutex; f res.2 data.mutexId)
        rw [hnamed, ok_bind]
        exact hnew res.2 _ hnamed hfree
    · rw [if_neg hstatic]
      by_cases heq : magic = magicMutex
      · subst heq
        rw [beq_self_eq_true]
        show Ends _ _ (do let data ← s.readMutex mutex; f s data.mutexId)
        cases hread : s.readMutex mutex with
        | error e => exact trivial
        | ok m =>
          obtain ⟨magic, id⟩ := m
          obtain rfl : magicMutex = magic := Except.ok.inj (hmagic.symm.trans (readU32_magic hread))
          exact hnames id hread
      · rw [beq_eq_false_iff_ne.2 heq]
        exact hnone

/-! ## Destroying -/

/-- a destruction that reports an error has changed neither the object nor the mutexes of the host -/
def KeptOnFailure (s : Env) (mutex : GuestPtr) : Prop :=
  Ends (fun _ => True) (fun res => res.1 ≠ 0 → load res.2.mem.bytes mutex 12 = load s.mem.bytes mutex 12 ∧
    res.2.mutexState = s.mutexState) (s.pthreadMutexDestroy mutex)

/-- an object whose mutex is locked, or waited for -/
def InUse (s : Env) (mutex : GuestPtr) : Prop :=
  ∃ id m, NamesMutex s mutex id ∧ s.mutexes id = some m ∧ (m.locked.isSome ∨ m.waitingCount ≠ 0)

theorem destroy_free {m : Mutex} (hm : s.mutexes id = some m) (hfree : ¬(m.locked.isSome ∨ m.waitingCount ≠ 0)) :
    s.destroyMutex id = .ok (.ok (), s.setMutex id none) := by
  push Not at hfree
  rw [destroyMutex, getMutex_ok.2 hm, ok_bind, if_neg (by rw [Option.not_isSome_iff_eq_none.1 hfree.1]; decide), if_neg (not_not.2 hfree.2)]
  rfl

theorem destroy_busy {m : Mutex} (hm : s.mutexes id = some m) (hbusy : m.locked.isSome ∨ m.waitingCount ≠ 0) :
    s.destroyMutex id = .ok (.error .EBUSY, s) := by
  rw [destroyMutex, getMutex_ok.2 hm, ok_bind]
  split_ifs with hlocked hwaiting
  · rfl
  · rfl
  · exact absurd hbusy (by simp [hlocked, not_not.1 hwaiting])

/-- **A failing destruction** leaves the mutex as it was where that is not in use, and only there: one that is in use is refused
when its object has been wiped. -/
theorem destroy_iff (s : Env) (mutex : GuestPtr) : KeptOnFailure s mutex ↔ ¬InUse s mutex := by
  constructor
  · rintro hkept ⟨id, m, hnames, hm, hbusy⟩
    obtain ⟨hrange, hobject⟩ := readMutex_cases hnames
    have hbusy' : ({ s with mem := { s.mem with bytes := store s.mem.bytes mutex PthreadMutex.wiped.toBytes } } : Env).destroyMutex id =
        .ok (.error .EBUSY, _) := destroy_busy hm hbusy
    unfold KeptOnFailure pthreadMutexDestroy at hkept
    rw [withMutex_of_names hnames, writeMutex_ok hrange, ok_bind, hbusy'] at hkept
    have hne : Errno.EBUSY.toInt ≠ 0 := by decide
    obtain ⟨hload, -⟩ := hkept hne
    -- the magic number is gone
    have hwiped : load (store s.mem.bytes mutex PthreadMutex.wiped.toBytes) mutex 12 = PthreadMutex.wiped.toBytes :=
      load_store (l := PthreadMutex.wiped.toBytes)
    have heq : PthreadMutex.wiped = ⟨magicMutex, id⟩ := by
      rw [hobject, ← hload]
      exact (ofBytes_toBytes (by decide)).symm.trans (congrArg PthreadMutex.ofBytes hwiped.symm)
    have hmagic : (0 : UInt32) = magicMutex := congrArg PthreadMutex.magic heq
    exact absurd hmagic (by decide)
  · intro hfree
    refine withMutex_ends s mutex _ ?_ ?_ ?_
    · exact fun _ => ⟨rfl, rfl⟩
    · intro id hnames
      cases hwrite : s.writeMutex mutex .wiped with
      | error e => exact trivial
      | ok s₁ =>
        rw [ok_bind]
        cases hdestroy : s₁.destroyMutex id with
        | error e => exact trivial
        | ok res =>
          obtain ⟨m, hm, ⟨-, -, hbusy⟩ | ⟨hres, -⟩⟩ := destroyMutex_cases hdestroy
          · obtain ⟨-, rfl⟩ := writeMutex_cases hwrite
            exact absurd ⟨id, m, hnames, hm, hbusy⟩ hfree
          · intro hne
            rw [show res.1 = Except.ok () from hres] at hne
            exact absurd rfl hne
    · intro s' id hnames hm
      cases hwrite : s'.writeMutex mutex .wiped with
      | error e => exact trivial
      | ok s₁ =>
        have hm₁ : s₁.mutexes id = some { type := .normal, waitingCount := 0, locked := none } := by
          obtain ⟨-, rfl⟩ := writeMutex_cases hwrite
          exact hm
        rw [ok_bind, destroy_free hm₁ (by simp)]
        exact fun hne => absurd rfl hne

/-! ## Trying -/

/-- the calling thread owns the mutex of the object -/
def OwnsMutex (s : Env) (mutex : GuestPtr) : Prop :=
  ∃ id m lock, NamesMutex s mutex id ∧ s.mutexes id = some m ∧ m.locked = some lock ∧ lock.owner = s.currentThread

/-- the lock call would get the mutex at once -/
def Acquires (s : Env) (mutex : GuestPtr) (s' : Env) : Prop := s.pthreadMutexLock mutex = .ok (0, s') ∧ OwnsMutex s' mutex

/-- `pthread_mutex_trylock` is the lock that does not block -/
def TriesLock (s : Env) (mutex : GuestPtr) : Prop :=
  (∀ s', Acquires s mutex s' → s.pthreadMutexTrylock mutex = .ok (0, s')) ∧
    ((∀ s', ¬Acquires s mutex s') → s.pthreadMutexTrylock mutex = .ok (Errno.EBUSY.toInt, s))

/-- `lock` would get the mutex at once -/
def NsAcquires (s : Env) (id : MutexId) (s' : Env) : Prop :=
  s.nsLockLock id = .ok s' ∧ ∃ m lock, s'.mutexes id = some m ∧ m.locked = some lock ∧ lock.owner = s'.currentThread

/-- `tryLock` is the lock that does not block -/
def NsTriesLock (s : Env) (id : MutexId) : Prop :=
  (∀ s', NsAcquires s id s' → s.nsLockTryLock id = .ok (true, s')) ∧
    ((∀ s', ¬NsAcquires s id s') → s.nsLockTryLock id = .ok (false, s))

/-- a recursive mutex that the calling thread has locked already, and may lock again -/
def Reentrant (s : Env) (id : MutexId) : Prop :=
  ∃ m lock, s.mutexes id = some m ∧ m.type = .recursive ∧ m.locked = some lock ∧ lock.owner = s.currentThread ∧ lock.count < u32Max

/-- the thread owns the mutex of the host -/
def OwnsHostMutex (s : Env) (id : MutexId) : Prop :=
  ∃ m lock, s.mutexes id = some m ∧ m.locked = some lock ∧ lock.owner = s.currentThread

/-- what is locked for the calling thread at once -/
structure Locked (s s' : Env) (id : MutexId) (n : ℕ) : Prop where
  result : s.lockMutex id = .ok (.ok n, s')
  mem : s'.mem = s.mem
  owns : OwnsHostMutex s' id

theorem lock_free {m : Mutex} (hm : s.mutexes id = some m) (hfree : m.locked = none) :
    ∃ s', Locked s s' id 1 := by
  refine ⟨s.setMutex id (some { m with locked := some (firstLock s.currentThread) }), ?_, rfl,
    { m with locked := some (firstLock s.currentThread) }, firstLock s.currentThread, ?_, rfl, rfl⟩
  · rw [lockMutex, getMutex_ok.2 hm, ok_bind]
    simp only [hfree]
    rfl
  · rw [mutexes_setMutex, if_pos rfl]

theorem lock_reentrant (h : Reentrant s id) : ∃ n s', Locked s s' id n := by
  obtain ⟨m, lock, hm, htype, hlocked, howner, hcount⟩ := h
  let again : Lock := ⟨lock.owner, lock.count + 1, Nat.succ_pos _⟩
  refine ⟨lock.count + 1, s.setMutex id (some ⟨.recursive, m.waitingCount, some again⟩), ?_, rfl,
    ⟨.recursive, m.waitingCount, some again⟩, again, ?_, rfl, howner⟩
  · rw [lockMutex, getMutex_ok.2 hm, ok_bind]
    simp only [hlocked, htype]
    rw [if_pos howner, assert_ok (decide_eq_true (Nat.succ_le_of_lt hcount))]
    rfl
  · rw [mutexes_setMutex, if_pos rfl]

/-- a mutex that is locked, and not to be locked again, is not acquired -/
theorem lock_denied {m : Mutex} (hm : s.mutexes id = some m) (hlocked : m.locked = some lock)
    (hre : ¬Reentrant s id) (h : s.lockMutex id = .ok (.ok n, s')) : ¬OwnsHostMutex s' id := by
  rintro ⟨m', lock', hm', hlocked', howner'⟩
  obtain ⟨m₁, hm₁, ⟨hnone, -⟩ | ⟨lock₁, hlock₁, hcases⟩⟩ := lockMutex_cases h
  · obtain rfl : m = m₁ := Option.some.inj (hm.symm.trans hm₁)
    rw [hlocked] at hnone
    cases hnone
  · obtain rfl : m = m₁ := Option.some.inj (hm.symm.trans hm₁)
    obtain rfl : lock = lock₁ := Option.some.inj (hlocked.symm.trans hlock₁)
    rcases hcases with ⟨-, hr, -⟩ | ⟨howner, htype, -, -⟩ | ⟨howner, -, -, rfl⟩
    · cases hr
    · -- the count is as large as it can be, and one more panics
      refine hre ⟨m, lock, hm, htype, hlocked, howner, ?_⟩
      rw [lockMutex, getMutex_ok.2 hm, ok_bind] at h
      simp only [hlocked, htype] at h
      rw [if_pos howner] at h
      obtain ⟨u, hassert, -⟩ := bind_eq_ok.1 h
      exact of_decide_eq_true (assert_cases hassert)
    · -- the owner is another thread, and stays the owner
      have hself : ((s.setMutex id (some { m with waitingCount := m.waitingCount + 1 })).setBlocked s.currentThread (.mutex id)).mutexes id =
          some { m with waitingCount := m.waitingCount + 1 } := by
        rw [mutexes_setBlocked, mutexes_setMutex, if_pos rfl]
      rw [hself] at hm'
      cases hm'
      obtain rfl : lock = lock' := Option.some.inj (hlocked.symm.trans hlocked')
      exact howner howner'

theorem lockMutex_mem {res : Except Errno ℕ} (h : s.lockMutex id = .ok (res, s')) : s'.mem = s.mem := by
  obtain ⟨m, -, ⟨-, -, hs⟩ | ⟨lock, -, ⟨-, -, hs⟩ | ⟨-, -, -, hs⟩ | ⟨-, -, -, hs⟩⟩⟩ := lockMutex_cases h
  all_goals exact hs ▸ rfl

theorem isLocked_of_some {m : Mutex} (hm : s.mutexes id = some m) (hlocked : m.locked = some lock) :
    s.mutexIsLocked id = true := by
  rw [mutexIsLocked, hm, Option.any_some, hlocked]
  rfl

theorem isLocked_of_none {m : Mutex} (hm : s.mutexes id = some m) (hfree : m.locked = none) : s.mutexIsLocked id = false := by
  rw [mutexIsLocked, hm, Option.any_some, hfree]
  rfl

/-! ## The calls -/

theorem pthreadMutexLock_eq (h : NamesMutex s mutex id) : s.pthreadMutexLock mutex = (do
    let (res, s) ← s.lockMutex id
    pure (errno res, s)) := withMutex_of_names h

theorem pthreadMutexTrylock_eq (h : NamesMutex s mutex id) : s.pthreadMutexTrylock mutex =
    if s.mutexIsLocked id then pure (Errno.EBUSY.toInt, s) else s.pthreadMutexLock mutex := withMutex_of_names h

/-- an object that names a mutex names it as long as memory stays as it is -/
theorem NamesMutex.congr (h : NamesMutex s mutex id) (hmem : s'.mem = s.mem) : NamesMutex s' mutex id := by
  unfold NamesMutex readMutex at *
  rw [hmem]
  exact h

/-- the object's owner is the owner of its mutex -/
theorem ownsMutex_iff (h : NamesMutex s mutex id) : OwnsMutex s mutex ↔ OwnsHostMutex s id := by
  constructor
  · rintro ⟨id', m, lock, hnames, hm, hlocked, howner⟩
    obtain rfl : id = id' := congrArg PthreadMutex.mutexId (Except.ok.inj (Eq.trans (Eq.symm h) hnames))
    exact ⟨m, lock, hm, hlocked, howner⟩
  · rintro ⟨m, lock, hm, hlocked, howner⟩
    exact ⟨id, m, lock, h, hm, hlocked, howner⟩

theorem Locked.acquires (hnames : NamesMutex s mutex id) (h : Locked s s' id n) : Acquires s mutex s' := by
  refine ⟨?_, (ownsMutex_iff (hnames.congr h.mem)).2 h.owns⟩
  rw [pthreadMutexLock_eq hnames, h.result]
  rfl

/-- a lock that acquires the mutex of an object acquires that of the host -/
theorem Acquires.host (hnames : NamesMutex s mutex id) (h : Acquires s mutex s') :
    ∃ n, s.lockMutex id = .ok (.ok n, s') ∧ OwnsMutex s' mutex := by
  obtain ⟨hlock, howns⟩ := h
  rw [pthreadMutexLock_eq hnames] at hlock
  obtain ⟨⟨res, s₁⟩, hres, hlock⟩ := bind_eq_ok.1 hlock
  obtain ⟨hzero, rfl⟩ := Prod.mk.inj (Except.ok.inj hlock)
  cases res with
  | error e =>
    cases e <;> exact absurd hzero (by decide)
  | ok n => exact ⟨n, hres, howns⟩

theorem triesLock_of_names {m : Mutex} (hnames : NamesMutex s mutex id) (hm : s.mutexes id = some m) :
    TriesLock s mutex ↔ ¬Reentrant s id := by
  cases hlocked : m.locked with
  | none =>
    -- the mutex is free, and both calls are the same
    obtain ⟨s₁, hlock⟩ := lock_free hm hlocked
    have hre : ¬Reentrant s id := by
      rintro ⟨m', lock, hm', -, hlocked', -⟩
      cases hm.symm.trans hm'
      rw [hlocked] at hlocked'
      cases hlocked'
    have htry : s.pthreadMutexTrylock mutex = s.pthreadMutexLock mutex := by
      rw [pthreadMutexTrylock_eq hnames, isLocked_of_none hm hlocked]
      rfl
    refine iff_of_true ⟨fun s' hs' => htry.trans hs'.1, fun hno => ?_⟩ hre
    exact absurd (hlock.acquires hnames) (hno s₁)
  | some lock =>
    have htry : s.pthreadMutexTrylock mutex = .ok (Errno.EBUSY.toInt, s) := by
      rw [pthreadMutexTrylock_eq hnames, isLocked_of_some hm hlocked]
      rfl
    constructor
    · rintro ⟨hsame, -⟩ hre
      obtain ⟨n, s₁, hlock⟩ := lock_reentrant hre
      have hzero := hsame s₁ (hlock.acquires hnames)
      rw [htry] at hzero
      exact absurd (Prod.mk.inj (Except.ok.inj hzero)).1 (by decide)
    · intro hre
      refine ⟨fun s' hs' => ?_, fun _ => htry⟩
      obtain ⟨n, hlock, howns⟩ := hs'.host hnames
      have howns' := (ownsMutex_iff (hnames.congr (lockMutex_mem hlock))).1 howns
      exact absurd howns' (lock_denied hm hlocked hre hlock)

/-- an object that was initialized statically: its mutex is free, if there is a number left for it -/
theorem triesLock_of_static (hmagic : s.mem.readU32 mutex = .ok magicMutexStatic) (hrange : s.mem.InRange mutex 12) :
    TriesLock s mutex ↔ s.mutexState.mutexCount + 1 < 2 ^ 64 := by
  have hcalls (f : Env → MutexId → Except Panic (ℤ × Env)) : s.withMutex mutex f = (s.newMutex mutex .normal >>= fun res => do
      let data ← res.2.readMutex mutex
      f res.2 data.mutexId) := by
    unfold withMutex checkOrRegisterMutex
    rw [hmagic, ok_bind, if_pos rfl, pthreadMutexInit, if_pos rfl]
    cases s.newMutex mutex .normal <;> rfl
  by_cases hroom : s.mutexState.mutexCount + 1 < 2 ^ 64
  · refine iff_of_true ?_ hroom
    obtain ⟨res, hregister⟩ : ∃ res, s.newMutex mutex .normal = .ok res := by
      rw [newMutex, initMutex, assert_ok (decide_eq_true hroom), ok_bind, pure_bind]
      dsimp only
      generalize hs : Env.setMutex _ s.mutexState.mutexCount _ = s₁
      have hrange₁ : s₁.mem.InRange mutex 12 := by
        rw [← hs]
        exact hrange
      rw [writeMutex_ok hrange₁]
      exact ⟨_, rfl⟩
    obtain ⟨hnames, hm, -⟩ := register_cases hregister
    have hlock : s.pthreadMutexLock mutex = res.2.pthreadMutexLock mutex := by
      rw [pthreadMutexLock_eq hnames, pthreadMutexLock, hcalls, hregister, ok_bind, hnames, ok_bind]
    have htry : s.pthreadMutexTrylock mutex = res.2.pthreadMutexLock mutex := by
      rw [pthreadMutexTrylock, hcalls, hregister, ok_bind, hnames, ok_bind, isLocked_of_none hm rfl]
      rfl
    obtain ⟨s₁, hlocked⟩ := lock_free hm rfl
    have hacquires := hlocked.acquires hnames
    refine ⟨fun s' hs' => ?_, fun hno => ?_⟩
    · rw [htry, ← hlock]
      exact hs'.1
    · exact absurd ⟨hlock.trans hacquires.1, hacquires.2⟩ (hno s₁)
  · refine iff_of_false (fun h => ?_) hroom
    have hpanic (f : Env → MutexId → Except Panic (ℤ × Env)) : s.withMutex mutex f = .error .overflow := by
      rw [hcalls, newMutex, initMutex, assert, if_neg (by simpa using hroom)]
      rfl
    have hbusy := h.2 fun s' hs' => by
      have hlock := hs'.1
      rw [pthreadMutexLock, hpanic] at hlock
      cases hlock
    rw [pthreadMutexTrylock, hpanic] at hbusy
    cases hbusy

/-- the owner of what `lock` has locked -/
theorem NsAcquires.host (h : NsAcquires s id s') : ∃ n, s.lockMutex id = .ok (.ok n, s') ∧ OwnsHostMutex s' id := by
  obtain ⟨hlock, howns⟩ := h
  obtain ⟨⟨res, s₁⟩, hres, hlock⟩ := bind_eq_ok.1 hlock
  cases res with
  | error e => cases hlock
  | ok n =>
    cases hlock
    exact ⟨n, hres, howns⟩

theorem Locked.nsAcquires (h : Locked s s' id n) : NsAcquires s id s' := by
  refine ⟨?_, h.owns⟩
  rw [nsLockLock, h.result]
  rfl

theorem nsTriesLock_iff {m : Mutex} (hm : s.mutexes id = some m) : NsTriesLock s id ↔ ¬Reentrant s id := by
  cases hlocked : m.locked with
  | none =>
    obtain ⟨s₁, hlock⟩ := lock_free hm hlocked
    have hre : ¬Reentrant s id := by
      rintro ⟨m', lock, hm', -, hlocked', -⟩
      cases hm.symm.trans hm'
      rw [hlocked] at hlocked'
      cases hlocked'
    have htry : s.nsLockTryLock id = .ok (true, s₁) := by
      rw [nsLockTryLock, isLocked_of_none hm hlocked, if_neg Bool.false_ne_true, hlock.result]
      rfl
    refine iff_of_true ⟨fun s' hs' => ?_, fun hno => absurd hlock.nsAcquires (hno s₁)⟩ hre
    cases hlock.nsAcquires.1.symm.trans hs'.1
    exact htry
  | some lock =>
    have htry : s.nsLockTryLock id = .ok (false, s) := by
      rw [nsLockTryLock, isLocked_of_some hm hlocked]
      rfl
    constructor
    · rintro ⟨hsame, -⟩ hre
      obtain ⟨n, s₁, hlock⟩ := lock_reentrant hre
      have htrue := hsame s₁ hlock.nsAcquires
      rw [htry] at htrue
      exact absurd (Prod.mk.inj (Except.ok.inj htrue)).1 Bool.false_ne_true
    · intro hre
      refine ⟨fun s' hs' => ?_, fun _ => htry⟩
      obtain ⟨n, hlock, howns⟩ := hs'.host
      exact absurd howns (lock_denied hm hlocked hre hlock)

/-- **Trying to lock** is locking without blocking, except for the owner of a recursive mutex: it is told that the mutex is busy. -/
theorem trylock_iff (s : Env) :
    (∀ mutex id m, NamesMutex s mutex id → s.mutexes id = some m → (TriesLock s mutex ↔ ¬Reentrant s id)) ∧
      (∀ mutex, s.mem.readU32 mutex = .ok magicMutexStatic → s.mem.InRange mutex 12 →
        (TriesLock s mutex ↔ s.mutexState.mutexCount + 1 < 2 ^ 64)) ∧
      ∀ id m, s.mutexes id = some m → (NsTriesLock s id ↔ ¬Reentrant s id) :=
  ⟨fun _ _ _ hnames hm => triesLock_of_names hnames hm, fun _ hmagic hrange => triesLock_of_static hmagic hrange,
    fun _ _ hm => nsTriesLock_iff hm⟩

/-- the main thread, and no mutexes yet -/
def oneThread : Env where
  mem := ⟨fun _ => 0, 4096⟩
  cpu := .new
  currentThread := 0
  threads := [{ Thread.new (0, 0) with context := none }]
  mutexState := ⟨fun _ => none, 0⟩
  openSemaphores _ := none
  conditionVariables _ := none

/-- a mutex that the main thread has locked -/
def lockedOnce (type : MutexType) : Except Panic Env := do
  let (_, s) ← oneThread.newMutex 8192 type
  let (_, s) ← s.pthreadMutexLock 8192
  pure s

/-- the recursive mutex of `lockedOnce` -/
def ownedRecursive : Env := (lockedOnce .recursive).toOption.getD oneThread

theorem ownedRecursive_names : NamesMutex ownedRecursive 8192 0 := rfl

/-- a second lock is fine, and trying it says EBUSY -/
theorem owner_is_busy : lockedOnce .recursive = .ok ownedRecursive ∧
    (ownedRecursive.pthreadMutexLock 8192).map Prod.fst = .ok 0 ∧ (ownedRecursive.pthreadMutexTrylock 8192).map Prod.fst = .ok 16 ∧
    (ownedRecursive.nsLockTryLock 0).map Prod.fst = .ok false := ⟨rfl, rfl, rfl, rfl⟩

/-- the destruction is refused, and now the owner cannot unlock the mutex -/
theorem refused_and_wiped : lockedOnce .recursive = .ok ownedRecursive ∧ (ownedRecursive.pthreadMutexUnlock 8192).map Prod.fst = .ok 0 ∧
    (do let (res, s) ← ownedRecursive.pthreadMutexDestroy 8192
        let (res', _) ← s.pthreadMutexUnlock 8192
        pure (res, res')) = .ok (16, 22) := ⟨rfl, rfl, rfl⟩

end TouchHLE.Env
