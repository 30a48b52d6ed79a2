/-
Mutual exclusion without condition variables (`environment/mutex.rs`): a lock of another thread's mutex reports success
at once, and the thread owns the mutex when a scheduler pass unblocks it.

- `held`: how often a thread has locked a mutex; `locksIn`, `unlocksIn`: whether a step completes a lock or an unlock.
- `NoConditions`: runs without condition variables and without `destroy_mutex`.
- `held_step`: a step changes what a thread holds by the locks and unlocks that it completes.
- `mutual_exclusion`: over every run.
-/
import TouchHLE.Env.Threads

namespace TouchHLE

open Machine

namespace Env

/-- how often thread `t` has the mutex locked -/
def held (t : ThreadId) (id : MutexId) (s : Env) : ℕ :=
  match (s.mutexes id).bind Mutex.locked with
  | some lock => if lock.owner = t then lock.count else 0
  | none => 0

/-- `lock_mutex` reports success and does not block the thread -/
def locksNow (s : Env) (id : MutexId) : Bool :=
  match s.lockMutex id with
  | .ok (.ok _, s') => s'.blockedBy s.currentThread == s.blockedBy s.currentThread
  | _ => false

def unlocksNow (s : Env) (id : MutexId) : Bool :=
  match s.unlockMutex id with
  | .ok (.ok _, _) => true
  | _ => false

/-- a successful lock of the mutex by the thread is complete: at once, or when a pass unblocks the thread -/
def locksIn (t : ThreadId) (id : MutexId) (s : Env) (o : Op) (s' : Env) : ℕ :=
  match o with
  | .host (.lockMutex id') => if id' = id ∧ s.currentThread = t ∧ s.locksNow id' = true then 1 else 0
  | .schedule _ => if s.blockedBy t = some (.mutex id) ∧ s'.blockedBy t ≠ some (.mutex id) then 1 else 0
  | _ => 0

/-- a successful unlock of the mutex by the thread -/
def unlocksIn (t : ThreadId) (id : MutexId) (s : Env) (o : Op) : ℕ :=
  match o with
  | .host (.unlockMutex id') => if id' = id ∧ s.currentThread = t ∧ s.unlocksNow id' = true then 1 else 0
  | _ => 0

/-- neither a condition variable nor the destruction of a mutex -/
def NoConditions : Op → Prop
  | .host (.condInit _) | .host (.condWait _ _) | .host (.condSignal _) | .host (.condBroadcast _)
  | .host (.condDestroy _) | .host (.destroyMutex _) => False
  | _ => True

/-- mutex ids are not used again -/
def FreshIds (s : Env) : Prop := ∀ id, s.mutexState.mutexCount ≤ id → s.mutexes id = none

/-- the invariant of runs without condition variables -/
structure MutexOnly (e : Emulator) : Prop where
  sound : Sound e
  noCondition : ∀ t cond, e.env.blockedBy t ≠ some (.condition cond)
  fresh : FreshIds e.env

variable {s s' : Env} {e e' : Emulator} {o : Op} {t : ThreadId} {id : MutexId} {op : HostOp}
  {now : ThreadId → Instant} {initialThread : ThreadId} {id' : MutexId} {err : Errno} {m : Mutex}

theorem held_eq_of_mutexes (h : s'.mutexes id = s.mutexes id) : held t id s' = held t id s := by
  rw [held, held, h]

/-! ## Passes -/

/-- without condition variables a pass wakes one thread, at the end of the scan -/
theorem Fired.eq_start {sc : Scan} (hc : ∀ t cond, s.blockedBy t ≠ some (.condition cond)) (h : Fired s sc) :
    sc.env = s ∧ sc.suitableThread = none ∧ sc.mutexToRelock = none := by
  induction h with
  | start => exact ⟨rfl, rfl, rfl⟩
  | signalled h hrun hs ih => exact absurd (ih.1 ▸ hs.blocked) (hc _ _)

/-- **A pass without condition variables** resumes one thread. It was waiting for a mutex and owns it now, or the
mutexes are as before. -/
theorem Passed.resumes (hc : ∀ t cond, s.blockedBy t ≠ some (.condition cond))
    (h : Passed initialThread now s (.resumed s')) :
    (∀ u, u ≠ s'.currentThread → s'.blockedBy u = s.blockedBy u) ∧
      s'.blockedBy s'.currentThread = some .notBlocked ∧
      (((∀ id, s.blockedBy s'.currentThread ≠ some (.mutex id)) ∧ ∀ id, s'.mutexes id = s.mutexes id) ∨
        ∃ id m, s.blockedBy s'.currentThread = some (.mutex id) ∧ s.mutexes id = some m ∧ m.locked = none ∧
          ∀ id', s'.mutexes id' = if id' = id then
            some { m with locked := some (firstLock s'.currentThread), waitingCount := m.waitingCount - 1 }
            else s.mutexes id') := by
  have hnot := h.same.2.2.2
  obtain ⟨sc0, sc, -, hfired, hend, hres⟩ := h.objects
  obtain ⟨henv, hidle, hrelock⟩ := hfired.eq_start hc
  refine ⟨?_, hnot, ?_⟩
  · intro u hu
    rw [hres.blocked]
    cases hend with
    | exhausted => rw [henv]
    | running hrun hb => rw [henv]
    | woken hrun hw =>
      rename_i i s1 relock
      cases hres.suitable
      change (s1.setBlocked _ .notBlocked).blockedBy u = _
      rw [blockedBy_setBlocked_ne (Ne.symm hu), blockedBy, hw.frame.2.2.1, henv, blockedBy]
  · -- a scan that does not relock leaves the mutexes as they are
    have hsame : sc.mutexToRelock = none → ∀ id, s'.mutexes id = s.mutexes id := fun hnone => by
      rcases hres.mutexes with ⟨-, h⟩ | ⟨id, m, hsome, -⟩
      · exact h
      · rw [hnone] at hsome
        cases hsome
    cases hend with
    | exhausted => exact absurd (hidle.symm.trans hres.suitable) (by simp)
    | running hrun hb =>
      cases hres.suitable
      refine Or.inl ⟨fun id h => ?_, hsame hrelock⟩
      rw [henv, h] at hb
      cases hb
    | woken hrun hw =>
      cases hres.suitable
      rw [henv] at hw
      have hother : ∀ b : ThreadBlock, s.blockedBy s'.currentThread = some b → (∀ id, b ≠ .mutex id) →
          ∀ id, s.blockedBy s'.currentThread ≠ some (.mutex id) := fun b hb hne id h =>
        hne id (Option.some.inj (hb.symm.trans h))
      cases hw with
      | sleeping hb ht => exact Or.inl ⟨hother _ hb fun _ h => (by cases h), hsame hrelock⟩
      | semaphore hb hv hpos => exact Or.inl ⟨hother _ hb fun _ h => (by cases h), hsame hrelock⟩
      | joining hb => exact Or.inl ⟨hother _ hb fun _ h => (by cases h), hsame hrelock⟩
      | mutex hb hl =>
        rename_i id
        rcases hres.mutexes with ⟨hnone, -⟩ | ⟨id', m, hsome, hm, hlocked, hafter⟩
        · cases hnone
        · cases hsome
          exact Or.inr ⟨id, m, hb, hm, hlocked, hafter⟩

/-! ## The invariant -/

theorem blockedBy_setBlocked_eq {i : ThreadId} {b b' : ThreadBlock} (h : (s.setBlocked i b).blockedBy t = some b') :
    b' = b ∨ s.blockedBy t = some b' := by
  rw [blockedBy_setBlocked] at h
  split_ifs at h with hit
  · cases hb : s.blockedBy t with
    | none => rw [hb] at h; cases h
    | some b1 =>
      rw [hb] at h
      exact Or.inl (Option.some.inj h).symm
  · exact Or.inr h

theorem Applied.noCondition (h : Applied s op s') (hop : NoConditions (.host op))
    (hs : ∀ t cond, s.blockedBy t ≠ some (.condition cond)) (t : ThreadId) (cond : GuestPtr) :
    s'.blockedBy t ≠ some (.condition cond) := by
  have hset : ∀ (s1 : Env) {i b}, (∀ t cond, s1.blockedBy t ≠ some (.condition cond)) →
      (∀ cond, .condition cond ≠ b) → (s1.setBlocked i b).blockedBy t ≠ some (.condition cond) := by
    intro s1 i b hs1 hb heq
    exact (blockedBy_setBlocked_eq heq).elim (hb cond) (hs1 t cond)
  cases h with
  | newThread =>
    exact fun heq => hs t cond ((blockedBy_append rfl fun hb => by cases hb).1 heq)
  | sleep hn => exact hset s hs fun _ h => by cases h
  | join hn => exact hset s hs fun _ h => by cases h
  | lockFree hr hm hl heq => exact heq ▸ hs t cond
  | lockAgain hr hm hl ho heq => exact heq ▸ hs t cond
  | lockBlocks hr hm hl ho hn heq => exact heq ▸ hset (s.setMutex _ _) hs fun _ h => by cases h
  | semBlocks hv hpos hn => exact hset (s.setSemaphore _ _) hs fun _ h => by cases h
  | unlocked hr =>
    rw [blockedBy, (unlockMutex_frame hr).1]
    exact hs t cond
  | condWait | condInit | condSignalNone | condSignal | condBroadcast | condDestroy => exact hop.elim
  | destroyMutex | destroyBusy => exact hop.elim
  | _ => exact hs t cond

/-- the mutex that host code changes exists, or is made under a new id -/
theorem Applied.fresh (h : Applied s op s') (hs : FreshIds s) : FreshIds s' := by
  intro id hid
  have hset : ∀ {s1 : Env} {id' m om}, s1.mutexState = s.mutexState → s.mutexes id' = some m →
      s.mutexState.mutexCount ≤ id → (s1.setMutex id' om).mutexes id = none := by
    intro s1 id' m om hs1 hm hid
    rw [mutexes_setMutex, if_neg, mutexes, hs1]
    · exact hs id hid
    · rintro rfl
      rw [hs id hid] at hm
      cases hm
  have hunlock : ∀ {r id' s1}, s.unlockMutex id' = .ok (r, s1) → s1.mutexState.mutexCount ≤ id → s1.mutexes id = none := by
    intro r id' s1 hu hid
    obtain ⟨m, hm, ⟨-, rfl, -⟩ | ⟨lock, -, -, ⟨-, -, rfl⟩ | ⟨lock', -, -, -, -, rfl⟩⟩⟩ := unlockMutex_cases hu
    · exact hs id hid
    · exact hset rfl hm hid
    · exact hset rfl hm hid
  cases h with
  | initMutex =>
    have hlt : s.mutexState.mutexCount < id := hid
    rw [mutexes_setMutex, if_neg hlt.ne']
    exact hs id hlt.le
  | destroyMutex hm hl hw => exact hset rfl hm hid
  | lockFree hr hm hl heq =>
    subst heq
    exact hset rfl hm hid
  | lockAgain hr hm hl ho heq =>
    subst heq
    exact hset rfl hm hid
  | lockBlocks hr hm hl ho hn heq =>
    subst heq
    exact hset rfl hm hid
  | unlocked hr => exact hunlock hr hid
  | condWait hu hn hc hm =>
    have h := hunlock hu hid
    exact h
  | _ => exact hs id hid

theorem mutexOnly_new (mem : Mem) (cpu : CpuContext) : MutexOnly (.new mem cpu) where
  sound := sound_new mem cpu
  noCondition t cond := by
    intro h
    cases t <;> cases h
  fresh _ _ := rfl

theorem step_freshIds (h : Sound e) (hf : FreshIds e.env) (hs : e.step o = .ok e') : FreshIds e'.env := by
  have hsynced := step_synced h hs
  generalize e'.env = s' at hsynced
  generalize e.env = s at hsynced hf
  intro id hid
  have hsame : s'.mutexState = s.mutexState → s'.mutexes id = none := fun heq => by
    rw [heq] at hid
    rw [mutexes, heq]
    exact hf id hid
  cases hsynced with
  | quiet _ _ hm _ _ => exact hsame hm
  | deferred hn => exact hf id hid
  | host ha => exact ha.fresh hf id hid
  | returned _ _ hm _ _ _ => exact hsame hm
  | resumed hp =>
    obtain ⟨sc0, sc, -, -, -, hres⟩ := hp.objects
    rw [hres.count] at hid
    rcases hres.mutexes with ⟨-, hall⟩ | ⟨id', m, -, hm, -, hall⟩
    · rw [hall]
      exact hf id hid
    · rw [hall, if_neg]
      · exact hf id hid
      · rintro rfl
        rw [hf id hid] at hm
        cases hm

theorem mutexOnly_step (ho : NoConditions o) (h : MutexOnly e) (hs : e.step o = .ok e') : MutexOnly e' := by
  have hsynced := step_synced h.sound hs
  refine ⟨sound_step h.sound hs, fun t cond => ?_, step_freshIds h.sound h.fresh hs⟩
  generalize e'.env = s' at hsynced
  cases hsynced with
  | quiet _ hb _ _ _ =>
    rw [hb]
    exact h.noCondition t cond
  | deferred hn =>
    intro heq
    rcases blockedBy_setBlocked_eq heq with h1 | h1
    · cases h1
    · exact h.noCondition t cond h1
  | host ha => exact ha.noCondition ho h.noCondition t cond
  | resumed hp =>
    obtain ⟨hother, hself, -⟩ := hp.resumes h.noCondition
    intro heq
    by_cases ht : t = s'.currentThread
    · rw [ht, hself] at heq
      cases heq
    · rw [hother t ht] at heq
      exact h.noCondition t cond heq
  | returned hfired hd _ _ _ hb =>
    rw [hb, (hfired.eq_start h.noCondition).1]
    split_ifs
    · intro heq
      cases heq
    · exact h.noCondition t cond

/-! ## What a step completes -/

theorem held_of_mutex (h : s.mutexes id = some m) :
    held t id s = match m.locked with
      | some lock => if lock.owner = t then lock.count else 0
      | none => 0 := by
  rw [held, h, Option.bind_some]

theorem held_of_none (h : ∀ m, s.mutexes id = some m → m.locked = none) : held t id s = 0 := by
  rw [held]
  cases hm : s.mutexes id with
  | none => rfl
  | some m => rw [Option.bind_some, h m hm]

theorem held_setMutex_ne {om : Option Mutex} (h : id' ≠ id) :
    held t id (s.setMutex id' om) = held t id s :=
  held_eq_of_mutexes (by rw [mutexes_setMutex, if_neg h.symm])

theorem held_setMutex : held t id (s.setMutex id (some m)) = match m.locked with
      | some lock => if lock.owner = t then lock.count else 0
      | none => 0 :=
  held_of_mutex (by rw [mutexes_setMutex, if_pos rfl])

/-- a lock that reports success has blocked the thread, or the thread has the mutex locked once more -/
theorem held_lockMutex (h : Applied s (.lockMutex id') s') :
    held t id s' = held t id s + if id' = id ∧ s.currentThread = t ∧ s.locksNow id' = true then 1 else 0 := by
  by_cases hid : id' = id
  · subst hid
    cases h with
    | lockDenied hr =>
      have hnow : s.locksNow id' = false := by rw [locksNow, hr]
      rw [hnow]
      simp
    | lockFree hr hm hl hs =>
      have hnow : s.locksNow id' = true := by
        rw [locksNow, hr, hs]
        simp
      rw [hs, held_setMutex, held_of_none (fun m' hm' => by rw [hm] at hm'; cases hm'; exact hl), hnow, firstLock]
      simp
    | lockAgain hr hm hl ho hs =>
      have hnow : s.locksNow id' = true := by
        rw [locksNow, hr, hs]
        simp
      rw [hs, held_setMutex, held_of_mutex hm, hl, hnow]
      simp only [ho, true_and, and_true]
      split_ifs <;> rfl
    | lockBlocks hr hm hl ho hn hs =>
      have hnow : s.locksNow id' = false := by
        rw [locksNow, hr, hs]
        simp [blockedBy_setBlocked, hn]
      have hheld : held t id' s' = held t id' s := by
        rw [hs, held_eq_of_mutexes (mutexes_setBlocked), held_setMutex, held_of_mutex hm]
      rw [hheld, hnow]
      simp
  · have hsame : held t id s' = held t id s := by
      cases h with
      | lockDenied hr => rfl
      | lockFree hr hm hl hs => rw [hs, held_setMutex_ne hid]
      | lockAgain hr hm hl ho hs => rw [hs, held_setMutex_ne hid]
      | lockBlocks hr hm hl ho hn hs => rw [hs, held_eq_of_mutexes mutexes_setBlocked, held_setMutex_ne hid]
    rw [hsame, if_neg fun h => hid h.1, add_zero]

/-- an unlock that reports success has taken one lock from what the thread has -/
theorem held_unlockMutex (h : Applied s (.unlockMutex id') s') :
    held t id s' + (if id' = id ∧ s.currentThread = t ∧ s.unlocksNow id' = true then 1 else 0) = held t id s := by
  cases h with
  | unlockDenied hr =>
    have hnow : s.unlocksNow id' = false := by rw [unlocksNow, hr]
    rw [hnow]
    simp
  | unlocked hr =>
    have hnow : s.unlocksNow id' = true := by rw [unlocksNow, hr]
    rw [hnow]
    obtain ⟨m, hm, ⟨herr, -⟩ | ⟨lock, hl, ho, ⟨hone, -, rfl⟩ | ⟨lock', ho', hcount, -, -, rfl⟩⟩⟩ := unlockMutex_cases hr
    · cases herr
    · by_cases hid : id' = id
      · subst hid
        rw [held_setMutex, held_of_mutex hm, hl]
        simp only [ho, true_and, and_true, hone, zero_add]
      · rw [held_setMutex_ne hid, if_neg fun h => hid h.1, add_zero]
    · by_cases hid : id' = id
      · subst hid
        rw [held_setMutex, held_of_mutex hm, hl]
        simp only [ho', ho, true_and, and_true]
        split_ifs
        · exact hcount
        · rfl
      · rw [held_setMutex_ne hid, if_neg fun h => hid h.1, add_zero]

/-- **A pass completes the lock** of the thread that it resumes, if that thread was waiting for a mutex. -/
theorem Passed.held (hc : ∀ t cond, s.blockedBy t ≠ some (.condition cond))
    (h : Passed initialThread now s (.resumed s')) (t : ThreadId) (id : MutexId) :
    Env.held t id s' + 0 = Env.held t id s +
      if s.blockedBy t = some (.mutex id) ∧ s'.blockedBy t ≠ some (.mutex id) then 1 else 0 := by
  obtain ⟨hother, hself, hmutex⟩ := h.resumes hc
  rcases hmutex with ⟨hnot, hm⟩ | ⟨id', m, hb, hm, hl, hafter⟩
  · rw [held_eq_of_mutexes (hm id), if_neg]
    rintro ⟨h1, h2⟩
    by_cases ht : t = s'.currentThread
    · exact hnot id (ht ▸ h1)
    · exact h2 ((hother t ht).trans h1)
  · by_cases hid : id = id'
    · subst hid
      have hfree : Env.held t id s = 0 := held_of_none fun m' hm' => by
        rw [hm] at hm'
        cases hm'
        exact hl
      rw [hfree, held_of_mutex ((hafter id).trans (if_pos rfl))]
      by_cases ht : s'.currentThread = t
      · subst ht
        rw [if_pos ⟨hb, by rw [hself]; simp⟩]
        simp [firstLock]
      · rw [if_neg fun h => h.2 ((hother t (Ne.symm ht)).trans h.1)]
        simp [firstLock, ht]
    · rw [held_eq_of_mutexes ((hafter id).trans (if_neg hid)), if_neg]
      rintro ⟨h1, h2⟩
      by_cases ht : t = s'.currentThread
      · rw [ht, hb] at h1
        cases h1
        exact hid rfl
      · exact h2 ((hother t ht).trans h1)

/-- **A step changes what a thread has locked** by the locks and unlocks that it completes. -/
theorem held_step (ho : NoConditions o) (h : MutexOnly e) (hs : e.step o = .ok e') (t : ThreadId) (id : MutexId) :
    held t id e'.env + unlocksIn t id e.env o = held t id e.env + locksIn t id e.env o e'.env := by
  have hsynced := step_synced h.sound hs
  have hc := h.noCondition
  have hfresh := h.fresh
  generalize e'.env = s' at hsynced
  generalize e.env = s at hsynced hc hfresh
  have hsame : s'.mutexState = s.mutexState → held t id s' = held t id s := fun hm =>
    held_eq_of_mutexes (show s'.mutexes id = s.mutexes id by rw [mutexes, mutexes, hm])
  cases hsynced with
  | quiet hno hb hm _ _ =>
    have hlocks : locksIn t id s o s' = 0 := by
      unfold locksIn
      split
      · exact absurd rfl (hno _)
      · exact if_neg fun h => h.2 ((hb t).trans h.1)
      · rfl
    have hunlocks : unlocksIn t id s o = 0 := by
      unfold unlocksIn
      split
      · exact absurd rfl (hno _)
      · rfl
    rw [hlocks, hunlocks, hsame hm]
  | deferred hn => rfl
  | host ha =>
    rename_i op
    cases op with
    | lockMutex id' => exact held_lockMutex ha
    | unlockMutex id' => exact held_unlockMutex ha
    | initMutex type =>
      -- a new mutex, under an id that was not in use
      cases ha
      by_cases hid : s.mutexState.mutexCount = id
      · subst hid
        refine congrArg (· + 0) (held_setMutex.trans (held_of_none fun m hm => ?_).symm)
        rw [hfresh _ le_rfl] at hm
        cases hm
      · exact congrArg (· + 0) (held_setMutex_ne hid)
    | destroyMutex id' => exact ho.elim
    | condWait cond mutex => exact ho.elim
    | _ => exact congrArg (· + 0) (hsame (ha.mutexState rfl))
  | resumed hp =>
    exact hp.held hc t id
  | returned hfired hd hm hsem hcond hb =>
    rename_i now initialThread sc
    change held t id s' + 0 = held t id s + if _ then 1 else 0
    rw [hsame hm, if_neg]
    rintro ⟨h1, h2⟩
    rw [hb, (hfired.eq_start hc).1] at h2
    rw [(hfired.eq_start hc).1] at hd
    by_cases ht : initialThread = t
    · rw [ht, h1] at hd
      cases hd
    · rw [if_neg ht] at h2
      exact h2 h1

/-! ## Over a run -/

/-- who has locked the mutex, and how often -/
def lockedBy (s : Env) (id : MutexId) : Option Lock := (s.mutexes id).bind Mutex.locked

/-- the locks of the mutex by the thread that a run completes -/
def locksOver (t : ThreadId) (id : MutexId) (e : Emulator) (ops : List Op) : ℕ :=
  tally Emulator.step (fun e o e' => locksIn t id e.env o e'.env) e ops

/-- the successful unlocks of the mutex by the thread in a run -/
def unlocksOver (t : ThreadId) (id : MutexId) (e : Emulator) (ops : List Op) : ℕ :=
  tally Emulator.step (fun e o _ => unlocksIn t id e.env o) e ops

theorem held_of_lockedBy {lock : Lock} (h : s.lockedBy id = some lock) : held lock.owner id s = lock.count := by
  rw [lockedBy] at h
  rw [held, h]
  exact if_pos rfl

theorem held_of_not_owner (h : ∀ lock, s.lockedBy id = some lock → lock.owner ≠ t) : held t id s = 0 := by
  rw [held]
  split
  · exact if_neg (h _ ‹_›)
  · rfl

/-- **A thread that waits for a mutex goes on only as its owner**, and only through a scheduler pass. -/
theorem MutexOnly.wake (h : MutexOnly e) (ho : NoConditions o) (hs : e.step o = .ok e')
    (hb : e.env.blockedBy t = some (.mutex id)) (hb' : e'.env.blockedBy t ≠ some (.mutex id)) :
    (∃ now, o = .schedule now) ∧ e'.env.blockedBy t = some .notBlocked ∧ e'.env.currentThread = t ∧
      e'.env.lockedBy id = some (firstLock t) := by
  have hsynced := step_synced h.sound hs
  have hc := h.noCondition
  generalize e'.env = s' at hsynced hb' ⊢
  generalize e.env = s at hsynced hc hb
  cases hsynced with
  | quiet _ hsame _ _ _ => exact absurd ((hsame t).trans hb) hb'
  | deferred hn => exact absurd (blockedBy_setBlocked_of_ne hn hb fun h => nomatch h) hb'
  | host ha => exact absurd (ha.blocked hb fun h => nomatch h) hb'
  | resumed hp =>
    obtain ⟨hother, hself, hmutex⟩ := hp.resumes hc
    have ht : t = s'.currentThread := by
      by_contra hne
      exact hb' ((hother t hne).trans hb)
    subst ht
    refine ⟨⟨_, rfl⟩, hself, rfl, ?_⟩
    rcases hmutex with ⟨hnot, -⟩ | ⟨id', m, hwas, hm, hl, hafter⟩
    · exact absurd hb (hnot id)
    · rw [hb] at hwas
      cases hwas
      rw [lockedBy, hafter, if_pos rfl]
      rfl
  | returned hfired hd _ _ _ hafter =>
    rename_i now initialThread sc hm hsem hcond
    rw [(hfired.eq_start hc).1] at hd hafter
    rw [hafter] at hb'
    by_cases ht : initialThread = t
    · rw [ht, hb] at hd
      cases hd
    · rw [if_neg ht] at hb'
      exact absurd hb hb'

theorem lockMutex_error (h : s.lockMutex id = .ok (.error err, s')) : s' = s := by
  obtain ⟨m, -, ⟨-, hr, -⟩ | ⟨lock, -, ⟨-, -, rfl⟩ | ⟨-, -, hr, -⟩ | ⟨-, hr, -, -⟩⟩⟩ := lockMutex_cases h
  · cases hr
  · rfl
  · cases hr
  · cases hr

theorem unlockMutex_error (h : s.unlockMutex id = .ok (.error err, s')) : s' = s := by
  obtain ⟨m, -, ⟨-, rfl, -⟩ | ⟨lock, -, -, ⟨-, hr, -⟩ | ⟨lock', -, -, -, hr, -⟩⟩⟩ := unlockMutex_cases h
  · rfl
  · cases hr
  · cases hr

/-- **Mutual exclusion** in every run without condition variables and without `destroy_mutex`. A thread that waits for a
mutex becomes runnable only in the pass that makes it the owner with count 1. A thread that does not own the mutex has
unlocked it as often as it has locked it, so there is one owner at most; the count that is stored for the owner is how
often it has locked the mutex, less how often it has unlocked it, since a time when it was not the owner. A lock or an
unlock that fails changes nothing. -/
theorem mutual_exclusion (mem : Mem) (cpu : CpuContext) (ops : List Op) (hops : ∀ o ∈ ops, NoConditions o)
    (hr : run Emulator.step (.new mem cpu) ops = .ok e) :
    (∀ o e' t id, NoConditions o → e.step o = .ok e' → e.env.blockedBy t = some (.mutex id) →
      e'.env.blockedBy t ≠ some (.mutex id) → (∃ now, o = .schedule now) ∧ e'.env.blockedBy t = some .notBlocked ∧
        e'.env.currentThread = t ∧ e'.env.lockedBy id = some (firstLock t)) ∧
      (∀ id t, (∀ lock, e.env.lockedBy id = some lock → lock.owner ≠ t) →
        locksOver t id (.new mem cpu) ops = unlocksOver t id (.new mem cpu) ops) ∧
      (∀ id lock pre post e1, e.env.lockedBy id = some lock → ops = pre ++ post →
        run Emulator.step (.new mem cpu) pre = .ok e1 →
        (∀ lock', e1.env.lockedBy id = some lock' → lock'.owner ≠ lock.owner) →
        lock.count + unlocksOver lock.owner id e1 post = locksOver lock.owner id e1 post) ∧
      (∀ id err s', e.env.lockMutex id = .ok (.error err, s') → s' = e.env) ∧
      ∀ id err s', e.env.unlockMutex id = .ok (.error err, s') → s' = e.env := by
  have hinv : ∀ e1 post, (∀ o ∈ post, NoConditions o) → MutexOnly e1 → run Emulator.step e1 post = .ok e →
      ∀ t id, held t id e.env + unlocksOver t id e1 post = held t id e1.env + locksOver t id e1 post :=
    fun e1 post hpost h1 hr t id => tally_balance (q := fun e => held t id e.env)
      (fun e o e' ho h hs => mutexOnly_step ho h hs) (fun e o e' ho h hs => held_step ho h hs t id) h1 hpost hr
  have hmid : ∀ {pre e1}, (∀ o ∈ pre, NoConditions o) → run Emulator.step (.new mem cpu) pre = .ok e1 → MutexOnly e1 :=
    fun hpre hr1 => run_inv_mem (fun e o e' ho h hs => mutexOnly_step ho h hs) (mutexOnly_new mem cpu) hpre hr1
  have h := hmid hops hr
  refine ⟨fun o e' t id ho hs hb hb' => h.wake ho hs hb hb', fun id t hnot => ?_, ?_, fun id err s' => lockMutex_error,
    fun id err s' => unlockMutex_error⟩
  · have hbal := hinv _ ops hops (mutexOnly_new mem cpu) hr t id
    have hzero : held t id (Emulator.new mem cpu).env = 0 := rfl
    rw [held_of_not_owner hnot, hzero, zero_add, zero_add] at hbal
    exact hbal.symm
  · intro id lock pre post e1 hlock hsplit hr1 hnot
    subst hsplit
    have hpre : ∀ o ∈ pre, NoConditions o := fun o ho => hops o (List.mem_append_left _ ho)
    have hpost : ∀ o ∈ post, NoConditions o := fun o ho => hops o (List.mem_append_right _ ho)
    obtain ⟨e2, h2, hr2⟩ := run_append_ok.1 hr
    rw [hr1] at h2
    cases h2
    have hbal := hinv e1 post hpost (hmid hpre hr1) hr2 lock.owner id
    rw [held_of_lockedBy hlock, held_of_not_owner hnot, zero_add] at hbal
    exact hbal

/-- two threads lock a mutex, the second one waits for the first and then owns it -/
theorem mutual_exclusion_handover : ∃ e, run Emulator.step .start
      [.host (.newThread ⟨⟨0x2001⟩⟩ ⟨⟨0x3000⟩⟩ 7 0x10000 0x1000), .host (.initMutex .recursive), .run, .svc,
        .host (.lockMutex 0), .hostReturn, .outOfTicks, .schedule fun _ => 0, .svc, .host (.lockMutex 0), .hostReturn,
        .schedule fun _ => 0, .svc, .host (.unlockMutex 0), .hostReturn, .outOfTicks, .schedule fun _ => 0] = .ok e ∧
    e.env.lockedBy 0 = some (firstLock 1) ∧
      ∀ id err s', e.env.unlockMutex id = .ok (.error err, s') → s' = e.env := by
  obtain ⟨-, -, -, -, h⟩ := mutual_exclusion { bytes := fun _ => 0, nullSegmentSize := 0x1000 } .new
    [.host (.newThread ⟨⟨0x2001⟩⟩ ⟨⟨0x3000⟩⟩ 7 0x10000 0x1000), .host (.initMutex .recursive), .run, .svc,
      .host (.lockMutex 0), .hostReturn, .outOfTicks, .schedule fun _ => 0, .svc, .host (.lockMutex 0), .hostReturn,
      .schedule fun _ => 0, .svc, .host (.unlockMutex 0), .hostReturn, .outOfTicks, .schedule fun _ => 0]
    (by simp [NoConditions]) rfl
  exact ⟨_, rfl, rfl, h⟩

end Env

end TouchHLE
