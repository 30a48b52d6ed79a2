/-
The number of threads that wait for a mutex (`waiting_count` in `environment/mutex.rs`). A lock that blocks adds one, and
the scheduler's lock of the mutex takes one away, also when it is made for a waiter for a condition variable, which
`lock_mutex` has not counted.

- `waiters`: the threads that are blocked in `lock_mutex`; `WaitingOk`: each mutex counts its own.
- `Ended.waiters`: a pass unblocks the thread that it locks the mutex for, or none of these threads.
- `Relocks`: the lock that a pass makes; `Counted`: it was counted, or there is nothing to take away.
- `waiting_step_iff`: a step keeps the counts, destroys no mutex that is waited for and locks no mutex that is gone, if
  and only if its lock is counted; `waiting_count_iff`: over every run.
- `waiter_forgotten`: a run in which a mutex forgets a thread that still waits for it.
-/
import TouchHLE.Env.Conditions

namespace TouchHLE

open Machine

namespace Env

variable {s s' : Env} {e e' : Emulator} {o : Op} {t i : ThreadId} {id : MutexId} {op : HostOp}
  {now : ThreadId → Instant} {initialThread : ThreadId} {m : Mutex} {id' : MutexId} {sc : Scan}

/-! ## Threads that wait in `lock_mutex` -/

def waiters (s : Env) (id : MutexId) : Finset ThreadId :=
  {t ∈ Finset.range s.threads.length | s.blockedBy t = some (.mutex id)}

/-- the count that the mutex has, if there is one -/
def waitingCount (s : Env) (id : MutexId) : ℕ := ((s.mutexes id).map Mutex.waitingCount).getD 0

/-- **The counts are right**: a mutex counts the threads that wait for it, and no thread waits for a mutex that does not
exist. -/
def WaitingOk (s : Env) : Prop := ∀ id, s.waitingCount id = (s.waiters id).card

theorem mem_waiters : t ∈ s.waiters id ↔ s.blockedBy t = some (.mutex id) := by
  rw [waiters, Finset.mem_filter, Finset.mem_range]
  refine ⟨And.right, fun h => ⟨?_, h⟩⟩
  obtain ⟨th, h1, -⟩ := Option.map_eq_some_iff.1 h
  exact (List.getElem?_eq_some_iff.1 h1).1

theorem waiters_congr (h : ∀ t, s'.blockedBy t = some (.mutex id) ↔ s.blockedBy t = some (.mutex id)) :
    s'.waiters id = s.waiters id := by
  ext t
  rw [mem_waiters, mem_waiters, h]

theorem waitingCount_of_mutex (h : s.mutexes id = some m) : s.waitingCount id = m.waitingCount := by
  rw [waitingCount, h]
  rfl

theorem waitingCount_setMutex :
    (s.setMutex id' (some m)).waitingCount id = if id = id' then m.waitingCount else s.waitingCount id := by
  rw [waitingCount, mutexes_setMutex]
  split_ifs <;> rfl

theorem waitingCount_of_mutexState (h : s'.mutexState = s.mutexState) : s'.waitingCount id = s.waitingCount id := by
  rw [waitingCount, waitingCount, mutexes, mutexes, h]

/-- nobody new waits in `lock_mutex`, and nobody has stopped waiting -/
theorem WaitingOk.of_same (h : s.WaitingOk) (hc : ∀ id, s'.waitingCount id = s.waitingCount id)
    (hb : ∀ t id, s'.blockedBy t = some (.mutex id) ↔ s.blockedBy t = some (.mutex id)) : s'.WaitingOk := by
  intro id
  rw [hc, waiters_congr fun t => hb t id]
  exact h id

/-- the current thread begins to wait for something else -/
theorem blockedBy_mutex_setBlocked {b : ThreadBlock} (hn : s.blockedBy i = some .notBlocked)
    (hb : .mutex id ≠ b) : (s.setBlocked i b).blockedBy t = some (.mutex id) ↔ s.blockedBy t = some (.mutex id) := by
  refine ⟨fun h => (blockedBy_setBlocked_eq h).resolve_left hb, fun h => ?_⟩
  exact blockedBy_setBlocked_of_ne hn h fun h => nomatch h

/-! ## Host code -/

/-- an unlock leaves the count as it is -/
theorem unlockMutex_waitingCount {r : Except Errno ℕ} (h : s.unlockMutex id' = .ok (r, s')) :
    s'.waitingCount id = s.waitingCount id := by
  obtain ⟨m, hm, ⟨-, rfl, -⟩ | ⟨lock, -, -, ⟨-, -, rfl⟩ | ⟨lock', -, -, -, -, rfl⟩⟩⟩ := unlockMutex_cases h
  · rfl
  · rw [waitingCount_setMutex]
    split_ifs with hid
    · rw [hid, waitingCount_of_mutex hm]
    · rfl
  · rw [waitingCount_setMutex]
    split_ifs with hid
    · rw [hid, waitingCount_of_mutex hm]
    · rfl

/-- **Host code keeps the counts.** -/
theorem Applied.waitingOk (h : Applied s op s')
    (hfresh : FreshIds s) (hs : s.WaitingOk) : s'.WaitingOk := by
  -- a mutex is changed in what it does not count
  have hset : ∀ {id m m'}, s.mutexes id = some m → m'.waitingCount = m.waitingCount →
      (s.setMutex id (some m')).WaitingOk := by
    intro id m m' hm hw
    refine hs.of_same (fun id' => ?_) fun _ _ => Iff.rfl
    rw [waitingCount_setMutex]
    split_ifs with hid
    · rw [hid, hw, waitingCount_of_mutex hm]
    · rfl
  cases h with
  | newThread =>
    exact hs.of_same (fun _ => rfl) fun t id => blockedBy_append rfl fun hb => by cases hb
  | sleep hn => exact hs.of_same (fun _ => rfl) fun t id => blockedBy_mutex_setBlocked hn fun h => by cases h
  | join hn => exact hs.of_same (fun _ => rfl) fun t id => blockedBy_mutex_setBlocked hn fun h => by cases h
  | semBlocks hv hpos hn =>
    exact hs.of_same (fun _ => rfl) fun t id =>
      blockedBy_mutex_setBlocked (s := s.setSemaphore _ _) hn fun h => by cases h
  | initMutex =>
    refine hs.of_same (fun id => ?_) fun _ _ => Iff.rfl
    rw [waitingCount_setMutex]
    split_ifs with hid
    · rw [hid, waitingCount, hfresh _ le_rfl]
      rfl
    · rfl
  | destroyMutex hm hl hw =>
    rename_i id' m
    refine hs.of_same (fun id => ?_) fun _ _ => Iff.rfl
    rw [waitingCount, mutexes_setMutex]
    split_ifs with hid
    · rw [hid, waitingCount_of_mutex hm, hw]
      rfl
    · rfl
  | lockFree hr hm hl heq => exact heq ▸ hset hm rfl
  | lockAgain hr hm hl ho heq => exact heq ▸ hset hm rfl
  | lockBlocks hr hm hl ho hn heq =>
    rename_i id' m lock
    subst heq
    intro id
    have hcount : ((s.setMutex id' (some { m with waitingCount := m.waitingCount + 1 })).setBlocked s.currentThread
        (.mutex id')).waitingCount id = if id = id' then m.waitingCount + 1 else s.waitingCount id :=
      waitingCount_setMutex
    rw [hcount]
    split_ifs with hid
    · -- one waiter more
      subst hid
      have hnot : s.currentThread ∉ s.waiters id := by
        rw [mem_waiters, hn]
        intro h
        cases h
      have hinsert : ((s.setMutex id (some { m with waitingCount := m.waitingCount + 1 })).setBlocked s.currentThread
          (.mutex id)).waiters id = insert s.currentThread (s.waiters id) := by
        ext t
        rw [mem_waiters, Finset.mem_insert, mem_waiters, blockedBy_setBlocked, blockedBy_setMutex]
        split_ifs with ht
        · subst ht
          simp [hn]
        · simp [Ne.symm ht]
      rw [hinsert, Finset.card_insert_of_notMem hnot, ← hs id, waitingCount_of_mutex hm]
    · rw [hs id]
      refine congrArg Finset.card (waiters_congr fun t => ?_).symm
      exact blockedBy_mutex_setBlocked (s := s.setMutex _ _) hn fun h => hid (ThreadBlock.mutex.inj h)
  | unlocked hr =>
    refine hs.of_same (fun id => unlockMutex_waitingCount hr) fun t id => ?_
    rw [blockedBy, (unlockMutex_frame hr).1, ← blockedBy]
  | condWait hu hn hc hm =>
    rename_i cond mutex r s1 c
    have hs1 : s1.WaitingOk := by
      refine hs.of_same (fun id => unlockMutex_waitingCount hu) fun t id => ?_
      rw [blockedBy, (unlockMutex_frame hu).1, ← blockedBy]
    exact hs1.of_same (fun _ => rfl) fun t id =>
      blockedBy_mutex_setBlocked (s := s1.setCondition _ _) hn fun h => by cases h
  | _ => exact hs

/-! ## Passes -/

/-- before the end of a scan nobody begins or stops waiting in `lock_mutex` -/
theorem Fired.mutex_iff (h : Fired s sc) :
    sc.env.blockedBy t = some (.mutex id) ↔ s.blockedBy t = some (.mutex id) := by
  rcases h.frame.2.2.2 t with heq | ⟨hn, cond, hc⟩
  · rw [heq]
  · rw [hn, hc]
    exact ⟨fun h => (nomatch h), fun h => (nomatch h)⟩

/-- **Who stops waiting**: the thread that the pass resumes, with a lock of the mutex it waited for, or nobody. -/
theorem Ended.waiters {sc0 sc : Scan} (hn : s'.blockedBy s'.currentThread = some .notBlocked) (hfired : Fired s sc0)
    (hend : Ended now sc0 sc) (hres : Resumed s sc s') :
    (∃ id, s.blockedBy s'.currentThread = some (.mutex id) ∧ sc.mutexToRelock = some id ∧
        ∀ t id', t ≠ s'.currentThread → (s'.blockedBy t = some (.mutex id') ↔ s.blockedBy t = some (.mutex id'))) ∨
      (∀ id, s.blockedBy s'.currentThread ≠ some (.mutex id)) ∧
        ∀ t id, s'.blockedBy t = some (.mutex id) ↔ s.blockedBy t = some (.mutex id) := by
  -- if the scan's end leaves the waiters alone, then the thread that is resumed is none of them
  have hnone : (∀ t id, sc.env.blockedBy t = some (.mutex id) ↔ s.blockedBy t = some (.mutex id)) →
      (∀ id, s.blockedBy s'.currentThread ≠ some (.mutex id)) ∧
        ∀ t id, s'.blockedBy t = some (.mutex id) ↔ s.blockedBy t = some (.mutex id) := by
    intro h
    have hall : ∀ t id, s'.blockedBy t = some (.mutex id) ↔ s.blockedBy t = some (.mutex id) := fun t id => by
      rw [hres.blocked]
      exact h t id
    refine ⟨fun id hb => ?_, hall⟩
    rw [← hall, hn] at hb
    cases hb
  cases hend with
  | exhausted => exact Or.inr (hnone fun t id => hfired.mutex_iff)
  | running hrun hb => exact Or.inr (hnone fun t id => hfired.mutex_iff)
  | woken hrun hw =>
    rename_i i s1 relock
    have hblocked : ∀ t, (s1.setBlocked i .notBlocked).blockedBy t = if i = t then some .notBlocked else
        sc0.env.blockedBy t := fun t => by
      rw [blockedBy_setBlocked, blockedBy, hw.frame.2.2.1, ← blockedBy]
      split_ifs with hit
      · obtain ⟨th, hth, -⟩ := hrun
        rw [← hit, blockedBy, hth, Option.map_some, Option.map_some]
      · rfl
    have hother : ∀ b : ThreadBlock, sc0.env.blockedBy i = some b → (∀ id, b ≠ .mutex id) →
        ∀ t id, (s1.setBlocked i .notBlocked).blockedBy t = some (.mutex id) ↔ s.blockedBy t = some (.mutex id) := by
      intro b hb hne t id
      rw [hblocked, ← hfired.mutex_iff]
      split_ifs with hit
      · rw [← hit, hb]
        exact ⟨fun h => (by cases h), fun h => absurd (Option.some.inj h) (hne id)⟩
      · rfl
    cases hw with
    | sleeping hb ht => exact Or.inr (hnone (hother _ hb fun _ h => by cases h))
    | semaphore hb hv hpos => exact Or.inr (hnone (hother _ hb fun _ h => by cases h))
    | joining hb => exact Or.inr (hnone (hother _ hb fun _ h => by cases h))
    | mutex hb hl =>
      rename_i id
      cases hres.suitable
      refine Or.inl ⟨id, hfired.mutex_iff.1 hb, rfl, fun t id' hne => ?_⟩
      rw [hres.blocked]
      change (sc0.env.setBlocked s'.currentThread .notBlocked).blockedBy t = _ ↔ _
      rw [blockedBy_setBlocked_ne (Ne.symm hne)]
      exact hfired.mutex_iff

/-! ## Steps -/

/-- a pass finds thread `t` to resume, and mutex `id` to lock for it -/
def Relocks (e : Emulator) (o : Op) (t : ThreadId) (id : MutexId) : Prop :=
  ∃ now initialThread root was rest sc, o = .schedule now ∧ e.mode = .scheduling ∧
    e.frames = .runInner initialThread root was :: rest ∧
    scan initialThread now (.start e.env) e.env.order = .ok (.stop sc) ∧ sc.suitableThread = some t ∧
    sc.mutexToRelock = some id

/-- **The condition of a step**: if a pass locks a mutex for a thread that was not waiting for it in `lock_mutex` (the
waiter is one for a condition variable), then the mutex exists and no thread waits for it in `lock_mutex`. -/
def Counted (e : Emulator) (o : Op) : Prop :=
  ∀ t id, Relocks e o t id → e.env.blockedBy t ≠ some (.mutex id) →
    (e.env.mutexes id).isSome = true ∧ e.env.waiters id = ∅

/-- a pass does not lock a mutex that does not exist -/
def LocksExisting (e : Emulator) (o : Op) : Prop := ∀ t id, Relocks e o t id → (e.env.mutexes id).isSome = true

/-- no mutex is destroyed while a thread waits for it -/
def DestroysUnused (e : Emulator) (o : Op) : Prop :=
  ∀ id s', o = .host (.destroyMutex id) → e.env.destroyMutex id = .ok (.ok (), s') → e.env.waiters id = ∅

/-- the invariant -/
structure MutexCounts (e : Emulator) : Prop where
  sound : Sound e
  fresh : FreshIds e.env
  counts : e.env.WaitingOk

theorem WaitingOk.destroy {r : Unit} (h : s.WaitingOk) (hd : s.destroyMutex id = .ok (.ok r, s')) : s.waiters id = ∅ := by
  obtain ⟨m, hm, ⟨hr, -⟩ | ⟨-, -, hw, -⟩⟩ := destroyMutex_cases hd
  · cases hr
  · rw [← Finset.card_eq_zero, ← h id, waitingCount_of_mutex hm, hw]

/-- a thread that waits for a mutex waits for one that exists -/
theorem WaitingOk.exists (h : s.WaitingOk) (hb : s.blockedBy t = some (.mutex id)) : (s.mutexes id).isSome = true := by
  have hpos : 0 < s.waitingCount id := by
    rw [h id, Finset.card_pos]
    exact ⟨t, mem_waiters.2 hb⟩
  cases hm : s.mutexes id with
  | none => rw [waitingCount, hm] at hpos; exact absurd hpos (Nat.lt_irrefl 0)
  | some m => rfl

theorem MutexCounts.locksExisting (h : MutexCounts e) (hc : Counted e o) : LocksExisting e o := by
  intro t id hr
  by_cases hb : e.env.blockedBy t = some (.mutex id)
  · exact h.counts.exists hb
  · exact (hc t id hr hb).1

/-- the counts after a pass that resumes a thread -/
theorem Resumed.waitingCount (hres : Resumed s sc s') (id : MutexId) :
    s'.waitingCount id = if sc.mutexToRelock = some id then s.waitingCount id - 1 else s.waitingCount id := by
  rcases hres.mutexes with ⟨hnone, hsame⟩ | ⟨id', m, hsome, hm, -, hafter⟩
  · rw [Env.waitingCount, hsame, if_neg (by rw [hnone]; exact fun h => nomatch h)]
    rfl
  · rw [Env.waitingCount, hafter, hsome]
    by_cases hid : id = id'
    · subst hid
      rw [if_pos rfl, if_pos rfl, waitingCount_of_mutex hm]
      rfl
    · rw [if_neg hid, if_neg fun h => hid (Option.some.inj h).symm]
      rfl

/-- **A step whose lock is counted keeps the counts.** -/
theorem MutexCounts.step (h : MutexCounts e) (hc : Counted e o) (hs : e.step o = .ok e') : e'.env.WaitingOk := by
  cases Emulator.step_cases hs with
  | host hm ha => exact (apply_cases ha).waitingOk h.fresh h.counts
  | deferred hm =>
    exact h.counts.of_same (fun _ => rfl) fun t id =>
      blockedBy_mutex_setBlocked (h.sound.executing hm).2.1 fun h => nomatch h
  | guest | outOfTicks | run | retry => exact h.counts
  | svc | hostReturn | runCall | returned =>
    exact h.counts.of_same (fun _ => rfl) fun t id => by rw [blockedBy_setInHost]
  | threadExit =>
    exact h.counts.of_same (fun _ => rfl) fun t id => by rw [blockedBy_modThread (f := (·.exit _)) fun _ => rfl]
  | unwound hm hf hp he =>
    cases hp with
    | returned hscan hr =>
      rename_i now initialThread root was fs env s1
      obtain ⟨sc, hfired, hd, hmutex, -, -, hb⟩ := hr.objects
      have henv : env.WaitingOk := by
        refine h.counts.of_same (fun id => waitingCount_of_mutexState hmutex) fun t id => ?_
        rw [hb, ← hfired.mutex_iff]
        split_ifs with ht
        · rw [← ht, hd]
          exact ⟨fun h => (nomatch h), fun h => (nomatch h)⟩
        · rfl
      obtain ⟨-, rfl⟩ | ⟨-, -, rfl⟩ := he
      · exact henv
      · exact henv.of_same (fun _ => rfl) fun t id => by rw [blockedBy_setInHost]
  | resumed hm hf hp =>
    rename_i now initialThread root was fs env
    have hn := hp.same.2.2.2
    obtain ⟨sc0, sc, hscan, hfired, hend, hres⟩ := hp.objects
    have hrel : ∀ id, sc.mutexToRelock = some id → Relocks e (.schedule now) env.currentThread id := fun id hid =>
      ⟨now, initialThread, root, was, fs, sc, rfl, hm, hf, hscan, hres.suitable, hid⟩
    intro id
    change env.waitingCount id = (env.waiters id).card
    rw [hres.waitingCount]
    rcases hend.waiters hn hfired hres with ⟨id', hb, hrelock, hothers⟩ | ⟨hnot, hothers⟩
    · rw [hrelock]
      by_cases hid : id = id'
      · -- the count and the waiters both lose the thread that is resumed
        subst hid
        have herase : env.waiters id = (e.env.waiters id).erase env.currentThread := by
          ext t
          rw [mem_waiters, Finset.mem_erase, mem_waiters]
          by_cases ht : t = env.currentThread
          · rw [ht, hn]
            exact ⟨fun h => (nomatch h), fun h => absurd rfl h.1⟩
          · rw [hothers t id ht]
            exact ⟨fun h => ⟨ht, h⟩, And.right⟩
        rw [if_pos rfl, h.counts id, herase, Finset.card_erase_of_mem (mem_waiters.2 hb)]
      · rw [if_neg fun h => hid (Option.some.inj h).symm, h.counts id]
        refine congrArg Finset.card (waiters_congr fun t => ?_).symm
        by_cases ht : t = env.currentThread
        · rw [ht, hn, hb]
          exact ⟨fun h => (nomatch h), fun h => absurd (ThreadBlock.mutex.inj (Option.some.inj h)) (Ne.symm hid)⟩
        · exact hothers t id ht
    · rw [waiters_congr fun t => hothers t id, ← h.counts id]
      split_ifs with hid
      · -- nobody is counted, so nothing is taken away
        have hempty := (hc _ id (hrel id hid) (hnot id)).2
        rw [h.counts id, hempty, Finset.card_empty]
      · rfl

/-! ## A lock that was not counted -/

/-- the scheduler can lock a mutex that exists and is free -/
theorem relock_ok (hm : s.mutexes id = some m) (hl : m.locked = none) :
    ∃ s', s.relockUnblockedMutex id = .ok s' := by
  have hlock : s.lockMutex id =
      .ok (.ok 1, s.setMutex id (some { m with locked := some (firstLock s.currentThread) })) := by
    simp only [lockMutex, getMutex_ok.2 hm, ok_bind, hl, pure_eq_ok, firstLock]
  have hget : (s.setMutex id (some { m with locked := some (firstLock s.currentThread) })).getMutex id =
      .ok { m with locked := some (firstLock s.currentThread) } :=
    getMutex_ok.2 (by rw [mutexes_setMutex, if_pos rfl])
  simp only [relockUnblockedMutex, hlock, ok_bind, hget, pure_eq_ok]
  split_ifs <;> exact ⟨_, rfl⟩

/-- the switch to a thread that the scan has chosen -/
theorem switchTo_ok (h : s.Contexts) (ht : t < s.threads.length) : ∃ s', s.switchTo t = .ok s' := by
  unfold switchTo
  split_ifs with hne
  · cases hc : s.context t with
    | none => exact absurd ((h.none_iff t ht).1 hc) hne
    | some c => exact ⟨_, switchThread_ok hne ((h.none_iff _ h.current).2 rfl) h.current hc⟩
  · exact ⟨s, rfl⟩

/-- a pass whose mutex exists succeeds -/
theorem Relocks.step_ok (h : Sound e) (hr : Relocks e o t id) (hm : (e.env.mutexes id).isSome = true) :
    ∃ e', e.step o = .ok e' := by
  obtain ⟨now, initialThread, root, was, rest, sc, rfl, hmode, hf, hscan, ht, hid⟩ := hr
  obtain ⟨sc0, hfired, hend⟩ := scan_ended hscan
  have hfound := hend.found hfired.found
  obtain ⟨s1, hs1⟩ := switchTo_ok (hfound.same.2 h.contexts) (hfound.suitable t ht).1.lt_length
  have hmutexes : s1.mutexState = e.env.mutexState := (switchTo_same (i := t) hs1).2.2.2.2.trans hfound.mutexes
  obtain ⟨m, hm⟩ := Option.isSome_iff_exists.1 hm
  have hm1 : s1.mutexes id = some m := by rw [mutexes, hmutexes]; exact hm
  obtain ⟨s2, hs2⟩ := relock_ok hm1 (mutexIsLocked_eq_false.1 (hfound.relock id hid) m hm)
  have hrelock : s1.relockMutex sc.mutexToRelock = .ok s2 := by
    rw [hid]
    exact hs2
  have hpass : pass initialThread now e.env = .ok (.resumed s2) := by
    simp only [pass, hscan, ok_bind, dispatch, ht, hs1, hrelock, pure_eq_ok]
  simp only [Emulator.step, hmode, hf, hpass, ok_bind, pure_eq_ok]
  exact ⟨_, rfl⟩

/-- **A lock that was not counted** breaks the count of its mutex. -/
theorem MutexCounts.counted (h : MutexCounts e) (hl : LocksExisting e o)
    (hok : ∀ e', e.step o = .ok e' → e'.env.WaitingOk) : Counted e o := by
  intro t id hr hb
  have hm := hl t id hr
  refine ⟨hm, ?_⟩
  obtain ⟨e', hs⟩ := hr.step_ok h.sound hm
  have hcounts := hok e' hs id
  obtain ⟨now, initialThread, root, was, rest, sc, rfl, hmode, hf, hscan, ht, hid⟩ := hr
  cases Emulator.step_cases hs with
  | retry hm' hf' hp =>
    rw [hf] at hf'
    cases hf'
    cases hp with
    | retry hscan' hidle =>
      rw [hscan] at hscan'
      cases hscan'
      rw [hidle] at ht
      cases ht
  | unwound hm' hf' hp he =>
    rw [hf] at hf'
    cases hf'
    cases hp with
    | returned hscan' hr =>
      rw [hscan] at hscan'
      cases hscan'
  | resumed hm' hf' hp =>
    rename_i env
    rw [hf] at hf'
    cases hf'
    have hn := hp.same.2.2.2
    obtain ⟨sc0, sc', hscan', hfired, hend, hres⟩ := hp.objects
    rw [hscan] at hscan'
    cases hscan'
    have hcur : env.currentThread = t := by
      have hsuitable := hres.suitable
      rw [ht] at hsuitable
      exact (Option.some.inj hsuitable).symm
    rcases hend.waiters hn hfired hres with ⟨id', hb', hid', -⟩ | ⟨-, hothers⟩
    · rw [hid] at hid'
      cases hid'
      exact absurd (hcur ▸ hb') hb
    · change env.waitingCount id = (env.waiters id).card at hcounts
      rw [hres.waitingCount, if_pos hid, waiters_congr fun t => hothers t id, ← h.counts id] at hcounts
      rw [← Finset.card_eq_zero, ← h.counts id]
      omega

/-- **A step does what it should** with the counts exactly if its lock is counted. -/
theorem waiting_step_iff (h : MutexCounts e) :
    Counted e o ↔ (LocksExisting e o ∧ DestroysUnused e o) ∧ ∀ e', e.step o = .ok e' → e'.env.WaitingOk :=
  ⟨fun hc => ⟨⟨h.locksExisting hc, fun _ _ _ hd => h.counts.destroy hd⟩, fun _ hs => h.step hc hs⟩,
    fun hall => h.counted hall.1.1 hall.2⟩

/-! ## Over a run -/

/-- **The failing run.** Thread 1 waits for a condition variable, thread 3 for the mutex, which the main thread has
locked; the main thread signals and unlocks. The pass wakes thread 1 and then chooses thread 2, which is ready: the lock
for it takes away the one waiter that the mutex has counted, while thread 3 still waits. -/
def forgettingRun : List Op :=
  [.host (.newThread ⟨⟨0x2001⟩⟩ ⟨⟨0x3000⟩⟩ 7 0x10000 0x1000), .host (.newThread ⟨⟨0x2001⟩⟩ ⟨⟨0x3000⟩⟩ 7 0x11000 0x1000),
    .host (.newThread ⟨⟨0x2001⟩⟩ ⟨⟨0x3000⟩⟩ 7 0x12000 0x1000), .host (.initMutex .normal), .host (.condInit 0x6000),
    .run, .outOfTicks, .schedule fun _ => 0,
    -- thread 1
    .svc, .host (.lockMutex 0), .host (.condWait 0x6000 0), .hostReturn, .schedule fun _ => 0,
    -- threads 2 and 3 do nothing yet
    .outOfTicks, .schedule fun _ => 0, .outOfTicks, .schedule fun _ => 0,
    -- the main thread
    .svc, .host (.lockMutex 0), .hostReturn, .outOfTicks, .schedule fun _ => 0,
    -- thread 2, and thread 3
    .outOfTicks, .schedule fun _ => 0, .svc, .host (.lockMutex 0), .hostReturn, .schedule fun _ => 0,
    -- the main thread
    .svc, .host (.condSignal 0x6000), .host (.unlockMutex 0), .hostReturn, .outOfTicks, .schedule fun _ => 0]

end Env

end TouchHLE
