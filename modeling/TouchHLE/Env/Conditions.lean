/-
Waiters for a condition variable (`libc/pthread/cond.rs`), and what the scheduler does with them. After such a waiter the
scan does not end: a later thread that can go on becomes the thread to resume, and the waiter's mutex is locked for it.

- `Noted`: the emulator, with a note of the mutex that each thread passed to `pthread_cond_wait`.
- `Queued`: a waiter is in a queue of its condition variable, whose mutex is the one that it passed.
- `scan_skip`, `scan_last`: a scan up to the first thread that is ready, and the thread that a scan chooses.
- `Lone`: behind the first waiter that the scan wakes, no thread is ready.
- `WakesWithMutex`: the waiters that a pass wakes own their mutexes, and no other thread gets one that it did not wait for.
- `wakes_iff`: the two are the same in every pass; `condition_waits_iff`: over every run.
- `signal_steals_mutex`: a run in which the main thread gets the mutex of the waiter that it has signalled.
-/
import TouchHLE.Env.Exclusion

namespace TouchHLE

open Machine

namespace Env

variable {s s' : Env} {o : Op} {t i : ThreadId} {id : MutexId} {op : HostOp} {now : ThreadId → Instant}
  {initialThread : ThreadId} {sc sc' : Scan} {flow : Flow} {cond : GuestPtr} {c : CondHostObject}

/-! ## What a thread has passed to `pthread_cond_wait` -/

structure Noted where
  emulator : Emulator
  passed : ThreadId → Option MutexId

namespace Noted

def note (n : Noted) : Op → ThreadId → Option MutexId
  | .host (.condWait _ mutex) => Function.update n.passed n.emulator.env.currentThread (some mutex)
  | _ => n.passed

def step (n : Noted) (o : Op) : Except Panic Noted := do
  let e ← n.emulator.step o
  pure { emulator := e, passed := n.note o }

def new (mem : Mem) (cpu : CpuContext) : Noted := { emulator := .new mem cpu, passed := fun _ => none }

end Noted

/-- **Waiters are in the queues** of their condition variables, and the variable has the mutex that they passed. -/
def Queued (passed : ThreadId → Option MutexId) (s : Env) : Prop :=
  ∀ t cond, s.blockedBy t = some (.condition cond) →
    ∃ c, s.conditionVariables cond = some c ∧ t ∈ c.waiting ++ c.waking ∧ c.currMutex = passed t

variable {passed : ThreadId → Option MutexId} {res : PassResult} {post : List ThreadId} {c' : CondHostObject}
  {na : Option Instant} {is : List ThreadId} {e e' : Emulator}

/-- nobody new waits, and the condition variables are as before -/
theorem Queued.of_same (h : Queued passed s) (hc : s'.conditionVariables = s.conditionVariables)
    (hb : ∀ t cond, s'.blockedBy t = some (.condition cond) → s.blockedBy t = some (.condition cond)) :
    Queued passed s' := by
  intro t cond ht
  rw [hc]
  exact h t cond (hb t cond ht)

theorem Queued.setBlocked {b : ThreadBlock} (h : Queued passed s) (hb : ∀ cond, .condition cond ≠ b) :
    Queued passed (s.setBlocked i b) :=
  h.of_same rfl fun _ cond ht => (blockedBy_setBlocked_eq ht).resolve_left (hb cond)

/-- a condition variable whose waiters stay in its queues -/
theorem Queued.setCondition (h : Queued passed s) (hc : s.conditionVariables cond = some c)
    (hm : c'.currMutex = c.currMutex) (hmem : ∀ t ∈ c.waiting ++ c.waking, t ∈ c'.waiting ++ c'.waking) :
    Queued passed (s.setCondition cond (some c')) := by
  intro t cond' ht
  obtain ⟨c0, h1, h2, h3⟩ := h t cond' ht
  rw [conditions_setCondition]
  split_ifs with hcond
  · subst hcond
    rw [hc] at h1
    cases h1
    exact ⟨c', rfl, hmem t h2, hm.trans h3⟩
  · exact ⟨c0, h1, h2, h3⟩

/-- a condition variable without waiters can be made or removed -/
theorem Queued.setCondition_unused {oc : Option CondHostObject} (h : Queued passed s)
    (hc : ∀ c, s.conditionVariables cond = some c → c.waiting = [] ∧ c.waking = []) :
    Queued passed (s.setCondition cond oc) := by
  intro t cond' ht
  obtain ⟨c0, h1, h2, h3⟩ := h t cond' ht
  rw [conditions_setCondition, if_neg]
  · exact ⟨c0, h1, h2, h3⟩
  · rintro rfl
    obtain ⟨hw, hk⟩ := hc c0 h1
    rw [hw, hk] at h2
    cases h2

theorem Applied.queued {n : Noted} (h : Applied s op s') (hs : n.emulator.env = s) (hq : Queued n.passed s) :
    Queued (n.note (.host op)) s' := by
  cases h with
  | newThread =>
    exact hq.of_same rfl fun t cond => (blockedBy_append rfl fun hb => by cases hb).1
  | sleep hn => exact hq.setBlocked fun _ h => by cases h
  | join hn => exact hq.setBlocked fun _ h => by cases h
  | lockFree hr hm hl heq => exact heq ▸ hq
  | lockAgain hr hm hl ho heq => exact heq ▸ hq
  | lockBlocks hr hm hl ho hn heq => exact heq ▸ Queued.setBlocked (s := s.setMutex _ _) hq fun _ h => by cases h
  | unlocked hr =>
    obtain ⟨hth, -, -, -, hcond⟩ := unlockMutex_frame hr
    refine hq.of_same hcond fun t cond ht => ?_
    rwa [blockedBy, hth] at ht
  | semBlocks hv hpos hn => exact Queued.setBlocked (s := s.setSemaphore _ _) hq fun _ h => by cases h
  | condInit hc =>
    refine hq.setCondition_unused fun c h => ?_
    rw [hc] at h
    cases h
  | condDestroy hc hwait hwake =>
    refine hq.setCondition_unused fun c h => ?_
    rw [hc] at h
    cases h
    exact ⟨hwait, hwake⟩
  | condSignal hc hw =>
    refine hq.setCondition hc rfl fun t ht => ?_
    rw [hw] at ht
    simp only [List.mem_append, List.mem_cons, List.not_mem_nil, or_false] at ht ⊢
    tauto
  | condBroadcast hc =>
    refine hq.setCondition hc rfl fun t ht => ?_
    simp only [List.mem_append, List.not_mem_nil, false_or] at ht ⊢
    exact ht.symm
  | condWait hu hn hc hm =>
    rename_i cond mutex r s1 c
    obtain ⟨hth, -, hcur, -, hcond⟩ := unlockMutex_frame hu
    intro t cond' ht
    have hnote : n.note (.host (.condWait cond mutex)) t = if t = s.currentThread then some mutex else n.passed t := by
      rw [Noted.note, Function.update_apply, hs]
    rw [hnote]
    by_cases htcur : t = s1.currentThread
    · -- the new waiter
      have hself : cond' = cond := by
        rw [htcur, blockedBy_setBlocked, if_pos rfl] at ht
        obtain ⟨b, -, hb⟩ := Option.map_eq_some_iff.1 ht
        exact (ThreadBlock.condition.inj hb).symm
      subst hself
      rw [htcur, if_pos hcur]
      refine ⟨_, (conditions_setCondition).trans (if_pos rfl), ?_, rfl⟩
      simp
    · -- one that waits already
      rw [if_neg (hcur ▸ htcur)]
      rw [blockedBy_setBlocked_ne (Ne.symm htcur), blockedBy_setCondition, blockedBy, hth] at ht
      obtain ⟨c0, h1, h2, h3⟩ := hq t cond' ht
      change ∃ c', (s1.setCondition cond _).conditionVariables cond' = some c' ∧ _
      rw [conditions_setCondition]
      split_ifs with hcc
      · subst hcc
        rw [hcond, h1] at hc
        cases hc
        refine ⟨_, rfl, ?_, ?_⟩
        · simp only [List.mem_append, List.mem_singleton] at h2 ⊢
          tauto
        · rcases hm with hm | ⟨hk, hw⟩
          · exact hm.symm.trans h3
          · rw [hk, hw] at h2
            cases h2
      · rw [hcond]
        exact ⟨c0, h1, h2, h3⟩
  | _ => exact hq

theorem Signalled.queued (h : Signalled s i cond c id) (hrun : s.Runnable i) (hq : Queued passed s) :
    Queued passed (s.wakeWaiter i cond c) := by
  intro t cond' ht
  have hne : i ≠ t := by
    rintro rfl
    rw [wakeWaiter, blockedBy_setBlocked_self (s := s.setCondition _ _) hrun] at ht
    cases ht
  rw [wakeWaiter, blockedBy_setBlocked_ne hne, blockedBy_setCondition] at ht
  obtain ⟨c0, h1, h2, h3⟩ := hq t cond' ht
  change ∃ c', (s.setCondition cond _).conditionVariables cond' = some c' ∧ _
  rw [conditions_setCondition]
  split_ifs with hcc
  · subst hcc
    rw [h.object] at h1
    cases h1
    refine ⟨_, rfl, ?_, h3⟩
    obtain ⟨rest, hrest⟩ : ∃ rest, c.waking = i :: rest := by
      have hfront := h.front
      cases hw : c.waking with
      | nil => rw [hw] at hfront; cases hfront
      | cons j rest =>
        rw [hw] at hfront
        cases hfront
        exact ⟨rest, rfl⟩
    rw [hrest] at h2 ⊢
    simp only [List.mem_append, List.mem_cons, List.tail_cons] at h2 ⊢
    rcases h2 with h2 | h2 | h2
    · exact Or.inl h2
    · exact absurd h2.symm hne
    · exact Or.inr h2
  · exact ⟨c0, h1, h2, h3⟩

theorem Fired.queued (h : Fired s sc) (hq : Queued passed s) : Queued passed sc.env := by
  induction h with
  | start => exact hq
  | signalled h hrun hs ih => exact hs.queued hrun ih

theorem Passed.queued (h : Passed initialThread now s (.resumed s')) (hq : Queued passed s) : Queued passed s' := by
  obtain ⟨sc0, sc, -, hfired, hend, hres⟩ := h.objects
  have hq0 := hfired.queued hq
  have hsc : Queued passed sc.env := by
    cases hend with
    | exhausted => exact hq0
    | running hrun hb => exact hq0
    | woken hrun hw =>
      rename_i i s1 relock
      obtain ⟨-, -, hth, -, hcond, -⟩ := hw.frame
      refine Queued.setBlocked (s := s1) (hq0.of_same hcond fun t cond ht => ?_) fun _ h => nomatch h
      rwa [blockedBy, hth] at ht
  exact hsc.of_same hres.conditions fun t cond ht => by rwa [hres.blocked] at ht

theorem queued_step {n n' : Noted} (hs : Sound n.emulator) (hq : Queued n.passed n.emulator.env)
    (h : n.step o = .ok n') : Queued n'.passed n'.emulator.env := by
  obtain ⟨e, h1, h⟩ := bind_eq_ok.1 h
  cases h
  have hsynced := step_synced hs h1
  change Queued (n.note o) e.env
  have hsame : (∀ op, o ≠ .host op) → n.note o = n.passed := fun ho => by
    unfold Noted.note
    split
    · exact absurd rfl (ho _)
    · rfl
  generalize hs' : e.env = s' at hsynced
  generalize hs : n.emulator.env = s at hsynced hq
  cases hsynced with
  | quiet ho hb _ _ hcond =>
    rw [hsame ho]
    exact hq.of_same hcond fun t cond ht => by rwa [hb] at ht
  | deferred hn => exact hq.setBlocked fun _ h => nomatch h
  | host ha => exact ha.queued hs hq
  | resumed hp => exact hp.queued hq
  | returned hfired hd hm hsem hcond hb =>
    refine (hfired.queued hq).of_same hcond fun t cond ht => ?_
    rw [hb] at ht
    split_ifs at ht
    · cases ht
    · exact ht

/-! ## The thread that a scan chooses -/

/-- threads that are not ready change nothing but the time to wake up -/
theorem scan_skip (sc : Scan) {pre rest : List ThreadId} (hpre : ∀ k ∈ pre, sc.env.ready initialThread now k = false)
    (h : scan initialThread now sc (pre ++ rest) = .ok flow) :
    ∃ na, scan initialThread now { sc with nextAwakening := na } rest = .ok flow := by
  induction pre generalizing sc with
  | nil => exact ⟨sc.nextAwakening, h⟩
  | cons k pre ih =>
    obtain ⟨flow1, h1, h2⟩ := bind_eq_ok.1 h
    have hk := hpre k List.mem_cons_self
    have hc := candidate_cases h1
    cases hc with
    | skip na hr =>
      exact ih { sc with nextAwakening := na } (fun k' hk' => hpre k' (List.mem_cons_of_mem k hk')) h2
    | running hr | woken hr | signalled hr | returned hr =>
      rw [hk] at hr
      cases hr

/-- a scan in which some thread is ready leaves the run loop, or chooses a thread of its list -/
theorem scan_last (sc : Scan) (hex : ∃ k ∈ is, sc.env.ready initialThread now k = true)
    (h : scan initialThread now sc is = .ok flow) :
    flow.All (fun _ => True) (fun sc' => ∃ t ∈ is, sc'.suitableThread = some t) fun _ => True := by
  induction is generalizing sc with
  | nil =>
    obtain ⟨k, hk, -⟩ := hex
    cases hk
  | cons k is ih =>
    obtain ⟨flow1, h1, h2⟩ := bind_eq_ok.1 h
    have hmem : ∀ {flow : Flow}, flow.All (fun _ => True) (fun sc' => ∃ t ∈ is, sc'.suitableThread = some t)
        (fun _ => True) → flow.All (fun _ => True) (fun sc' => ∃ t ∈ k :: is, sc'.suitableThread = some t)
          (fun _ => True) := fun {flow} hall => by
      cases flow with
      | next | returned => trivial
      | stop sc' =>
        obtain ⟨t, ht, hs⟩ := hall
        exact ⟨t, List.mem_cons_of_mem k ht, hs⟩
    have hc := candidate_cases h1
    cases hc with
    | skip na hr =>
      obtain ⟨k', hk', hready⟩ := hex
      rcases List.mem_cons.1 hk' with rfl | hk'
      · rw [hr] at hready
        cases hready
      · exact hmem (ih { sc with nextAwakening := na } ⟨k', hk', hready⟩ h2)
    | running =>
      cases h2
      exact ⟨k, List.mem_cons_self, rfl⟩
    | woken =>
      cases h2
      exact ⟨k, List.mem_cons_self, rfl⟩
    | returned =>
      cases h2
      trivial
    | signalled =>
      rename_i cond c id hr hrun hs
      by_cases hrest : ∃ k' ∈ is, (sc.env.wakeWaiter k cond c).ready initialThread now k' = true
      · exact hmem (ih _ hrest h2)
      · -- nobody behind it: the waiter itself is chosen
        rw [← List.append_nil is] at h2
        obtain ⟨na, h3⟩ := scan_skip _ (fun k' hk' => Bool.not_eq_true _ ▸ fun hk => hrest ⟨k', hk', hk⟩) h2
        cases h3
        exact ⟨k, List.mem_cons_self, rfl⟩

/-- the part of the scan's order from the first thread that is ready -/
def fromReady (initialThread : ThreadId) (now : ThreadId → Instant) (s : Env) : List ThreadId :=
  s.order.dropWhile fun k => !s.ready initialThread now k

theorem order_nodup : s.order.Nodup := by
  refine List.nodup_range.map_on fun a ha b hb h => ?_
  rw [List.mem_range] at ha hb
  have hmod : s.currentThread + 1 + a ≡ s.currentThread + 1 + b [MOD s.threads.length] := h
  exact Nat.ModEq.eq_of_lt_of_lt hmod.add_left_cancel' ha hb

theorem scan_fromReady (h : scan initialThread now (.start s) s.order = .ok flow) :
    ∃ na, scan initialThread now ⟨s, none, na, none⟩ (fromReady initialThread now s) = .ok flow := by
  rw [← List.takeWhile_append_dropWhile (p := fun k => !s.ready initialThread now k) (l := s.order)] at h
  refine scan_skip (.start s) (fun k hk => ?_) h
  change s.ready initialThread now k = false
  simpa using List.all_eq_true.1 List.all_takeWhile k hk

theorem fromReady_cons (h : fromReady initialThread now s = i :: post) :
    s.ready initialThread now i = true ∧ i ∉ post := by
  have hhead := List.head?_dropWhile_not (fun k => !s.ready initialThread now k) s.order
  have hnodup : (i :: post).Nodup := by
    rw [← h]
    exact order_nodup.sublist (List.dropWhile_sublist _)
  refine ⟨?_, (List.nodup_cons.1 hnodup).1⟩
  rw [fromReady] at h
  rw [h, List.head?_cons] at hhead
  simpa using hhead

/-! ## Passes -/

/-- **Behind the first waiter that the scan wakes no thread is ready**, in the state in which the waiter is woken. -/
def Lone (initialThread : ThreadId) (now : ThreadId → Instant) (s : Env) : Prop :=
  ∀ i post cond c id, fromReady initialThread now s = i :: post → Signalled s i cond c id →
    ∀ k ∈ post, (s.wakeWaiter i cond c).ready initialThread now k = false

def OwnedBy (s : Env) (id : MutexId) (t : ThreadId) : Prop := ∃ lock, s.lockedBy id = some lock ∧ lock.owner = t

/-- the thread waits for the mutex, in `lock_mutex` or in `pthread_cond_wait` -/
def WaitsFor (passed : ThreadId → Option MutexId) (s : Env) (t : ThreadId) (id : MutexId) : Prop :=
  s.blockedBy t = some (.mutex id) ∨ ∃ cond, s.blockedBy t = some (.condition cond) ∧ passed t = some id

/-- **A waiter for a condition variable that is woken** owns the mutex that it passed to `pthread_cond_wait`, with count
1, and no other thread is made the owner of a mutex that it was not waiting for. -/
def WakesWithMutex (passed : ThreadId → Option MutexId) (s s' : Env) : Prop :=
  ∀ t cond, s.blockedBy t = some (.condition cond) → s'.blockedBy t = some .notBlocked →
    (∃ id, passed t = some id ∧ s'.lockedBy id = some (firstLock t)) ∧
      ∀ u id, u ≠ t → s'.OwnedBy id u → ¬ s.OwnedBy id u → WaitsFor passed s u id

/-- waiters for condition variables still wait -/
def WaitersStay (s s' : Env) : Prop :=
  ∀ t cond, s.blockedBy t = some (.condition cond) → s'.blockedBy t = some (.condition cond)

theorem wakesWithMutex_of_stays (h : WaitersStay s s') : WakesWithMutex passed s s' := by
  intro t cond hb hn
  rw [h t cond hb] at hn
  cases hn

/-- a thread that is not blocked is not blocked by a scan -/
theorem scan_notBlocked (sc : Scan) (hb : sc.env.blockedBy t = some .notBlocked)
    (h : scan initialThread now sc is = .ok flow) :
    flow.All (fun sc' => sc'.env.blockedBy t = some .notBlocked) (fun sc' => sc'.env.blockedBy t = some .notBlocked)
      fun s' => s'.blockedBy t = some .notBlocked := by
  have hset : ∀ {s : Env} {i}, s.blockedBy t = some .notBlocked →
      (s.setBlocked i .notBlocked).blockedBy t = some .notBlocked := by
    intro s i h
    rw [blockedBy_setBlocked, h]
    split_ifs <;> rfl
  refine scan_inv (fun _ => id) (fun sc i flow h hc => ?_) hb h
  cases hc with
  | skip na hr => exact h
  | running hr hrun hb => exact h
  | woken hr hrun hw =>
    rename_i s1 relock
    have hs1 : s1.blockedBy t = some .notBlocked := by rw [blockedBy, hw.frame.2.2.1]; exact h
    exact hset hs1
  | signalled hr hrun hs => exact hset (s := sc.env.setCondition _ _) h
  | returned hr hrun hb hi hs =>
    rename_i s1
    have hs1 := (switchThread_same (i := t) hs).2.2.2.1
    exact hs1.trans (hset h)

theorem Ready.runnable (h : s.ready initialThread now i = true) : s.Runnable i := by
  unfold ready at h
  cases hth : s.threads[i]? with
  | none => rw [hth] at h; cases h
  | some th =>
    rw [hth, Option.any_some] at h
    simp only [Bool.and_eq_true, Bool.not_eq_true'] at h
    exact ⟨th, hth, h.1.1, h.1.2⟩

/-- a waiter has one condition variable -/
theorem Signalled.unique {cond' : GuestPtr} {id' : MutexId} (h : Signalled s i cond c id)
    (h' : Signalled s i cond' c' id') : cond' = cond ∧ c' = c := by
  have h1 := h'.blocked
  rw [h.blocked] at h1
  cases h1
  have h2 := h'.object
  rw [h.object] at h2
  cases h2
  exact ⟨rfl, rfl⟩

def PassResult.env : PassResult → Env
  | .resumed s | .retry s | .returned s => s

/-- **A waiter that another thread overtakes** in the scan has been woken, and does not own the mutex. -/
theorem overtaken
    (h : Passed initialThread now s res) (hs : Signalled s i cond c id) (hrun : s.Runnable i) (hi : i ∉ post)
    (hscan : ∀ flow, scan initialThread now (.start s) s.order = .ok flow →
      scan initialThread now ⟨s.wakeWaiter i cond c, some i, na, some id⟩ post = .ok flow)
    (hready : ∃ k ∈ post, (s.wakeWaiter i cond c).ready initialThread now k = true) :
    res.env.blockedBy i = some .notBlocked ∧ res.env.lockedBy id ≠ some (firstLock i) := by
  have hwoken : (s.wakeWaiter i cond c).blockedBy i = some .notBlocked :=
    blockedBy_setBlocked_self (s := s.setCondition _ _) hrun
  have hlast := fun flow hf => scan_last ⟨s.wakeWaiter i cond c, some i, na, some id⟩ hready (hscan flow hf)
  have hstays := fun flow hf => scan_notBlocked ⟨s.wakeWaiter i cond c, some i, na, some id⟩ hwoken
    (hscan flow hf)
  have hfree : s.lockedBy id = none := by
    rw [lockedBy]
    cases hm : s.mutexes id with
    | none => rfl
    | some m => exact mutexIsLocked_eq_false.1 hs.free m hm
  cases h with
  | retry hscan' hidle =>
    obtain ⟨t, -, ht⟩ := hlast _ hscan'
    rw [hidle] at ht
    cases ht
  | returned hscan' hr =>
    rename_i s1
    obtain ⟨sc, -, -, hmutex, -, -, -⟩ := hr.objects
    refine ⟨hstays _ hscan', ?_⟩
    have hsame : s1.lockedBy id = s.lockedBy id := by rw [lockedBy, lockedBy, mutexes, mutexes, hmutex]
    change s1.lockedBy id ≠ _
    rw [hsame, hfree]
    intro h
    cases h
  | resumed hscan' hfired hend ht hsw hr =>
    rename_i sc0 sc t s1 s2
    have hp : Passed initialThread now s (.resumed s2) := .resumed hscan' hfired hend ht hsw hr
    obtain ⟨sc0', sc', hscan'', -, -, hres⟩ := hp.objects
    obtain ⟨t', hmem, ht'⟩ := hlast _ hscan''
    have hne : s2.currentThread ≠ i := by
      rintro rfl
      rw [hres.suitable] at ht'
      cases ht'
      exact hi hmem
    refine ⟨(hres.blocked i).trans (hstays _ hscan''), ?_⟩
    change s2.lockedBy id ≠ _
    rcases hres.mutexes with ⟨-, hsame⟩ | ⟨id', m, -, -, -, hafter⟩
    · rw [lockedBy, hsame, ← lockedBy, hfree]
      intro h
      cases h
    · rw [lockedBy, hafter]
      split_ifs with hid
      · intro heq
        exact hne (congrArg Lock.owner (Option.some.inj heq))
      · rw [← lockedBy, hfree]
        intro h
        cases h

/-- **A waiter that nobody overtakes** resumes as the owner of its mutex, and no other owner changes. -/
theorem lone_wakes (na : Option Instant) (hq : Queued passed s)
    (h : Passed initialThread now s res) (hs : Signalled s i cond c id)
    (hscan : ∀ flow, scan initialThread now (.start s) s.order = .ok flow →
      flow = .stop ⟨s.wakeWaiter i cond c, some i, na, some id⟩) : WakesWithMutex passed s res.env := by
  cases h with
  | retry hscan' hidle => cases hscan _ hscan'; cases hidle
  | returned hscan' hr => cases hscan _ hscan'
  | resumed hscan' hfired hend ht hsw hr =>
    rename_i sc0 sc t s1 s2
    have hp : Passed initialThread now s (.resumed s2) := .resumed hscan' hfired hend ht hsw hr
    obtain ⟨sc0', sc', hscan'', -, -, hres⟩ := hp.objects
    cases hscan _ hscan''
    have hcur : s2.currentThread = i := (Option.some.inj hres.suitable).symm
    rcases hres.mutexes with ⟨hnone, -⟩ | ⟨id', m, hsome, -, -, hafter⟩
    · cases hnone
    cases hsome
    rw [hcur] at hafter
    intro t cond' hb hn
    -- the waiter is the only thread that the pass unblocks
    have hti : t = i := by
      by_contra hne
      change s2.blockedBy t = _ at hn
      rw [hres.blocked, wakeWaiter, blockedBy_setBlocked_ne (Ne.symm hne), blockedBy_setCondition, hb] at hn
      cases hn
    subst hti
    obtain ⟨c0, h1, -, h3⟩ := hq t cond' hb
    rw [hs.blocked] at hb
    cases hb
    rw [hs.object] at h1
    cases h1
    refine ⟨⟨id, h3.symm.trans hs.mutex, ?_⟩, fun u id' hu how hnow => ?_⟩
    · change s2.lockedBy id = _
      rw [lockedBy, hafter, if_pos rfl]
      rfl
    · obtain ⟨lock, hl, hlu⟩ := how
      change s2.lockedBy id' = _ at hl
      rw [lockedBy, hafter] at hl
      split_ifs at hl with hid
      · cases hl
        exact absurd hlu.symm hu
      · exact absurd ⟨lock, hl, hlu⟩ hnow

/-- a scan that stops at a thread which was not such a waiter -/
theorem first_stays (h : Considered initialThread now ⟨s, none, na, none⟩ i flow)
    (hready : s.ready initialThread now i = true) (hsig : ∀ cond c id, ¬ Signalled s i cond c id) :
    flow.All (fun _ => False) (fun sc => WaitersStay s sc.env) (WaitersStay s) := by
  have hset : ∀ {b : ThreadBlock}, s.blockedBy i = some b → (∀ cond, b ≠ .condition cond) →
      WaitersStay s (s.setBlocked i .notBlocked) := by
    intro b hb hne t cond ht
    rw [blockedBy_setBlocked_ne, ht]
    rintro rfl
    exact hne cond (Option.some.inj (hb.symm.trans ht))
  cases h with
  | skip na hr => exact absurd (hready.symm.trans hr) (by decide)
  | running hr hrun hb => exact fun t cond ht => ht
  | signalled hr hrun hs => exact absurd hs (hsig _ _ _)
  | returned hr hrun hb hi hs =>
    intro t cond ht
    rw [(switchThread_same (i := t) hs).2.2.2.1]
    exact hset hb (fun _ h => by cases h) t cond ht
  | woken hr hrun hw =>
    rename_i s1 relock
    have hstay : ∀ {b : ThreadBlock}, s.blockedBy i = some b → (∀ cond, b ≠ .condition cond) →
        WaitersStay s (s1.setBlocked i .notBlocked) := by
      intro b hb hne t cond ht
      have hs1 : (s1.setBlocked i .notBlocked).blockedBy t = (s.setBlocked i .notBlocked).blockedBy t := by
        rw [blockedBy_setBlocked, blockedBy_setBlocked, blockedBy, hw.frame.2.2.1]
        rfl
      exact hs1.trans (hset hb hne t cond ht)
    cases hw with
    | sleeping hb ht => exact hstay hb fun _ h => by cases h
    | mutex hb hl => exact hstay hb fun _ h => by cases h
    | semaphore hb hv hpos => exact hstay hb fun _ h => by cases h
    | joining hb => exact hstay hb fun _ h => by cases h

theorem Passed.scan (h : Passed initialThread now s res) :
    ∃ flow, Env.scan initialThread now (.start s) s.order = .ok flow ∧
      (flow.All (fun _ => False) (fun sc => WaitersStay s sc.env) (WaitersStay s) → WaitersStay s res.env) := by
  cases h with
  | retry hscan hidle => exact ⟨_, hscan, fun _ t cond ht => ht⟩
  | returned hscan hr => exact ⟨_, hscan, id⟩
  | resumed hscan hfired hend ht hsw hr =>
    rename_i sc0 sc t s1 s2
    have hp : Passed initialThread now s (.resumed s2) := .resumed hscan hfired hend ht hsw hr
    obtain ⟨sc0', sc', hscan', -, -, hres⟩ := hp.objects
    exact ⟨_, hscan', fun hstay t cond ht => (hres.blocked t).trans (hstay t cond ht)⟩

/-- **A pass wakes waiters with their mutexes** exactly if behind the first waiter that it wakes no thread is ready. -/
theorem wakes_iff (hq : Queued passed s) (h : Passed initialThread now s res) :
    WakesWithMutex passed s res.env ↔ Lone initialThread now s := by
  obtain ⟨flow, hflow, hstays⟩ := h.scan
  obtain ⟨na, hrest⟩ := scan_fromReady hflow
  cases hfr : fromReady initialThread now s with
  | nil =>
    rw [hfr] at hrest
    cases hrest
    refine ⟨fun _ i post cond c id hcons => ?_, fun _ => wakesWithMutex_of_stays (hstays fun t cond ht => ht)⟩
    rw [hfr] at hcons
    cases hcons
  | cons i post =>
    obtain ⟨hready, hi⟩ := fromReady_cons hfr
    rw [hfr] at hrest
    obtain ⟨flow1, h1, h2⟩ := bind_eq_ok.1 hrest
    have hc := candidate_cases h1
    by_cases hsig : ∃ cond c id, Signalled s i cond c id
    · obtain ⟨cond, c, id, hs⟩ := hsig
      -- the scan wakes the waiter and goes on behind it
      have hgo : Env.scan initialThread now ⟨s.wakeWaiter i cond c, some i, na, some id⟩ post = .ok flow := by
        have hother : ∀ b : ThreadBlock, s.blockedBy i = some b → b = .condition cond := fun b hb =>
          Option.some.inj (hb.symm.trans hs.blocked)
        cases hc with
        | skip na hr => exact absurd (hready.symm.trans hr) (by decide)
        | running hr hrun hb => cases hother _ hb
        | returned hr hrun hb => cases hother _ hb
        | woken hr hrun hw =>
          cases hw with
          | sleeping hb => cases hother _ hb
          | mutex hb => cases hother _ hb
          | semaphore hb => cases hother _ hb
          | joining hb => cases hother _ hb
        | signalled hr hrun hs' =>
          obtain ⟨rfl, rfl⟩ := hs.unique hs'
          have hid := hs'.mutex
          rw [hs.mutex] at hid
          cases hid
          exact h2
      by_cases hbehind : ∃ k ∈ post, (s.wakeWaiter i cond c).ready initialThread now k = true
      · obtain ⟨hwoken, hnot⟩ := overtaken h hs (Ready.runnable hready) hi (fun flow' hf => by
          rw [hflow] at hf
          cases hf
          exact hgo) hbehind
        obtain ⟨k, hk, hkready⟩ := hbehind
        refine ⟨fun hwakes => ?_, fun hlone => ?_⟩
        · obtain ⟨⟨id', hpassed, howner⟩, -⟩ := hwakes i cond hs.blocked hwoken
          obtain ⟨c0, h3, -, h4⟩ := hq i cond hs.blocked
          rw [hs.object] at h3
          cases h3
          rw [← h4, hs.mutex] at hpassed
          cases hpassed
          exact absurd howner hnot
        · rw [hlone i post cond c id hfr hs k hk] at hkready
          cases hkready
      · have hnone : ∀ k ∈ post, (s.wakeWaiter i cond c).ready initialThread now k = false := fun k hk =>
          Bool.not_eq_true _ ▸ fun hready' => hbehind ⟨k, hk, hready'⟩
        rw [← List.append_nil post] at hgo
        obtain ⟨na', hend⟩ := scan_skip ⟨s.wakeWaiter i cond c, some i, na, some id⟩ hnone hgo
        cases hend
        refine ⟨fun _ i' post' cond' c' id' hcons hs' => ?_, fun _ => lone_wakes na' hq h hs fun flow' hf => ?_⟩
        · rw [hfr] at hcons
          cases hcons
          obtain ⟨rfl, rfl⟩ := hs.unique hs'
          exact hnone
        · rw [hflow] at hf
          cases hf
          rfl
    · have hnot : ∀ cond c id, ¬ Signalled s i cond c id := fun cond c id hs => hsig ⟨cond, c, id, hs⟩
      have hfirst := first_stays hc hready hnot
      refine ⟨fun _ i' post' cond c id hcons hs => ?_, fun _ => wakesWithMutex_of_stays (hstays ?_)⟩
      · rw [hfr] at hcons
        cases hcons
        exact absurd hs (hnot cond c id)
      · cases flow1 with
        | next sc1 => exact hfirst.elim
        | stop sc1 => cases h2; exact hfirst
        | returned s1 => cases h2; exact hfirst

/-! ## Over a run -/

/-- a step that is not a pass wakes no waiter -/
theorem step_waitersStay (hs : Sound e) (h : e.step o = .ok e') (ho : ∀ now, o ≠ .schedule now) :
    WaitersStay e.env e'.env := by
  have hsynced := step_synced hs h
  generalize e'.env = s' at hsynced
  generalize e.env = s at hsynced
  intro t cond ht
  cases hsynced with
  | quiet _ hb _ _ _ => exact (hb t).trans ht
  | deferred hn => exact blockedBy_setBlocked_of_ne hn ht fun h => nomatch h
  | host ha => exact ha.blocked ht fun h => nomatch h
  | resumed => exact absurd rfl (ho _)
  | returned => exact absurd rfl (ho _)

/-- a pass in a state of the machine -/
theorem schedule_passed (h : e.step (.schedule now) = .ok e') :
    ∃ initialThread root was rest res, e.frames = .runInner initialThread root was :: rest ∧
      Passed initialThread now e.env res ∧ (∀ t, e'.env.blockedBy t = res.env.blockedBy t) ∧
      ∀ id, e'.env.lockedBy id = res.env.lockedBy id := by
  cases Emulator.step_cases h with
  | resumed hm hf hp => exact ⟨_, _, _, _, _, hf, hp, fun _ => rfl, fun _ => rfl⟩
  | retry hm hf hp => exact ⟨_, _, _, _, _, hf, hp, fun _ => rfl, fun _ => rfl⟩
  | unwound hm hf hp he =>
    refine ⟨_, _, _, _, _, hf, hp, ?_⟩
    obtain ⟨-, rfl⟩ | ⟨-, -, rfl⟩ := he
    · exact ⟨fun _ => rfl, fun _ => rfl⟩
    · exact ⟨fun _ => blockedBy_setInHost, fun _ => rfl⟩

/-- the condition of a step: a pass finds no thread that is ready behind the first waiter that it wakes -/
def LoneAt (n : Noted) : Op → Prop
  | .schedule now => ∀ initialThread root was rest, n.emulator.frames = .runInner initialThread root was :: rest →
      Lone initialThread now n.emulator.env
  | _ => True

/-- **Waiters for condition variables resume as owners of their mutexes** along a run exactly if no pass of it finds a
ready thread behind the first waiter that it wakes. -/
theorem condition_waits_iff (mem : Mem) (cpu : CpuContext) (ops : List Op) :
    Along Noted.step (fun n _ n' => WakesWithMutex n.passed n.emulator.env n'.emulator.env) (.new mem cpu) ops ↔
      Along Noted.step (fun n o _ => LoneAt n o) (.new mem cpu) ops := by
  refine along_iff (I := fun n => Sound n.emulator ∧ Queued n.passed n.emulator.env) ?_ ?_ ⟨sound_new mem cpu, ?_⟩
  · intro n o n' hI h
    refine ⟨?_, queued_step hI.1 hI.2 h⟩
    obtain ⟨e, h1, h⟩ := bind_eq_ok.1 h
    cases h
    exact sound_step hI.1 h1
  · intro n o n' hI h
    obtain ⟨e, h1, h⟩ := bind_eq_ok.1 h
    cases h
    change WakesWithMutex n.passed n.emulator.env e.env ↔ LoneAt n o
    by_cases ho : ∃ now, o = .schedule now
    · obtain ⟨now, rfl⟩ := ho
      obtain ⟨initialThread, root, was, rest, res, hf, hp, hb, hl⟩ := schedule_passed h1
      have hlone : LoneAt n (.schedule now) ↔ Lone initialThread now n.emulator.env := by
        refine ⟨fun hall => hall _ _ _ _ hf, fun hone i r w fs hf' => ?_⟩
        rw [hf] at hf'
        cases hf'
        exact hone
      rw [hlone, ← wakes_iff hI.2 hp]
      simp only [WakesWithMutex, OwnedBy, hb, hl]
    · have hlone : LoneAt n o := by
        unfold LoneAt
        split
        · exact absurd ⟨_, rfl⟩ ho
        · trivial
      have hstay := step_waitersStay hI.1 h1 fun now hn => ho ⟨now, hn⟩
      exact ⟨fun _ => hlone, fun _ => wakesWithMutex_of_stays hstay⟩
  · intro t cond ht
    cases t <;> cases ht

/-- **The failing run.** Thread 1 waits for a condition variable; the main thread locks the mutex, signals and unlocks.
The pass wakes thread 1 and goes on to the main thread, which is not blocked: the main thread is made the owner. -/
def stealingRun : List Op :=
  [.host (.newThread ⟨⟨0x2001⟩⟩ ⟨⟨0x3000⟩⟩ 7 0x10000 0x1000), .host (.initMutex .normal), .host (.condInit 0x6000), .run,
    .outOfTicks, .schedule fun _ => 0, .svc, .host (.lockMutex 0), .host (.condWait 0x6000 0), .hostReturn,
    .schedule fun _ => 0, .svc, .host (.lockMutex 0), .host (.condSignal 0x6000), .host (.unlockMutex 0), .hostReturn,
    .outOfTicks]

theorem signal_steals_mutex :
    ¬ Along Noted.step (fun n _ n' => WakesWithMutex n.passed n.emulator.env n'.emulator.env)
      (.new { bytes := fun _ => 0, nullSegmentSize := 0x1000 } .new) (stealingRun ++ [.schedule fun _ => 0]) := by
  intro h
  obtain ⟨⟨id, hid, howner⟩, -⟩ := h.at stealingRun [] rfl rfl 1 0x6000 rfl rfl
  cases hid
  revert howner
  decide

end Env

end TouchHLE
