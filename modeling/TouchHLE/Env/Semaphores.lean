/-
Counting semaphores (`libc/semaphore.rs`): a wait takes a unit at once, or it blocks and a scheduler pass takes the unit
when it unblocks the thread.

- `semValue`: the value of a semaphore; `postsIn`, `waitsIn`: the posts and the completed waits of a step.
- `Passed.units`: a pass takes a unit and unblocks the one thread that gets it, or it does neither.
- `semValue_step`: a step changes the value by its posts and its completed waits.
- `semaphore_counts`: over every run.
-/
import TouchHLE.Env.Threads

namespace TouchHLE

open Machine

namespace Env

variable {s s' : Env} {e e' : Emulator} {o : Op} {t : ThreadId} {sem : GuestPtr} {op : HostOp}
  {now : ThreadId → Instant} {initialThread : ThreadId} {sem' : GuestPtr} {v : Semaphore}

def semValue (sem : GuestPtr) (s : Env) : ℤ := ((s.openSemaphores sem).map Semaphore.value).getD 0

/-- `sem_decrement` takes a unit and does not block the thread -/
def takesNow (s : Env) (sem : GuestPtr) (waitOnLock : Bool) : Bool :=
  match s.semDecrement sem waitOnLock with
  | .ok (true, s') => s'.blockedBy s.currentThread == s.blockedBy s.currentThread
  | _ => false

/-- the scheduler unblocks a thread that waited for the semaphore -/
def wokenFrom (sem : GuestPtr) (s s' : Env) (t : ThreadId) : Bool :=
  s.blockedBy t = some (.semaphore sem) && s'.blockedBy t ≠ some (.semaphore sem)

/-- the waits for the semaphore that a step completes: at once, or one for each thread that is unblocked -/
def waitsIn (sem : GuestPtr) (s : Env) (o : Op) (s' : Env) : ℤ :=
  match o with
  | .host (.semWait sem') => if sem' = sem ∧ s.takesNow sem' true = true then 1 else 0
  | .host (.semTrywait sem') => if sem' = sem ∧ s.takesNow sem' false = true then 1 else 0
  | .schedule _ => (List.range s.threads.length).countP (wokenFrom sem s s')
  | _ => 0

def postsIn (sem : GuestPtr) (o : Op) : ℤ :=
  match o with
  | .host (.semPost sem') => if sem' = sem then 1 else 0
  | _ => 0

/-- the semaphore stays open -/
def KeepsOpen (sem : GuestPtr) : Op → Prop
  | .host (.semDestroy sem') => sem' ≠ sem
  | _ => True

/-- the semaphore is open, and its value is not negative -/
def OpenNonneg (sem : GuestPtr) (s : Env) : Prop := ∃ v, s.openSemaphores sem = some v ∧ 0 ≤ v.value

/-- the invariant of a semaphore -/
structure Counting (sem : GuestPtr) (e : Emulator) : Prop where
  sound : Sound e
  isOpen : OpenNonneg sem e.env

theorem semValue_eq_of_semaphores (h : s'.openSemaphores sem = s.openSemaphores sem) :
    semValue sem s' = semValue sem s := by
  rw [semValue, semValue, h]

theorem semValue_of_semaphore (h : s.openSemaphores sem = some v) : semValue sem s = v.value := by
  rw [semValue, h]
  rfl

/-! ## Passes -/

/-- **A pass takes a unit and lets one thread through**, or it takes none and lets no thread through. -/
theorem Passed.units (h : Passed initialThread now s (.resumed s')) :
    (s'.openSemaphores = s.openSemaphores ∧
        ∀ t sem, s.blockedBy t = some (.semaphore sem) → s'.blockedBy t = some (.semaphore sem)) ∨
      ∃ sem v, s.blockedBy s'.currentThread = some (.semaphore sem) ∧ s.openSemaphores sem = some v ∧ 0 < v.value ∧
        s'.blockedBy s'.currentThread = some .notBlocked ∧
        (∀ sem', s'.openSemaphores sem' = if sem' = sem then
          some { v with value := v.value - 1, waiting := v.waiting.erase s.currentThread } else s.openSemaphores sem') ∧
        ∀ t sem', t ≠ s'.currentThread → s.blockedBy t = some (.semaphore sem') →
          s'.blockedBy t = some (.semaphore sem') := by
  have hnot := h.same.2.2.2
  obtain ⟨sc0, sc, -, hfired, hend, hres⟩ := h.objects
  obtain ⟨-, hsem0, hcur0, hblocked0⟩ := hfired.frame
  -- before its end the scan has not touched a thread that waits for a semaphore
  have hstays : ∀ t sem, s.blockedBy t = some (.semaphore sem) → sc0.env.blockedBy t = some (.semaphore sem) := by
    intro t sem ht
    rcases hblocked0 t with heq | ⟨-, cond, hcond⟩
    · exact heq.trans ht
    · rw [ht] at hcond
      cases hcond
  cases hend with
  | exhausted =>
    refine Or.inl ⟨hres.semaphores.trans hsem0, fun t sem ht => ?_⟩
    rw [hres.blocked]
    exact hstays t sem ht
  | running hrun hb =>
    refine Or.inl ⟨hres.semaphores.trans hsem0, fun t sem ht => ?_⟩
    rw [hres.blocked]
    exact hstays t sem ht
  | woken hrun hw =>
    rename_i i s1 relock
    cases hres.suitable
    have hbefore : ∀ t sem, t ≠ s'.currentThread → s.blockedBy t = some (.semaphore sem) →
        s'.blockedBy t = some (.semaphore sem) := by
      intro t sem hne ht
      rw [hres.blocked]
      change (s1.setBlocked s'.currentThread .notBlocked).blockedBy t = _
      rw [blockedBy_setBlocked_ne (Ne.symm hne), blockedBy, hw.frame.2.2.1]
      exact hstays t sem ht
    -- a thread that was waiting for something else
    have hother : ∀ b, sc0.env.blockedBy s'.currentThread = some b → (∀ sem, b ≠ .semaphore sem) →
        s1.openSemaphores = sc0.env.openSemaphores → s'.openSemaphores = s.openSemaphores ∧
          ∀ t sem, s.blockedBy t = some (.semaphore sem) → s'.blockedBy t = some (.semaphore sem) := by
      intro b hb hne hsem1
      refine ⟨hres.semaphores.trans (hsem1.trans hsem0), fun t sem ht => hbefore t sem ?_ ht⟩
      rintro rfl
      exact hne sem (Option.some.inj (hb.symm.trans (hstays _ sem ht)))
    cases hw with
    | sleeping hb ht => exact Or.inl (hother _ hb (fun _ h => by cases h) rfl)
    | mutex hb hl => exact Or.inl (hother _ hb (fun _ h => by cases h) rfl)
    | joining hb => exact Or.inl (hother _ hb (fun _ h => by cases h) rfl)
    | semaphore hb hv hpos =>
      rename_i sem v
      have hwas : s.blockedBy s'.currentThread = some (.semaphore sem) := by
        rcases hblocked0 s'.currentThread with heq | ⟨hn, -⟩
        · exact heq.symm.trans hb
        · rw [hb] at hn
          cases hn
      refine Or.inr ⟨sem, v, hwas, hsem0 ▸ hv, hpos, hnot, fun sem' => ?_, hbefore⟩
      rw [hres.semaphores]
      change (sc0.env.setSemaphore sem _).openSemaphores sem' = _
      rw [semaphores_setSemaphore, hsem0, hcur0]

/-! ## What a step completes -/

theorem takesNow_eq {waitOnLock : Bool} (hv : s.openSemaphores sem = some v) :
    s.takesNow sem waitOnLock = decide (0 < v.value) := by
  unfold takesNow
  cases hd : s.semDecrement sem waitOnLock with
  | error err =>
    -- a wait that fails has not found a unit
    have hpos : ¬ 0 < v.value := by
      intro hpos
      simp [semDecrement, getSemaphore_ok.2 hv, hpos] at hd
    simp [hpos]
  | ok p =>
    obtain ⟨r, s1⟩ := p
    obtain ⟨v', hv', ⟨hpos, rfl, rfl⟩ | ⟨-, hpos, rfl, -⟩ | ⟨-, hpos, rfl, hn, rfl⟩⟩ := semDecrement_cases hd
    · rw [hv] at hv'
      cases hv'
      simp [hpos]
    · rw [hv] at hv'
      cases hv'
      simp [Int.not_lt.2 hpos]
    · rw [hv] at hv'
      cases hv'
      simp [Int.not_lt.2 hpos, blockedBy_setBlocked, hn]

/-- whether the operation works on a semaphore -/
def HostOp.onSemaphore : HostOp → Bool
  | .semInit _ _ | .semDestroy _ | .semPost _ | .semWait _ | .semTrywait _ => true
  | _ => false

theorem semValue_setSemaphore :
    semValue sem (s.setSemaphore sem' (some v)) = if sem' = sem then v.value else semValue sem s := by
  split_ifs with h
  · rw [h, semValue_of_semaphore (by rw [semaphores_setSemaphore, if_pos rfl])]
  · exact semValue_eq_of_semaphores (by rw [semaphores_setSemaphore, if_neg (Ne.symm h)])

theorem waitsIn_semWait : waitsIn sem s (.host (.semWait sem')) s' =
    if sem' = sem ∧ s.takesNow sem' true = true then 1 else 0 := rfl

theorem waitsIn_semTrywait : waitsIn sem s (.host (.semTrywait sem')) s' =
    if sem' = sem ∧ s.takesNow sem' false = true then 1 else 0 := rfl

theorem postsIn_semWait : postsIn sem (.host (.semWait sem')) = 0 := rfl

theorem postsIn_semTrywait : postsIn sem (.host (.semTrywait sem')) = 0 := rfl

/-- **Host code**: the value grows by a post, and shrinks by a wait that takes a unit at once. -/
theorem Applied.semValue (h : Applied s op s') (hop : KeepsOpen sem (.host op))
    (hopen : ∃ v, s.openSemaphores sem = some v) :
    Env.semValue sem s' + waitsIn sem s (.host op) s' = Env.semValue sem s + postsIn sem (.host op) := by
  cases h with
  | semPost hv =>
    rename_i sem' v
    change _ + 0 = _ + if sem' = sem then 1 else 0
    rw [semValue_setSemaphore, add_zero]
    split_ifs with hs
    · rw [← hs, semValue_of_semaphore hv]
    · rw [add_zero]
  | semWaits hv hpos =>
    rename_i sem' v
    rw [waitsIn_semWait, semValue_setSemaphore, takesNow_eq hv, decide_eq_true hpos, postsIn_semWait, add_zero]
    by_cases hs : sem' = sem
    · rw [if_pos hs, if_pos ⟨hs, rfl⟩, ← hs, semValue_of_semaphore hv, sub_add_cancel]
    · rw [if_neg hs, if_neg fun h => hs h.1, add_zero]
  | semTries hv hpos =>
    rename_i sem' v
    rw [waitsIn_semTrywait, semValue_setSemaphore, takesNow_eq hv, decide_eq_true hpos, postsIn_semTrywait, add_zero]
    by_cases hs : sem' = sem
    · rw [if_pos hs, if_pos ⟨hs, rfl⟩, ← hs, semValue_of_semaphore hv, sub_add_cancel]
    · rw [if_neg hs, if_neg fun h => hs h.1, add_zero]
  | semFails hv hpos =>
    rw [waitsIn_semTrywait, takesNow_eq hv, decide_eq_false (Int.not_lt.2 hpos), if_neg fun h => (nomatch h.2),
      postsIn_semTrywait]
  | semBlocks hv hpos hn =>
    rename_i sem' v
    have hsame : Env.semValue sem (s.setSemaphore sem' (some { v with waiting := insert s.currentThread v.waiting })) =
        Env.semValue sem s := by
      rw [semValue_setSemaphore]
      split_ifs with hs
      · rw [← hs, semValue_of_semaphore hv]
      · rfl
    rw [waitsIn_semWait, takesNow_eq hv, decide_eq_false (Int.not_lt.2 hpos), if_neg fun h => (nomatch h.2),
      postsIn_semWait]
    exact congrArg (· + 0) hsame
  | semInit hv =>
    rename_i sem' value
    change _ + 0 = _ + 0
    rw [semValue_setSemaphore, if_neg]
    rintro rfl
    obtain ⟨v, hv'⟩ := hopen
    rw [hv] at hv'
    cases hv'
  | semDestroy =>
    rename_i sem'
    have hne : sem' ≠ sem := hop
    exact congrArg (· + 0) (semValue_eq_of_semaphores (by rw [semaphores_setSemaphore, if_neg hne.symm]))
  | semInitAgain hv => rfl
  | lockFree hr hm hl hs => exact hs ▸ rfl
  | lockAgain hr hm hl ho hs => exact hs ▸ rfl
  | lockBlocks hr hm hl ho hn hs => exact hs ▸ rfl
  | unlocked hr =>
    exact congrArg (· + 0) (semValue_eq_of_semaphores (congrFun (unlockMutex_frame hr).2.2.2.1 sem))
  | condWait hu hn hc hm =>
    exact congrArg (· + 0) (semValue_eq_of_semaphores (congrFun (unlockMutex_frame hu).2.2.2.1 sem))
  | _ => rfl

theorem countP_wokenFrom_zero {n : ℕ}
    (h : ∀ t, s.blockedBy t = some (.semaphore sem) → s'.blockedBy t = some (.semaphore sem)) :
    (List.range n).countP (wokenFrom sem s s') = 0 := by
  rw [List.countP_eq_zero]
  intro t _ hw
  have hw' : s.blockedBy t = some (.semaphore sem) ∧ s'.blockedBy t ≠ some (.semaphore sem) := by
    simpa [wokenFrom] using hw
  exact hw'.2 (h t hw'.1)

/-- **A pass** takes as many units as it lets threads through. -/
theorem Passed.semValue (h : Passed initialThread now s (.resumed s')) :
    Env.semValue sem s' + (List.range s.threads.length).countP (wokenFrom sem s s') = Env.semValue sem s := by
  rcases h.units with ⟨hsem, hstays⟩ | ⟨sem', v, hb, hv, -, hn, hsem, hstays⟩
  · rw [countP_wokenFrom_zero fun t => hstays t sem, semValue_eq_of_semaphores (congrFun hsem sem), Nat.cast_zero, add_zero]
  · by_cases hs : sem = sem'
    · subst hs
      have hlt : s'.currentThread < s.threads.length := by
        obtain ⟨th, h1, -⟩ := Option.map_eq_some_iff.1 hb
        exact (List.getElem?_eq_some_iff.1 h1).1
      have hone : (List.range s.threads.length).countP (wokenFrom sem s s') = 1 := by
        refine countP_eq_one (c := s'.currentThread) (by rwa [List.length_range]) fun i a hi => ?_
        have hia : a = i := by
          obtain ⟨hlt', rfl⟩ := List.getElem?_eq_some_iff.1 hi
          exact List.getElem_range _
        subst hia
        constructor
        · intro hw
          by_contra hne
          have hw' : s.blockedBy a = some (.semaphore sem) ∧ s'.blockedBy a ≠ some (.semaphore sem) := by
            simpa [wokenFrom] using hw
          exact hw'.2 (hstays a sem hne hw'.1)
        · rintro rfl
          simp [wokenFrom, hb, hn]
      rw [hone, semValue_of_semaphore ((hsem sem).trans (if_pos rfl)), semValue_of_semaphore hv, Nat.cast_one,
        sub_add_cancel]
    · rw [countP_wokenFrom_zero fun t ht => ?_, semValue_eq_of_semaphores ((hsem sem).trans (if_neg hs)), Nat.cast_zero,
        add_zero]
      refine hstays t sem ?_ ht
      rintro rfl
      rw [hb] at ht
      cases ht
      exact hs rfl

/-- **A step changes the value** by its posts and by the waits that it completes. -/
theorem semValue_step (ho : KeepsOpen sem o) (h : Counting sem e) (hs : e.step o = .ok e') :
    semValue sem e'.env + waitsIn sem e.env o e'.env = semValue sem e.env + postsIn sem o := by
  have hsynced := step_synced h.sound hs
  have hopen : ∃ v, e.env.openSemaphores sem = some v := h.isOpen.imp fun _ => And.left
  generalize e'.env = s' at hsynced
  generalize e.env = s at hsynced hopen
  cases hsynced with
  | quiet hno hb _ hsem _ =>
    have hwaits : waitsIn sem s o s' = 0 := by
      unfold waitsIn
      split
      · exact absurd rfl (hno _)
      · exact absurd rfl (hno _)
      · rw [countP_wokenFrom_zero fun t ht => (hb t).trans ht, Nat.cast_zero]
      · rfl
    have hposts : postsIn sem o = 0 := by
      unfold postsIn
      split
      · exact absurd rfl (hno _)
      · rfl
    rw [hwaits, hposts, semValue_eq_of_semaphores (congrFun hsem sem)]
  | deferred hn => rfl
  | host ha => exact ha.semValue ho hopen
  | resumed hp =>
    change semValue sem s' + _ = semValue sem s + 0
    rw [add_zero]
    exact hp.semValue
  | returned hfired hd hm hsem hcond hb =>
    rename_i now initialThread sc
    obtain ⟨-, hsem0, -, hblocked0⟩ := hfired.frame
    change semValue sem s' + ((List.range s.threads.length).countP (wokenFrom sem s s') : ℤ) = semValue sem s + 0
    rw [countP_wokenFrom_zero fun t ht => ?_, semValue_eq_of_semaphores (congrFun (hsem.trans hsem0) sem), Nat.cast_zero]
    have hstays : sc.env.blockedBy t = some (.semaphore sem) := by
      rcases hblocked0 t with heq | ⟨-, cond, hc⟩
      · exact heq.trans ht
      · rw [ht] at hc
        cases hc
    rw [hb, if_neg, hstays]
    rintro rfl
    rw [hd] at hstays
    cases hstays

/-! ## The invariant -/

theorem OpenNonneg.setSemaphore (h : OpenNonneg sem s) (hv : 0 ≤ v.value) :
    OpenNonneg sem (s.setSemaphore sem' (some v)) := by
  unfold OpenNonneg
  rw [semaphores_setSemaphore]
  split_ifs
  · exact ⟨v, rfl, hv⟩
  · exact h

theorem OpenNonneg.value (h : OpenNonneg sem s) (hv : s.openSemaphores sem = some v) : 0 ≤ v.value := by
  obtain ⟨v', hv', hnn⟩ := h
  rw [hv] at hv'
  cases hv'
  exact hnn

theorem Applied.openNonneg (h : Applied s op s') (hop : KeepsOpen sem (.host op)) (hs : OpenNonneg sem s) :
    OpenNonneg sem s' := by
  cases h with
  | semPost hv =>
    rename_i sem' v
    by_cases heq : sem' = sem
    · subst heq
      exact hs.setSemaphore (Int.add_nonneg (hs.value hv) Int.one_nonneg)
    · obtain ⟨v1, hv1, hnn⟩ := hs
      exact ⟨v1, by rw [semaphores_setSemaphore, if_neg (Ne.symm heq), hv1], hnn⟩
  | semWaits hv hpos => exact hs.setSemaphore (Int.sub_nonneg_of_le hpos)
  | semTries hv hpos => exact hs.setSemaphore (Int.sub_nonneg_of_le hpos)
  | semBlocks hv hpos hn =>
    rename_i sem' v
    change OpenNonneg sem (s.setSemaphore sem' _)
    by_cases heq : sem' = sem
    · subst heq
      have hnn : 0 ≤ v.value := hs.value hv
      exact hs.setSemaphore hnn
    · obtain ⟨v1, hv1, hnn⟩ := hs
      exact ⟨v1, by rw [semaphores_setSemaphore, if_neg (Ne.symm heq), hv1], hnn⟩
  | semInit hv =>
    rename_i sem' value
    obtain ⟨v1, hv1, hnn⟩ := hs
    refine ⟨v1, ?_, hnn⟩
    rw [semaphores_setSemaphore, if_neg, hv1]
    rintro rfl
    rw [hv] at hv1
    cases hv1
  | semDestroy =>
    have hne : _ ≠ sem := hop
    obtain ⟨v1, hv1, hnn⟩ := hs
    exact ⟨v1, by rw [semaphores_setSemaphore, if_neg hne.symm, hv1], hnn⟩
  | semInitAgain hv => exact hs
  | semFails hv hpos => exact hs
  | lockFree hr hm hl heq => exact heq ▸ hs
  | lockAgain hr hm hl ho heq => exact heq ▸ hs
  | lockBlocks hr hm hl ho hn heq => exact heq ▸ hs
  | unlocked hr =>
    rw [OpenNonneg, (unlockMutex_frame hr).2.2.2.1]
    exact hs
  | condWait hu hn hc hm =>
    have hsame := (unlockMutex_frame hu).2.2.2.1
    obtain ⟨v1, hv1, hnn⟩ := hs
    exact ⟨v1, (congrFun hsame sem).trans hv1, hnn⟩
  | _ => exact hs

theorem counting_step (ho : KeepsOpen sem o) (h : Counting sem e) (hs : e.step o = .ok e') : Counting sem e' := by
  refine ⟨sound_step h.sound hs, ?_⟩
  have hsynced := step_synced h.sound hs
  have hopen : OpenNonneg sem e.env := h.isOpen
  change OpenNonneg sem e'.env
  generalize e'.env = s' at hsynced
  generalize e.env = s at hsynced hopen
  cases hsynced with
  | quiet _ _ _ hsem _ =>
    rw [OpenNonneg, hsem]
    exact hopen
  | deferred hn => exact hopen
  | host ha => exact ha.openNonneg ho hopen
  | resumed hp =>
    rcases hp.units with ⟨hsem, -⟩ | ⟨sem', v, -, hv, hpos, -, hsem, -⟩
    · rw [OpenNonneg, hsem]
      exact hopen
    · rw [OpenNonneg, hsem]
      split_ifs
      · exact ⟨_, rfl, Int.sub_nonneg_of_le hpos⟩
      · exact hopen
  | returned hfired _ _ hsem _ _ =>
    rw [OpenNonneg, hsem, hfired.frame.2.1]
    exact hopen

/-- **A blocked wait completes in a pass**, and takes the one unit that the pass takes: no other thread is let through. -/
theorem Counting.wake (h : Counting sem e) (hs : e.step o = .ok e') (hb : e.env.blockedBy t = some (.semaphore sem))
    (hb' : e'.env.blockedBy t ≠ some (.semaphore sem)) :
    (∃ now, o = .schedule now) ∧ e'.env.blockedBy t = some .notBlocked ∧ 0 < semValue sem e.env ∧
      semValue sem e'.env = semValue sem e.env - 1 ∧
      ∀ u, u ≠ t → e.env.blockedBy u = some (.semaphore sem) → e'.env.blockedBy u = some (.semaphore sem) := by
  have hsynced := step_synced h.sound hs
  generalize e'.env = s' at hsynced hb' ⊢
  generalize e.env = s at hsynced hb ⊢
  cases hsynced with
  | quiet _ hsame _ _ _ => exact absurd ((hsame t).trans hb) hb'
  | deferred hn => exact absurd (blockedBy_setBlocked_of_ne hn hb fun h => nomatch h) hb'
  | host ha => exact absurd (ha.blocked hb fun h => nomatch h) hb'
  | resumed hp =>
    rcases hp.units with ⟨-, hstays⟩ | ⟨sem', v, hwas, hv, hpos, hn, hsem, hstays⟩
    · exact absurd (hstays t sem hb) hb'
    · have ht : t = s'.currentThread := by
        by_contra hne
        exact hb' (hstays t sem hne hb)
      subst ht
      rw [hb] at hwas
      cases hwas
      refine ⟨⟨_, rfl⟩, hn, ?_, ?_, fun u hu => hstays u sem hu⟩
      · rw [semValue_of_semaphore hv]
        exact hpos
      · rw [semValue_of_semaphore hv, semValue_of_semaphore ((hsem sem).trans (if_pos rfl))]
  | returned hfired hd hm hsem hcond hafter =>
    rename_i now initialThread sc
    have hstays : sc.env.blockedBy t = some (.semaphore sem) := by
      rcases hfired.frame.2.2.2 t with heq | ⟨-, cond, hc⟩
      · exact heq.trans hb
      · rw [hb] at hc
        cases hc
    rw [hafter, if_neg] at hb'
    · exact absurd hstays hb'
    · rintro rfl
      rw [hd] at hstays
      cases hstays

/-! ## Over a run -/

def postsOver (sem : GuestPtr) (e : Emulator) (ops : List Op) : ℤ :=
  tally Emulator.step (fun _ o _ => postsIn sem o) e ops

/-- the waits for the semaphore that a run completes -/
def waitsOver (sem : GuestPtr) (e : Emulator) (ops : List Op) : ℤ :=
  tally Emulator.step (fun e o e' => waitsIn sem e.env o e'.env) e ops

/-- **Semaphores count.** From any reachable state `e0` in which a semaphore is open, with a value that is not negative,
through any run that does not destroy it: its value stays nonnegative, and is what it was in `e0` plus the posts, less
the waits that have completed. A wait that has blocked completes exactly when the scheduler unblocks its thread, and
then it takes a unit that no other thread gets. -/
theorem semaphore_counts (sem : GuestPtr) (mem : Mem) (cpu : CpuContext) (pre ops : List Op) {e0 e : Emulator}
    {v0 : Semaphore} (hpre : run Emulator.step (.new mem cpu) pre = .ok e0) (hopen : e0.env.openSemaphores sem = some v0)
    (hv0 : 0 ≤ v0.value) (hops : ∀ o ∈ ops, KeepsOpen sem o) (hr : run Emulator.step e0 ops = .ok e) :
    ∃ v, e.env.openSemaphores sem = some v ∧ 0 ≤ v.value ∧
      v.value = v0.value + postsOver sem e0 ops - waitsOver sem e0 ops ∧
      ∀ o e' t, KeepsOpen sem o → e.step o = .ok e' → e.env.blockedBy t = some (.semaphore sem) →
        e'.env.blockedBy t ≠ some (.semaphore sem) →
        (∃ now, o = .schedule now) ∧ e'.env.blockedBy t = some .notBlocked ∧ 0 < v.value ∧
          (∃ v', e'.env.openSemaphores sem = some v' ∧ v'.value = v.value - 1) ∧
          ∀ u, u ≠ t → e.env.blockedBy u = some (.semaphore sem) → e'.env.blockedBy u = some (.semaphore sem) := by
  have h0 : Counting sem e0 := ⟨sound_run hpre, v0, hopen, hv0⟩
  have hinv : ∀ e o e', KeepsOpen sem o → Counting sem e → e.step o = .ok e' → Counting sem e' :=
    fun _ _ _ ho h hs => counting_step ho h hs
  have h := run_inv_mem hinv h0 hops hr
  have hbalance := tally_balance (q := fun e => semValue sem e.env) (f := fun _ o _ => postsIn sem o)
    (g := fun e o e' => waitsIn sem e.env o e'.env) hinv (fun _ _ _ ho h hs => semValue_step ho h hs) h0 hops hr
  obtain ⟨v, hv, hnn⟩ := h.isOpen
  refine ⟨v, hv, hnn, ?_, fun o e' t ho hs hb hb' => ?_⟩
  · rw [← semValue_of_semaphore hv, ← semValue_of_semaphore hopen]
    exact eq_sub_of_add_eq hbalance
  · obtain ⟨ho', hn, hpos, hval, hothers⟩ := h.wake hs hb hb'
    obtain ⟨v', hv', -⟩ := (counting_step ho h hs).isOpen
    rw [semValue_of_semaphore hv] at hpos hval
    rw [semValue_of_semaphore hv'] at hval
    exact ⟨ho', hn, hpos, ⟨v', hv', hval⟩, hothers⟩

/-- thread 1 waits for a unit, the main thread posts one -/
theorem semaphore_counts_handover : ∃ e0 e v, run Emulator.step .start
      [.host (.newThread ⟨⟨0x2001⟩⟩ ⟨⟨0x3000⟩⟩ 7 0x10000 0x1000), .host (.semInit 0x5000 0), .run, .outOfTicks,
        .schedule fun _ => 0] = .ok e0 ∧
    run Emulator.step e0
      [.svc, .host (.semWait 0x5000), .hostReturn, .schedule fun _ => 0, .svc, .host (.semPost 0x5000), .hostReturn,
        .outOfTicks, .schedule fun _ => 0] = .ok e ∧
    e.env.currentThread = 1 ∧ e.env.openSemaphores 0x5000 = some v ∧ 0 ≤ v.value ∧ v.value = 0 + 1 - 1 := by
  obtain ⟨v, hv, hnn, hval, -⟩ := semaphore_counts 0x5000
    { bytes := fun _ => 0, nullSegmentSize := 0x1000 } .new
    [.host (.newThread ⟨⟨0x2001⟩⟩ ⟨⟨0x3000⟩⟩ 7 0x10000 0x1000), .host (.semInit 0x5000 0), .run, .outOfTicks,
      .schedule fun _ => 0]
    [.svc, .host (.semWait 0x5000), .hostReturn, .schedule fun _ => 0, .svc, .host (.semPost 0x5000),
      .hostReturn, .outOfTicks, .schedule fun _ => 0] rfl rfl (by decide) (by simp [KeepsOpen]) rfl
  exact ⟨_, _, v, rfl, rfl, rfl, hv, hnn, hval⟩

end Env

end TouchHLE
