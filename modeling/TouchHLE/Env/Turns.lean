/-
Whether every thread gets its turn: the scan of `Environment::run_inner` starts behind the current thread, so it cannot
pass over a thread that is not blocked.

- `turnsBefore`: the threads that the scan comes to before a thread. `order_split`: the scan's order, up to the thread.
- `scan_stops`, `pass_turns`: a pass takes the thread itself or one before it.
- `step_turns`: a step, also one that creates a thread. `bounded_bypass`: runs.
-/
import TouchHLE.Env.Threads

namespace TouchHLE

open Machine

namespace Env

variable {s s' : Env} {sc : Scan} {flow : Flow} {initialThread t : ThreadId} {now : ThreadId → Instant}
  {e e' : Emulator} {o : Op} {ops : List Op}

/-- a thread that could execute guest code and is not blocked, but is not the current one -/
def Waits (t : ThreadId) (e : Emulator) : Prop :=
  e.env.Runnable t ∧ e.env.blockedBy t = some .notBlocked ∧ e.env.currentThread ≠ t

def Op.isSchedule : Op → Bool
  | .schedule _ => true
  | _ => false

/-- how many of `n` threads the scan comes to before `t`, if `c` is the current one -/
def turnsBefore (n c t : ℕ) : ℕ := if c < t then t - c - 1 else t + n - c - 1

theorem turnsBefore_lt {n c t : ℕ} (hc : c < n) (ht : t < n) : turnsBefore n c t < n := by
  unfold turnsBefore
  split_ifs <;> omega

/-- with more threads, there are not more new ones than that before `t` -/
theorem turnsBefore_mono {n n' c t : ℕ} (hc : c < n) (hn : n ≤ n') : turnsBefore n' c t + n ≤ turnsBefore n c t + n' := by
  unfold turnsBefore
  split_ifs <;> omega

/-- the threads before `t` would have fewer before `t` if they were the current one -/
theorem order_split {n c t : ℕ} (hc : c < n) (ht : t < n) :
    ∃ pre post, ((List.range n).map fun k => (c + 1 + k) % n) = pre ++ t :: post ∧
      ∀ i ∈ pre, turnsBefore n i t < turnsBefore n c t := by
  have hlt := turnsBefore_lt hc ht
  obtain ⟨m, hm⟩ := Nat.exists_eq_add_of_lt hlt
  have hrange : List.range n =
      List.range (turnsBefore n c t) ++ turnsBefore n c t :: (List.range m).map fun k => turnsBefore n c t + (k + 1) := by
    calc List.range n
        = List.range (turnsBefore n c t + (m + 1)) := by rw [← Nat.add_assoc, ← hm]
      _ = _ := by
        rw [List.range_add, List.range_succ_eq_map, List.map_cons, List.map_map]
        rfl
  have hat : (c + 1 + turnsBefore n c t) % n = t := by
    unfold turnsBefore
    split_ifs with hct
    · rw [show c + 1 + (t - c - 1) = t by omega, Nat.mod_eq_of_lt ht]
    · rw [show c + 1 + (t + n - c - 1) = t + n by omega, Nat.add_mod_right, Nat.mod_eq_of_lt ht]
  refine ⟨_, _, by rw [hrange, List.map_append, List.map_cons, hat], ?_⟩
  intro i hi
  obtain ⟨k, hk, rfl⟩ := List.mem_map.1 hi
  have hk := List.mem_range.1 hk
  have hkn := hk.trans hlt
  unfold turnsBefore at hk ⊢
  obtain hsmall | hlarge := Nat.lt_or_ge (c + 1 + k) n
  · rw [Nat.mod_eq_of_lt hsmall]
    split_ifs at hk ⊢ <;> omega
  · rw [Nat.mod_eq_sub_mod hlarge, Nat.mod_eq_of_lt (by omega)]
    split_ifs at hk ⊢ <;> omega

def Emulator.turnsBefore (e : Emulator) (t : ThreadId) : ℕ := Env.turnsBefore e.env.threads.length e.env.currentThread t

/-- **The scan** ends at a thread that is not blocked, if it comes to it. -/
theorem scan_stops {pre post : List ThreadId} (hrun : sc.env.Runnable t) (hb : sc.env.blockedBy t = some .notBlocked)
    (h : scan initialThread now sc (pre ++ t :: post) = .ok flow) :
    (∃ sc' i, flow = .stop sc' ∧ sc'.suitableThread = some i ∧ (i = t ∨ i ∈ pre)) ∨
      ∃ s', flow = .returned s' ∧ initialThread ∈ pre := by
  induction pre generalizing sc with
  | nil =>
    obtain ⟨flow₁, hfirst, hrest⟩ := bind_eq_ok.1 h
    cases candidate_cases hfirst with
    | skip na hr =>
      obtain ⟨th, hth, hactive, hhost⟩ := hrun
      rw [blockedBy, hth, Option.map_some] at hb
      simp [ready, hth, hactive, hhost, Option.some.inj hb, unblockable] at hr
    | running | woken =>
      cases hrest
      exact Or.inl ⟨_, t, rfl, rfl, Or.inl rfl⟩
    | signalled hr _ hs =>
      have hblocked := hs.blocked
      rw [hb] at hblocked
      cases hblocked
    | returned hr _ hb' =>
      rw [hb] at hb'
      cases hb'
  | cons i pre ih =>
    obtain ⟨flow₁, hfirst, hrest⟩ := bind_eq_ok.1 h
    have hlater (sc₁ : Scan) (hrun₁ : sc₁.env.Runnable t) (hb₁ : sc₁.env.blockedBy t = some .notBlocked)
        (hscan : scan initialThread now sc₁ (pre.append (t :: post)) = .ok flow) :
        (∃ sc' j, flow = .stop sc' ∧ sc'.suitableThread = some j ∧ (j = t ∨ j ∈ i :: pre)) ∨
          ∃ s', flow = .returned s' ∧ initialThread ∈ i :: pre := by
      obtain ⟨sc', j, hstop, hsuitable, hj⟩ | ⟨s', hreturned, hin⟩ := ih hrun₁ hb₁ hscan
      · exact Or.inl ⟨sc', j, hstop, hsuitable, hj.imp_right (List.mem_cons_of_mem _)⟩
      · exact Or.inr ⟨s', hreturned, List.mem_cons_of_mem _ hin⟩
    cases candidate_cases hfirst with
    | skip na hr => exact hlater { sc with nextAwakening := na } hrun hb hrest
    | running | woken =>
      cases hrest
      exact Or.inl ⟨_, i, rfl, rfl, Or.inr List.mem_cons_self⟩
    | signalled hr hruni hs =>
      -- a waiter for a condition variable is unblocked, and the scan goes on
      refine hlater _ (hrun.of_shells shells_setBlocked) ?_ hrest
      change Env.blockedBy (Env.setBlocked _ i .notBlocked) t = _
      rw [blockedBy_setBlocked]
      split_ifs with hit
      · subst hit
        rw [show Env.blockedBy (sc.env.setCondition _ _) i = _ from hb]
        rfl
      · exact hb
    | returned hr _ _ hi =>
      cases hrest
      exact Or.inr ⟨_, rfl, hi ▸ List.mem_cons_self⟩

/-- **A pass** switches to the thread or brings its turn closer. -/
theorem pass_turns {res : PassResult} (hcur : s.currentThread < s.threads.length) (hrun : s.Runnable t)
    (hb : s.blockedBy t = some .notBlocked) (h : Passed initialThread now s res) :
    ∃ s', (res = .resumed s' ∨ res = .returned s') ∧ s'.threads.length = s.threads.length ∧
      (s'.currentThread = t ∨ turnsBefore s.threads.length s'.currentThread t <
        turnsBefore s.threads.length s.currentThread t) := by
  obtain ⟨pre, post, horder, hcloser⟩ := order_split hcur hrun.lt_length
  have hsplit : s.order = pre ++ t :: post := horder
  have hscan {flow : Flow} (hflow : scan initialThread now (.start s) s.order = .ok flow) :=
    @scan_stops (.start s) _ _ _ _ _ _ hrun hb (hsplit ▸ hflow)
  cases h with
  | resumed hscan' hfired hend ht' hs hr =>
    rename_i s'
    have hp : Passed initialThread now s (.resumed s') := .resumed hscan' hfired hend ht' hs hr
    obtain ⟨-, sc, hscan', -, -, hres⟩ := hp.objects
    obtain ⟨sc₁, i, hstop, hsuitable, hi⟩ | ⟨s₁, hreturned, -⟩ := hscan hscan'
    · cases hstop
      cases hres.suitable.symm.trans hsuitable
      exact ⟨s', Or.inl rfl, hp.same.1.length, hi.imp_right (hcloser _)⟩
    · cases hreturned
  | retry hscan' hidle =>
    obtain ⟨sc, i, hstop, hsuitable, -⟩ | ⟨s', hreturned, -⟩ := hscan hscan'
    · cases hstop
      rw [hidle] at hsuitable
      cases hsuitable
    · cases hreturned
  | returned hscan' hr =>
    rename_i s'
    obtain ⟨sc, i, hstop, -⟩ | ⟨s₁, -, hin⟩ := hscan hscan'
    · cases hstop
    · obtain ⟨hsame, -, -, hcur'⟩ := hr.same
      exact ⟨s', Or.inr rfl, hsame.length, Or.inr (hcur' ▸ hcloser _ hin)⟩

theorem step_turns (hcur : e.env.currentThread < e.env.threads.length) (hs : e.step o = .ok e') (hw : Waits t e)
    (hw' : Waits t e') :
    (if o.isSchedule then 1 else 0) + e'.turnsBefore t + e.env.threads.length ≤
    e.turnsBefore t + e'.env.threads.length := by
  obtain ⟨hrun, hb, -⟩ := hw
  have hpassed {s : Env} (hlen : s.threads.length = e.env.threads.length)
      (hturns : s.currentThread = t ∨ Env.turnsBefore e.env.threads.length s.currentThread t < e.turnsBefore t)
      (henv : e'.env.threads.length = s.threads.length ∧ e'.env.currentThread = s.currentThread) :
      1 + e'.turnsBefore t + e.env.threads.length ≤ e.turnsBefore t + e'.env.threads.length := by
    obtain heq | hlt := hturns
    · exact absurd (henv.2.trans heq) hw'.2.2
    · rw [Emulator.turnsBefore, henv.2, henv.1, hlen]
      omega
  -- the other steps do not change the current thread, and can create a thread
  have hother (hcur' : e'.env.currentThread = e.env.currentThread) (hop : o.isSchedule = false) :
      (if o.isSchedule then 1 else 0) + e'.turnsBefore t + e.env.threads.length ≤
        e.turnsBefore t + e'.env.threads.length := by
    rw [hop, if_neg Bool.false_ne_true, Nat.zero_add, Emulator.turnsBefore, hcur']
    exact turnsBefore_mono hcur (step_length hs)
  cases Emulator.step_cases hs with
  | host hm ha => exact hother (HostOp.apply_shells ha).1 rfl
  | resumed hm hf hp =>
    obtain ⟨s', heq | heq, hlen, hturns⟩ := pass_turns hcur hrun hb hp
    · cases heq
      exact hpassed hlen hturns ⟨rfl, rfl⟩
    · cases heq
  | retry hm hf hp =>
    obtain ⟨s', heq | heq, -⟩ := pass_turns hcur hrun hb hp <;> cases heq
  | unwound hm hf hp he =>
    obtain ⟨s', heq | heq, hlen, hturns⟩ := pass_turns hcur hrun hb hp
    · cases heq
    · cases heq
      obtain ⟨-, rfl⟩ | ⟨-, -, rfl⟩ := he
      · exact hpassed hlen hturns ⟨rfl, rfl⟩
      · exact hpassed hlen hturns ⟨length_modThread _, rfl⟩
  | guest | outOfTicks | svc | hostReturn | run | runCall | returned | deferred | threadExit => exact hother rfl rfl

/-- **Every thread gets its turn.** While a thread could execute guest code and is not blocked, there are fewer
scheduler passes than threads before it is the current one, whatever else happens. -/
theorem bounded_bypass {mem : Mem} {cpu : CpuContext} {before : List Op}
    (hreach : run Emulator.step (.new mem cpu) before = .ok e)
    (hrun : run Emulator.step e ops = .ok e') (hwaits : Throughout Emulator.step (Waits t) e ops) :
    ops.countP Op.isSchedule < e'.env.threads.length := by
  have hsound := sound_run hreach
  have hturns : ops.countP Op.isSchedule + e'.turnsBefore t + e.env.threads.length ≤
      e.turnsBefore t + e'.env.threads.length := by
    clear hreach
    induction ops generalizing e with
    | nil =>
      cases hrun
      simp
    | cons o ops ih =>
      obtain ⟨e₁, hs, hrun⟩ := run_cons_ok.1 hrun
      have hwaits₁ := hwaits.2 e₁ hs
      have hstep := step_turns hsound.contexts.current hs hwaits.1 hwaits₁.first
      have hrest := ih hrun hwaits₁ (sound_step hsound hs)
      rw [List.countP_cons]
      omega
  have hlast : e.turnsBefore t < e.env.threads.length := turnsBefore_lt hsound.contexts.current hwaits.first.1.lt_length
  omega

/-- two threads are created, and the main thread has used up its ticks -/
def threeThreads : List Op :=
  [.host (.newThread ⟨⟨0x2001⟩⟩ ⟨⟨0x3000⟩⟩ 7 0x10000 0x1000), .host (.newThread ⟨⟨0x2001⟩⟩ ⟨⟨0x3000⟩⟩ 7 0x20000 0x1000),
    .run,
    .outOfTicks]

def threeStart : Emulator := (run Emulator.step .start threeThreads).toOption.getD .start

/-- the second of them waits while the first has its turn -/
def firstTurn : List Op := [.schedule fun _ => 0, .outOfTicks]

def threeEnd : Emulator := (run Emulator.step threeStart firstTurn).toOption.getD .start

theorem bounded_bypass_three : firstTurn.countP Op.isSchedule < threeEnd.env.threads.length := by
  have hreach : run Emulator.step (.new { bytes := fun _ => 0, nullSegmentSize := 0x1000 } .new) threeThreads =
      .ok threeStart := rfl
  have hrun : run Emulator.step threeStart firstTurn = .ok threeEnd := rfl
  refine bounded_bypass (t := 2) hreach hrun ⟨⟨⟨_, rfl, rfl, rfl⟩, rfl, by decide⟩, fun e₁ h₁ => ?_⟩
  cases h₁
  refine ⟨⟨⟨_, rfl, rfl, rfl⟩, rfl, by decide⟩, fun e₂ h₂ => ?_⟩
  cases h₂
  exact ⟨⟨_, rfl, rfl, rfl⟩, rfl, by decide⟩

end Env

end TouchHLE
