/-
What a run loop's list of timers says, in every state of every run (`Foundation/Timers.lean`).

- `Recorded`: the timers, the lists and the log agree. `Changed`: one timer changes; `Recorded.add`, `Recorded.new`.
- `Accounted`: every reference is one of the guest, of an activity or of a list. `Stepped`: what a part of a step does.
- `step_sound`: one step.
- `Timely`: what the lists say in every state. `Unadded`: a timer that is in no list yet.
- `timers_iff`: runs. `unadded_invalidated`: a timer that was never added is invalidated.
-/
import TouchHLE.Foundation.Timers

namespace TouchHLE.RunLoops

open Machine Counted

/-- the event is the message of the run loop to the target of the timer -/
def TimerEvent.sends (timer : ℕ) : TimerEvent → Bool
  | .sent t _ _ => t == timer
  | _ => false

/-- **The records agree**: the timers, the lists and what happened. -/
structure Recorded (s : RunLoops) : Prop where
  added : ∀ runLoop timer, (s.timers timer).runLoop = some runLoop ↔ .added runLoop timer ∈ s.log
  listed : ∀ runLoop timer, timer ∈ s.runLoops runLoop ↔
    (s.timers timer).runLoop = some runLoop ∧ (s.timers timer).dueBy.isSome
  nodup : ∀ runLoop, (s.runLoops runLoop).Nodup
  waiting : ∀ timer < s.created, (s.timers timer).runLoop = none → (s.timers timer).dueBy.isSome
  invalid : ∀ timer, .invalidated timer ∈ s.log → (s.timers timer).dueBy = none
  spent : ∀ timer, (s.timers timer).repeats = false → (s.timers timer).dueBy.isSome → ∀ e ∈ s.log, e.sends timer = false
  once : ∀ timer, (s.timers timer).repeats = false → s.log.countP (TimerEvent.sends timer) ≤ 1
  never : ∀ before timer target selector, before ++ [.sent timer target selector] <+: s.log → .invalidated timer ∉ before
  fresh : ∀ timer, s.created ≤ timer → (s.timers timer).runLoop = none ∧ .invalidated timer ∉ s.log ∧
    ∀ e ∈ s.log, e.sends timer = false

variable {s s' s₁ : RunLoops} {lag : Lag} {t t' r : ℕ} {h h' : NSTimer} {e : TimerEvent} {op : Op} {i n : ℕ}

/-! ## Changes of the records -/

theorem Recorded.sends_eq_zero (hr : Recorded s) (hrepeats : (s.timers t).repeats = false)
    (hdue : (s.timers t).dueBy.isSome) :
    s.log.countP (TimerEvent.sends t) = 0 := by
  rw [List.countP_eq_zero]
  intro e he
  rw [hr.spent t hrepeats hdue e he]
  exact Bool.false_ne_true

/-- an event of a timer that is allowed when the timer becomes `h'` -/
structure Allowed (s : RunLoops) (t : ℕ) (h' : NSTimer) (e : TimerEvent) : Prop where
  added : ∀ r t', e ≠ .added r t'
  invalid : ∀ t', e = .invalidated t' → t' = t ∧ h'.dueBy = none
  sends : ∀ t', e.sends t' = true → t' = t ∧ (s.timers t).dueBy.isSome ∧ (h'.repeats = false → h'.dueBy = none)

/-- **One timer changes**: it may become invalid, and then it is not in a list any more. -/
structure Changed (s : RunLoops) (t : ℕ) (h' : NSTimer) (e : Option TimerEvent) (s' : RunLoops) : Prop where
  lt : t < s.created
  timers : s'.timers = Function.update s.timers t h'
  created : s'.created = s.created
  log : s'.log = s.log ++ e.toList
  lists : ∀ r, (s'.runLoops r).Perm ((s.runLoops r).filter fun x => !(x == t && h'.dueBy.isNone))
  runLoop : h'.runLoop = (s.timers t).runLoop
  repeats : h'.repeats = (s.timers t).repeats
  dead : (s.timers t).dueBy = none → h'.dueBy = none
  waiting : h'.runLoop = none → h'.dueBy.isSome
  allowed : ∀ x ∈ e, Allowed s t h' x

section

variable {e : Option TimerEvent} (hc : Changed s t h' e s')
include hc

theorem Changed.self : s'.timers t = h' := by rw [hc.timers, Function.update_self]

theorem Changed.other (hne : t' ≠ t) : s'.timers t' = s.timers t' := by rw [hc.timers, Function.update_of_ne hne]

theorem Changed.runLoop_eq (t' : ℕ) : (s'.timers t').runLoop = (s.timers t').runLoop := by
  by_cases hne : t' = t
  · rw [hne, hc.self, hc.runLoop]
  · rw [hc.other hne]

theorem Changed.repeats_eq (t' : ℕ) : (s'.timers t').repeats = (s.timers t').repeats := by
  by_cases hne : t' = t
  · rw [hne, hc.self, hc.repeats]
  · rw [hc.other hne]

/-- no timer becomes valid again -/
theorem Changed.isSome (hdue : (s'.timers t').dueBy.isSome) : (s.timers t').dueBy.isSome := by
  by_cases hne : t' = t
  · subst hne
    rw [hc.self] at hdue
    by_contra hnone
    rw [hc.dead (Option.not_isSome_iff_eq_none.1 hnone)] at hdue
    cases hdue
  · rwa [hc.other hne] at hdue

theorem Changed.mem_log {x : TimerEvent} : x ∈ s'.log ↔ x ∈ s.log ∨ x ∈ e := by
  rw [hc.log, List.mem_append, Option.mem_toList]
  rfl

theorem Changed.listed (hr : Recorded s) (r t' : ℕ) :
    t' ∈ s'.runLoops r ↔ (s'.timers t').runLoop = some r ∧ (s'.timers t').dueBy.isSome := by
  rw [(hc.lists r).mem_iff, List.mem_filter, hr.listed, hc.runLoop_eq]
  by_cases hne : t' = t
  · subst hne
    rw [hc.self]
    cases hdue : h'.dueBy with
    | none => simp
    | some due =>
      have hself : (s'.timers t').dueBy.isSome := by
        rw [hc.self, hdue]
        rfl
      have hsome := hc.isSome hself
      simp [hsome]
  · rw [hc.other hne]
    simp [hne]

theorem Changed.never (hr : Recorded s) {before : List TimerEvent} {target selector : ℕ}
    (hb : before ++ [.sent t' target selector] <+: s'.log) : .invalidated t' ∉ before := by
  rw [hc.log] at hb
  cases e with
  | none => exact hr.never _ _ _ _ (by rwa [Option.toList_none, List.append_nil] at hb)
  | some x =>
    rw [Option.toList_some, List.prefix_concat_iff] at hb
    rcases hb with hlast | hb
    · obtain ⟨rfl, hx⟩ := List.append_inj' hlast rfl
      obtain rfl := (List.cons.inj hx).1
      obtain ⟨rfl, hdue, -⟩ := (hc.allowed _ rfl).sends t' (beq_self_eq_true t')
      intro hinvalid
      rw [hr.invalid _ hinvalid] at hdue
      cases hdue
    · exact hr.never _ _ _ _ hb

theorem Changed.once (hr : Recorded s) (hrepeats : (s'.timers t').repeats = false) :
    s'.log.countP (TimerEvent.sends t') ≤ 1 := by
  rw [hc.repeats_eq] at hrepeats
  rw [hc.log, List.countP_append]
  cases e with
  | none => exact hr.once t' hrepeats
  | some x =>
    rw [Option.toList_some, List.countP_singleton]
    split_ifs with hx
    · obtain ⟨rfl, hdue, -⟩ := (hc.allowed x rfl).sends t' hx
      rw [hr.sends_eq_zero hrepeats hdue]
    · exact hr.once t' hrepeats

theorem Changed.recorded (hr : Recorded s) : Recorded s' where
  added r t' := by
    rw [hc.runLoop_eq, hr.added, hc.mem_log]
    refine (or_iff_left fun he => ?_).symm
    exact (hc.allowed _ he).added r t' rfl
  listed := hc.listed hr
  nodup r := (hc.lists r).nodup_iff.2 ((hr.nodup r).filter _)
  waiting t' ht' hnone := by
    rw [hc.created] at ht'
    by_cases hne : t' = t
    · subst hne
      rw [hc.self] at hnone ⊢
      exact hc.waiting hnone
    · rw [hc.other hne] at hnone ⊢
      exact hr.waiting t' ht' hnone
  invalid t' ht' := by
    rcases hc.mem_log.1 ht' with ht' | ht'
    · by_contra hdue
      have hsome := hc.isSome (Option.isSome_iff_ne_none.2 hdue)
      rw [hr.invalid t' ht'] at hsome
      cases hsome
    · obtain ⟨rfl, hnone⟩ := (hc.allowed _ ht').invalid t' rfl
      rw [hc.self, hnone]
  spent t' hrepeats hdue x hx := by
    rw [hc.repeats_eq] at hrepeats
    rcases hc.mem_log.1 hx with hx | hx
    · exact hr.spent t' hrepeats (hc.isSome hdue) x hx
    · refine Bool.eq_false_of_not_eq_true fun hsends => ?_
      obtain ⟨rfl, -, hnone⟩ := (hc.allowed x hx).sends t' hsends
      rw [hc.self, hnone (by rw [hc.repeats, hrepeats])] at hdue
      cases hdue
  once t' hrepeats := hc.once hr hrepeats
  never before t' target selector hb := hc.never hr hb
  fresh t' ht' := by
    rw [hc.created] at ht'
    have hne : t' ≠ t := (hc.lt.trans_le ht').ne'
    obtain ⟨hloop, hinvalid, hsends⟩ := hr.fresh t' ht'
    rw [hc.runLoop_eq]
    refine ⟨hloop, fun hx => ?_, fun x hx => ?_⟩
    · exact (hc.mem_log.1 hx).elim hinvalid fun hx => hne ((hc.allowed _ hx).invalid t' rfl).1
    · rcases hc.mem_log.1 hx with hx | hx
      · exact hsends x hx
      · exact Bool.eq_false_of_not_eq_true fun h => hne ((hc.allowed x hx).sends t' h).1

end

/-- a new timer -/
theorem Recorded.new (hr : Recorded s) (hloop : h'.runLoop = none) (hdue : h'.dueBy.isSome)
    (hcreated : s'.created = s.created + 1)
    (htimers : s'.timers = Function.update s.timers s.created h') (hlog : s'.log = s.log)
    (hlists : s'.runLoops = s.runLoops) :
    Recorded s' := by
  have hself : s'.timers s.created = h' := by rw [htimers, Function.update_self]
  have hother : ∀ t', t' ≠ s.created → s'.timers t' = s.timers t' :=
    fun t' hne => by rw [htimers, Function.update_of_ne hne]
  obtain ⟨hfree, hinvalid, hsends⟩ := hr.fresh s.created le_rfl
  have hloops : ∀ t', (s'.timers t').runLoop = (s.timers t').runLoop := fun t' => by
    by_cases hne : t' = s.created
    · rw [hne, hself, hloop, hfree]
    · rw [hother t' hne]
  refine ⟨fun r t' => ?_, fun r t' => ?_, fun r => ?_, fun t' ht' hnone => ?_, fun t' ht' => ?_,
    fun t' hrepeats hd x hx => ?_,
    fun t' hrepeats => ?_, fun before t' target selector hb => ?_, fun t' ht' => ?_⟩
  · rw [hloops, hlog, hr.added]
  · rw [hlists, hr.listed, hloops]
    by_cases hne : t' = s.created
    · rw [hne, hfree]
      exact iff_of_false (fun h => by cases h.1) fun h => by cases h.1
    · rw [hother t' hne]
  · rw [hlists]
    exact hr.nodup r
  · by_cases hne : t' = s.created
    · rw [hne, hself, hdue]
    · rw [hother t' hne] at hnone ⊢
      rw [hcreated] at ht'
      exact hr.waiting t' (by omega) hnone
  · rw [hlog] at ht'
    rw [hother t' fun hne => hinvalid (hne ▸ ht')]
    exact hr.invalid t' ht'
  · rw [hlog] at hx
    by_cases hne : t' = s.created
    · rw [hne]
      exact hsends x hx
    · rw [hother t' hne] at hrepeats hd
      exact hr.spent t' hrepeats hd x hx
  · rw [hlog]
    by_cases hne : t' = s.created
    · refine le_of_eq_of_le (List.countP_eq_zero.2 fun x hx => ?_) (Nat.zero_le 1)
      rw [hne, hsends x hx]
      exact Bool.false_ne_true
    · rw [hother t' hne] at hrepeats
      exact hr.once t' hrepeats
  · rw [hlog] at hb
    exact hr.never _ _ _ _ hb
  · rw [hcreated] at ht'
    rw [hloops, hlog]
    exact hr.fresh t' (by omega)

/-- a timer is added to a run loop -/
theorem Recorded.add (hr : Recorded s) (hlt : t < s.created) (hnone : (s.timers t).runLoop = none)
    (htimers : s'.timers = Function.update s.timers t { s.timers t with runLoop := some r })
    (hcreated : s'.created = s.created)
    (hlog : s'.log = s.log ++ [.added r t]) (hlists : s'.runLoops = Function.update s.runLoops r (s.runLoops r ++ [t])) :
    Recorded s' := by
  have hself : s'.timers t = { s.timers t with runLoop := some r } := by rw [htimers, Function.update_self]
  have hother : ∀ t', t' ≠ t → s'.timers t' = s.timers t' := fun t' hne => by rw [htimers, Function.update_of_ne hne]
  have hdue : ∀ t', (s'.timers t').dueBy = (s.timers t').dueBy := fun t' => by
    by_cases hne : t' = t
    · rw [hne, hself]
    · rw [hother t' hne]
  have hrep : ∀ t', (s'.timers t').repeats = (s.timers t').repeats := fun t' => by
    by_cases hne : t' = t
    · rw [hne, hself]
    · rw [hother t' hne]
  have hmem : ∀ x, x ∈ s'.log ↔ x ∈ s.log ∨ x = .added r t := fun x => by rw [hlog, List.mem_append, List.mem_singleton]
  have hnew : ∀ r', t ∉ s.runLoops r' := fun r' ht => by
    rw [hr.listed, hnone] at ht
    cases ht.1
  refine ⟨fun r' t' => ?_, fun r' t' => ?_, fun r' => ?_, fun t' ht' hfree => ?_, fun t' ht' => ?_,
    fun t' hrepeats hd x hx => ?_,
    fun t' hrepeats => ?_, fun before t' target selector hb => ?_, fun t' ht' => ?_⟩
  · rw [hmem]
    by_cases hne : t' = t
    · subst hne
      rw [hself, ← hr.added, hnone]
      simp [eq_comm]
    · rw [hother t' hne, hr.added]
      simp [hne]
  · have hlist : t' ∈ s'.runLoops r' ↔ t' ∈ s.runLoops r' ∨ r' = r ∧ t' = t := by
      rw [hlists]
      by_cases hr' : r' = r
      · rw [hr', Function.update_self, List.mem_append, List.mem_singleton, and_iff_right rfl]
      · rw [Function.update_of_ne hr', or_iff_left fun h => hr' h.1]
    rw [hlist, hdue]
    by_cases hne : t' = t
    · subst hne
      rw [hself, or_iff_right (hnew r'), and_iff_left rfl, and_iff_left (hr.waiting t' hlt hnone), Option.some.injEq,
        eq_comm]
    · rw [hother t' hne, or_iff_left fun h => hne h.2, hr.listed]
  · rw [hlists]
    by_cases hr' : r' = r
    · rw [hr', Function.update_self]
      rw [← List.concat_eq_append]
      exact (hr.nodup r).concat (hnew r)
    · rw [Function.update_of_ne hr']
      exact hr.nodup r'
  · by_cases hne : t' = t
    · rw [hne, hself] at hfree
      cases hfree
    · rw [hother t' hne] at hfree ⊢
      exact hr.waiting t' (hcreated ▸ ht') hfree
  · rw [hdue]
    exact hr.invalid t' (((hmem _).1 ht').resolve_right fun h => by cases h)
  · rw [hdue] at hd
    rw [hrep] at hrepeats
    rcases (hmem x).1 hx with hx | rfl
    · exact hr.spent t' hrepeats hd x hx
    · rfl
  · rw [hrep] at hrepeats
    rw [hlog, List.countP_append]
    exact hr.once t' hrepeats
  · rw [hlog, List.prefix_concat_iff] at hb
    refine hr.never _ _ _ _ (hb.resolve_left fun hlast => ?_)
    cases (List.cons.inj (List.append_inj' hlast rfl).2).1
  · rw [hcreated] at ht'
    obtain ⟨hfree, hinvalid, hsends⟩ := hr.fresh t' ht'
    rw [hother t' (hlt.trans_le ht').ne']
    refine ⟨hfree, fun hx => hinvalid (((hmem _).1 hx).resolve_right fun h => by cases h), fun x hx => ?_⟩
    rcases (hmem x).1 hx with hx | rfl
    · exact hsends x hx
    · rfl

/-! ## References -/

def Activity.held : Activity → List ℕ
  | .iterating timers _ => timers
  | .calling timer _ timers _ => timer :: timer :: timers
  | .firing _ _ => []

/-- the references of the activities: an iteration holds its timers, and a timer that runs its callback once more -/
def pending (s : RunLoops) : List ℕ := s.activities.flatMap Activity.held

/-- how often a timer is in the list of its run loop -/
def entries (s : RunLoops) (timer : ℕ) : ℕ :=
  (s.timers timer).runLoop.elim 0 fun runLoop => (s.runLoops runLoop).count timer

/-- **The references are accounted for**: those of the guest, those of the activities, and one for each entry of a list. -/
def Accounted (s : RunLoops) : Prop :=
  ∀ timer, s.refs timer = s.guest.count timer + (pending s).count timer + entries s timer

theorem retainTimer_ok (h : retainTimer s t = .ok s') :
    s.refs t ≠ 0 ∧ s' = { s with refs := Function.update s.refs t (s.refs t + 1) } := by
  obtain ⟨refs, hrefs, h⟩ := bind_eq_ok.1 h
  have hretain := unwrap_eq_ok.1 hrefs
  rw [retain] at hretain
  split_ifs at hretain with hne
  cases hretain
  exact ⟨hne, (Except.ok.inj h).symm⟩

theorem releaseTimer_ok (h : releaseTimer s t = .ok s') :
    s.refs t ≠ 0 ∧ s' = { s with refs := Function.update s.refs t (s.refs t - 1) } := by
  obtain ⟨refs, hrefs, h⟩ := bind_eq_ok.1 h
  have hrelease := unwrap_eq_ok.1 hrefs
  rw [release] at hrelease
  split_ifs at hrelease with hne
  cases hrelease
  exact ⟨hne, (Except.ok.inj h).symm⟩

theorem borrow_ok (hb : borrow s t = .ok h) : s.refs t ≠ 0 ∧ s.timers t = h := by
  unfold borrow at hb
  split_ifs at hb with hne
  exact ⟨hne, Except.ok.inj hb⟩

theorem removeTimer_ok {runLoop : Option ℕ} (h : removeTimer s runLoop t = .ok s') : ∃ r, runLoop = some r ∧
    (s.runLoops r).count t = 1 ∧ s.refs t ≠ 0 ∧ ∃ timers, timers.Perm ((s.runLoops r).filter fun x => !(x == t)) ∧
      s' = { s with runLoops := Function.update s.runLoops r timers, refs := Function.update s.refs t (s.refs t - 1) } := by
  obtain ⟨r, hr, h⟩ := bind_eq_ok.1 h
  obtain ⟨_, hassert, h⟩ := bind_eq_ok.1 h
  obtain ⟨hne, rfl⟩ := releaseTimer_ok h
  have hcount := of_decide_eq_true (assert_cases hassert)
  rw [Vec.removeWhere_removed] at hcount
  exact ⟨r, unwrap_eq_ok.1 hr, hcount, hne, _, Vec.removeWhere_kept _ _, rfl⟩

/-- a timer has an entry as long as it is valid -/
theorem Recorded.entries_eq (hr : Recorded s) (t : ℕ) :
    entries s t = if (s.timers t).runLoop.isSome ∧ (s.timers t).dueBy.isSome then 1 else 0 := by
  unfold entries
  cases hloop : (s.timers t).runLoop with
  | none => exact (if_neg fun h => nomatch h.1).symm
  | some r =>
    have hmem := hr.listed r t
    rw [hloop, and_iff_right rfl] at hmem
    rw [Option.elim_some, (hr.nodup r).count]
    exact if_congr (hmem.trans (and_iff_right rfl).symm) rfl rfl

/-- what a part of a step does: which references are taken and given back besides those of the lists -/
structure Stepped (s s' : RunLoops) (gained lost : List ℕ) : Prop where
  recorded : Recorded s'
  created : s'.created = s.created
  alive : ∀ x, s'.refs x ≠ 0 → s.refs x ≠ 0
  refs : ∀ x, s'.refs x + entries s x + lost.count x = s.refs x + entries s' x + gained.count x
  guest : s'.guest = s.guest
  activities : s'.activities = s.activities

variable {gained lost gained' lost' : List ℕ} {timers : List ℕ} {now : ℕ}

theorem Stepped.refl (hr : Recorded s) : Stepped s s [] [] := ⟨hr, rfl, fun _ h => h, fun _ => rfl, rfl, rfl⟩

theorem Stepped.trans (h : Stepped s s₁ gained lost) (h' : Stepped s₁ s' gained' lost') :
    Stepped s s' (gained ++ gained') (lost ++ lost') where
  recorded := h'.recorded
  created := h'.created.trans h.created
  alive x hx := h.alive x (h'.alive x hx)
  refs x := by
    have h1 := h.refs x
    have h2 := h'.refs x
    rw [List.count_append, List.count_append]
    omega
  guest := h'.guest.trans h.guest
  activities := h'.activities.trans h.activities

theorem alive_update {refs : Counts} {x : ℕ} (hne : refs t ≠ 0) (hx : Function.update refs t n x ≠ 0) : refs x ≠ 0 := by
  by_cases hxt : x = t
  · rwa [hxt]
  · rwa [Function.update_of_ne hxt] at hx

theorem retainTimer_stepped (hr : Recorded s) (h : retainTimer s t = .ok s') : Stepped s s' [t] [] := by
  obtain ⟨hne, rfl⟩ := retainTimer_ok h
  refine ⟨{ hr with }, rfl, fun x hx => alive_update hne hx, fun x => ?_, rfl, rfl⟩
  change Function.update s.refs t _ x + entries s x + 0 = s.refs x + entries s x + _
  by_cases hxt : x = t
  · rw [hxt, Function.update_self, List.count_singleton_self]
    omega
  · rw [Function.update_of_ne hxt, List.count_singleton, if_neg (by simpa using Ne.symm hxt)]

theorem releaseTimer_stepped (hr : Recorded s) (h : releaseTimer s t = .ok s') : Stepped s s' [] [t] := by
  obtain ⟨hne, rfl⟩ := releaseTimer_ok h
  refine ⟨{ hr with }, rfl, fun x hx => alive_update hne hx, fun x => ?_, rfl, rfl⟩
  change Function.update s.refs t _ x + entries s x + _ = s.refs x + entries s x + 0
  by_cases hxt : x = t
  · rw [hxt, Function.update_self, List.count_singleton_self]
    omega
  · rw [Function.update_of_ne hxt, List.count_singleton, if_neg (by simpa using Ne.symm hxt)]

/-- a timer changes, and the lists do not: it stays as valid as it was -/
theorem Changed.stepped {e : Option TimerEvent} (hc : Changed s t h' e s') (hr : Recorded s)
    (hdue : h'.dueBy.isSome = (s.timers t).dueBy.isSome)
    (hrefs : s'.refs = s.refs) (hguest : s'.guest = s.guest) (hactivities : s'.activities = s.activities) :
    Stepped s s' [] [] := by
  refine ⟨hc.recorded hr, hc.created, fun x hx => hrefs ▸ hx, fun x => ?_, hguest, hactivities⟩
  rw [hrefs, hr.entries_eq, (hc.recorded hr).entries_eq, hc.runLoop_eq]
  by_cases hxt : x = t
  · rw [hxt, hc.self, hdue]
  · rw [hc.other hxt]

theorem filter_absent {b : Bool} (h : t ∉ s.runLoops r ∨ b = false) :
    ((s.runLoops r).filter fun x => !(x == t && b)) = s.runLoops r := by
  rw [List.filter_eq_self]
  intro x hx
  rcases h with h | rfl
  · have hxt : x ≠ t := fun hxt => h (hxt ▸ hx)
    simp [hxt]
  · simp

/-- only valid timers are in lists -/
theorem Recorded.filter_valid (hr : Recorded s) (t r : ℕ) :
    (s.runLoops r).Perm ((s.runLoops r).filter fun x => !(x == t && (s.timers t).dueBy.isNone)) := by
  refine .of_eq (filter_absent ?_).symm
  cases hdue : (s.timers t).dueBy with
  | some due => exact .inr rfl
  | none =>
    refine .inl fun ht => ?_
    rw [hr.listed, hdue] at ht
    cases ht.2

/-- **A timer ends**: it is taken out of its list, and the reference of the list is given back. -/
theorem Changed.ended {e : Option TimerEvent} (hr : Recorded s) (hdue : (s.timers t).dueBy.isSome)
    (hc : Changed s t h' e s') (hnone : h'.dueBy = none)
    (hne : s.refs t ≠ 0) (hloop : (s.timers t).runLoop.isSome) (hrefs : s'.refs = Function.update s.refs t (s.refs t - 1))
    (hguest : s'.guest = s.guest) (hactivities : s'.activities = s.activities) : Stepped s s' [] [] := by
  refine ⟨hc.recorded hr, hc.created, fun x hx => alive_update hne (hrefs ▸ hx), fun x => ?_, hguest, hactivities⟩
  rw [hrefs, hr.entries_eq, (hc.recorded hr).entries_eq, hc.runLoop_eq]
  by_cases hxt : x = t
  · rw [hxt, hc.self, hnone, Function.update_self, if_pos ⟨hloop, hdue⟩, if_neg fun h => nomatch h.2]
    omega
  · rw [hc.other hxt, Function.update_of_ne hxt]

/-- the change that a timer makes when it ends -/
theorem ended_changed (h' : NSTimer) (hr : Recorded s) (hlt : t < s.created)
    (hloop : (s.timers t).runLoop = some r)
    (hdue : (s.timers t).dueBy.isSome) (hnone : h'.dueBy = none) (hloop' : h'.runLoop = some r)
    (hrepeats : h'.repeats = (s.timers t).repeats)
    (hperm : timers.Perm ((s.runLoops r).filter fun x => !(x == t)))
    (hlists : s'.runLoops = Function.update s.runLoops r timers)
    (htimers : s'.timers = Function.update s.timers t h') (hcreated : s'.created = s.created) (hlog : s'.log = s.log ++ [e])
    (hallowed : Allowed s t h' e) : Changed s t h' (some e) s' where
  lt := hlt
  timers := htimers
  created := hcreated
  log := hlog
  lists r' := by
    rw [hlists, hnone]
    by_cases hr' : r' = r
    · rw [hr', Function.update_self]
      simpa using hperm
    · have habsent : t ∉ s.runLoops r' := fun ht => by
        rw [hr.listed, hloop, Option.some.injEq] at ht
        exact hr' ht.1.symm
      rw [Function.update_of_ne hr', filter_absent (.inl habsent)]
  runLoop := hloop'.trans hloop.symm
  repeats := hrepeats
  dead hd := by
    rw [hd] at hdue
    cases hdue
  waiting hfree := by
    rw [hloop'] at hfree
    cases hfree
  allowed x hx := by
    cases hx
    exact hallowed

theorem invalidate_stepped (hr : Recorded s) (hb : ∀ x, s.refs x ≠ 0 → x < s.created) (h : invalidate s t = .ok s') :
    Stepped s s' [] [] := by
  obtain ⟨host, hhost, h⟩ := bind_eq_ok.1 h
  obtain ⟨hne, rfl⟩ := borrow_ok hhost
  have hallowed : Allowed s t { s.timers t with dueBy := none } (.invalidated t) := by
    refine ⟨fun _ _ h => (nomatch h), fun t' ht' => ?_, fun t' h => (nomatch h)⟩
    exact ⟨(TimerEvent.invalidated.inj ht').symm, rfl⟩
  dsimp only at h
  split_ifs at h with hdue
  · obtain ⟨r, hloop, -, -, timers, hperm, rfl⟩ := removeTimer_ok h
    refine Changed.ended hr hdue (ended_changed { s.timers t with dueBy := none } hr
      (hb t hne) hloop hdue rfl hloop rfl hperm rfl rfl
      rfl rfl hallowed) rfl hne ?_ rfl rfl rfl
    rw [hloop]
    rfl
  · cases h
    have hnone : (s.timers t).dueBy = none := Option.not_isSome_iff_eq_none.1 hdue
    refine Changed.stepped (e := some (.invalidated t)) ⟨hb t hne, rfl, rfl, rfl, fun r => ?_, rfl, rfl, fun _ => rfl,
      fun hfree => ?_,
      fun x hx => ?_⟩ hr ?_ rfl rfl rfl
    · have hperm := hr.filter_valid t r
      rwa [hnone] at hperm
    · exact absurd (hr.waiting t (hb t hne) hfree) hdue
    · cases hx
      exact hallowed
    · rw [hnone]

theorem calledBack_stepped (hr : Recorded s) (hb : ∀ x, s.refs x ≠ 0 → x < s.created) (h : calledBack s t = .ok s') :
    Stepped s s' [] [t] := by
  obtain ⟨host, hhost, h⟩ := bind_eq_ok.1 h
  obtain ⟨hne, rfl⟩ := borrow_ok hhost
  have hset : Stepped s (setTimer s t { s.timers t with isRunningCallback := false }) [] [] := by
    refine Changed.stepped (e := none) ⟨hb t hne, rfl, rfl, (List.append_nil _).symm, fun r => ?_, rfl, rfl, fun h => h,
      fun hfree => ?_,
      fun x hx => (nomatch hx)⟩ hr rfl rfl rfl rfl
    · exact hr.filter_valid t r
    · exact hr.waiting t (hb t hne) hfree
  exact hset.trans (releaseTimer_stepped hset.recorded h)

theorem fire_stepped {e : TimerEvent} (hr : Recorded s) (hlt : t < s.created) (hadded : ∀ r t', e ≠ .added r t')
    (hinvalid : ∀ t', e ≠ .invalidated t') (hsends : ∀ t', e.sends t' = false) :
    Stepped s { s with log := s.log ++ [e] } [] [] := by
  refine Changed.stepped (t := t) (e := some e) ⟨hlt, (Function.update_eq_self t _).symm, rfl, rfl, fun r => ?_, rfl,
    rfl, fun h => h,
    fun hfree => ?_, fun x hx => ?_⟩ hr rfl rfl rfl rfl
  · exact hr.filter_valid t r
  · exact hr.waiting t hlt hfree
  · cases hx
    refine ⟨hadded, fun t' h => absurd h (hinvalid t'), fun t' h => ?_⟩
    rw [hsends t'] at h
    cases h

theorem retainAll_stepped (hr : Recorded s) (h : retainAll s timers = .ok s') :
    Stepped s s' timers [] := by
  induction timers generalizing s with
  | nil =>
    cases h
    exact .refl hr
  | cons t timers ih =>
    obtain ⟨s₁, h1, h2⟩ := bind_eq_ok.1 h
    have hfirst := retainTimer_stepped hr h1
    exact hfirst.trans (ih hfirst.recorded h2)

/-- the message of a timer that is due -/
theorem sent_allowed {target selector : ℕ} (hdue : (s.timers t).dueBy.isSome)
    (hnone : h'.repeats = false → h'.dueBy = none) :
    Allowed s t h' (.sent t target selector) := by
  refine ⟨fun _ _ h => (nomatch h), fun _ h => (nomatch h), fun t' h => ⟨?_, hdue, hnone⟩⟩
  exact (beq_iff_eq.1 h).symm

/-- a timer that is due sends its message, and is retained meanwhile -/
theorem sendMessage_stepped {new : Option ℕ} {due now : ℕ} (hr : Recorded s) (hb : ∀ x, s.refs x ≠ 0 → x < s.created)
    (hdue : (s.timers t).dueBy = some due) (h : sendMessage s lag t (s.timers t) due now = .ok (s', new)) :
    Stepped s s' [t] [] := by
  obtain ⟨s₁, hretain, hafter⟩ := bind_eq_ok.1 h
  have h1 := retainTimer_stepped hr hretain
  obtain ⟨hne, rfl⟩ := retainTimer_ok hretain
  obtain ⟨⟨s₂, due'⟩, hnew, hsent⟩ := bind_eq_ok.1 hafter
  have hsome : (s.timers t).dueBy.isSome := by rw [hdue]; rfl
  unfold reschedule at hnew
  split_ifs at hnew with hrepeats
  · obtain ⟨_, -, hpure⟩ := bind_eq_ok.1 hnew
    cases hpure
    cases hsent
    refine h1.trans (Changed.stepped (t := t) (e := some _)
      ⟨hb t hne, rfl, rfl, rfl, fun r => ?_, rfl, rfl, fun hnone => ?_, fun _ => rfl,
      fun x hx => ?_⟩ h1.recorded hsome.symm rfl rfl rfl)
    · exact .of_eq (filter_absent (.inr rfl)).symm
    · rw [hnone] at hsome
      cases hsome
    · cases hx
      exact sent_allowed hsome fun hrep => absurd hrepeats (by rw [hrep]; exact Bool.false_ne_true)
  · obtain ⟨s₃, hremove, hpure⟩ := bind_eq_ok.1 hnew
    obtain ⟨r, hloop, -, hne', timers, hperm, rfl⟩ := removeTimer_ok hremove
    cases hpure
    cases hsent
    refine h1.trans (Changed.ended h1.recorded hsome
      (ended_changed { s.timers t with dueBy := none, isRunningCallback := true }
      h1.recorded (hb t hne) hloop hsome rfl hloop rfl hperm rfl rfl rfl rfl
        (sent_allowed hsome fun _ => rfl)) rfl hne' ?_ rfl rfl rfl)
    exact Option.isSome_iff_exists.2 ⟨r, hloop⟩

/-- **A timer is handled**: nothing happens, or its message is sent. -/
theorem handleTimer_stepped {next : Option ℕ} {message : Bool} (hr : Recorded s)
    (hb : ∀ x, s.refs x ≠ 0 → x < s.created)
    (h : handleTimer s lag t now = .ok (s', next, message)) :
    (message = false ∧ s' = s) ∨ message = true ∧ Stepped s s' [t] [] := by
  obtain ⟨host, hhost, hafter⟩ := bind_eq_ok.1 h
  obtain ⟨-, rfl⟩ := borrow_ok hhost
  have hskip : ∀ {n : Option ℕ}, (pure (s, n, false) : Except Panic _) = .ok (s', next, message) → message = false ∧
      s' = s := by
    intro n hpure
    obtain ⟨hs, hrest⟩ := Prod.mk.inj (Except.ok.inj hpure)
    exact ⟨(Prod.mk.inj hrest).2.symm, hs.symm⟩
  cases hrunning : (s.timers t).isRunningCallback with
  | true =>
    rw [hrunning] at hafter
    exact .inl (hskip hafter)
  | false =>
    cases hdue : (s.timers t).dueBy with
    | none =>
      rw [hrunning, hdue] at hafter
      exact .inl (hskip hafter)
    | some due =>
      rw [hrunning, hdue] at hafter
      dsimp only at hafter
      split_ifs at hafter
      · exact .inl (hskip hafter)
      · obtain ⟨⟨s₁, new⟩, hsent, hpure⟩ := bind_eq_ok.1 hafter
        obtain ⟨rfl, hrest⟩ := Prod.mk.inj (Except.ok.inj hpure)
        exact .inr ⟨(Prod.mk.inj hrest).2.symm, sendMessage_stepped hr hb hdue hsent⟩

/-! ## Steps -/

/-- **What holds in every state.** -/
structure Sound (s : RunLoops) : Prop where
  recorded : Recorded s
  accounted : Accounted s
  born : ∀ t, s.refs t ≠ 0 → t < s.created

/-- **A step keeps what holds**, if the references of the guest and of the activities change as the counts do. -/
theorem Stepped.sound {guest : List ℕ} {activities : List Activity} (hs : Sound s) (h : Stepped s s₁ gained lost)
    (hcount : ∀ x, guest.count x + (activities.flatMap Activity.held).count x + lost.count x =
      s.guest.count x + (pending s).count x + gained.count x) : Sound { s₁ with guest, activities } where
  recorded := { h.recorded with }
  accounted x := by
    have h1 := hs.accounted x
    have h2 := h.refs x
    have h3 := hcount x
    change s₁.refs x = guest.count x + (activities.flatMap Activity.held).count x + entries s₁ x
    omega
  born x hx := by
    rw [h.created]
    exact hs.born x (h.alive x hx)

/-- a new timer belongs to the guest -/
theorem Sound.alloc {host : NSTimer} (hs : Sound s) (hloop : host.runLoop = none) (hdue : host.dueBy.isSome) :
    Sound (allocTimer s host) where
  recorded := hs.recorded.new hloop hdue rfl rfl rfl rfl
  accounted x := by
    have hx := hs.accounted x
    have hnew : s.refs s.created = 0 := by
      by_contra hne
      exact absurd (hs.born _ hne) (lt_irrefl _)
    change create s.refs s.created x = (s.created :: s.guest).count x + (pending s).count x +
      ((Function.update s.timers s.created host x).runLoop).elim 0 fun r => (s.runLoops r).count x
    by_cases hxc : x = s.created
    · subst hxc
      rw [create, Function.update_self, Function.update_self, List.count_cons_self, hloop, Option.elim_none]
      omega
    · rw [create, Function.update_of_ne hxc, Function.update_of_ne hxc, List.count_cons_of_ne (Ne.symm hxc)]
      exact hx
  born x hx := by
    change create s.refs s.created x ≠ 0 at hx
    change x < s.created + 1
    by_cases hxc : x = s.created
    · omega
    · rw [create, Function.update_of_ne hxc] at hx
      exact (hs.born x hx).trans (Nat.lt_succ_self _)

/-- a timer in a list is retained -/
theorem Sound.list (hs : Sound s) (hne : s.refs t ≠ 0) (hloop : (s.timers t).runLoop = none)
    (htimers : s'.timers = Function.update s.timers t { s.timers t with runLoop := some r })
    (hcreated : s'.created = s.created)
    (hlog : s'.log = s.log ++ [.added r t]) (hlists : s'.runLoops = Function.update s.runLoops r (s.runLoops r ++ [t]))
    (hrefs : s'.refs = Function.update s.refs t (s.refs t + 1)) (hguest : s'.guest = s.guest)
    (hactivities : s'.activities = s.activities) :
    Sound s' := by
  have hlt := hs.born t hne
  have hr := hs.recorded.add hlt hloop htimers hcreated hlog hlists
  refine ⟨hr, fun x => ?_, fun x hx => ?_⟩
  · have hx := hs.accounted x
    rw [hs.recorded.entries_eq] at hx
    rw [hr.entries_eq, hrefs, hguest, pending, hactivities, ← pending, htimers]
    by_cases hxt : x = t
    · subst hxt
      rw [hloop, if_neg fun h => nomatch h.1] at hx
      rw [Function.update_self, Function.update_self, if_pos ⟨rfl, hs.recorded.waiting x hlt hloop⟩]
      omega
    · rw [Function.update_of_ne hxt, Function.update_of_ne hxt]
      exact hx
  · rw [hcreated]
    exact hs.born x (alive_update hne (hrefs ▸ hx))

theorem Sound.add {modeHandled : Bool} (hs : Sound s) (h : addTimer s r t modeHandled = .ok s') : Sound s' := by
  obtain ⟨_, -, hmode⟩ := bind_eq_ok.1 h
  obtain ⟨s₁, hretain, hlist⟩ := bind_eq_ok.1 hmode
  obtain ⟨_, -, hborrow⟩ := bind_eq_ok.1 hlist
  obtain ⟨host, hhost, hfree⟩ := bind_eq_ok.1 hborrow
  obtain ⟨_, hnone, hpure⟩ := bind_eq_ok.1 hfree
  obtain ⟨hne, rfl⟩ := retainTimer_ok hretain
  obtain ⟨-, rfl⟩ := borrow_ok hhost
  have hloop : (s.timers t).runLoop = none := Option.isNone_iff_eq_none.1 (assert_cases hnone)
  cases hpure
  exact hs.list hne hloop rfl rfl rfl rfl rfl rfl rfl

theorem Sound.invalidate (hs : Sound s) (h : invalidate s t = .ok s') : Sound s' := by
  have hstep := invalidate_stepped hs.recorded hs.born h
  refine hstep.sound hs fun x => ?_
  rw [hstep.guest, hstep.activities]
  rfl

/-- the callback of a `fire` returns -/
theorem fireReturned_ok (h : fireReturned s i = .ok s') : ∃ timer repeats, s.activities[i]? = some (.firing timer repeats) ∧
    (if repeats then pure { s with activities := s.activities.eraseIdx i }
      else RunLoops.invalidate { s with activities := s.activities.eraseIdx i } timer) = .ok s' := by
  unfold fireReturned at h
  split at h
  · exact ⟨_, _, ‹_›, h⟩
  · cases h

/-- a `fire` that is over holds nothing -/
theorem Sound.erase {repeats : Bool} (hs : Sound s) (ha : s.activities[i]? = some (.firing t repeats)) :
    Sound { s with activities := s.activities.eraseIdx i } := by
  refine (Stepped.refl hs.recorded).sound hs fun x => ?_
  have hcount := Vec.count_flatMap_eraseIdx (f := Activity.held) ha x
  exact congrArg (s.guest.count x + ·) hcount

theorem Sound.fireReturned (hs : Sound s) (h : fireReturned s i = .ok s') : Sound s' := by
  obtain ⟨timer, repeats, ha, h⟩ := fireReturned_ok h
  split_ifs at h
  · cases h
    exact hs.erase ha
  · exact (hs.erase ha).invalidate h

/-- the next timer of an iteration is handled -/
theorem Sound.handleNext (hs : Sound s) (h : handleNext s lag i now = .ok s') : Sound s' := by
  unfold RunLoops.handleNext at h
  split at h
  · rename_i sleepUntil ha
    cases h
    refine (Stepped.refl hs.recorded).sound hs fun x => ?_
    have hcount := Vec.count_flatMap_eraseIdx (f := Activity.held) ha x
    exact congrArg (s.guest.count x + ·) hcount
  · rename_i timer timers sleepUntil ha
    have hset := fun (a' : Activity) x => Vec.count_flatMap_set (f := Activity.held) ha a' x
    obtain ⟨⟨s₁, next, message⟩, hhandle, hrest⟩ := bind_eq_ok.1 h
    rcases handleTimer_stepped hs.recorded hs.born hhandle with ⟨rfl, rfl⟩ | ⟨rfl, hstep⟩
    · obtain ⟨s₂, hrelease, hpure⟩ := bind_eq_ok.1 hrest
      have hstep := releaseTimer_stepped hs.recorded hrelease
      cases hpure
      refine hstep.sound hs fun x => ?_
      have hcount := hset (.iterating timers (limitSleepTime sleepUntil next)) x
      rw [Activity.held, Activity.held, List.count_cons] at hcount
      rw [hstep.guest, hstep.activities, pending, List.count_singleton, List.count_nil]
      omega
    · cases hrest
      refine hstep.sound hs fun x => ?_
      have hcount := hset (.calling timer next timers sleepUntil) x
      simp only [Activity.held, List.count_cons] at hcount
      rw [hstep.guest, hstep.activities, pending, List.count_singleton, List.count_nil]
      omega
  · cases h

theorem Sound.callbackReturned (hs : Sound s) (h : callbackReturned s i = .ok s') : Sound s' := by
  unfold RunLoops.callbackReturned at h
  split at h
  · rename_i timer next timers sleepUntil ha
    obtain ⟨s₁, hcalled, hrest⟩ := bind_eq_ok.1 h
    obtain ⟨s₂, hrelease, hpure⟩ := bind_eq_ok.1 hrest
    have hfirst := calledBack_stepped hs.recorded hs.born hcalled
    have hstep := hfirst.trans (releaseTimer_stepped hfirst.recorded hrelease)
    cases hpure
    refine hstep.sound hs fun x => ?_
    have hcount := Vec.count_flatMap_set (f := Activity.held) ha (.iterating timers (limitSleepTime sleepUntil next)) x
    rw [Activity.held, Activity.held, List.count_cons, List.count_cons] at hcount
    rw [hstep.guest, hstep.activities, pending, List.count_append, List.count_singleton, List.count_append, List.count_nil]
    omega
  · cases h

/-- **One step.** -/
theorem step_sound (hs : Sound s) (h : step lag s op = .ok s') : Sound s' := by
  cases op with
  | timerWithTimeInterval interval target selector now repeats =>
    cases h
    exact hs.alloc rfl rfl
  | addTimer runLoop timer modeHandled => exact hs.add h
  | invalidate timer => exact hs.invalidate h
  | fire timer =>
    obtain ⟨host, hhost, hpure⟩ := bind_eq_ok.1 h
    obtain ⟨hne, rfl⟩ := borrow_ok hhost
    cases hpure
    have hfire := fire_stepped (e := .fired timer (s.timers timer).target (s.timers timer).selector) hs.recorded
        (hs.born timer hne)
      (fun _ _ h => nomatch h) (fun _ h => nomatch h) fun _ => rfl
    refine hfire.sound hs fun x => ?_
    rw [List.flatMap_append, List.count_append]
    rfl
  | fired i => exact hs.fireReturned h
  | iterate runLoop =>
    obtain ⟨s₁, hretain, hpure⟩ := bind_eq_ok.1 h
    have hstep := retainAll_stepped hs.recorded hretain
    cases hpure
    refine hstep.sound hs fun x => ?_
    rw [hstep.guest, hstep.activities, List.flatMap_append, List.count_append, List.flatMap_singleton, Activity.held,
      pending,
      List.count_nil]
    omega
  | next i now => exact hs.handleNext h
  | called i => exact hs.callbackReturned h
  | retain timer =>
    obtain ⟨s₁, hretain, hpure⟩ := bind_eq_ok.1 h
    have hstep := retainTimer_stepped hs.recorded hretain
    cases hpure
    refine hstep.sound hs fun x => ?_
    rw [hstep.guest, hstep.activities, ← pending, List.count_nil, List.count_cons, List.count_singleton]
    omega
  | release timer =>
    obtain ⟨_, hmem, hrest⟩ := bind_eq_ok.1 h
    obtain ⟨s₁, hrelease, hpure⟩ := bind_eq_ok.1 hrest
    have hstep := releaseTimer_stepped hs.recorded hrelease
    cases hpure
    refine hstep.sound hs fun x => ?_
    have hperm := (List.perm_cons_erase (of_decide_eq_true (assert_cases hmem))).count_eq x
    rw [List.count_cons] at hperm
    rw [hstep.guest, hstep.activities, ← pending, List.count_nil, List.count_singleton]
    omega

/-! ## Runs -/

/-- **What the lists of timers say**, and what the run loops have sent. -/
structure Timely (s : RunLoops) : Prop where
  /-- a timer is in the list that it was added to as long as it is valid -/
  listed : ∀ runLoop timer, timer ∈ s.runLoops runLoop ↔ .added runLoop timer ∈ s.log ∧ (s.timers timer).dueBy.isSome
  nodup : ∀ runLoop, (s.runLoops runLoop).Nodup
  once : ∀ timer, (s.timers timer).repeats = false → s.log.countP (TimerEvent.sends timer) ≤ 1
  never : ∀ before timer target selector, before ++ [.sent timer target selector] <+: s.log → .invalidated timer ∉ before
  accounted : Accounted s

theorem Sound.timely (hs : Sound s) : Timely s where
  listed r t := by rw [hs.recorded.listed, hs.recorded.added]
  nodup := hs.recorded.nodup
  once := hs.recorded.once
  never := hs.recorded.never
  accounted := hs.accounted

theorem sound_start : Sound start where
  recorded := by
    refine ⟨fun r t => ?_, fun r t => ?_, fun r => List.nodup_nil, fun t ht => absurd ht (Nat.not_lt_zero t),
      fun t ht => ?_,
      fun t _ _ e he => ?_, fun t _ => Nat.zero_le 1, fun before t _ _ h => ?_, fun t _ =>
        ⟨rfl, List.not_mem_nil, fun e he => ?_⟩⟩
    · exact iff_of_false (fun h => nomatch h) List.not_mem_nil
    · exact iff_of_false List.not_mem_nil fun h => nomatch h.1
    · exact absurd ht List.not_mem_nil
    · exact absurd he List.not_mem_nil
    · exact absurd (List.prefix_nil.1 h) (by simp)
    · exact absurd he List.not_mem_nil
  accounted _ := rfl
  born t ht := absurd rfl ht

/-- the timer is there, and was never added to a run loop -/
def Unadded (s : RunLoops) (timer : ℕ) : Prop := s.refs timer ≠ 0 ∧ ∀ runLoop, .added runLoop timer ∉ s.log

/-- the timer that is invalidated or fired -/
def subject (s : RunLoops) : Op → Option ℕ
  | .invalidate timer => some timer
  | .fire timer => some timer
  | .fired i =>
    match s.activities[i]? with
    | some (.firing timer _) => some timer
    | _ => none
  | _ => none

/-- the step does not fail, and changes no run loop, if the timer was never added -/
def Untroubled (lag : Lag) (s : RunLoops) (op : Op) : Prop :=
  ∀ timer ∈ subject s op, Unadded s timer → ∃ s', step lag s op = .ok s' ∧ s'.runLoops = s.runLoops

/-- no timer is invalidated that was never added, and no `fire` of a timer ends that does not repeat and was never added -/
def AddedFirst (s : RunLoops) : Op → Prop
  | .invalidate timer => ¬Unadded s timer
  | .fired i => ∀ timer, s.activities[i]? = some (.firing timer false) → ¬Unadded s timer
  | _ => True

theorem Unadded.borrow (h : Unadded s t) : borrow s t = .ok (s.timers t) := if_neg h.1

/-- **A timer that was never added cannot be invalidated**: it has no run loop to be removed from. -/
theorem unadded_invalidate (hs : Sound s) (h : Unadded s t) : invalidate s t = .error .missing := by
  have hloop : (s.timers t).runLoop = none := by
    rw [Option.eq_none_iff_forall_ne_some]
    intro r hr
    exact h.2 r ((hs.recorded.added r t).1 hr)
  have hdue := hs.recorded.waiting t (hs.born t h.1) hloop
  rw [invalidate, h.borrow, ok_bind]
  dsimp only
  rw [if_pos hdue, hloop]
  rfl

theorem untroubled_iff (hs : Sound s) : AddedFirst s op ↔ Untroubled lag s op := by
  cases op with
  | invalidate timer =>
    refine ⟨fun h t ht hun => ?_, fun h hun => ?_⟩
    · cases ht
      exact absurd hun h
    · obtain ⟨s', hok, -⟩ := h timer rfl hun
      rw [step, unadded_invalidate hs hun] at hok
      cases hok
  | fire timer =>
    refine iff_of_true trivial fun t ht hun => ?_
    cases ht
    rw [step, hun.borrow]
    exact ⟨_, rfl, rfl⟩
  | fired i =>
    constructor
    · intro h t ht hun
      cases ha : s.activities[i]? with
      | none =>
        rw [subject, ha] at ht
        cases ht
      | some a =>
        rw [subject, ha] at ht
        cases a with
        | iterating timers sleepUntil => cases ht
        | calling timer next timers sleepUntil => cases ht
        | firing timer repeats =>
          cases ht
          cases repeats with
          | false => exact absurd hun (h _ ha)
          | true =>
            rw [step, fireReturned, ha]
            exact ⟨_, rfl, rfl⟩
    · intro h timer ha hun
      obtain ⟨s', hok, -⟩ := h timer (by rw [subject, ha]; rfl) hun
      obtain ⟨t, repeats, ha', hend⟩ := fireReturned_ok hok
      obtain ⟨rfl, rfl⟩ := Activity.firing.inj (Option.some.inj (ha.symm.trans ha'))
      rw [if_neg Bool.false_ne_true, unadded_invalidate (hs.erase ha) hun] at hend
      cases hend
  | timerWithTimeInterval interval target selector now repeats => exact iff_of_true trivial fun t ht => nomatch ht
  | addTimer runLoop timer modeHandled => exact iff_of_true trivial fun t ht => nomatch ht
  | iterate runLoop => exact iff_of_true trivial fun t ht => nomatch ht
  | next i now => exact iff_of_true trivial fun t ht => nomatch ht
  | called i => exact iff_of_true trivial fun t ht => nomatch ht
  | retain timer => exact iff_of_true trivial fun t ht => nomatch ht
  | release timer => exact iff_of_true trivial fun t ht => nomatch ht

/-- The lists of timers are right in every state of every run, and a run is untroubled exactly if timers are added
before they are invalidated. -/
theorem timers_iff (lag : Lag) (ops : List Op) :
    Throughout (step lag) Timely start ops ∧ LegalRun (step lag) (Untroubled lag) start ops ↔
      LegalRun (step lag) AddedFirst start ops :=
  legalRun_iff (I := Sound) (fun _ _ _ hs h => step_sound hs h)
    (fun _ _ hs _ => (untroubled_iff hs).trans (and_iff_left fun _ h => (step_sound hs h).timely).symm) sound_start
    sound_start.timely

/-- a timer that is invalidated before it is added, and one that is fired before it is added and does not repeat -/
theorem unadded_invalidated :
    ¬LegalRun (step fun _ _ => 1) (Untroubled fun _ _ => 1) start [.timerWithTimeInterval 0 1 2 0 true, .invalidate 0] ∧
      ¬LegalRun (step fun _ _ => 1) (Untroubled fun _ _ => 1) start
        [.timerWithTimeInterval 0 1 2 0 false, .fire 0, .fired 0] := by
  constructor
  · intro h
    obtain ⟨s', hok, -⟩ := (h.2 _ rfl).1 0 rfl ⟨Nat.one_ne_zero, fun r => List.not_mem_nil⟩
    exact nomatch hok
  · intro h
    obtain ⟨s', hok, -⟩ := ((h.2 _ rfl).2 _ rfl).1 0 rfl ⟨Nat.one_ne_zero, fun r hr => nomatch (List.mem_singleton.1 hr)⟩
    exact nomatch hok

end TouchHLE.RunLoops
