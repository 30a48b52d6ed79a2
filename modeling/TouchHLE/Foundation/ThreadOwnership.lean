/-
Who owns an `NSThread`, its target and its argument.

- `Ledger`: every reference is counted, with those that are in the hands of a method.
- `Ledger.released` and so on: references that are taken, given back, and change hands.
- `Stepped`, `step_stepped`: what one step does to the objects that a thread still needs.
- `thread_ownership`: runs.
-/
import TouchHLE.Foundation.Thread

namespace TouchHLE.NSThread

open Machine Counted

variable {s s' : Threads} {op : Op} {p t o : ℕ} {stage stage' : Stage} {host host' : NSThreadHostObject} {r : Option ℕ}
  {hand : List (Option ℕ)} {target object : Option ℕ} {hand' : List (Option ℕ)} {l : List (Option Body)}
  {overridesMain : Bool} {selector : String} {refs : Counts} {body : Body}

/-! ## The threads that run an object -/

/-- no object is run by two threads -/
def Once (s : Threads) : Prop :=
  ∀ p p' t stage stage', s.pthreads.getD p none = some ⟨t, stage⟩ → s.pthreads.getD p' none = some ⟨t, stage'⟩ → p = p'

theorem getD_of_mem (h : some body ∈ l) : ∃ p, l.getD p none = some body := by
  obtain ⟨p, hp, hbody⟩ := List.mem_iff_getElem.1 h
  refine ⟨p, ?_⟩
  rw [List.getD_eq_getElem?_getD, List.getElem?_eq_getElem hp, hbody]
  rfl

theorem mem_of_getD (h : l.getD p none = some body) : p < l.length ∧ some body ∈ l := by
  rw [List.getD_eq_getElem?_getD] at h
  cases hp : l[p]? with
  | none =>
    rw [hp] at h
    cases h
  | some x =>
    rw [hp] at h
    obtain rfl : x = some body := h
    exact ⟨(List.getElem?_eq_some_iff.1 hp).1, List.mem_of_getElem? hp⟩

theorem stageOf_of_body (h : Once s) (hbody : s.pthreads.getD p none = some ⟨t, stage⟩) : stageOf s t = stage := by
  unfold stageOf
  cases hfind : (s.pthreads.filterMap id).find? fun body => body.thread == t with
  | none =>
    rw [List.find?_eq_none] at hfind
    exact absurd (beq_self_eq_true t) (hfind ⟨t, stage⟩ (List.mem_filterMap.2 ⟨_, (mem_of_getD hbody).2, rfl⟩))
  | some body =>
    obtain ⟨t', stage'⟩ := body
    have hfound := List.find?_some hfind
    obtain rfl : t' = t := eq_of_beq hfound
    obtain ⟨x, hx, hx'⟩ := List.mem_filterMap.1 (List.mem_of_find?_eq_some hfind)
    obtain rfl : x = some ⟨t', stage'⟩ := hx'
    obtain ⟨p', hp'⟩ := getD_of_mem hx
    obtain rfl := h p p' t' stage stage' hbody hp'
    rw [hbody] at hp'
    exact (Body.mk.inj (Option.some.inj hp')).2.symm

theorem stageOf_of_not (h : ∀ p stage, s.pthreads.getD p none ≠ some ⟨t, stage⟩) : stageOf s t = .ready := by
  unfold stageOf
  cases hfind : (s.pthreads.filterMap id).find? fun body => body.thread == t with
  | none => rfl
  | some body =>
    obtain ⟨t', stage'⟩ := body
    have hfound := List.find?_some hfind
    obtain rfl : t' = t := eq_of_beq hfound
    obtain ⟨x, hx, hx'⟩ := List.mem_filterMap.1 (List.mem_of_find?_eq_some hfind)
    obtain rfl : x = some ⟨t', stage'⟩ := hx'
    obtain ⟨p, hp⟩ := getD_of_mem hx
    exact absurd hp (h p stage')

theorem getD_setStage (hp : p < s.pthreads.length) (p' : ℕ) :
    (setStage s p t stage).pthreads.getD p' none = if p' = p then some ⟨t, stage⟩ else s.pthreads.getD p' none := by
  rw [setStage, List.getD_eq_getElem?_getD, List.getElem?_set, List.getD_eq_getElem?_getD]
  by_cases h : p' = p
  · rw [if_pos h.symm, if_pos h, if_pos hp]
    rfl
  · rw [if_neg (Ne.symm h), if_neg h]

theorem setStage_once (h : Once s) (hbody : s.pthreads.getD p none = some ⟨t, stage⟩) : Once (setStage s p t stage') := by
  have hp := (mem_of_getD hbody).1
  have hback {p' t' st'} (hb : (setStage s p t stage').pthreads.getD p' none = some ⟨t', st'⟩) :
      ∃ st, s.pthreads.getD p' none = some ⟨t', st⟩ := by
    rw [getD_setStage hp] at hb
    split_ifs at hb with heq
    · obtain ⟨rfl, -⟩ := Body.mk.inj (Option.some.inj hb)
      exact ⟨stage, heq ▸ hbody⟩
    · exact ⟨st', hb⟩
  intro p₁ p₂ t' st₁ st₂ h₁ h₂
  obtain ⟨_, h₁⟩ := hback h₁
  obtain ⟨_, h₂⟩ := hback h₂
  exact h p₁ p₂ t' _ _ h₁ h₂

theorem stageOf_setStage (h : Once s) (hbody : s.pthreads.getD p none = some ⟨t, stage⟩) (t' : ℕ) :
    stageOf (setStage s p t stage') t' = if t' = t then stage' else stageOf s t' := by
  have hp := (mem_of_getD hbody).1
  have honce : Once (setStage s p t stage') := setStage_once h hbody
  split_ifs with ht
  · rw [ht]
    refine stageOf_of_body (p := p) honce ?_
    rw [getD_setStage hp, if_pos rfl]
  · by_cases hsome : ∃ p' st, s.pthreads.getD p' none = some ⟨t', st⟩
    · obtain ⟨p', st, hb⟩ := hsome
      rw [stageOf_of_body h hb]
      refine stageOf_of_body (p := p') honce ?_
      rw [getD_setStage hp, if_neg, hb]
      rintro rfl
      rw [hbody] at hb
      exact ht (Body.mk.inj (Option.some.inj hb)).1.symm
    · simp only [not_exists] at hsome
      rw [stageOf_of_not hsome]
      refine stageOf_of_not fun p' st hb => ?_
      rw [getD_setStage hp] at hb
      split_ifs at hb with heq
      · exact ht (Body.mk.inj (Option.some.inj hb)).1.symm
      · exact hsome p' st hb

/-! ## The ledger -/

/-- the references that belong to an object -/
def heldOf (t : ℕ) (host : NSThreadHostObject) (stage : Stage) : List (Option ℕ) := host.threadDictionary :: taken t host stage

/-- the references that the table holds -/
def heldByTable (s : Threads) : List (Option ℕ) := s.nsThreads.flatMap fun e => if Active s e.1 then [] else [some e.2]

/-- all references but those of one object -/
def others (s : Threads) (t : ℕ) : List (Option ℕ) :=
  s.owned.map some ++ ((Assoc.erase t s.objects).flatMap (fun e => heldOf e.1 e.2 (stageOf s e.1)) ++ heldByTable s)

theorem held_perm (hk : (s.objects.map Prod.fst).Nodup) (hhost : s.objects.lookup t = some host) :
    (held s).Perm (heldOf t host (stageOf s t) ++ others s t) := by
  have hsplit := (Assoc.perm_of_lookup hk hhost).flatMap_right fun e => heldOf e.1 e.2 (stageOf s e.1)
  rw [List.flatMap_cons] at hsplit
  calc
    (held s).Perm (s.owned.map some ++ ((heldOf t host (stageOf s t) ++
        (Assoc.erase t s.objects).flatMap fun e => heldOf e.1 e.2 (stageOf s e.1)) ++ heldByTable s)) :=
      (hsplit.append_right _).append_left _
    _ |>.Perm (heldOf t host (stageOf s t) ++ others s t) := by
      rw [others, List.append_assoc, ← List.append_assoc, ← List.append_assoc (heldOf _ _ _)]
      exact List.perm_append_comm.append_right _

/-- **The ledger**: the count of every object is the number of references to it, those included that a method has in its hands.
Every thread that has not removed its object from the table has it there. -/
structure Ledger (hand : List (Option ℕ)) (s : Threads) : Prop where
  balanced : Balanced s.refs (hand ++ held s)
  fresh : ∀ o, some o ∈ hand ++ held s → o < s.next
  objects : (s.objects.map Prod.fst).Nodup
  objects_lt : ∀ e ∈ s.objects, e.1 < s.next
  table : (s.nsThreads.map Prod.fst).Nodup
  table_lt : ∀ e ∈ s.nsThreads, e.1 < s.pthreads.length
  once : Once s
  body : ∀ p t stage, s.pthreads.getD p none = some ⟨t, stage⟩ → ∃ host, s.objects.lookup t = some host
  listed : ∀ p t stage, s.pthreads.getD p none = some ⟨t, stage⟩ → stage ≠ .finished → s.nsThreads.lookup p = some t
  plain : ∀ e ∈ s.objects, ∀ d, e.2.threadDictionary = some d → s.objects.lookup d = none

theorem Ledger.lt_of_alive (h : Ledger hand s) (ho : 0 < s.refs o) : o < s.next := h.fresh o (h.balanced.pos_iff.1 ho)

/-- an object that could be retained -/
theorem Ledger.lt_of_retain (h : Ledger hand s) (hr : retain s.refs (some o) = some refs) : o < s.next := by
  refine h.lt_of_alive (Nat.pos_of_ne_zero fun hzero => ?_)
  rw [retain, if_pos hzero] at hr
  cases hr

theorem Ledger.retained (h : Ledger hand s) (hr : retainObject s r = .ok s') : Ledger (r :: hand) s' := by
  obtain ⟨refs, hrefs, hr⟩ := bind_eq_ok.1 hr
  cases hr
  rw [unwrap_eq_ok] at hrefs
  refine ⟨h.balanced.retain hrefs, fun o ho => ?_, h.objects, h.objects_lt, h.table, h.table_lt, h.once, h.body, h.listed, h.plain⟩
  rcases List.mem_cons.1 ho with ho | ho
  · exact h.lt_of_retain (ho ▸ hrefs)
  · exact h.fresh o ho

/-- references change hands -/
theorem Ledger.perm (h : Ledger hand s) (hrefs : s'.refs = s.refs) (hnext : s'.next = s.next)
    (hobjects : s'.objects = s.objects) (hpthreads : s'.pthreads = s.pthreads) (htable : s'.nsThreads = s.nsThreads)
    (hperm : (hand ++ held s).Perm (hand' ++ held s')) : Ledger hand' s' := by
  refine ⟨hrefs ▸ h.balanced.perm hperm, fun o ho => hnext ▸ h.fresh o (hperm.mem_iff.2 ho), hobjects ▸ h.objects, ?_,
    htable ▸ h.table, ?_, ?_, ?_, ?_, hobjects ▸ h.plain⟩
  · rw [hobjects, hnext]
    exact h.objects_lt
  · rw [htable, hpthreads]
    exact h.table_lt
  · have honce := h.once
    unfold Once at honce ⊢
    rwa [hpthreads]
  · rw [hpthreads, hobjects]
    exact h.body
  · rw [hpthreads, htable]
    exact h.listed

theorem held_owned {owned : List ℕ} : held { s with owned } = owned.map some ++
    (s.objects.flatMap (fun e => heldOf e.1 e.2 (stageOf s e.1)) ++ heldByTable s) := rfl

/-- the guest gets a reference -/
theorem Ledger.give (h : Ledger (some o :: hand) s) : Ledger hand { s with owned := o :: s.owned } := by
  refine h.perm rfl rfl rfl rfl rfl ?_
  exact List.perm_middle.symm

/-- the guest gives a reference away -/
theorem Ledger.take (h : Ledger hand s) (ho : o ∈ s.owned) : Ledger (some o :: hand) { s with owned := s.owned.erase o } := by
  refine h.perm rfl rfl rfl rfl rfl ?_
  have hperm := (List.perm_cons_erase ho).map some
  rw [held_owned]
  calc
    (hand ++ held s).Perm (hand ++ ((o :: s.owned.erase o).map some ++
        (s.objects.flatMap (fun e => heldOf e.1 e.2 (stageOf s e.1)) ++ heldByTable s))) :=
      (hperm.append_right _).append_left _
    _ |>.Perm (some o :: hand ++ ((s.owned.erase o).map some ++
        (s.objects.flatMap (fun e => heldOf e.1 e.2 (stageOf s e.1)) ++ heldByTable s))) := List.perm_middle

/-- the same references, where nil does not count -/
def SameRefs (l l' : List (Option ℕ)) : Prop := ∀ o, l.count (some o) = l'.count (some o)

theorem SameRefs.mem_iff {l l' : List (Option ℕ)} (h : SameRefs l l') : some o ∈ l ↔ some o ∈ l' := by
  rw [← List.count_pos_iff, h o, List.count_pos_iff]

theorem Ledger.mem_fresh {l : List (Option ℕ)} (h : Ledger hand s) (hl : SameRefs (hand ++ held s) l) : ∀ o, some o ∈ l → o < s.next :=
  fun o ho => h.fresh o (hl.mem_iff.2 ho)

/-- an `NSThread` is changed: the references that belong to it change hands -/
theorem Ledger.set {hand' : List (Option ℕ)} (h : Ledger hand s) (hhost : s.objects.lookup t = some host)
    (hsame : SameRefs (hand ++ heldOf t host (stageOf s t)) (hand' ++ heldOf t host' (stageOf s t)))
    (hplain : ∀ d, host'.threadDictionary = some d → s.objects.lookup d = none) : Ledger hand' (setObject s t host') := by
  have hlookup {t' : ℕ} : (setObject s t host').objects.lookup t' = if t' = t then some host' else s.objects.lookup t' := by
    split_ifs with ht
    · rw [ht]
      exact Assoc.lookup_insert_self
    · exact Assoc.lookup_insert_of_ne ht
  have hnew : held (setObject s t host') = s.owned.map some ++ ((heldOf t host' (stageOf s t) ++
      (Assoc.erase t s.objects).flatMap fun e => heldOf e.1 e.2 (stageOf s e.1)) ++ heldByTable s) := rfl
  have hall : SameRefs (hand ++ held s) (hand' ++ held (setObject s t host')) := by
    intro o
    have hold := (held_perm h.objects hhost).count_eq (some o)
    have ho := hsame o
    rw [hnew]
    simp only [others, List.count_append] at hold ho ⊢
    omega
  refine ⟨fun o => (h.balanced o).trans (hall o), h.mem_fresh hall, Assoc.nodup_insert h.objects, fun e he => ?_, h.table,
    h.table_lt, h.once, fun p' t' st hb => ?_, h.listed, fun e he d hd => ?_⟩
  · rcases Assoc.mem_insert he with rfl | he
    · exact h.objects_lt (t, host) (Assoc.mem_of_lookup hhost)
    · exact h.objects_lt e he
  · obtain ⟨host₁, hhost₁⟩ := h.body p' t' st hb
    rw [hlookup]
    split_ifs
    · exact ⟨_, rfl⟩
    · exact ⟨host₁, hhost₁⟩
  · have hold : s.objects.lookup d = none := by
      rcases Assoc.mem_insert he with rfl | he
      · exact hplain d hd
      · exact h.plain e he d hd
    rw [hlookup, if_neg, hold]
    rintro rfl
    rw [hhost] at hold
    cases hold

/-- a new object, for whoever wanted it -/
theorem Ledger.created (h : Ledger hand s) :
    Ledger (some s.next :: hand) { s with refs := create s.refs s.next, next := s.next + 1 } := by
  have hnot : some s.next ∉ hand ++ held s := fun hin => lt_irrefl _ (h.fresh _ hin)
  refine ⟨h.balanced.create hnot, fun o ho => ?_, h.objects, fun e he => (h.objects_lt e he).trans (Nat.lt_succ_self _), h.table,
    h.table_lt, h.once, h.body, h.listed, h.plain⟩
  rcases List.mem_cons.1 ho with ho | ho
  · cases ho
    exact Nat.lt_succ_self _
  · exact (h.fresh o ho).trans (Nat.lt_succ_self _)

theorem lookup_eq_none_of_lt {m : List (ℕ × NSThreadHostObject)} (h : ∀ e ∈ m, e.1 < t) : m.lookup t = none := by
  rw [List.lookup_eq_none_iff]
  intro e he
  rw [bne_iff_ne]
  exact (h e he).ne'

theorem Ledger.not_body (h : Ledger hand s) (ht : s.objects.lookup t = none) (p : ℕ) (stage : Stage) :
    s.pthreads.getD p none ≠ some ⟨t, stage⟩ := by
  intro hb
  obtain ⟨host, hhost⟩ := h.body p t stage hb
  rw [ht] at hhost
  cases hhost

/-- a new `NSThread` -/
theorem Ledger.allocated (h : Ledger hand s) (overridesMain : Bool) :
    Ledger (some s.next :: hand) (alloc s overridesMain).2 ∧
      (alloc s overridesMain).2.objects.lookup s.next = some ⟨none, none, none, none, false, false, overridesMain⟩ ∧
      stageOf (alloc s overridesMain).2 s.next = .ready := by
  have hnone : s.objects.lookup s.next = none := lookup_eq_none_of_lt h.objects_lt
  have hstage : stageOf s s.next = .ready := stageOf_of_not (h.not_body hnone)
  have hc := h.created
  have hlookup {t' : ℕ} (ht : t' ≠ s.next) : (alloc s overridesMain).2.objects.lookup t' = s.objects.lookup t' :=
    Assoc.lookup_insert_of_ne ht
  refine ⟨?_, Assoc.lookup_insert_self, hstage⟩
  -- the new object has no references yet
  have hheld : held (alloc s overridesMain).2 = s.owned.map some ++ ((heldOf s.next
      ⟨none, none, none, none, false, false, overridesMain⟩ (stageOf s s.next) ++
        (Assoc.erase s.next s.objects).flatMap fun e => heldOf e.1 e.2 (stageOf s e.1)) ++ heldByTable s) := rfl
  rw [Assoc.erase_of_lookup hnone, hstage] at hheld
  have hcount (o : ℕ) : (some s.next :: hand ++ held (alloc s overridesMain).2).count (some o) =
      (some s.next :: hand ++ held s).count (some o) := by
    have hold : held s = s.owned.map some ++ ((s.objects.flatMap fun e => heldOf e.1 e.2 (stageOf s e.1)) ++ heldByTable s) := rfl
    rw [hheld, hold]
    simp [heldOf, taken, List.count_cons]
  have hmem (o : ℕ) : some o ∈ some s.next :: hand ++ held (alloc s overridesMain).2 ↔
      some o ∈ some s.next :: hand ++ held s := by
    rw [← List.count_pos_iff, hcount, List.count_pos_iff]
  refine ⟨fun o => ?_, fun o ho => hc.fresh o ((hmem o).1 ho), Assoc.nodup_insert h.objects, fun e he => ?_, h.table, h.table_lt, h.once,
    fun p t stage hb => ?_, h.listed, fun e he d hd => ?_⟩
  · rw [hcount]
    exact hc.balanced o
  · rcases Assoc.mem_insert he with rfl | he
    · exact Nat.lt_succ_self _
    · exact (h.objects_lt e he).trans (Nat.lt_succ_self _)
  · obtain ⟨host, hhost⟩ := h.body p t stage hb
    rw [hlookup]
    · exact ⟨host, hhost⟩
    · rintro rfl
      rw [hnone] at hhost
      cases hhost
  · rcases Assoc.mem_insert he with rfl | he
    · cases hd
    · have hold := h.plain e he d hd
      rw [hlookup, hold]
      rintro rfl
      have hin : some s.next ∈ hand ++ held s := by
        refine List.mem_append_right _ (List.mem_append_right _ (List.mem_append_left _ (List.mem_flatMap.2 ⟨e, he, ?_⟩)))
        rw [hd]
        exact List.mem_cons_self
      exact lt_irrefl _ (h.fresh _ hin)

/-- other counts for the same references -/
theorem Ledger.recount (h : Ledger hand s) (hb : Balanced refs (hand' ++ held s))
    (hsub : ∀ o, some o ∈ hand' → some o ∈ hand) : Ledger hand' { s with refs } := by
  refine ⟨hb, fun o ho => h.fresh o ?_, h.objects, h.objects_lt, h.table, h.table_lt, h.once, h.body, h.listed, h.plain⟩
  rcases List.mem_append.1 ho with ho | ho
  · exact List.mem_append_left _ (hsub o ho)
  · exact List.mem_append_right _ ho

theorem taken_congr (htarget : host'.target = host.target) (hobject : host'.object = host.object) (howned : host'.owned = host.owned) :
    taken t host' stage = taken t host stage := by
  cases stage <;> simp only [taken, htarget, hobject, howned]

/-- **`dealloc`** of an `NSThread` gives back the reference to its dictionary. -/
theorem Ledger.dealloc (h : Ledger hand s) (hhost : s.objects.lookup t = some host) :
    ∃ refs, release s.refs host.threadDictionary = some refs ∧
      Ledger hand (setObject { s with refs } t { host with threadDictionary := none }) ∧
      ∀ t', s.objects.lookup t' ≠ none → refs t' = s.refs t' := by
  have hset : Ledger (host.threadDictionary :: hand) (setObject s t { host with threadDictionary := none }) := by
    refine h.set hhost (fun o => ?_) nofun
    have htaken : taken t { host with threadDictionary := none } (stageOf s t) = taken t host (stageOf s t) := taken_congr rfl rfl rfl
    rw [heldOf, heldOf, htaken]
    simp only [List.count_append, List.count_cons, List.cons_append, reduceCtorEq, beq_iff_eq, ite_false]
    omega
  obtain ⟨refs, hr, hbalanced⟩ := hset.balanced.release
  refine ⟨refs, hr, hset.recount hbalanced fun o => List.mem_cons_of_mem _, fun t' ht' => ?_⟩
  have hne : host.threadDictionary ≠ some t' := fun heq => ht' (h.plain _ (Assoc.mem_of_lookup hhost) t' heq)
  have hcount : s.refs t' = _ := hset.balanced t'
  rw [List.cons_append, List.count_cons_of_ne hne] at hcount
  rw [hcount, hbalanced t']
  rfl

/-- **`release`** gives back a reference that is in the hands of a method. -/
theorem Ledger.released (h : Ledger (r :: hand) s) : ∃ s', releaseObject s r = .ok s' ∧ Ledger hand s' ∧
    s'.pthreads = s.pthreads ∧ s'.nsThreads = s.nsThreads ∧ s'.next = s.next ∧
    (∀ t, s.objects.lookup t ≠ none → 0 < s.refs t → 0 < s'.refs t ∨ r = some t ∧ s.refs t = 1) ∧
    (∀ t, s.refs t = 0 → s'.refs t = 0) ∧ (∀ t, r = some t → s.objects.lookup t ≠ none → s'.refs t + 1 = s.refs t) ∧
    ∀ t host, s.objects.lookup t = some host →
      ∃ d, s'.objects.lookup t = some { host with threadDictionary := d } := by
  obtain ⟨refs, hr, hbalanced⟩ := h.balanced.release
  have hb : Balanced refs (hand ++ held s) := hbalanced
  have hgiven (o : ℕ) (ho : r = some o) : refs o + 1 = s.refs o := by
    rw [h.balanced o, hb o, ho, List.cons_append, List.count_cons_self]
  have hplain : Ledger hand { s with refs } := h.recount hb fun o => List.mem_cons_of_mem _
  unfold releaseObject
  rw [hr]
  dsimp only [unwrap]
  rw [ok_bind]
  -- an object that is not deallocated, or that is no `NSThread`
  have hrest : ∃ s', (pure { s with refs } : Except Panic Threads) = .ok s' ∧ Ledger hand s' ∧
      s'.pthreads = s.pthreads ∧ s'.nsThreads = s.nsThreads ∧ s'.next = s.next ∧
      (∀ t, s.objects.lookup t ≠ none → 0 < s.refs t → 0 < s'.refs t ∨ r = some t ∧ s.refs t = 1) ∧
      (∀ t, s.refs t = 0 → s'.refs t = 0) ∧ (∀ t, r = some t → s.objects.lookup t ≠ none → s'.refs t + 1 = s.refs t) ∧
      ∀ t host, s.objects.lookup t = some host → ∃ d, s'.objects.lookup t = some { host with threadDictionary := d } :=
    ⟨_, rfl, hplain, rfl, rfl, rfl, fun t _ ho => release_pos hr ho, fun t => release_zero hr, fun t ht _ => hgiven t ht,
      fun t host hhost => ⟨host.threadDictionary, hhost⟩⟩
  cases r with
  | none =>
    obtain rfl : s.refs = refs := Option.some.inj hr
    exact hrest
  | some o =>
    dsimp only
    cases hlookup : s.objects.lookup o with
    | none => exact hrest
    | some host =>
      dsimp only
      split_ifs with hzero
      · obtain ⟨refs', hr', hledger, hother⟩ := hplain.dealloc hlookup
        rw [show release refs host.threadDictionary = some refs' from hr']
        refine ⟨_, rfl, hledger, rfl, rfl, rfl, fun t ht ho => ?_, fun t hzero' => release_zero hr' (release_zero hr hzero'),
          fun t ht hne => ?_, fun t host₁ hhost₁ => ?_⟩
        · show 0 < refs' t ∨ _
          rw [hother t ht]
          exact release_pos hr ho
        · show refs' t + 1 = _
          rw [hother t hne]
          exact hgiven t ht
        · by_cases ht : t = o
          · subst ht
            cases hlookup.symm.trans hhost₁
            exact ⟨none, Assoc.lookup_insert_self⟩
          · exact ⟨host₁.threadDictionary, (Assoc.lookup_insert_of_ne ht).trans hhost₁⟩
      · exact hrest

/-- **A thread goes on**, and what it does not need any more is in its hands. -/
theorem Ledger.moved {hand' : List (Option ℕ)} (h : Ledger hand s) (hbody : s.pthreads.getD p none = some ⟨t, stage⟩)
    (hhost : s.objects.lookup t = some host) (hsame : SameRefs (hand ++ taken t host stage) (hand' ++ taken t host stage'))
    (hstage : stage ≠ .finished) (hstage' : stage' ≠ .finished) : Ledger hand' (setStage s p t stage') := by
  have hp := (mem_of_getD hbody).1
  have hlength : (setStage s p t stage').pthreads.length = s.pthreads.length := List.length_set
  have hactive (p' : ℕ) : Active (setStage s p t stage') p' ↔ Active s p' := by
    unfold Active
    rw [getD_setStage hp]
    split_ifs with heq
    · rw [heq, hbody]
      exact iff_of_true ⟨_, rfl, hstage'⟩ ⟨_, rfl, hstage⟩
    · exact Iff.rfl
  have htable : heldByTable (setStage s p t stage') = heldByTable s := by
    unfold heldByTable
    simp only [hactive]
    rfl
  have hothers : others (setStage s p t stage') t = others s t := by
    unfold others
    rw [htable]
    have hcongr : ((Assoc.erase t s.objects).flatMap fun e => heldOf e.1 e.2 (stageOf (setStage s p t stage') e.1)) =
        (Assoc.erase t s.objects).flatMap fun e => heldOf e.1 e.2 (stageOf s e.1) := by
      refine List.flatMap_congr fun e he => ?_
      have hne : e.1 ≠ t := of_decide_eq_true (List.mem_filter.1 he).2
      rw [stageOf_setStage h.once hbody, if_neg hne]
    show _ ++ (List.flatMap _ (Assoc.erase t s.objects) ++ _) = _
    rw [hcongr]
    rfl
  have hall : SameRefs (hand ++ held s) (hand' ++ held (setStage s p t stage')) := by
    intro o
    have hold := (held_perm h.objects hhost).count_eq (some o)
    have hnew := (held_perm (s := setStage s p t stage') h.objects hhost).count_eq (some o)
    have ho := hsame o
    rw [stageOf_of_body h.once hbody] at hold
    rw [stageOf_setStage h.once hbody, if_pos rfl, hothers] at hnew
    simp only [heldOf, List.count_append, List.count_cons] at hold hnew ho ⊢
    omega
  refine ⟨fun o => (h.balanced o).trans (hall o), h.mem_fresh hall, h.objects, h.objects_lt, h.table, fun e he => ?_,
    setStage_once h.once hbody, fun p' t' st hb => ?_, fun p' t' st hb hst => ?_, h.plain⟩
  · rw [hlength]
    exact h.table_lt e he
  · rw [getD_setStage hp] at hb
    split_ifs at hb with heq
    · obtain ⟨rfl, -⟩ := Body.mk.inj (Option.some.inj hb)
      exact ⟨host, hhost⟩
    · exact h.body p' t' st hb
  · rw [getD_setStage hp] at hb
    split_ifs at hb with heq
    · obtain ⟨rfl, -⟩ := Body.mk.inj (Option.some.inj hb)
      rw [heq]
      exact h.listed p t stage hbody hstage
    · exact h.listed p' t' st hb hst

/-- **The end** of a thread: its object is not in the table any more, and the reference of a detached thread to itself is in its
hands. -/
theorem Ledger.finish {owned : Bool} (h : Ledger hand s) (hbody : s.pthreads.getD p none = some ⟨t, .removing owned⟩) :
    Ledger ((if owned then [some t] else []) ++ hand) (setStage { s with nsThreads := Assoc.erase p s.nsThreads } p t .finished) := by
  obtain ⟨host, hhost⟩ := h.body p t _ hbody
  have hp := (mem_of_getD hbody).1
  have hlisted := h.listed p t _ hbody nofun
  set s' : Threads := setStage { s with nsThreads := Assoc.erase p s.nsThreads } p t .finished with hs'
  have hstep : s' = { setStage s p t .finished with nsThreads := Assoc.erase p s.nsThreads } := rfl
  have hget (p' : ℕ) : s'.pthreads.getD p' none = if p' = p then some ⟨t, .finished⟩ else s.pthreads.getD p' none := getD_setStage hp p'
  have hlength : s'.pthreads.length = s.pthreads.length := List.length_set
  have hstage (t' : ℕ) : stageOf s' t' = if t' = t then .finished else stageOf s t' := stageOf_setStage h.once hbody t'
  -- the table
  have htable : SameRefs (heldByTable s') (heldByTable s) := by
    intro o
    have hactive : Active s p := ⟨_, hbody, nofun⟩
    have hsplit := ((Assoc.perm_of_lookup h.table hlisted).flatMap_right
      fun e => if Active s e.1 then [] else [some e.2]).count_eq (some o)
    rw [List.flatMap_cons, if_pos hactive, List.nil_append] at hsplit
    have hcongr : heldByTable s' = (Assoc.erase p s.nsThreads).flatMap fun e => if Active s e.1 then [] else [some e.2] := by
      refine List.flatMap_congr fun e he => ?_
      have hne : e.1 ≠ p := of_decide_eq_true (List.mem_filter.1 he).2
      have hsame : Active s' e.1 ↔ Active s e.1 := by
        unfold Active
        rw [hget, if_neg hne]
      simp only [hsame]
    rw [hcongr, ← hsplit]
    rfl
  have hall : SameRefs (hand ++ held s) ((if owned then [some t] else []) ++ hand ++ held s') := by
    intro o
    have hold := (held_perm h.objects hhost).count_eq (some o)
    have hnew := (held_perm (s := s') h.objects hhost).count_eq (some o)
    have hcongr : ((Assoc.erase t s.objects).flatMap fun e => heldOf e.1 e.2 (stageOf s' e.1)) =
        (Assoc.erase t s.objects).flatMap fun e => heldOf e.1 e.2 (stageOf s e.1) := by
      refine List.flatMap_congr fun e he => ?_
      have hne : e.1 ≠ t := of_decide_eq_true (List.mem_filter.1 he).2
      rw [hstage, if_neg hne]
    have hothers : others s' t = s.owned.map some ++ (((Assoc.erase t s.objects).flatMap fun e => heldOf e.1 e.2 (stageOf s e.1)) ++
        heldByTable s') := by
      rw [← hcongr]
      rfl
    have ht := htable o
    rw [stageOf_of_body h.once hbody] at hold
    rw [hstage, if_pos rfl, hothers] at hnew
    simp only [others, heldOf, taken, List.count_append, List.count_cons, List.count_nil] at hold hnew ⊢
    omega
  refine ⟨fun o => (h.balanced o).trans (hall o), h.mem_fresh hall, h.objects, h.objects_lt,
    ?_, fun e he => ?_, setStage_once (s := { s with nsThreads := Assoc.erase p s.nsThreads }) h.once hbody, fun p' t' st hb => ?_, fun p' t' st hb hst => ?_, h.plain⟩
  · show ((Assoc.erase p s.nsThreads).map Prod.fst).Nodup
    rw [Assoc.keys_erase]
    exact h.table.filter _
  · rw [hlength]
    exact h.table_lt e (List.mem_filter.1 he).1
  · rw [hget] at hb
    split_ifs at hb with heq
    · obtain ⟨rfl, -⟩ := Body.mk.inj (Option.some.inj hb)
      exact ⟨host, hhost⟩
    · exact h.body p' t' st hb
  · rw [hget] at hb
    split_ifs at hb with heq
    · obtain ⟨-, rfl⟩ := Body.mk.inj (Option.some.inj hb)
      exact absurd rfl hst
    · exact (Assoc.lookup_erase_of_ne heq).trans (h.listed p' t' st hb hst)

theorem getD_concat (l : List (Option Body)) (body : Option Body) (p : ℕ) :
    (l ++ [body]).getD p none = if p = l.length then body else l.getD p none := by
  rw [List.getD_eq_getElem?_getD, List.getElem?_append, List.getD_eq_getElem?_getD]
  split_ifs with hlt heq heq
  · exact absurd heq hlt.ne
  · rfl
  · rw [heq, Nat.sub_self]
    rfl
  · rw [List.getElem?_eq_none (not_lt.1 hlt), List.getElem?_eq_none]
    exact Nat.sub_pos_of_lt (lt_of_le_of_ne (not_lt.1 hlt) (Ne.symm heq))

/-- **A new thread**, which runs an object that no other thread runs, or none at all -/
theorem Ledger.added (h : Ledger hand s) (body : Option Body) (table : List (ℕ × ℕ))
    (hbody : ∀ b, body = some b → b.stage = .ready ∧ (∃ host, s.objects.lookup b.thread = some host) ∧
      ∀ p st, s.pthreads.getD p none ≠ some ⟨b.thread, st⟩)
    (htable : body = none ∧ table = s.nsThreads ∨
      ∃ b, body = some b ∧ table = Assoc.insert s.pthreads.length b.thread s.nsThreads) :
    Ledger hand { s with pthreads := s.pthreads ++ [body], nsThreads := table } := by
  set s' : Threads := { s with pthreads := s.pthreads ++ [body], nsThreads := table } with hs'
  have hget (p : ℕ) : s'.pthreads.getD p none = if p = s.pthreads.length then body else s.pthreads.getD p none := getD_concat _ _ _
  have hlast : s.pthreads.getD s.pthreads.length none = none := by
    rw [List.getD_eq_getElem?_getD, List.getElem?_eq_none le_rfl]
    rfl
  have hnone : s.nsThreads.lookup s.pthreads.length = none := by
    rw [List.lookup_eq_none_iff]
    intro e he
    rw [bne_iff_ne]
    exact (h.table_lt e he).ne'
  have honce : Once s' := by
    intro p p' t st st' hb hb'
    rw [hget] at hb hb'
    split_ifs at hb hb' with h1 h2 h2
    · rw [h1, h2]
    · exact absurd hb' ((hbody _ hb).2.2 p' st')
    · exact absurd hb ((hbody _ hb').2.2 p st)
    · exact h.once p p' t st st' hb hb'
  have hstage (t : ℕ) : stageOf s' t = stageOf s t := by
    by_cases hsome : ∃ p st, s.pthreads.getD p none = some ⟨t, st⟩
    · obtain ⟨p, st, hb⟩ := hsome
      rw [stageOf_of_body h.once hb]
      refine stageOf_of_body (p := p) honce ?_
      rw [hget, if_neg, hb]
      rintro rfl
      rw [hlast] at hb
      cases hb
    · simp only [not_exists] at hsome
      rw [stageOf_of_not hsome]
      by_cases hnew : ∃ st, body = some ⟨t, st⟩
      · obtain ⟨st, hnew⟩ := hnew
        refine stageOf_of_body (p := s.pthreads.length) honce ?_
        rw [hget, if_pos rfl, hnew]
        obtain rfl : st = .ready := (hbody _ hnew).1
        rfl
      · refine stageOf_of_not fun p st hb => ?_
        rw [hget] at hb
        split_ifs at hb
        · exact hnew ⟨st, hb⟩
        · exact hsome p st hb
  have hactive {p : ℕ} (hp : p < s.pthreads.length) : Active s' p ↔ Active s p := by
    unfold Active
    rw [hget, if_neg hp.ne]
  have hsame : (s.nsThreads.flatMap fun e => if Active s' e.1 then [] else [some e.2]) = heldByTable s := by
    refine List.flatMap_congr fun e he => ?_
    simp only [hactive (h.table_lt e he)]
  have hheldByTable : heldByTable s' = heldByTable s := by
    rcases htable with ⟨-, rfl⟩ | ⟨b, hb, rfl⟩
    · exact hsame
    · have hnew : Active s' s.pthreads.length := by
        refine ⟨b, ?_, ?_⟩
        · rw [hget, if_pos rfl, hb]
        · rw [(hbody b hb).1]
          exact nofun
      have hinsert : Assoc.insert s.pthreads.length b.thread s.nsThreads = (s.pthreads.length, b.thread) :: s.nsThreads := by
        rw [Assoc.insert]
        exact congrArg _ (Assoc.erase_of_lookup hnone)
      unfold heldByTable
      show (List.flatMap _ (Assoc.insert s.pthreads.length b.thread s.nsThreads)) = _
      rw [hinsert, List.flatMap_cons, if_pos hnew, List.nil_append]
      exact hsame
  have hheld : held s' = held s := by
    have hobjects : (s.objects.flatMap fun e => e.2.threadDictionary :: taken e.1 e.2 (stageOf s' e.1)) =
        s.objects.flatMap fun e => e.2.threadDictionary :: taken e.1 e.2 (stageOf s e.1) := by simp only [hstage]
    show _ ++ (List.flatMap _ s.objects ++ heldByTable s') = _ ++ (_ ++ heldByTable s)
    rw [hobjects, hheldByTable]
  refine ⟨hheld ▸ h.balanced, hheld ▸ h.fresh, h.objects, h.objects_lt, ?_, fun e he => ?_, honce, fun p t st hb => ?_,
    fun p t st hb hst => ?_, h.plain⟩
  · rcases htable with ⟨-, rfl⟩ | ⟨b, -, rfl⟩
    · exact h.table
    · exact Assoc.nodup_insert h.table
  · have hlength : s'.pthreads.length = s.pthreads.length + 1 := by simp [hs']
    rw [hlength]
    rcases htable with ⟨-, rfl⟩ | ⟨b, -, rfl⟩
    · exact (h.table_lt e he).trans (Nat.lt_succ_self _)
    · rcases Assoc.mem_insert he with rfl | he
      · exact Nat.lt_succ_self _
      · exact (h.table_lt e he).trans (Nat.lt_succ_self _)
  · rw [hget] at hb
    split_ifs at hb
    · exact (hbody _ hb).2.1
    · exact h.body p t st hb
  · rw [hget] at hb
    split_ifs at hb with heq
    · rcases htable with ⟨hnone', -⟩ | ⟨b, hb', rfl⟩
      · rw [hnone'] at hb
        cases hb
      · cases hb'.symm.trans hb
        rw [heq]
        exact Assoc.lookup_insert_self
    · have hold := h.listed p t st hb hst
      rcases htable with ⟨-, rfl⟩ | ⟨b, -, rfl⟩
      · exact hold
      · exact (Assoc.lookup_insert_of_ne heq).trans hold

/-- an object that is made for a thread that has none -/
theorem Ledger.tabled (h : Ledger (some t :: hand) s) (hp : p < s.pthreads.length) (hlookup : s.nsThreads.lookup p = none) :
    Ledger hand { s with nsThreads := Assoc.insert p t s.nsThreads } := by
  have hnot : ¬Active s p := by
    rintro ⟨⟨t', st⟩, hb, hst⟩
    rw [h.listed p t' st hb hst] at hlookup
    cases hlookup
  have hinsert : Assoc.insert p t s.nsThreads = (p, t) :: s.nsThreads := by
    rw [Assoc.insert]
    exact congrArg _ (Assoc.erase_of_lookup hlookup)
  have htable : heldByTable { s with nsThreads := Assoc.insert p t s.nsThreads } = some t :: heldByTable s := by
    show List.flatMap _ (Assoc.insert p t s.nsThreads) = _
    rw [hinsert, List.flatMap_cons]
    show (if Active s p then [] else [some t]) ++ _ = _
    rw [if_neg hnot]
    rfl
  have hall : SameRefs (some t :: hand ++ held s) (hand ++ held { s with nsThreads := Assoc.insert p t s.nsThreads }) := by
    intro o
    have hheld : held { s with nsThreads := Assoc.insert p t s.nsThreads } = s.owned.map some ++
        ((s.objects.flatMap fun e => heldOf e.1 e.2 (stageOf s e.1)) ++
          heldByTable { s with nsThreads := Assoc.insert p t s.nsThreads }) := rfl
    have hold : held s = s.owned.map some ++ ((s.objects.flatMap fun e => heldOf e.1 e.2 (stageOf s e.1)) ++ heldByTable s) := rfl
    rw [hheld, hold, htable]
    simp only [List.count_append, List.count_cons, List.cons_append]
    omega
  refine ⟨fun o => (h.balanced o).trans (hall o), h.mem_fresh hall, h.objects, h.objects_lt, Assoc.nodup_insert h.table, fun e he => ?_,
    h.once, h.body, fun p' t' st hb hst => ?_, h.plain⟩
  · rcases Assoc.mem_insert he with rfl | he
    · exact hp
    · exact h.table_lt e he
  · have hne : p' ≠ p := by
      rintro rfl
      exact hnot ⟨_, hb, hst⟩
    exact (Assoc.lookup_insert_of_ne hne).trans (h.listed p' t' st hb hst)

/-! ## What a thread needs -/

theorem needs_congr (hpthreads : s'.pthreads = s.pthreads) : Needs s' t ↔ Needs s t := by
  unfold Needs
  rw [hpthreads]

theorem needs_iff (h : Once s) (hbody : s.pthreads.getD p none = some ⟨t, stage⟩) : Needs s t ↔ stage = .ready ∨ stage = .main := by
  constructor
  · rintro ⟨p', stage', hbody', hstage⟩
    obtain rfl := h p p' t stage stage' hbody hbody'
    obtain ⟨-, rfl⟩ := Body.mk.inj (Option.some.inj (hbody.symm.trans hbody'))
    exact hstage
  · exact fun hstage => ⟨p, stage, hbody, hstage⟩

/-- a thread goes on: the other threads need what they needed -/
theorem needs_setStage (h : Once s) (hbody : s.pthreads.getD p none = some ⟨t, stage⟩) (t' : ℕ) :
    Needs (setStage s p t stage') t' ↔ if t' = t then stage' = .ready ∨ stage' = .main else Needs s t' := by
  have hp := (mem_of_getD hbody).1
  split_ifs with ht
  · refine needs_iff (p := p) (setStage_once h hbody) ?_
    rw [getD_setStage hp, if_pos rfl, ht]
  · unfold Needs
    refine exists_congr fun p' => exists_congr fun stage₁ => and_congr_left' ?_
    rw [getD_setStage hp]
    split_ifs with heq
    · rw [heq, hbody]
      refine iff_of_false ?_ ?_
      · exact fun heq => ht (Body.mk.inj (Option.some.inj heq)).1.symm
      · exact fun heq => ht (Body.mk.inj (Option.some.inj heq)).1.symm
    · exact Iff.rfl

/-- every object that a thread needs is there -/
def Safe (s : Threads) : Prop := ∀ t, Needs s t → 0 < s.refs t

/-- **What a step does** to the objects that threads need -/
structure Stepped (s : Threads) (op : Op) (s' : Threads) : Prop extends Ledger [] s' where
  /-- an object is deallocated when its last reference is given back -/
  alive : ∀ t, s.objects.lookup t ≠ none → 0 < s.refs t → 0 < s'.refs t ∨ releases s op = some t ∧ s.refs t = 1
  given : ∀ t, releases s op = some t → s.objects.lookup t ≠ none → s'.refs t + 1 = s.refs t
  /-- a thread that is started has its object, and needs it until `main` has returned -/
  needs_new : ∀ t, Needs s' t → 0 < s'.refs t ∨ Needs s t ∧ ∀ p, op = .proceed p → s.pthreads.getD p none ≠ some ⟨t, .main⟩
  needs_old : ∀ t, Needs s t → Needs s' t ∨ ∃ p, op = .proceed p ∧ s.pthreads.getD p none = some ⟨t, .main⟩

/-- an operation that only takes references -/
theorem grown_stepped (h : Ledger [] s') (hop : ∀ p, op ≠ .proceed p) (hnone : releases s op = none)
    (hrefs : ∀ t, s.objects.lookup t ≠ none → 0 < s.refs t → 0 < s'.refs t) (hnew : ∀ t, Needs s' t → 0 < s'.refs t ∨ Needs s t)
    (hold : ∀ t, Needs s t → Needs s' t) : Stepped s op s' := by
  refine ⟨h, fun t ht ho => .inl (hrefs t ht ho), fun t ht => ?_, fun t ht => ?_, fun t ht => .inl (hold t ht)⟩
  · rw [hnone] at ht
    cases ht
  · exact (hnew t ht).imp_right fun ht => ⟨ht, fun p hp => absurd hp (hop p)⟩

/-- the same, when no thread is started -/
theorem kept_stepped (h : Ledger [] s') (hop : ∀ p, op ≠ .proceed p) (hnone : releases s op = none)
    (hrefs : ∀ t, s.objects.lookup t ≠ none → 0 < s.refs t → 0 < s'.refs t) (hpthreads : s'.pthreads = s.pthreads) :
    Stepped s op s' :=
  grown_stepped h hop hnone hrefs (fun _ ht => .inr ((needs_congr hpthreads).1 ht)) fun _ ht => (needs_congr hpthreads).2 ht

theorem Ledger.alive_of_held (h : Ledger hand s) (hr : r ∈ hand ++ held s) : gone s.refs r = false :=
  gone_eq_false.2 fun _ ho => h.balanced.pos_iff.2 (ho ▸ hr)

/-- what belongs to an `NSThread` -/
theorem Ledger.alive_of_heldOf (h : Ledger hand s) (hhost : s.objects.lookup t = some host) (hr : r ∈ heldOf t host (stageOf s t)) :
    gone s.refs r = false :=
  h.alive_of_held (List.mem_append_right _ ((held_perm h.objects hhost).mem_iff.2 (List.mem_append_left _ hr)))

theorem borrow_eq_ok (ho : 0 < s.refs t) (hhost : s.objects.lookup t = some host) : borrow s t = .ok host := by
  unfold borrow
  rw [assert_ok (bne_iff_ne.2 ho.ne'), ok_bind, hhost]
  rfl

theorem retainObject_ok (hr : gone s.refs r = false) : ∃ refs, retainObject s r = .ok { s with refs } ∧ retain s.refs r = some refs := by
  cases hrefs : retain s.refs r with
  | none =>
    rw [retain_none_iff, hr] at hrefs
    cases hrefs
  | some refs =>
    refine ⟨refs, ?_, rfl⟩
    unfold retainObject
    rw [hrefs]
    rfl

theorem gone_mono {refs refs' : Counts} (hr : gone refs r = false) (h : ∀ o, 0 < refs o → 0 < refs' o) : gone refs' r = false :=
  gone_eq_false.2 fun o ho => h o (gone_eq_false.1 hr o ho)

/-- **A new `NSThread`** has a reference to its target and one to its argument. -/
theorem Ledger.initialized (h : Ledger [] s) (overridesMain : Bool) (selector : String)
    (htarget : gone s.refs target = false) (hobject : gone s.refs object = false) :
    ∃ s', initWithTarget (alloc s overridesMain).2 s.next target selector object = .ok s' ∧ Ledger [some s.next] s' ∧
      s'.pthreads = s.pthreads ∧ s'.nsThreads = s.nsThreads ∧ (∀ o, 0 < s.refs o → 0 < s'.refs o) ∧ 0 < s'.refs s.next ∧
      s'.objects.lookup s.next = some ⟨target, some selector, object, none, false, false, overridesMain⟩ := by
  obtain ⟨hledger, hhost, hstage⟩ := h.allocated overridesMain
  have hself : (alloc s overridesMain).2.refs s.next = 1 := Function.update_self ..
  have hgrown (o : ℕ) (ho : 0 < s.refs o) : 0 < (alloc s overridesMain).2.refs o :=
    ho.trans_eq (Function.update_of_ne (h.lt_of_alive ho).ne ..).symm
  obtain ⟨refs₁, hrun₁, hr₁⟩ := retainObject_ok (gone_mono htarget hgrown)
  have hledger₁ := hledger.retained hrun₁
  obtain ⟨refs₂, hrun₂, hr₂⟩ := retainObject_ok (s := { (alloc s overridesMain).2 with refs := refs₁ })
    (gone_mono (gone_mono hobject hgrown) fun o => retain_pos hr₁)
  have hledger₂ := hledger₁.retained hrun₂
  refine ⟨setObject { (alloc s overridesMain).2 with refs := refs₂ } s.next
      ⟨target, some selector, object, none, false, false, overridesMain⟩, ?_, ?_, rfl, rfl,
    fun o ho => retain_pos hr₂ (retain_pos hr₁ (hgrown o ho)),
    retain_pos hr₂ (retain_pos hr₁ (hself ▸ Nat.one_pos)), Assoc.lookup_insert_self⟩
  · unfold initWithTarget
    rw [borrow_eq_ok (hself ▸ Nat.one_pos) hhost, ok_bind, hrun₁, ok_bind, hrun₂, ok_bind]
    rfl
  · refine hledger₂.set hhost (fun o => ?_) nofun
    have hstage₂ : stageOf { (alloc s overridesMain).2 with refs := refs₂ } s.next = .ready := hstage
    rw [hstage₂]
    simp only [heldOf, taken, List.count_append, List.count_cons, List.count_nil, reduceCtorEq, beq_iff_eq, ite_false]
    simp [List.count_cons]
    omega

/-! ## Steps -/

/-- how a step can fail: a thread without a selector, a step that is not possible, or an object that is gone -/
def Fails (s : Threads) (e : Panic) : Prop := e = .missing ∨ e = .notEnabled ∨ e = .deallocated ∧ ¬Safe s

theorem create_stepped (h : Ledger [] s) : Stepped s .create
    { s with refs := create s.refs s.next, next := s.next + 1, owned := s.next :: s.owned } := by
  refine kept_stepped h.created.give nofun rfl (fun t _ ho => ?_) rfl
  exact ho.trans_eq (Function.update_of_ne (h.lt_of_alive ho).ne ..).symm

theorem retain_ends (h : Ledger [] s) (hgone : gone s.refs (some o) = false) :
    Ends (Fails s) (Stepped s (.retain o)) (step s (.retain o)) := by
  obtain ⟨refs, hrun, hr⟩ := retainObject_ok hgone
  rw [step, hrun]
  exact kept_stepped (h.retained hrun).give nofun rfl (fun t _ => retain_pos hr) rfl

/-- a reference is given back that a method has in its hands -/
theorem release_ends {s₀ : Threads} (h : Ledger [r] s) (hop : releases s₀ op = r) (hrefs : s.refs = s₀.refs)
    (hobjects : ∀ t, s₀.objects.lookup t ≠ none → s.objects.lookup t ≠ none)
    (hnew : ∀ t, Needs s t → Needs s₀ t ∧ ∀ p, op = .proceed p → s₀.pthreads.getD p none ≠ some ⟨t, .main⟩)
    (hold : ∀ t, Needs s₀ t → Needs s t ∨ ∃ p, op = .proceed p ∧ s₀.pthreads.getD p none = some ⟨t, .main⟩) :
    Ends (Fails s₀) (Stepped s₀ op) (releaseObject s r) := by
  obtain ⟨s', hrun, hledger, hpthreads, -, -, halive, -, hgiven, -⟩ := h.released
  rw [hrun]
  have hneeds (t : ℕ) : Needs s' t ↔ Needs s t := needs_congr hpthreads
  refine ⟨hledger, fun t ht ho => ?_, fun t ht hne => ?_, fun t ht => .inr (hnew t ((hneeds t).1 ht)),
    fun t ht => (hold t ht).imp_left (hneeds t).2⟩
  · rw [hop, ← hrefs]
    exact halive t (hobjects t ht) (hrefs ▸ ho)
  · rw [← hrefs]
    exact hgiven t (hop ▸ ht) (hobjects t hne)

theorem release_owned_ends (h : Ledger [] s) (ho : o ∈ s.owned) : Ends (Fails s) (Stepped s (.release o)) (step s (.release o)) := by
  rw [step]
  exact release_ends (h.take ho) rfl rfl (fun t ht => ht) (fun t ht => ⟨ht, nofun⟩) fun t ht => .inl ht

theorem new_stepped (h : Ledger [] s) : Stepped s (.new overridesMain)
    { (alloc s overridesMain).2 with owned := s.next :: s.owned } := by
  obtain ⟨hledger, -⟩ := h.allocated overridesMain
  refine kept_stepped hledger.give nofun rfl (fun t _ ho => ?_) rfl
  exact ho.trans_eq (Function.update_of_ne (h.lt_of_alive ho).ne ..).symm

theorem newWithTarget_ends (h : Ledger [] s)
    (hg : Guest s (.newWithTarget overridesMain target selector object)) :
    Ends (Fails s) (Stepped s (.newWithTarget overridesMain target selector object))
      (step s (.newWithTarget overridesMain target selector object)) := by
  obtain ⟨s', hrun, hledger, hpthreads, -, hgrown, -⟩ := h.initialized overridesMain selector hg.1 hg.2
  have hrun' : step s (.newWithTarget overridesMain target selector object) =
      (initWithTarget (alloc s overridesMain).2 s.next target selector object >>= fun s' =>
        pure { s' with owned := s.next :: s'.owned }) := rfl
  rw [hrun', hrun]
  exact kept_stepped hledger.give nofun rfl (fun t _ => hgrown t) hpthreads

/-- **A thread is started** with an object that no other thread runs. -/
theorem started (h : Ledger [] s) (hhost : s.objects.lookup t = some host) (honce : ∀ p stage, s.pthreads.getD p none ≠ some ⟨t, stage⟩) :
    ∃ s', start s t = .ok s' ∧ Ledger [] s' ∧ s'.refs = s.refs ∧ ∀ t', Needs s' t' ↔ t' = t ∨ Needs s t' := by
  have hnone : s.nsThreads.lookup s.pthreads.length = none := by
    rw [List.lookup_eq_none_iff]
    intro e he
    rw [bne_iff_ne]
    exact (h.table_lt e he).ne'
  refine ⟨{ s with pthreads := s.pthreads ++ [some ⟨t, .ready⟩], nsThreads := Assoc.insert s.pthreads.length t s.nsThreads
                   isMultiThreaded := true }, ?_, ?_, rfl, fun t' => ?_⟩
  · rw [start, hnone]
    rfl
  · have hadded := h.added (some ⟨t, .ready⟩) (Assoc.insert s.pthreads.length t s.nsThreads)
      (by
        rintro b hb
        cases hb
        exact ⟨rfl, ⟨host, hhost⟩, honce⟩) (.inr ⟨_, rfl, rfl⟩)
    exact hadded.perm rfl rfl rfl rfl rfl (List.Perm.refl _)
  · constructor
    · rintro ⟨p, stage, hb, hstage⟩
      rw [getD_concat] at hb
      split_ifs at hb
      · exact .inl (Body.mk.inj (Option.some.inj hb)).1.symm
      · exact .inr ⟨p, stage, hb, hstage⟩
    · rintro (rfl | ⟨p, stage, hb, hstage⟩)
      · refine ⟨s.pthreads.length, .ready, ?_, .inl rfl⟩
        rw [getD_concat, if_pos rfl]
      · refine ⟨p, stage, ?_, hstage⟩
        rw [getD_concat, if_neg (mem_of_getD hb).1.ne, hb]

theorem start_ends (h : Ledger [] s) (hg : Guest s (.start t)) (honce : StartsOnce s (.start t)) :
    Ends (Fails s) (Stepped s (.start t)) (step s (.start t)) := by
  obtain ⟨host, hhost⟩ := Option.isSome_iff_exists.1 hg.2
  obtain ⟨s', hrun, hledger, hrefs, hneeds⟩ := started h hhost fun p stage hb =>
    honce ⟨t, stage⟩ (List.mem_filterMap.2 ⟨_, (mem_of_getD hb).2, rfl⟩) rfl
  rw [step, hrun]
  have hpos := gone_eq_false.1 hg.1 t rfl
  refine grown_stepped hledger nofun rfl (fun t' _ ho => hrefs ▸ ho) (fun t' ht' => ?_) fun t' ht' => (hneeds t').2 (.inr ht')
  rcases (hneeds t').1 ht' with rfl | ht'
  · exact .inl (hrefs ▸ hpos)
  · exact .inr ht'

theorem detach_ends (h : Ledger [] s)
    (hg : Guest s (.detachNewThreadSelector selector target object)) :
    Ends (Fails s) (Stepped s (.detachNewThreadSelector selector target object))
      (step s (.detachNewThreadSelector selector target object)) := by
  obtain ⟨s₁, hrun₁, hledger₁, hpthreads₁, htable₁, hgrown₁, hself₁, hhost₁⟩ := h.initialized false selector hg.1 hg.2
  have hnot (p : ℕ) (stage : Stage) : s₁.pthreads.getD p none ≠ some ⟨s.next, stage⟩ := by
    rw [hpthreads₁]
    exact h.not_body (lookup_eq_none_of_lt h.objects_lt) p stage
  -- the thread owns itself
  set host : NSThreadHostObject := ⟨target, some selector, object, none, true, false, false⟩ with hhost
  set s₂ : Threads := { setObject s₁ s.next host with isMultiThreaded := true } with hs₂
  have hledger₂ : Ledger [] s₂ := by
    have hset : Ledger [] (setObject s₁ s.next host) := by
      refine hledger₁.set hhost₁ (fun o => ?_) nofun
      rw [stageOf_of_not hnot]
      simp [heldOf, taken, hhost, List.count_cons]
      omega
    exact hset.perm rfl rfl rfl rfl rfl (List.Perm.refl _)
  have hhost₂ : s₂.objects.lookup s.next = some host := Assoc.lookup_insert_self
  obtain ⟨s₃, hrun₃, hledger₃, hrefs₃, hneeds₃⟩ := started hledger₂ hhost₂ hnot
  have hrun : step s (.detachNewThreadSelector selector target object) = .ok s₃ := by
    show (initWithTarget (alloc s false).2 s.next target selector object >>= _) = _
    rw [hrun₁, ok_bind, borrow_eq_ok hself₁ hhost₁]
    exact hrun₃
  rw [hrun]
  have hneeds (t : ℕ) : Needs s₂ t ↔ Needs s t := needs_congr hpthreads₁
  refine grown_stepped hledger₃ nofun rfl (fun t _ ho => hrefs₃ ▸ hgrown₁ t ho) (fun t ht => ?_)
    fun t ht => (hneeds₃ t).2 (.inr ((hneeds t).2 ht))
  rcases (hneeds₃ t).1 ht with rfl | ht
  · exact .inl (hrefs₃ ▸ hself₁)
  · exact .inr ((hneeds t).1 ht)

theorem pthreadCreate_stepped (h : Ledger [] s) : Stepped s .pthreadCreate { s with pthreads := s.pthreads ++ [none] } := by
  have hledger := h.added none s.nsThreads nofun (.inl ⟨rfl, rfl⟩)
  refine grown_stepped hledger nofun rfl (fun t _ ho => ho) (fun t ht => .inr ?_) fun t ht => ?_
  · obtain ⟨p, stage, hb, hstage⟩ := ht
    rw [getD_concat] at hb
    split_ifs at hb
    exact ⟨p, stage, hb, hstage⟩
  · obtain ⟨p, stage, hb, hstage⟩ := ht
    refine ⟨p, stage, ?_, hstage⟩
    rw [getD_concat, if_neg (mem_of_getD hb).1.ne, hb]

theorem currentThread_ends (h : Ledger [] s) : Ends (Fails s) (Stepped s (.currentThread p)) (step s (.currentThread p)) := by
  rw [step]
  by_cases hp : p < s.pthreads.length
  · rw [assert_ok (decide_eq_true hp), ok_bind]
    show Stepped _ _ _
    unfold currentThread
    cases hlookup : s.nsThreads.lookup p with
    | some t => exact kept_stepped h nofun rfl (fun t _ ho => ho) rfl
    | none =>
      obtain ⟨hledger, -⟩ := h.allocated false
      refine kept_stepped (hledger.tabled hp hlookup) nofun rfl (fun t _ ho => ?_) rfl
      exact ho.trans_eq (Function.update_of_ne (h.lt_of_alive ho).ne ..).symm
  · rw [decide_eq_false hp]
    exact .inr (.inl rfl)

theorem threadDictionary_ends (h : Ledger [] s) (hg : Guest s (.threadDictionary t)) :
    Ends (Fails s) (Stepped s (.threadDictionary t)) (step s (.threadDictionary t)) := by
  obtain ⟨host, hhost⟩ := Option.isSome_iff_exists.1 hg.2
  rw [step, threadDictionary, borrow_eq_ok (gone_eq_false.1 hg.1 t rfl) hhost, ok_bind]
  cases hdictionary : host.threadDictionary with
  | some d =>
    dsimp only
    exact kept_stepped h nofun rfl (fun t _ ho => ho) rfl
  | none =>
    dsimp only
    refine kept_stepped (h.created.set hhost (fun o => ?_) fun d hd => ?_) nofun rfl (fun t' _ ho => ?_) rfl
    · have htaken : taken t { host with threadDictionary := some s.next } (stageOf s t) = taken t host (stageOf s t) :=
        taken_congr rfl rfl rfl
      have hstage : stageOf { s with refs := create s.refs s.next, next := s.next + 1 } t = stageOf s t := rfl
      rw [hstage, heldOf, heldOf, htaken, hdictionary]
      simp [List.count_cons]
    · cases hd
      exact lookup_eq_none_of_lt h.objects_lt
    · exact ho.trans_eq (Function.update_of_ne (h.lt_of_alive ho).ne ..).symm

theorem releases_proceed (hbody : s.pthreads.getD p none = some ⟨t, stage⟩) :
    releases s (.proceed p) = givesBack s ⟨t, stage⟩ := by
  rw [releases, hbody]
  rfl

/-- a thread that a step does not end `main` of -/
theorem not_main (hbody : s.pthreads.getD p none = some ⟨t, stage⟩) (hstage : stage ≠ .main) {t' : ℕ} :
    ∀ p', Op.proceed p = .proceed p' → s.pthreads.getD p' none ≠ some ⟨t', .main⟩ := by
  intro p' hp' hbody'
  obtain rfl := Op.proceed.inj hp'
  exact hstage (Body.mk.inj (Option.some.inj (hbody.symm.trans hbody'))).2

theorem main_ends (h : Ledger [] s) (hhost : s.objects.lookup t = some host) (hstage : stageOf s t = .ready) :
    Ends (Fails s) (fun _ => True) (main s host) := by
  unfold main
  split_ifs
  · trivial
  · cases host.selector with
    | none => exact .inl rfl
    | some selector =>
      have htarget : gone s.refs host.target = false := by
        refine h.alive_of_heldOf hhost ?_
        rw [hstage]
        exact List.mem_cons_of_mem _ (List.mem_cons_of_mem _ List.mem_cons_self)
      simp only [unwrap, ok_bind]
      rw [htarget]
      trivial

/-- **A thread goes on.** -/
theorem proceed_ends (h : Ledger [] s) : Ends (Fails s) (Stepped s (.proceed p)) (proceed s p) := by
  unfold proceed
  cases hbody : s.pthreads.getD p none with
  | none => exact .inr (.inl rfl)
  | some body =>
    obtain ⟨t, stage⟩ := body
    obtain ⟨host, hhost⟩ := h.body p t stage hbody
    have hstage := stageOf_of_body h.once hbody
    have hreleases := releases_proceed hbody
    have hself (hneeds : Needs s t) : 0 < s.refs t ∨ ¬Safe s :=
      (Nat.eq_zero_or_pos (s.refs t)).symm.imp_right fun hzero hsafe => (hsafe t hneeds).ne' hzero
    have hborrow (hneeds : Needs s t) : Ends (Fails s) (fun host' => host' = host ∧ 0 < s.refs t) (borrow s t) := by
      by_cases hpos : 0 < s.refs t
      · rw [borrow_eq_ok hpos hhost]
        exact ⟨rfl, hpos⟩
      · unfold borrow
        rw [Nat.eq_zero_of_not_pos hpos]
        exact .inr (.inr ⟨rfl, (hself hneeds).resolve_left hpos⟩)
    -- the other threads
    have hsame (s' : Threads) (stage' : Stage) (hpthreads : s'.pthreads = (setStage s p t stage').pthreads) (t' : ℕ) :
        Needs s' t' ↔ if t' = t then stage' = .ready ∨ stage' = .main else Needs s t' :=
      (needs_congr hpthreads).trans (needs_setStage h.once hbody t')
    simp only [unwrap, ok_bind]
    cases stage with
    | ready =>
      have hneeds : Needs s t := ⟨p, _, hbody, .inl rfl⟩
      refine (hborrow hneeds).bind ?_
      rintro host ⟨rfl, hpos⟩
      refine (main_ends h hhost hstage).bind fun _ _ => ?_
      have hledger : Ledger [] (setStage s p t .main) :=
        h.moved hbody hhost (fun _ => rfl) (fun h => by cases h) (fun h => by cases h)
      refine ⟨hledger, fun t _ ho => .inl ho, fun t' ht' => ?_, fun t' ht' => ?_, fun t' ht' => .inl ?_⟩
      · rw [hreleases] at ht'
        cases ht'
      · refine .inr ⟨?_, not_main hbody (fun h => by cases h)⟩
        replace ht' := (hsame _ .main (by rfl) t').1 ht'
        split_ifs at ht' with heq
        · exact heq ▸ hneeds
        · exact ht'
      · refine (hsame _ .main (by rfl) t').2 ?_
        split_ifs
        · exact .inr rfl
        · exact ht'
    | main =>
      have hneeds : Needs s t := ⟨p, _, hbody, .inr rfl⟩
      refine (hborrow hneeds).bind ?_
      rintro host ⟨rfl, hpos⟩
      have htaken (stage : Stage) : taken t { host with finished := true } stage = taken t host stage := taken_congr rfl rfl rfl
      have hset : Ledger [] (setObject s t { host with finished := true }) :=
        h.set hhost (fun _ => by rw [heldOf, heldOf, htaken]) (h.plain _ (Assoc.mem_of_lookup hhost))
      have hmoved : Ledger [host.object]
          (setStage (setObject s t { host with finished := true }) p t (.releasingTarget host.target host.owned)) := by
        refine hset.moved hbody Assoc.lookup_insert_self (fun _ => ?_) (fun h => by cases h) (fun h => by cases h)
        rfl
      refine release_ends hmoved ?_ rfl (fun t' ht' => ?_) (fun t' ht' => ?_) fun t' ht' => ?_
      · rw [hreleases, givesBack, hhost]
        rfl
      · show List.lookup t' (Assoc.insert t _ s.objects) ≠ none
        by_cases heq : t' = t
        · rw [heq, Assoc.lookup_insert_self]
          intro h
          cases h
        · rwa [Assoc.lookup_insert_of_ne heq]
      · replace ht' := (hsame _ (.releasingTarget host.target host.owned) (by rfl) t').1 ht'
        split_ifs at ht' with heq
        · rcases ht' with ht' | ht' <;> cases ht'
        · refine ⟨ht', fun p' hp' hbody' => ?_⟩
          obtain rfl := Op.proceed.inj hp'
          exact heq (Body.mk.inj (Option.some.inj (hbody.symm.trans hbody'))).1.symm
      · by_cases heq : t' = t
        · exact .inr ⟨p, rfl, heq ▸ hbody⟩
        · left
          refine (hsame _ (.releasingTarget host.target host.owned) (by rfl) t').2 ?_
          rw [if_neg heq]
          exact ht'
    | releasingTarget target owned =>
      have hmoved : Ledger [target] (setStage s p t (.removing owned)) :=
        h.moved hbody hhost (fun _ => rfl) (fun h => by cases h) (fun h => by cases h)
      refine release_ends hmoved hreleases rfl (fun t' ht' => ht') (fun t' ht' => ?_) fun t' ht' => .inl ?_
      · replace ht' := (hsame _ (.removing owned) (by rfl) t').1 ht'
        split_ifs at ht' with heq
        · rcases ht' with ht' | ht' <;> cases ht'
        · exact ⟨ht', not_main hbody (fun h => by cases h)⟩
      · have hne : t' ≠ t := by
          rintro rfl
          rcases (needs_iff h.once hbody).1 ht' with heq | heq <;> cases heq
        refine (hsame _ (.removing owned) (by rfl) t').2 ?_
        rw [if_neg hne]
        exact ht'
    | removing owned =>
      dsimp only
      rw [assert_ok (by rw [h.listed p t _ hbody (fun h => by cases h)]; rfl), ok_bind]
      have hfinish := h.finish hbody
      have hnew (t' : ℕ) (ht' : Needs (setStage { s with nsThreads := Assoc.erase p s.nsThreads } p t .finished) t') :
          Needs s t' ∧ ∀ p', Op.proceed p = .proceed p' → s.pthreads.getD p' none ≠ some ⟨t', .main⟩ := by
        replace ht' := (hsame _ .finished (by rfl) t').1 ht'
        split_ifs at ht' with heq
        · rcases ht' with ht' | ht' <;> cases ht'
        · exact ⟨ht', not_main hbody (fun h => by cases h)⟩
      have hold (t' : ℕ) (ht' : Needs s t') : Needs (setStage { s with nsThreads := Assoc.erase p s.nsThreads } p t .finished) t' := by
        have hne : t' ≠ t := by
          rintro rfl
          rcases (needs_iff h.once hbody).1 ht' with heq | heq <;> cases heq
        refine (hsame _ .finished (by rfl) t').2 ?_
        rw [if_neg hne]
        exact ht'
      cases owned with
      | true => exact release_ends hfinish hreleases rfl (fun t' ht' => ht') hnew fun t' ht' => .inl (hold t' ht')
      | false =>
        refine ⟨hfinish, fun t' _ ho => .inl ho, fun t' ht' => ?_, fun t' ht' => .inr (hnew t' ht'), fun t' ht' => .inl (hold t' ht')⟩
        rw [hreleases] at ht'
        cases ht'
    | finished => exact .inr (.inl rfl)

/-- **Every step** keeps the ledger. -/
theorem step_ends (h : Ledger [] s) (hg : Guest s op) (honce : StartsOnce s op) : Ends (Fails s) (Stepped s op) (step s op) := by
  cases op with
  | create => exact create_stepped h
  | retain o => exact retain_ends h hg
  | release o => exact release_owned_ends h hg
  | new overridesMain => exact new_stepped h
  | newWithTarget overridesMain target selector object => exact newWithTarget_ends h hg
  | start t => exact start_ends h hg honce
  | detachNewThreadSelector selector target object => exact detach_ends h hg
  | pthreadCreate => exact pthreadCreate_stepped h
  | currentThread p => exact currentThread_ends h
  | threadDictionary t => exact threadDictionary_ends h hg
  | proceed p => exact proceed_ends h

/-! ## Runs -/

/-- at first there is only the main thread -/
theorem launch_ledger : Ledger [] launch := by
  have hnone (p : ℕ) : launch.pthreads.getD p none = none := by
    cases p <;> rfl
  refine ⟨fun _ => rfl, nofun, List.nodup_nil, nofun, List.nodup_nil, nofun, fun p p' t stage stage' hb => ?_, fun p t stage hb => ?_,
    fun p t stage hb => ?_, nofun⟩
  all_goals
    rw [hnone] at hb
    cases hb

/-- **A thread is served** exactly when the object that it needs is there. -/
theorem served_iff (h : Ledger [] s) : Served s ↔ Safe s := by
  refine ⟨fun hserved t ⟨p, stage, hb, hstage⟩ => (hserved.running p t stage hb hstage).1, fun hsafe => ?_⟩
  have hheld {p t : ℕ} {stage : Stage} (hb : s.pthreads.getD p none = some ⟨t, stage⟩) : ∃ host, s.objects.lookup t = some host ∧
      ∀ r ∈ taken t host stage, gone s.refs r = false := by
    obtain ⟨host, hhost⟩ := h.body p t stage hb
    refine ⟨host, hhost, fun r hr => h.alive_of_heldOf hhost ?_⟩
    rw [stageOf_of_body h.once hb]
    exact List.mem_cons_of_mem _ hr
  refine ⟨h.balanced, fun p t stage hb hstage => ?_, fun p t stage hb hstage => ?_, fun p t target owned hb => ?_, fun p t hb => ?_⟩
  · rw [currentThread, h.listed p t stage hb hstage]
  · obtain ⟨host, hhost, htaken⟩ := hheld hb
    refine ⟨hsafe t ⟨p, stage, hb, hstage⟩, host, hhost, ?_⟩
    rcases hstage with rfl | rfl
    · exact ⟨htaken _ (List.mem_cons_of_mem _ List.mem_cons_self), htaken _ List.mem_cons_self⟩
    · exact ⟨htaken _ (List.mem_cons_of_mem _ List.mem_cons_self), htaken _ List.mem_cons_self⟩
  · obtain ⟨host, -, htaken⟩ := hheld hb
    refine ⟨htaken _ List.mem_cons_self, ?_⟩
    rintro rfl
    exact gone_eq_false.1 (htaken (some t) (List.mem_cons_of_mem _ List.mem_cons_self)) t rfl
  · obtain ⟨host, -, htaken⟩ := hheld hb
    exact gone_eq_false.1 (htaken (some t) List.mem_cons_self) t rfl

/-- **The objects that threads need** stay there exactly when a step gives back none of them too early. -/
theorem safe_iff (h : Ledger [] s) (hsafe : Safe s) (hstep : Stepped s op s') : Safe s' ↔ Keeps s op := by
  constructor
  · intro hsafe' t hrelease hone hneeds
    rcases hstep.needs_old t hneeds with hneeds' | hmain
    · obtain ⟨p, stage, hb, -⟩ := hneeds
      obtain ⟨host, hhost⟩ := h.body p t stage hb
      have hgiven := hstep.given t hrelease (hhost ▸ Option.some_ne_none host)
      have hpos := hsafe' t hneeds'
      omega
    · exact hmain
  · intro hkeeps t hneeds'
    rcases hstep.needs_new t hneeds' with hpos | ⟨hneeds, hnot⟩
    · exact hpos
    · obtain ⟨p, stage, hb, -⟩ := id hneeds
      obtain ⟨host, hhost⟩ := h.body p t stage hb
      rcases hstep.alive t (hhost ▸ Option.some_ne_none host) (hsafe t hneeds) with hpos | ⟨hrelease, hone⟩
      · exact hpos
      · obtain ⟨p', hp', hb'⟩ := hkeeps t hrelease hone hneeds
        exact absurd hb' (hnot p' hp')

theorem launch_safe : Safe launch := by
  rintro t ⟨p, stage, hb, -⟩
  cases p <;> exact nomatch hb

/-- **Threads and their objects**: in every run in which an `NSThread` is started only once, the threads are served in all states
exactly when no step gives back the last reference to an `NSThread` that was started and is not through with `main`. Then a
thread never finds an object that was deallocated. -/
theorem thread_ownership {ops : List Op} (hg : LegalRun step Guest launch ops) (honce : LegalRun step StartsOnce launch ops) :
    (Throughout step Served launch ops ↔ Along step (fun s op _ => Keeps s op) launch ops) ∧
      (Throughout step Served launch ops → ∀ e, run step launch ops = .error e → e = .missing ∨ e = .notEnabled) := by
  have hl : LegalRun step (fun s op => Guest s op ∧ StartsOnce s op) launch ops := hg.and honce
  constructor
  · refine throughout_iff_along (I := Ledger []) (fun s op s' hlegal h hrun => ?_) (fun s op s' hlegal h hserved hrun => ?_) hl
      launch_ledger ((served_iff launch_ledger).2 launch_safe)
    · exact ((step_ends h hlegal.1 hlegal.2).ok hrun).toLedger
    · have hstep := (step_ends h hlegal.1 hlegal.2).ok hrun
      rw [served_iff hstep.toLedger]
      exact safe_iff h ((served_iff h).1 hserved) hstep
  · intro hserved e hrun
    refine hl.error (I := Ledger []) (F := fun e => e = .missing ∨ e = .notEnabled) (fun s op hlegal h hP => ?_) hserved launch_ledger hrun
    refine ((step_ends h hlegal.1 hlegal.2).mono fun s' hstep => hstep.toLedger).imp fun e he => ?_
    rcases he with he | he | ⟨-, hnot⟩
    · exact .inl he
    · exact .inr he
    · exact absurd ((served_iff h).1 hP) hnot

/-- a thread that runs to its end, and an `NSThread` that is released then -/
def finishes : List Op :=
  [.create, .newWithTarget false (some 0) "run" none, .start 1, .proceed 1, .proceed 1, .proceed 1, .proceed 1, .release 1]

theorem thread_ownership_finishes :
    (Throughout step Served launch finishes ↔ Along step (fun s op _ => Keeps s op) launch finishes) ∧
      (Throughout step Served launch finishes → ∀ e, run step launch finishes = .error e → e = .missing ∨ e = .notEnabled) :=
  thread_ownership (by decide +kernel) (by decide +kernel)

/-- an `NSThread` that is released right after it was started -/
def releasedEarly : List Op := [.create, .newWithTarget false (some 0) "run" none, .start 1, .release 1]

/-- `start` takes no reference: when the thread is scheduled, its object is gone. -/
theorem released_after_start : LegalRun step Guest launch releasedEarly ∧ LegalRun step StartsOnce launch releasedEarly ∧
    ¬Throughout step Served launch releasedEarly ∧ run step launch (releasedEarly ++ [.proceed 1]) = .error .deallocated := by
  refine ⟨by decide +kernel, by decide +kernel, ?_, rfl⟩
  rintro ⟨-, h⟩
  have hlast := ((((h _ rfl).2 _ rfl).2 _ rfl).2 _ rfl)
  exact absurd (hlast.running 1 1 .ready rfl (.inl rfl)).1 (lt_irrefl 0)

end TouchHLE.NSThread
