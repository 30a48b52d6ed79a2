/-
What becomes of the references that a notification centre holds, and which observers a notification reaches.

- `Ledger`: every reference is counted. `Stepped`, `step_stepped`: what one step does to the counts and to the calls that are going on.
- `Safe`, `Doomed`: the observers that are still to be sent a notification are there, or one of them is not.
- `Reaches`: a notification is sent once for each registration.
- `posting`: runs.
-/
import TouchHLE.Foundation.NotificationCenter

namespace TouchHLE.NotificationCenter

open Machine Counted

/-! ## The registrations -/

variable {s s' : Center} {op : Op} {bundleIdentifier name : String} {observer object : Option ℕ} {observers removed : List Observer}
  {r : Observer} {o : ℕ} {m : List (String × List Observer)} {frames : List Frame} {refs : Counts} {post : Post}
  {selector : String} {running : Bool} {f : Frame}

theorem removeObserversFrom_eq (observer object : Option ℕ) (rounds i : ℕ) (observers removed : List Observer) :
    removeObserversFrom observer object rounds i observers removed =
      Vec.removeWhere (isRemoved observer object) rounds i observers removed := by
  induction rounds generalizing i observers removed with
  | zero => rfl
  | succ rounds ih =>
    rw [removeObserversFrom, Vec.removeWhere]
    cases observers[i]? with
    | none => rfl
    | some r =>
      dsimp only
      rw [ih, ih]

/-- nothing is lost -/
theorem removeObserversInternal_perm (observer object : Option ℕ) (observers : List Observer) :
    ((removeObserversInternal observer object observers).1 ++
    (removeObserversInternal observer object observers).2).Perm observers := by
  have h := Vec.removeWhere_perm (isRemoved observer object) observers.length 0 observers []
  rwa [List.append_nil, ← removeObserversFrom_eq] at h

/-- all registrations -/
def everyone (m : List (String × List Observer)) : List Observer := m.flatMap Prod.snd

/-- the registrations for a name, and the others -/
theorem everyone_lookup (name : String) (hn : (m.map Prod.fst).Nodup) :
    (everyone m).Perm ((m.lookup name).getD [] ++ everyone (Assoc.erase name m)) := by
  cases h : m.lookup name with
  | none =>
    rw [Assoc.erase_of_lookup h]
    exact List.Perm.refl _
  | some observers => exact (Assoc.perm_of_lookup hn h).flatMap_right _

theorem everyone_insert :
    everyone (Assoc.insert name observers m) = observers ++ everyone (Assoc.erase name m) := rfl

/-- what is taken out of all registrations, with what is left -/
theorem everyone_map (m : List (String × List Observer)) (f : List Observer → List Observer × List Observer)
    (hf : ∀ l, ((f l).1 ++ (f l).2).Perm l) :
    (everyone (m.map fun e => (e.1, (f e.2).1)) ++ m.flatMap fun e => (f e.2).2).Perm (everyone m) := by
  induction m with
  | nil => exact List.Perm.refl _
  | cons e m ih =>
    rw [List.perm_iff_count] at ih ⊢
    intro r
    have he := (hf e.2).count_eq r
    have hm := ih r
    simp only [everyone, List.map_cons, List.flatMap_cons, List.count_append] at he hm ⊢
    omega

theorem registered_lookup (name : String) (hn : (m.map Prod.fst).Nodup) :
    (registered m).Perm (((m.lookup name).getD []).flatMap references ++ registered (Assoc.erase name m)) := by
  rw [registered, registered, ← List.flatMap_append]
  exact (everyone_lookup name hn).flatMap_right _

theorem registered_insert :
    registered (Assoc.insert name observers m) = observers.flatMap references ++ registered (Assoc.erase name m) := by
  rw [registered, registered, ← List.flatMap_append]
  rfl

theorem registered_map (m : List (String × List Observer)) (f : List Observer → List Observer × List Observer)
    (hf : ∀ l, ((f l).1 ++ (f l).2).Perm l) :
    (registered (m.map fun e => (e.1, (f e.2).1)) ++ (m.flatMap fun e => (f e.2).2).flatMap references).Perm (registered m) := by
  rw [registered, registered, ← List.flatMap_append]
  exact (everyone_map m f hf).flatMap_right _

/-! ## Steps -/

/-- **The ledger**: the count of every object is the number of references to it. -/
structure Ledger (s : Center) : Prop where
  balanced : Balanced s.refs (held s)
  names : (s.observers.map Prod.fst).Nodup
  fresh : ∀ o, some o ∈ held s → o < s.next

/-- the observer of a registration that a post will still send its notification to -/
def Pending (s : Center) (r : Observer) : Prop := ∃ f ∈ s.frames, r ∈ pending f

/-- **What a step does** to the references, the counts and the posts that are going on -/
structure Stepped (s : Center) (op : Op) (s' : Center) : Prop extends Ledger s' where
  next_le : s.next ≤ s'.next
  /-- an object is deallocated when its last reference is given back -/
  alive : ∀ o, 0 < s.refs o → 0 < s'.refs o ∨ releases s op = some o ∧ s.refs o = 1
  given : ∀ o, releases s op = some o → s'.refs o + 1 = s.refs o
  /-- what was deallocated stays so -/
  dead : ∀ o, o < s.next → s.refs o = 0 → s'.refs o = 0
  /-- a post sends its notification to those that were registered when it began -/
  pending_new : ∀ r, Pending s' r → Pending s r ∨ releases s op = none ∧ ∃ e ∈ s.observers, r ∈ e.2
  /-- a registration is done with when the notification was sent, which takes an observer that is there -/
  pending_old : ∀ r, Pending s r → Pending s' r ∨ releases s op = none ∧ gone s.refs r.observer = false

theorem Ledger.lt_of_alive (h : Ledger s) (ho : 0 < s.refs o) : o < s.next := h.fresh o (h.balanced.pos_iff.1 ho)

/-- an object that could be retained -/
theorem Ledger.lt_of_retain (h : Ledger s) (hr : Counted.retain s.refs (some o) = some refs) : o < s.next := by
  refine h.lt_of_alive (Nat.pos_of_ne_zero fun hzero => ?_)
  rw [Counted.retain, if_pos hzero] at hr
  cases hr

theorem create_stepped (h : Ledger s) : Stepped s .create
    { s with refs := Counted.create s.refs s.next, next := s.next + 1, owned := s.next :: s.owned } := by
  have hnot : some s.next ∉ held s := fun hin => lt_irrefl _ (h.fresh _ hin)
  have hne {o : ℕ} (ho : o < s.next) : Counted.create s.refs s.next o = s.refs o := Function.update_of_ne ho.ne ..
  refine ⟨⟨h.balanced.create hnot, h.names, fun o ho => ?_⟩, Nat.le_succ _, fun o ho => .inl ?_, nofun, fun o ho hzero => ?_,
    fun r hr => .inl hr, fun r hr => .inl hr⟩
  · rcases List.mem_cons.1 ho with ho | ho
    · cases ho
      exact Nat.lt_succ_self _
    · exact (h.fresh o ho).trans (Nat.lt_succ_self _)
  · exact ho.trans_eq (hne (h.lt_of_alive ho)).symm
  · exact (hne ho).trans hzero

theorem retain_stepped (h : Ledger s) (hr : Counted.retain s.refs (some o) = some refs) :
    Stepped s (.retain o) { s with refs, owned := o :: s.owned } := by
  refine ⟨⟨h.balanced.retain hr, h.names, fun o' ho' => ?_⟩, le_rfl, fun o' ho' => .inl (retain_pos hr ho'), nofun,
    fun o' _ hzero => retain_zero hr hzero, fun r hr => .inl hr, fun r hr => .inl hr⟩
  rcases List.mem_cons.1 ho' with ho' | ho'
  · cases ho'
    exact h.lt_of_retain hr
  · exact h.fresh o' ho'

/-- a reference is given back, and the posts go on as before -/
theorem release_stepped {r : Option ℕ} (h : Ledger s) (hr : Counted.release s.refs r = some refs)
    (hrelease : releases s op = r) (hheld : (held s).Perm (r :: held s')) (hrefs : s'.refs = refs)
    (hobservers : s'.observers = s.observers) (hnext : s'.next = s.next) (hpending : ∀ r, Pending s' r ↔ Pending s r) :
    Stepped s op s' := by
  obtain ⟨refs₁, hr₁, hbalanced⟩ := (h.balanced.perm hheld).release
  obtain rfl : refs₁ = refs := Option.some.inj (hr₁.symm.trans hr)
  refine ⟨⟨hrefs ▸ hbalanced, hobservers ▸ h.names, fun o ho => ?_⟩, hnext.ge, fun o ho => ?_, fun o ho => ?_,
    fun o _ hzero => ?_, fun r hr => .inl ((hpending r).1 hr), fun r hr => .inl ((hpending r).2 hr)⟩
  · rw [hnext]
    exact h.fresh o (hheld.mem_iff.2 (List.mem_cons_of_mem _ ho))
  · rw [hrefs, hrelease]
    exact release_pos hr ho
  · rw [hrefs, h.balanced o, hheld.count_eq, ← hrelease, ho, List.count_cons_self, hbalanced o]
  · rw [hrefs]
    exact release_zero hr hzero

theorem release_owned_stepped (h : Ledger s) (ho : o ∈ s.owned) (hr : Counted.release s.refs (some o) = some refs) :
    Stepped s (.release o) { s with refs, owned := s.owned.erase o } := by
  refine release_stepped h hr rfl ?_ rfl rfl rfl fun _ => Iff.rfl
  exact ((List.perm_cons_erase ho).map some).append_right _

theorem addObserver_stepped {name : Option String} (h : Ledger s)
    (hrun : addObserver s bundleIdentifier observer selector name object = .ok s') :
    Stepped s (.addObserver observer selector name object) s' := by
  unfold addObserver at hrun
  split_ifs at hrun
  · cases hrun
    exact ⟨h, le_rfl, fun _ ho => .inl ho, fun _ h => (by cases h), fun _ _ hzero => hzero,
      fun _ hr => .inl hr, fun _ hr => .inl hr⟩
  · obtain ⟨name, -, hrun⟩ := bind_eq_ok.1 hrun
    obtain ⟨refs₁, hrefs₁, hrun⟩ := bind_eq_ok.1 hrun
    obtain ⟨refs₂, hrefs₂, hrun⟩ := bind_eq_ok.1 hrun
    cases hrun
    have hr₁ := unwrap_eq_ok.1 hrefs₁
    have hr₂ := unwrap_eq_ok.1 hrefs₂
    have hbalanced := (h.balanced.retain hr₁).retain hr₂
    have hperm : (object :: observer :: held s).Perm (held { s with
        refs := refs₂
        observers := Assoc.insert name ((s.observers.lookup name).getD [] ++ [⟨observer, selector, object, s.registrations⟩]) s.observers
        registrations := s.registrations + 1 }) := by
      rw [List.perm_iff_count]
      intro a
      have hold := (registered_lookup name h.names).count_eq a
      simp only [held, registered_insert, List.flatMap_append, List.flatMap_singleton, references, List.count_cons, List.count_append,
        List.count_nil] at hold ⊢
      omega
    have hobject (o : ℕ) (ho : some o = object) : o < s.next := by
      have hpos : 0 < refs₁ o := Nat.pos_of_ne_zero fun hzero => by
        rw [← ho, Counted.retain, if_pos hzero] at hr₂
        cases hr₂
      exact h.lt_of_alive (Nat.pos_of_ne_zero fun hzero => hpos.ne' (retain_zero hr₁ hzero))
    refine ⟨⟨hbalanced.perm hperm, Assoc.nodup_insert h.names, fun o ho => ?_⟩, le_rfl,
      fun o ho => .inl (retain_pos hr₂ (retain_pos hr₁ ho)), fun _ h => (by cases h),
      fun o _ hzero => retain_zero hr₂ (retain_zero hr₁ hzero),
      fun _ hr => .inl hr, fun _ hr => .inl hr⟩
    rcases List.mem_cons.1 (hperm.mem_iff.2 ho) with ho | ho
    · exact hobject o ho
    · rcases List.mem_cons.1 ho with ho | ho
      · exact h.lt_of_retain (ho ▸ hr₁)
      · exact h.fresh o ho

/-- a method begins that has not done anything yet -/
theorem same_stepped (h : Ledger s) (hrefs : s'.refs = s.refs) (hheld : (held s).Perm (held s'))
    (hnames : (s'.observers.map Prod.fst).Nodup) (hnext : s'.next = s.next) (hnone : releases s op = none)
    (hnew : ∀ r, Pending s' r → Pending s r ∨ ∃ e ∈ s.observers, r ∈ e.2)
    (hold : ∀ r, Pending s r → Pending s' r) : Stepped s op s' := by
  refine ⟨⟨hrefs ▸ h.balanced.perm hheld, hnames, fun o ho => ?_⟩, hnext.ge, fun o ho => .inl (hrefs ▸ ho), fun o ho => ?_,
    fun o _ hzero => ?_, fun r hr => (hnew r hr).imp_right fun hr => ⟨hnone, hr⟩, fun r hr => .inl (hold r hr)⟩
  · rw [hnext]
    exact h.fresh o (hheld.mem_iff.2 ho)
  · rw [hnone] at ho
    cases ho
  · rw [hrefs, hzero]

theorem removeObserver_stepped {name : Option String} (h : Ledger s) (hrun : removeObserver s observer name object = .ok s') :
    Stepped s (.removeObserver observer name object) s' := by
  obtain ⟨_, -, hrun⟩ := bind_eq_ok.1 hrun
  have hframe {s' : Center} {objects : List (Option ℕ)} (hframes : s'.frames = .removing objects :: s.frames) (r : Observer) :
      Pending s' r ↔ Pending s r := by
    simp only [Pending, hframes, List.exists_mem_cons_iff, pending, List.not_mem_nil, false_or]
  cases name with
  | some name =>
    dsimp only at hrun
    cases hlookup : s.observers.lookup name with
    | none =>
      rw [hlookup] at hrun
      cases hrun
      exact same_stepped h rfl (List.Perm.refl _) h.names rfl rfl (fun _ hr => .inl hr) fun _ hr => hr
    | some observers =>
      rw [hlookup] at hrun
      cases hrun
      refine same_stepped h rfl ?_ (Assoc.nodup_insert h.names) rfl rfl (fun r hr => .inl ((hframe rfl r).1 hr))
        fun r hr => (hframe rfl r).2 hr
      rw [List.perm_iff_count]
      intro a
      have hold := (registered_lookup name h.names).count_eq a
      have hremoved := ((removeObserversInternal_perm observer object observers).flatMap_right references).count_eq a
      rw [hlookup] at hold
      simp only [held, registered_insert, List.flatMap_append, List.flatMap_cons, heldBy, List.count_append, Option.getD_some]
        at hold hremoved ⊢
      omega
  | none =>
    cases hrun
    refine same_stepped h rfl ?_ ?_ rfl rfl (fun r hr => .inl ((hframe rfl r).1 hr)) fun r hr => (hframe rfl r).2 hr
    · rw [List.perm_iff_count]
      intro a
      have hall := (registered_map s.observers (removeObserversInternal observer object) fun l => removeObserversInternal_perm _ _ l).count_eq a
      simp only [List.count_append] at hall
      simp only [held, List.map_map, Function.comp_def, List.flatMap_map, List.flatMap_cons, heldBy, List.count_append]
      omega
    · simpa [List.map_map, Function.comp_def] using h.names

theorem postNotification_stepped (h : Ledger s) : Stepped s (.postNotification name object) (postNotification s name object) := by
  unfold postNotification
  cases hlookup : s.observers.lookup name with
  | none => exact same_stepped h rfl (List.Perm.refl _) h.names rfl rfl (fun _ hr => .inl hr) fun _ hr => hr
  | some observers =>
    refine same_stepped h rfl (List.Perm.refl _) h.names rfl rfl ?_ ?_
    · rintro r ⟨f, hf, hr⟩
      rcases List.mem_cons.1 hf with rfl | hf
      · exact .inr ⟨_, Assoc.mem_of_lookup hlookup, (List.mem_filter.1 hr).1⟩
      · exact .inl ⟨f, hf, hr⟩
    · rintro r ⟨f, hf, hr⟩
      exact ⟨f, List.mem_cons_of_mem _ hf, hr⟩

theorem releaseNow_stepped {r : Option ℕ} (f' : Frame) (h : Ledger s) (hframes : s.frames = f :: frames)
    (hheld : heldBy f = r :: heldBy f') (hpending : pending f' = pending f) (hreleases : releases s .proceed = r) :
    ∃ s', releaseNow s r (f' :: frames) = .ok s' ∧ Stepped s .proceed s' ∧ s'.frames = f' :: frames := by
  have hperm : (held s).Perm (r :: (s.owned.map some ++ (registered s.observers ++ (f' :: frames).flatMap heldBy))) := by
    rw [held, hframes, List.flatMap_cons, List.flatMap_cons, hheld, List.cons_append]
    exact (List.perm_middle.append_left _).trans List.perm_middle
  obtain ⟨refs, hr, -⟩ := (h.balanced.perm hperm).release
  refine ⟨{ s with refs, frames := f' :: frames, running := gone refs r }, ?_, release_stepped h hr hreleases hperm rfl rfl rfl ?_, rfl⟩
  · rw [releaseNow, hr]
    rfl
  · intro r
    simp only [Pending, hframes, List.exists_mem_cons_iff, hpending]

/-- how many steps a method has left, without those of guest code -/
def rounds : Frame → ℕ
  | .posting _ observers none => 2 * observers.length + 1
  | .posting _ observers (some _) => 2 * observers.length + 2
  | .removing objects => objects.length + 1

def roundsLeft (s : Center) : ℕ := (s.frames.map rounds).sum

theorem roundsLeft_cons (h : s.frames = f :: frames) :
    roundsLeft s = rounds f + (frames.map rounds).sum := by
  rw [roundsLeft, h, List.map_cons, List.sum_cons]

/-- the notification is sent -/
theorem send_stepped {log : List Event} (h : Ledger s)
    (hf : s.frames = .posting post (r :: observers) none :: frames) (hr : Counted.retain s.refs r.observer = some refs) :
    Stepped s .proceed { s with refs, frames := .posting post observers (some r) :: frames, running, log } := by
  have hperm : (r.observer :: held s).Perm
      (s.owned.map some ++ (registered s.observers ++ (r.observer :: frames.flatMap heldBy))) := by
    rw [held, hf]
    exact List.perm_middle.symm.trans (List.perm_middle.symm.append_left _)
  have hnone : releases s .proceed = none := by rw [releases, hf]
  refine ⟨⟨(h.balanced.retain hr).perm hperm, h.names, fun o ho => ?_⟩, le_rfl, fun o ho => .inl (retain_pos hr ho), fun o ho => ?_,
    fun o _ hzero => retain_zero hr hzero, ?_, ?_⟩
  · rcases List.mem_cons.1 (hperm.mem_iff.2 ho) with ho | ho
    · exact h.lt_of_retain (ho ▸ hr)
    · exact h.fresh o ho
  · rw [hnone] at ho
    cases ho
  · rintro r' ⟨f, hin, hr'⟩
    left
    rcases List.mem_cons.1 hin with rfl | hin
    · obtain ⟨hr', hfor⟩ := List.mem_filter.1 hr'
      exact ⟨.posting post (r :: observers) none, hf ▸ List.mem_cons_self, List.mem_filter.2 ⟨List.mem_cons_of_mem _ hr', hfor⟩⟩
    · exact ⟨f, hf ▸ List.mem_cons_of_mem _ hin, hr'⟩
  · rintro r' ⟨f, hin, hr'⟩
    rw [hf] at hin
    rcases List.mem_cons.1 hin with rfl | hin
    · obtain ⟨hr', hfor⟩ := List.mem_filter.1 hr'
      rcases List.mem_cons.1 hr' with rfl | hr'
      · -- the one that the notification is sent to
        refine .inr ⟨hnone, ?_⟩
        rw [← Bool.not_eq_true, ← retain_none_iff, hr]
        intro h
        cases h
      · exact .inl ⟨.posting post observers (some r), List.mem_cons_self, List.mem_filter.2 ⟨hr', hfor⟩⟩
    · exact .inl ⟨f, List.mem_cons_of_mem _ hin, hr'⟩

/-- a notification that is not for the observer -/
theorem skip_stepped (h : Ledger s)
    (hf : s.frames = .posting post (r :: observers) none :: frames) (hfor : isFor post r ≠ true) :
    Stepped s .proceed { s with frames := .posting post observers none :: frames, running } := by
  have hpend (r' : Observer) : Pending { s with frames := .posting post observers none :: frames, running } r' ↔ Pending s r' := by
    simp only [Pending, hf, List.exists_mem_cons_iff, pending, List.filter_cons_of_neg hfor]
  refine same_stepped h rfl ?_ h.names rfl (by rw [releases, hf]) (fun r' hr' => .inl ((hpend r').1 hr')) fun r' hr' => (hpend r').2 hr'
  rw [held, held, hf]
  exact List.Perm.refl _

/-- a notification comes to an observer that was deallocated -/
def Late (s : Center) : Prop := ∃ post r observers frames, s.frames = .posting post (r :: observers) none :: frames ∧
  isFor post r = true ∧ gone s.refs r.observer = true

/-- **The methods go on**, one step nearer to their end, unless an observer that was deallocated comes next. -/
theorem proceed_cases (h : Ledger s) (hframes : s.frames ≠ []) :
    (∃ s', proceed s = .ok s' ∧ Stepped s .proceed s' ∧ roundsLeft s' < roundsLeft s) ∨ proceed s = .error .deallocated ∧ Late s := by
  cases hf : s.frames with
  | nil => exact absurd hf hframes
  | cons f frames =>
    have hleft := roundsLeft_cons hf
    -- a method that returns
    have hreturn (s' : Center) (hs' : s'.frames = frames) (hrefs : s'.refs = s.refs) (howned : s'.owned = s.owned)
        (hobservers : s'.observers = s.observers) (hnext : s'.next = s.next) (hnone : releases s .proceed = none)
        (hpending : pending f = []) (hheld : heldBy f = []) : Stepped s .proceed s' ∧ roundsLeft s' < roundsLeft s := by
      have hpend (r : Observer) : Pending s' r ↔ Pending s r := by
        simp only [Pending, hs', hf, List.exists_mem_cons_iff, hpending, List.not_mem_nil, false_or]
      refine ⟨same_stepped h hrefs ?_ (hobservers ▸ h.names) hnext hnone (fun r hr => .inl ((hpend r).1 hr)) fun r hr => (hpend r).2 hr, ?_⟩
      · rw [held, held, howned, hobservers, hs', hf, List.flatMap_cons, hheld, List.nil_append]
      · rw [hleft, roundsLeft, hs']
        cases f with
        | posting post observers handling => cases handling <;> exact Nat.lt_add_of_pos_left (Nat.succ_pos _)
        | removing objects => exact Nat.lt_add_of_pos_left (Nat.succ_pos _)
    cases f with
    | posting post observers handling =>
      cases handling with
      | some r =>
        left
        obtain ⟨s', hrun, hstep, hs'⟩ := releaseNow_stepped (.posting post observers none) h hf rfl rfl
          (by rw [releases, hf])
        refine ⟨s', ?_, hstep, ?_⟩
        · rw [proceed, hf]
          exact hrun
        · rw [hleft, roundsLeft_cons hs']
          exact Nat.add_lt_add_right (Nat.lt_succ_self _) _
      | none =>
        cases observers with
        | nil =>
          left
          obtain ⟨hstep, hlt⟩ := hreturn { s with frames, running := true, log := .finished post.call :: s.log } rfl rfl rfl rfl rfl
            (by rw [releases, hf]) rfl rfl
          refine ⟨_, ?_, hstep, hlt⟩
          rw [proceed, hf]
          rfl
        | cons r observers =>
          by_cases hfor : isFor post r = true
          · cases hr : Counted.retain s.refs r.observer with
            | none =>
              right
              refine ⟨?_, post, r, observers, frames, hf, hfor, retain_none_iff.1 hr⟩
              rw [proceed, hf]
              dsimp only
              rw [if_pos hfor, hr]
              rfl
            | some refs =>
              left
              refine ⟨{ s with refs, frames := .posting post observers (some r) :: frames, running := true,
                               log := .sent post.call r.registration :: s.log }, ?_, send_stepped h hf hr, ?_⟩
              · rw [proceed, hf]
                dsimp only
                rw [if_pos hfor, hr]
                rfl
              · rw [hleft]
                exact Nat.add_lt_add_right (Nat.lt_succ_self _) _
          · left
            refine ⟨{ s with frames := .posting post observers none :: frames, running := false }, ?_, skip_stepped h hf hfor, ?_⟩
            · rw [proceed, hf]
              dsimp only
              rw [if_neg hfor]
              rfl
            · rw [hleft]
              exact Nat.add_lt_add_right (Nat.lt_succ_of_lt (Nat.lt_succ_self _)) _
    | removing objects =>
      left
      cases objects with
      | nil =>
        obtain ⟨hstep, hlt⟩ := hreturn { s with frames, running := true } rfl rfl rfl rfl rfl
          (by rw [releases, hf]) rfl rfl
        refine ⟨_, ?_, hstep, hlt⟩
        rw [proceed, hf]
        rfl
      | cons o objects =>
        obtain ⟨s', hrun, hstep, hs'⟩ := releaseNow_stepped (.removing objects) h hf rfl rfl (by rw [releases, hf])
        refine ⟨s', ?_, hstep, ?_⟩
        · rw [proceed, hf]
          exact hrun
        · rw [hleft, roundsLeft_cons hs']
          exact Nat.add_lt_add_right (Nat.lt_succ_self _) _

/-- **Every step** of guest code that keeps to the rules, and of the methods -/
theorem step_stepped (h : Ledger s) (hg : Guest s op) (hrun : step bundleIdentifier s op = .ok s') : Stepped s op s' := by
  cases op with
  | create =>
    obtain ⟨_, -, hrun⟩ := bind_eq_ok.1 hrun
    cases hrun
    exact create_stepped h
  | retain o =>
    obtain ⟨_, -, hrun⟩ := bind_eq_ok.1 hrun
    obtain ⟨refs, hr, hrun⟩ := bind_eq_ok.1 hrun
    cases hrun
    exact retain_stepped h (unwrap_eq_ok.1 hr)
  | release o =>
    obtain ⟨_, -, hrun⟩ := bind_eq_ok.1 hrun
    obtain ⟨refs, hr, hrun⟩ := bind_eq_ok.1 hrun
    cases hrun
    exact release_owned_stepped h hg (unwrap_eq_ok.1 hr)
  | addObserver observer selector name object =>
    obtain ⟨_, -, hrun⟩ := bind_eq_ok.1 hrun
    exact addObserver_stepped h hrun
  | removeObserver observer name object =>
    obtain ⟨_, -, hrun⟩ := bind_eq_ok.1 hrun
    exact removeObserver_stepped h hrun
  | postNotification name object =>
    obtain ⟨_, -, hrun⟩ := bind_eq_ok.1 hrun
    cases hrun
    exact postNotification_stepped h
  | proceed =>
    by_cases hframes : s.frames = []
    · rw [step, proceed, hframes] at hrun
      cases hrun
    · rcases proceed_cases h hframes with ⟨s₁, hrun₁, hstep, -⟩ | ⟨herror, -⟩
      · obtain rfl : s₁ = s' := Except.ok.inj (hrun₁.symm.trans hrun)
        exact hstep
      · rw [step, herror] at hrun
        cases hrun

/-- **What is deallocated is used** only when a notification comes to a late observer. -/
theorem step_late (h : Ledger s) (hg : Guest s op) (hrun : step bundleIdentifier s op = .error .deallocated) : Late s := by
  have hguest {x : Except Panic Center} (hx : x ≠ .error .deallocated)
      (hrun : (assert s.running .notEnabled >>= fun _ => x) = .error .deallocated) : False := by
    cases hrunning : s.running with
    | true =>
      rw [hrunning] at hrun
      exact hx hrun
    | false =>
      rw [hrunning] at hrun
      cases hrun
  have halive {r : Option ℕ} (hr : gone s.refs r = false) : ∃ refs, Counted.retain s.refs r = some refs := by
    rw [← Bool.not_eq_true, ← retain_none_iff] at hr
    exact Option.ne_none_iff_exists'.1 hr
  cases op with
  | create =>
    refine (hguest ?_ hrun).elim
    intro h
    cases h
  | retain o =>
    obtain ⟨refs, hr⟩ := halive hg
    refine (hguest ?_ hrun).elim
    rw [hr]
    intro h
    cases h
  | release o =>
    have hin : some o ∈ held s := List.mem_append_left _ (List.mem_map_of_mem hg)
    refine (hguest ?_ hrun).elim
    rw [Counted.release, if_neg (h.balanced.pos_iff.2 hin).ne']
    intro h
    cases h
  | addObserver observer selector name object =>
    obtain ⟨refs₁, hr₁⟩ := halive hg.1
    have hr₂ : ∃ refs₂, Counted.retain refs₁ object = some refs₂ := by
      refine Option.ne_none_iff_exists'.1 fun hnone => ?_
      have hgone := retain_none_iff.1 hnone
      cases object with
      | none => cases hgone
      | some o =>
        exact (retain_pos hr₁ (gone_eq_false.1 hg.2 o rfl)).ne' (beq_iff_eq.1 hgone)
    obtain ⟨refs₂, hr₂⟩ := hr₂
    refine (hguest ?_ hrun).elim
    unfold addObserver
    rw [hr₁]
    split_ifs
    · intro h
      cases h
    · cases name with
      | none =>
        intro h
        cases h
      | some name =>
        show (unwrap (Counted.retain refs₁ object) Panic.deallocated >>= _) ≠ _
        rw [hr₂]
        intro h
        cases h
  | removeObserver observer name object =>
    refine (hguest ?_ hrun).elim
    unfold removeObserver
    cases observer with
    | none =>
      intro h
      cases h
    | some o =>
      cases name with
      | none =>
        intro h
        cases h
      | some name =>
        dsimp only
        cases s.observers.lookup name <;> (intro h; cases h)
  | postNotification name object =>
    refine (hguest ?_ hrun).elim
    intro h
    cases h
  | proceed =>
    by_cases hframes : s.frames = []
    · rw [step, proceed, hframes] at hrun
      cases hrun
    · rcases proceed_cases h hframes with ⟨s₁, hrun₁, -⟩ | ⟨-, hlate⟩
      · rw [step, hrun₁] at hrun
        cases hrun
      · exact hlate

/-! ## Late observers -/

/-- the observers that are still to be sent a notification are there -/
def Safe (s : Center) : Prop := ∀ r, Pending s r → gone s.refs r.observer = false

/-- one of them was deallocated -/
def Doomed (s : Center) : Prop := ∃ r o, Pending s r ∧ r.observer = some o ∧ o < s.next ∧ s.refs o = 0

theorem Safe.not_late (h : Safe s) : ¬Late s := by
  rintro ⟨post, r, observers, frames, hf, hfor, hgone⟩
  have hpending : Pending s r :=
    ⟨.posting post (r :: observers) none, hf ▸ List.mem_cons_self, List.mem_filter.2 ⟨List.mem_cons_self, hfor⟩⟩
  rw [h r hpending] at hgone
  cases hgone

/-- registered observers are there -/
theorem Ledger.registered_alive (h : Ledger s) {e : String × List Observer} (he : e ∈ s.observers) (hr : r ∈ e.2) :
    gone s.refs r.observer = false := by
  rw [gone_eq_false]
  intro o ho
  refine h.balanced.pos_iff.2 (List.mem_append_right _ (List.mem_append_left _ ?_))
  rw [registered, List.mem_flatMap]
  exact ⟨r, List.mem_flatMap.2 ⟨e, he, hr⟩, ho ▸ List.mem_cons_self⟩

/-- **Safety** is kept by the steps that meet the condition. -/
theorem Safe.kept (hs : Safe s) (h : Ledger s) (hstep : Stepped s op s') (hkeeps : Keeps s op) : Safe s' := by
  intro r hr
  have hbefore : gone s.refs r.observer = false := by
    rcases hstep.pending_new r hr with hr | ⟨-, e, he, hr⟩
    · exact hs r hr
    · exact h.registered_alive he hr
  rw [gone_eq_false] at hbefore ⊢
  intro o ho
  rcases hstep.alive o (hbefore o ho) with hpos | ⟨hrelease, hone⟩
  · exact hpos
  · -- its last reference was given back
    rcases hstep.pending_new r hr with ⟨f, hf, hr⟩ | ⟨hnone, -⟩
    · exact absurd ho (hkeeps o hrelease hone f hf r hr)
    · rw [hrelease] at hnone
      cases hnone

/-- a step that does not meet it is fatal -/
theorem doomed_of_not_keeps (h : Ledger s) (hstep : Stepped s op s') (hkeeps : ¬Keeps s op) : Doomed s' := by
  simp only [Keeps, not_forall, not_not] at hkeeps
  obtain ⟨o, hrelease, hone, f, hf, r, hr, ho⟩ := hkeeps
  have hzero := hstep.given o hrelease
  rw [hone] at hzero
  refine ⟨r, o, ?_, ho, (h.lt_of_alive (by rw [hone]; exact Nat.one_pos)).trans_le hstep.next_le, Nat.succ.inj hzero⟩
  rcases hstep.pending_old r ⟨f, hf, hr⟩ with hr | ⟨hnone, -⟩
  · exact hr
  · rw [hrelease] at hnone
    cases hnone

theorem Doomed.kept (hd : Doomed s) (hstep : Stepped s op s') : Doomed s' := by
  obtain ⟨r, o, hr, ho, hlt, hzero⟩ := hd
  refine ⟨r, o, ?_, ho, hlt.trans_le hstep.next_le, hstep.dead o hlt hzero⟩
  rcases hstep.pending_old r hr with hr | ⟨-, hgone⟩
  · exact hr
  · rw [gone_eq_false] at hgone
    exact absurd hzero (hgone o ho).ne'

/-- **A late observer** is reached when the methods go on. -/
theorem Doomed.reached (hd : Doomed s) (h : Ledger s) :
    ∃ k, run (step bundleIdentifier) s (List.replicate k .proceed) = .error .deallocated := by
  induction hk : roundsLeft s using Nat.strong_induction_on generalizing s with
  | _ k ih =>
    have hframes : s.frames ≠ [] := by
      obtain ⟨r, o, ⟨f, hf, -⟩, -⟩ := hd
      exact List.ne_nil_of_mem hf
    rcases proceed_cases h hframes with ⟨s', hrun, hstep, hlt⟩ | ⟨herror, -⟩
    · obtain ⟨k, hrest⟩ := ih _ (hk ▸ hlt) (hd.kept hstep) hstep.toLedger rfl
      refine ⟨k + 1, ?_⟩
      rw [List.replicate_succ, run_cons, step, hrun, ok_bind, hrest]
    · refine ⟨1, ?_⟩
      rw [List.replicate_one, run_cons, step, herror, error_bind]

/-! ## Which observers are reached -/

/-- the calls of `postNotification:` that are going on -/
def callsOf (frames : List Frame) : List ℕ := frames.filterMap fun f =>
  match f with
  | .posting post _ _ => some post.call
  | .removing _ => none

/-- how often a call will send its notification for a registration -/
def toSend (call registration : ℕ) : Frame → ℕ
  | .posting post observers _ =>
    if post.call = call then (observers.filter (isFor post)).countP (fun r => r.registration == registration) else 0
  | .removing _ => 0

/-- how often a call has sent its notification for a registration or will send it -/
def share (s : Center) (call registration : ℕ) : ℕ :=
  s.log.count (.sent call registration) + (s.frames.map (toSend call registration)).sum

/-- **Every notification** is sent once for each registration that it is for. -/
structure Reaches (s : Center) : Prop where
  nodup : ((everyone s.observers).map Observer.registration).Nodup
  old : ∀ r ∈ everyone s.observers, r.registration < s.registrations
  calls : ∀ call ∈ callsOf s.frames, call < s.calls
  frames : (callsOf s.frames).Nodup
  unsent : ∀ call registration, s.calls ≤ call → share s call registration = 0
  once : ∀ post observers, .posted post observers ∈ s.log → post.call < s.calls ∧
    ∀ r ∈ observers, share s post.call r.registration = if isFor post r then 1 else 0
  finished : ∀ call, .finished call ∈ s.log → call < s.calls ∧ call ∉ callsOf s.frames

theorem toSend_of_not_mem {call registration : ℕ} (h : call ∉ callsOf frames) :
    (frames.map (toSend call registration)).sum = 0 := by
  rw [List.sum_eq_zero_iff]
  intro n hn
  obtain ⟨f, hf, rfl⟩ := List.mem_map.1 hn
  cases f with
  | removing objects => rfl
  | posting post observers handling =>
    refine if_neg ?_
    rintro rfl
    exact h (List.mem_filterMap.2 ⟨_, hf, rfl⟩)

/-- a call that has finished -/
theorem Reaches.sent_once (h : Reaches s) (hposted : .posted post observers ∈ s.log)
    (hfinished : .finished post.call ∈ s.log) (hr : r ∈ observers) :
    s.log.count (.sent post.call r.registration) = if isFor post r then 1 else 0 := by
  have honce := (h.once post observers hposted).2 r hr
  rwa [share, toSend_of_not_mem (h.finished _ hfinished).2, Nat.add_zero] at honce

/-- registrations that are made and removed do not change what is sent -/
theorem Reaches.registered (h : Reaches s) (hlog : s'.log = s.log) (hcalls : s'.calls = s.calls)
    (hframes : callsOf s'.frames = callsOf s.frames)
    (hsend : ∀ call registration, (s'.frames.map (toSend call registration)).sum = (s.frames.map (toSend call registration)).sum)
    (hnodup : ((everyone s'.observers).map Observer.registration).Nodup)
    (hold : ∀ r ∈ everyone s'.observers, r.registration < s'.registrations) : Reaches s' := by
  have hshare (call registration : ℕ) : share s' call registration = share s call registration := by
    rw [share, share, hlog, hsend]
  refine ⟨hnodup, hold, ?_, ?_, ?_, ?_, ?_⟩
  · rw [hframes, hcalls]
    exact h.calls
  · rw [hframes]
    exact h.frames
  · rw [hcalls]
    intro call registration hcall
    rw [hshare, h.unsent call registration hcall]
  · rw [hlog, hcalls]
    intro post observers hposted
    simp only [hshare]
    exact h.once post observers hposted
  · rw [hlog, hcalls, hframes]
    exact h.finished

/-- a method goes on, and what is still to be sent and was sent stays the same -/
theorem Reaches.goes_on (h : Reaches s) {e : List Event} (hlog : s'.log = e ++ s.log) (he : ∀ post observers, .posted post observers ∉ e)
    (hcalls : s'.calls = s.calls) (hobservers : s'.observers = s.observers) (hregistrations : s'.registrations = s.registrations)
    (hframes : (callsOf s'.frames).Sublist (callsOf s.frames))
    (hshare : ∀ call registration, share s' call registration = share s call registration)
    (hfinished : ∀ call, .finished call ∈ e → call < s.calls ∧ call ∉ callsOf s'.frames) : Reaches s' := by
  refine ⟨hobservers ▸ h.nodup, ?_, fun call hcall => ?_, h.frames.sublist hframes, fun call registration hcall => ?_,
    fun post observers hposted => ?_, fun call hcall => ?_⟩
  · rw [hobservers, hregistrations]
    exact h.old
  · rw [hcalls]
    exact h.calls call (hframes.mem hcall)
  · rw [hshare, h.unsent call registration (hcalls ▸ hcall)]
  · rw [hlog] at hposted
    rw [hcalls]
    simp only [hshare]
    rcases List.mem_append.1 hposted with hposted | hposted
    · exact absurd hposted (he post observers)
    · exact h.once post observers hposted
  · rw [hlog] at hcall
    rw [hcalls]
    rcases List.mem_append.1 hcall with hcall | hcall
    · exact hfinished call hcall
    · exact ⟨(h.finished call hcall).1, fun hin => (h.finished call hcall).2 (hframes.mem hin)⟩

theorem addObserver_reaches {name : Option String} (h : Reaches s) (hl : Ledger s)
    (hrun : addObserver s bundleIdentifier observer selector name object = .ok s') : Reaches s' := by
  unfold addObserver at hrun
  split_ifs at hrun
  · cases hrun
    exact h
  · obtain ⟨name, -, hrun⟩ := bind_eq_ok.1 hrun
    obtain ⟨refs₁, -, hrun⟩ := bind_eq_ok.1 hrun
    obtain ⟨refs₂, -, hrun⟩ := bind_eq_ok.1 hrun
    cases hrun
    have hperm : (everyone (Assoc.insert name ((s.observers.lookup name).getD [] ++ [⟨observer, selector, object, s.registrations⟩])
        s.observers)).Perm (⟨observer, selector, object, s.registrations⟩ :: everyone s.observers) := by
      rw [everyone_insert, List.append_assoc]
      exact List.perm_middle.trans ((everyone_lookup _ hl.names).symm.cons _)
    refine h.registered rfl rfl rfl (fun _ _ => rfl) ?_ fun r hr => ?_
    · rw [(hperm.map _).nodup_iff, List.map_cons, List.nodup_cons]
      refine ⟨fun hin => ?_, h.nodup⟩
      obtain ⟨r, hr, heq⟩ := List.mem_map.1 hin
      exact absurd heq (h.old r hr).ne
    · rcases List.mem_cons.1 (hperm.mem_iff.1 hr) with rfl | hr
      · exact Nat.lt_succ_self _
      · exact (h.old r hr).trans (Nat.lt_succ_self _)

/-- registrations that are left over when some are removed -/
theorem Reaches.of_perm {rest : List Observer} (h : Reaches s)
    (hm : (everyone m ++ rest).Perm (everyone s.observers)) :
    ((everyone m).map Observer.registration).Nodup ∧ ∀ r ∈ everyone m, r.registration < s.registrations := by
  have hall := (hm.map Observer.registration).nodup_iff.2 h.nodup
  rw [List.map_append] at hall
  exact ⟨hall.of_append_left, fun r hr => h.old r (hm.mem_iff.1 (List.mem_append_left _ hr))⟩

theorem removeObserver_reaches {name : Option String} (h : Reaches s) (hl : Ledger s)
    (hrun : removeObserver s observer name object = .ok s') : Reaches s' := by
  obtain ⟨_, -, hrun⟩ := bind_eq_ok.1 hrun
  cases name with
  | some name =>
    dsimp only at hrun
    cases hlookup : s.observers.lookup name with
    | none =>
      rw [hlookup] at hrun
      cases hrun
      exact h
    | some observers =>
      rw [hlookup] at hrun
      cases hrun
      have hold := everyone_lookup name hl.names
      rw [hlookup, Option.getD_some] at hold
      have hperm : (everyone (Assoc.insert name (removeObserversInternal observer object observers).1 s.observers) ++
          (removeObserversInternal observer object observers).2).Perm (everyone s.observers) := by
        rw [everyone_insert, List.append_assoc]
        calc
          ((removeObserversInternal observer object observers).1 ++ (everyone (Assoc.erase name s.observers) ++
              (removeObserversInternal observer object observers).2)).Perm
              ((removeObserversInternal observer object observers).1 ++ ((removeObserversInternal observer object observers).2 ++
                everyone (Assoc.erase name s.observers))) := List.perm_append_comm.append_left _
          _ |>.Perm (observers ++ everyone (Assoc.erase name s.observers)) := by
            rw [← List.append_assoc]
            exact (removeObserversInternal_perm _ _ _).append_right _
          _ |>.Perm (everyone s.observers) := hold.symm
      obtain ⟨hnodup, hless⟩ := h.of_perm hperm
      exact h.registered rfl rfl rfl (fun _ _ => Nat.zero_add _) hnodup hless
  | none =>
    cases hrun
    have hperm := everyone_map s.observers (removeObserversInternal observer object) fun l => removeObserversInternal_perm _ _ l
    obtain ⟨hnodup, hless⟩ := h.of_perm hperm
    refine h.registered rfl rfl rfl (fun _ _ => Nat.zero_add _) ?_ ?_
    · rwa [List.map_map]
    · rwa [List.map_map]

/-- among different registrations each counts once -/
theorem countP_registration (hn : (observers.map Observer.registration).Nodup) (hr : r ∈ observers) (post : Post) :
    (observers.filter (isFor post)).countP (fun r' => r'.registration == r.registration) = if isFor post r then 1 else 0 := by
  have hmap : (observers.filter (isFor post)).countP (fun r' => r'.registration == r.registration) =
      ((observers.filter (isFor post)).map Observer.registration).count r.registration := by
    rw [List.count, List.countP_map]
    rfl
  have hmem : r.registration ∈ (observers.filter (isFor post)).map Observer.registration ↔ isFor post r = true := by
    rw [List.mem_map]
    constructor
    · rintro ⟨r', hr', heq⟩
      obtain ⟨hin, hfor⟩ := List.mem_filter.1 hr'
      rwa [← List.inj_on_of_nodup_map hn hin hr heq]
    · exact fun hfor => ⟨r, List.mem_filter.2 ⟨hr, hfor⟩, rfl⟩
  rw [hmap, (hn.sublist (List.filter_sublist.map _)).count]
  simp only [hmem]

theorem postNotification_reaches (h : Reaches s) (hl : Ledger s) : Reaches (postNotification s name object) := by
  unfold postNotification
  cases hlookup : s.observers.lookup name with
  | none => exact h
  | some observers =>
    have hobservers : (observers.map Observer.registration).Nodup := by
      have hall := everyone_lookup name hl.names
      rw [hlookup] at hall
      have hnodup := (hall.map Observer.registration).nodup_iff.1 h.nodup
      rw [List.map_append] at hnodup
      exact hnodup.of_append_left
    -- the new call adds its own share
    have hshare (call registration : ℕ) : share { s with
        frames := .posting ⟨s.calls, object⟩ observers none :: s.frames, running := false, calls := s.calls + 1,
        log := .posted ⟨s.calls, object⟩ observers :: s.log } call registration =
          toSend call registration (.posting ⟨s.calls, object⟩ observers none) + share s call registration := by
      have hne : Event.posted ⟨s.calls, object⟩ observers ≠ .sent call registration := nofun
      rw [share, share, List.count_cons_of_ne hne, List.map_cons, List.sum_cons]
      exact Nat.add_left_comm _ _ _
    have hother {call registration : ℕ} (hne : s.calls ≠ call) :
        toSend call registration (.posting ⟨s.calls, object⟩ observers none) = 0 := if_neg hne
    have hnot : s.calls ∉ callsOf s.frames := fun hin => lt_irrefl _ (h.calls _ hin)
    refine ⟨h.nodup, h.old, fun call hcall => ?_, List.nodup_cons.2 ⟨hnot, h.frames⟩, fun call registration hcall => ?_,
      fun post observers' hposted => ?_, fun call hcall => ?_⟩
    · rcases List.mem_cons.1 hcall with rfl | hcall
      · exact Nat.lt_succ_self _
      · exact (h.calls call hcall).trans (Nat.lt_succ_self _)
    · rw [hshare, hother (Nat.lt_of_succ_le hcall).ne, h.unsent call registration (Nat.le_of_succ_le hcall)]
    · rcases List.mem_cons.1 hposted with heq | hposted
      · obtain ⟨rfl, rfl⟩ := Event.posted.inj heq
        refine ⟨Nat.lt_succ_self _, fun r hr => ?_⟩
        rw [hshare, h.unsent _ _ le_rfl, Nat.add_zero, ← countP_registration hobservers hr]
        exact if_pos rfl
      · obtain ⟨hlt, honce⟩ := h.once post observers' hposted
        refine ⟨hlt.trans (Nat.lt_succ_self _), fun r hr => ?_⟩
        rw [hshare, hother hlt.ne', Nat.zero_add, honce r hr]
    · rcases List.mem_cons.1 hcall with heq | hcall
      · cases heq
      · obtain ⟨hlt, hnotin⟩ := h.finished call hcall
        refine ⟨hlt.trans (Nat.lt_succ_self _), fun hin => ?_⟩
        rcases List.mem_cons.1 hin with rfl | hin
        · exact lt_irrefl _ hlt
        · exact hnotin hin

/-- what is sent is not to be sent any more -/
theorem toSend_cons {handling : Option Observer} (call registration : ℕ) (hfor : isFor post r = true) :
    toSend call registration (.posting post (r :: observers) handling) =
      (if Event.sent post.call r.registration = .sent call registration then 1 else 0) +
        toSend call registration (.posting post observers handling) := by
  unfold toSend
  dsimp only
  rw [List.filter_cons_of_pos hfor, List.countP_cons]
  by_cases hcall : post.call = call
  · rw [if_pos hcall, if_pos hcall, Nat.add_comm]
    simp [hcall]
  · rw [if_neg hcall, if_neg hcall, if_neg]
    intro heq
    exact hcall (Event.sent.inj heq).1

theorem proceed_reaches (h : Reaches s) (hrun : proceed s = .ok s') : Reaches s' := by
  -- a method that releases something
  have hrelease {o : Option ℕ} {f f' : Frame} {frames : List Frame} (hrun : releaseNow s o (f' :: frames) = .ok s')
      (hf : s.frames = f :: frames) (hcalls : callsOf (f' :: frames) = callsOf (f :: frames))
      (hsend : ∀ call registration, toSend call registration f' = toSend call registration f) : Reaches s' := by
    obtain ⟨refs, -, hrun⟩ := bind_eq_ok.1 hrun
    cases hrun
    refine h.goes_on (e := []) rfl (fun _ _ => List.not_mem_nil) rfl rfl rfl ?_ (fun call registration => ?_)
      fun _ hcall => absurd hcall List.not_mem_nil
    · rw [hf]
      exact hcalls ▸ List.Sublist.refl _
    · rw [share, share, hf, List.map_cons, List.map_cons, hsend]
  unfold proceed at hrun
  split at hrun
  case h_1 => exact nomatch hrun
  case h_2 post observers r frames hf => exact hrelease hrun hf rfl fun _ _ => rfl
  case h_3 post r observers frames hf =>
    split_ifs at hrun with hfor
    · obtain ⟨refs, -, hrun⟩ := bind_eq_ok.1 hrun
      cases hrun
      refine h.goes_on (e := [.sent post.call r.registration]) rfl ?_ rfl rfl rfl ?_ (fun call registration => ?_) ?_
      · intro _ _ hin
        cases List.mem_singleton.1 hin
      · rw [hf]
        exact List.Sublist.refl _
      · rw [share, share, hf, List.map_cons, List.map_cons, List.sum_cons, List.sum_cons, toSend_cons call registration hfor,
          List.count_cons]
        simp only [beq_iff_eq]
        have hsame : toSend call registration (.posting post observers (some r)) = toSend call registration (.posting post observers none) :=
          rfl
        rw [hsame]
        omega
      · intro _ hin
        cases List.mem_singleton.1 hin
    · cases hrun
      refine h.goes_on (e := []) rfl (fun _ _ => List.not_mem_nil) rfl rfl rfl ?_ (fun call registration => ?_)
        fun _ hcall => absurd hcall List.not_mem_nil
      · rw [hf]
        exact List.Sublist.refl _
      · rw [share, share, hf, List.map_cons, List.map_cons]
        have hsame : toSend call registration (.posting post (r :: observers) none) =
            toSend call registration (.posting post observers none) := by
          unfold toSend
          dsimp only
          rw [List.filter_cons_of_neg hfor]
        rw [hsame]
  case h_4 post frames hf =>
    cases hrun
    have hcalls : callsOf s.frames = post.call :: callsOf frames := by
      rw [hf]
      rfl
    have hnodup := h.frames
    rw [hcalls, List.nodup_cons] at hnodup
    refine h.goes_on (e := [.finished post.call]) rfl ?_ rfl rfl rfl ?_ (fun call registration => ?_) ?_
    · intro _ _ hin
      cases List.mem_singleton.1 hin
    · rw [hcalls]
      exact List.sublist_cons_self _ _
    · have hne : Event.finished post.call ≠ .sent call registration := nofun
      have hnothing : toSend call registration (.posting post [] none) = 0 := ite_self 0
      rw [share, share, hf, List.map_cons, List.sum_cons, hnothing, Nat.zero_add, List.count_cons_of_ne hne]
    · intro call hin
      obtain rfl := Event.finished.inj (List.mem_singleton.1 hin)
      exact ⟨h.calls _ (hcalls ▸ List.mem_cons_self), hnodup.1⟩
  case h_5 o objects frames hf => exact hrelease hrun hf rfl fun _ _ => rfl
  case h_6 frames hf =>
    cases hrun
    refine h.goes_on (e := []) rfl (fun _ _ => List.not_mem_nil) rfl rfl rfl ?_ (fun call registration => ?_)
      fun _ hcall => absurd hcall List.not_mem_nil
    · rw [hf]
      exact List.Sublist.refl _
    · rw [share, share, hf, List.map_cons, List.sum_cons, toSend, Nat.zero_add]

/-- **Every step** -/
theorem step_reaches (h : Reaches s) (hl : Ledger s) (hrun : step bundleIdentifier s op = .ok s') : Reaches s' := by
  cases op with
  | create =>
    obtain ⟨_, -, hrun⟩ := bind_eq_ok.1 hrun
    cases hrun
    exact ⟨h.nodup, h.old, h.calls, h.frames, h.unsent, h.once, h.finished⟩
  | retain o | release o =>
    obtain ⟨_, -, hrun⟩ := bind_eq_ok.1 hrun
    obtain ⟨refs, -, hrun⟩ := bind_eq_ok.1 hrun
    cases hrun
    exact ⟨h.nodup, h.old, h.calls, h.frames, h.unsent, h.once, h.finished⟩
  | addObserver observer selector name object =>
    obtain ⟨_, -, hrun⟩ := bind_eq_ok.1 hrun
    exact addObserver_reaches h hl hrun
  | removeObserver observer name object =>
    obtain ⟨_, -, hrun⟩ := bind_eq_ok.1 hrun
    exact removeObserver_reaches h hl hrun
  | postNotification name object =>
    obtain ⟨_, -, hrun⟩ := bind_eq_ok.1 hrun
    cases hrun
    exact postNotification_reaches h hl
  | proceed => exact proceed_reaches h hrun

/-! ## Runs -/

variable {ops : List Op}

theorem start_ledger : Ledger start := ⟨fun _ => rfl, List.nodup_nil, fun _ h => absurd h List.not_mem_nil⟩

theorem start_reaches : Reaches start :=
  ⟨List.nodup_nil, nofun, nofun, List.nodup_nil, fun _ _ _ => rfl, fun _ _ h => absurd h List.not_mem_nil,
    fun _ h => absurd h List.not_mem_nil⟩

/-- steps that meet the condition use nothing that was deallocated -/
theorem run_safe (h : Ledger s) (hs : Safe s) (hg : LegalRun (step bundleIdentifier) Guest s ops)
    (hk : LegalRun (step bundleIdentifier) Keeps s ops) : run (step bundleIdentifier) s ops ≠ .error .deallocated := by
  induction ops generalizing s with
  | nil => exact nofun
  | cons op ops ih =>
    rw [run_cons]
    cases hstep : step bundleIdentifier s op with
    | error e =>
      rw [error_bind]
      intro heq
      cases heq
      exact hs.not_late (step_late h hg.1 hstep)
    | ok s' =>
      have hstepped := step_stepped h hg.1 hstep
      exact ih hstepped.toLedger (hs.kept h hstepped hk.1) (hg.2 s' hstep) (hk.2 s' hstep)

theorem run_doomed (h : Ledger s) (hd : Doomed s) (hg : LegalRun (step bundleIdentifier) Guest s ops)
    (hrun : run (step bundleIdentifier) s ops = .ok s') : Doomed s' ∧ Ledger s' := by
  induction ops generalizing s with
  | nil =>
    cases hrun
    exact ⟨hd, h⟩
  | cons op ops ih =>
    obtain ⟨s₁, hstep, hrest⟩ := run_cons_ok.1 hrun
    have hstepped := step_stepped h hg.1 hstep
    exact ih hstepped.toLedger (hd.kept hstepped) (hg.2 s₁ hstep) hrest

theorem run_not_keeps (h : Ledger s) (hg : LegalRun (step bundleIdentifier) Guest s ops)
    (hrun : run (step bundleIdentifier) s ops = .ok s') (hk : ¬LegalRun (step bundleIdentifier) Keeps s ops) :
    Doomed s' ∧ Ledger s' := by
  induction ops generalizing s with
  | nil => exact absurd trivial hk
  | cons op ops ih =>
    obtain ⟨s₁, hstep, hrest⟩ := run_cons_ok.1 hrun
    have hstepped := step_stepped h hg.1 hstep
    by_cases hkeeps : Keeps s op
    · refine ih hstepped.toLedger (hg.2 s₁ hstep) hrest fun hrest' => hk ⟨hkeeps, fun s₂ h₂ => ?_⟩
      rwa [← Except.ok.inj (hstep.symm.trans h₂)]
    · exact run_doomed hstepped.toLedger (doomed_of_not_keeps h hstepped hkeeps) (hg.2 s₁ hstep) hrest

/-- an observer is told, and handles the notification -/
def oneObserver : List Op := [.create, .addObserver (some 0) "moved:" (some "Moved") none, .release 0, .postNotification "Moved" none,
  .proceed, .proceed, .proceed]

/-- the handler of an observer removes the other one, which nobody else has a reference to -/
def removeTheNext : List Op := [.create, .create, .addObserver (some 0) "moved:" (some "Moved") none,
  .addObserver (some 1) "moved:" (some "Moved") none, .release 1, .postNotification "Moved" none, .proceed,
  .removeObserver (some 1) none none, .proceed, .proceed, .proceed, .proceed, .proceed]

end TouchHLE.NotificationCenter
