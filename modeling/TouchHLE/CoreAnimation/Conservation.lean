/-
What the methods of Core Animation do with references, and what follows for runs.

- `storeField_cases`, `addAnimation_cases`, `setValue_cases`, `commit_cases` and so on: what each method loses.
- `Meets`: the condition on a step. What is replaced is not released, by values and the animations of layers are not released when these
  are deallocated, and the first timing function of a transaction is released without having been retained.
- `references_conserved_iff`: runs. `default_deallocated`: a run that deallocates a shared timing function.
-/
import TouchHLE.CoreAnimation.Accounting

namespace TouchHLE.CoreAnimation

open Machine

/-! ## Transactions -/

/-- the values that the transactions of a thread were given -/
def ThreadState.values (st : ThreadState) : List ℕ := st.explicitTransactions.flatMap fun t => t.data.flatMap fun e =>
    e.2.toList

theorem Transaction.Plain.kept_eq {t : Transaction} {d : Option ℕ} (hp : t.Plain d) : t.kept d = t.data.flatMap fun e =>
    e.2.toList := by
  rw [Transaction.kept, if_pos hp.first, hp.animations, List.flatMap_nil, List.append_nil, List.nil_append]

theorem ThreadState.Plain.kept_eq {st : ThreadState} {d : Option ℕ} (hp : st.Plain d) : st.kept d = st.values := by
  rw [ThreadState.kept, hp.implicit, Option.toList_none, List.nil_append, ThreadState.values]
  exact List.flatMap_congr fun t ht => (hp.explicit t ht).kept_eq

namespace World

variable {s s' : World} {os lost lost' : List ℕ} {o thread a f : ℕ} {v : Option ℕ} {refs : Counted.Counts} {name : String}
  {t : Transaction} {st : ThreadState}

theorem WellFormed.kept_eq (hf : s.WellFormed) :
    s.kept = (s.objects.flatMap fun e => e.2.kept) ++ s.transactions.flatMap fun e => e.2.values := by
  rw [World.kept]
  congr 1
  exact List.flatMap_congr fun e he => (hf.transactions e he).kept_eq

theorem WellFormed.threadState (hf : s.WellFormed) (thread : ℕ) : (s.threadState thread).Plain s.defaultFunction := by
  unfold World.threadState
  cases hst : s.transactions.lookup thread with
  | none => exact ⟨rfl, fun t ht => absurd ht List.not_mem_nil⟩
  | some st => exact hf.transactions _ (Assoc.mem_of_lookup hst)

theorem threadState_values : (s.transactions.lookup thread).elim [] ThreadState.values = (s.threadState thread).values := by
  unfold World.threadState
  cases s.transactions.lookup thread <;> rfl

/-- the current transaction is an explicit one -/
theorem WellFormed.currentTransaction (hf : s.WellFormed) (ht : s.currentTransaction thread = .ok t) :
    ∃ ts, s.threadState thread = ⟨none, t :: ts⟩ := by
  have hplain := (hf.threadState thread).implicit
  unfold World.currentTransaction at ht
  split at ht
  · next implicit t' ts hst =>
    cases ht
    rw [hst] at hplain
    cases hplain
    exact ⟨ts, hst⟩
  · next t' hst =>
    rw [hst] at hplain
    cases hplain
  · cases ht

/-- **A change of the transactions of a thread.** -/
theorem Inv.setThreadState (hi : s.Inv os lost) (hplain : st.Plain s.defaultFunction)
    (hvalues : ∀ x, st.values.count x + lost'.count x = (s.threadState thread).values.count x + lost.count x) :
    (s.setThreadState thread st).Inv os lost' := by
  obtain ⟨ha, hf, hl⟩ := hi
  have hf' : (s.setThreadState thread st).WellFormed := by
    refine ⟨hf.objects_nodup, hf.objects_lt, hf.layers, Assoc.nodup_insert hf.transactions_nodup, fun e he => ?_,
      hf.poolStacks_nodup, hf.named⟩
    rcases Assoc.mem_insert he with rfl | he
    · exact hplain
    · exact hf.transactions e he
  refine ⟨⟨ha.accounts, ha.bounded⟩, hf', fun x => ?_⟩
  have hall := Assoc.count_flatMap_insert hf.transactions_nodup (k := thread) (v := st) ThreadState.values x
  have hlost := hl x
  have hx := hvalues x
  rw [hf.kept_eq] at hlost
  rw [hf'.kept_eq]
  rw [threadState_values] at hall
  simp only [World.setThreadState, List.count_append] at hlost ⊢
  omega

/-- **A change of the current transaction** that keeps its timing function. -/
theorem Inv.setCurrentTransaction (hi : s.Inv os lost) (t' : Transaction) (ht : s.currentTransaction thread = .ok t)
    (hplain : t.Plain s.defaultFunction → t'.Plain s.defaultFunction)
    (hdata : ∀ x, (t'.data.flatMap fun e => e.2.toList).count x + lost'.count x =
      (t.data.flatMap fun e => e.2.toList).count x + lost.count x) : (s.setCurrentTransaction thread t').Inv os lost' := by
  obtain ⟨ts, hst⟩ := hi.formed.currentTransaction ht
  have hthread := hi.formed.threadState thread
  rw [hst] at hthread
  unfold World.setCurrentTransaction
  rw [hst]
  refine hi.setThreadState ⟨rfl, fun t₁ ht₁ => ?_⟩ fun x => ?_
  · rcases List.mem_cons.1 ht₁ with rfl | ht₁
    · exact hplain (hthread.explicit t List.mem_cons_self)
    · exact hthread.explicit t₁ (List.mem_cons_of_mem _ ht₁)
  · have hx := hdata x
    rw [hst]
    simp only [ThreadState.values, List.flatMap_cons, List.count_append] at hx ⊢
    omega

/-! ## Timing functions -/

/-- a named function has a reference -/
theorem Inv.insertNamed (hi : s.Inv (f :: os) lost) (hnone : s.namedFunctions.lookup name = none)
    (hf : s.objects.lookup f = some .timingFunction) :
    Inv { s with namedFunctions := Assoc.insert name f s.namedFunctions } os lost := by
  have hinsert : Assoc.insert name f s.namedFunctions = (name, f) :: s.namedFunctions := by
    change (name, f) :: Assoc.erase name s.namedFunctions = _
    rw [Assoc.erase_of_lookup hnone]
  have hdefault (st : ThreadState) (hst : st.Plain s.defaultFunction) :
      st.Plain ((Assoc.insert name f s.namedFunctions).lookup kCAMediaTimingFunctionDefault) := by
    refine ⟨hst.implicit, fun t ht => ?_⟩
    obtain ⟨hanimations, hdata, hne, hfirst⟩ := hst.explicit t ht
    refine ⟨hanimations, hdata, hne, ?_⟩
    by_cases heq : kCAMediaTimingFunctionDefault = name
    · -- there is no transaction before there is a default function
      rw [World.defaultFunction, heq, hnone] at hfirst
      exact absurd hfirst hne
    · rw [Assoc.lookup_insert_of_ne heq]
      exact hfirst
  have hformed : WellFormed { s with namedFunctions := Assoc.insert name f s.namedFunctions } := by
    refine { hi.formed with
      transactions := fun e he => hdefault e.2 (hi.formed.transactions e he)
      named := fun e he => ?_ }
    rcases Assoc.mem_insert he with rfl | he
    · exact hf
    · exact hi.formed.named e he
  refine ⟨⟨fun x => ?_, fun x hx => hi.accounted.bounded x ?_⟩, hformed, fun x => ?_⟩
  · have haccounts := hi.accounted.accounts x
    simp only [claims, hinsert, List.flatMap_cons, List.count_append, List.count_cons, List.count_nil] at haccounts ⊢
    omega
  · simp only [claims, hinsert, List.flatMap_cons, List.mem_append, List.mem_cons, List.not_mem_nil] at hx ⊢
    tauto
  · have hlost := hi.lost x
    rw [hi.formed.kept_eq] at hlost
    rw [hformed.kept_eq]
    exact hlost

/-- **A timing function for a name.** Nothing changes but that there may be a new function. -/
theorem functionWithName_cases (hi : s.Inv os lost) (hr : s.functionWithName thread name = .ok (f, s')) :
    s'.Inv os lost ∧ s'.namedFunctions.lookup name = some f ∧ ∀ o, s'.objects.lookup o = s.objects.lookup o ∨
      s.objects.lookup o = none ∧ s'.objects.lookup o = some .timingFunction := by
  unfold World.functionWithName at hr
  split at hr
  · next f' hfound =>
    cases hr
    exact ⟨hi, hfound, fun o => .inl rfl⟩
  · next hnone =>
    obtain ⟨-, -, hr⟩ := bind_eq_ok.1 hr
    obtain ⟨s₂, hretain, hr⟩ := bind_eq_ok.1 hr
    cases hr
    obtain ⟨refs, hrefs, rfl⟩ := retain_cases hretain
    have hnew : (s.functionWithControlPoints thread).2.Inv os lost := (hi.alloc rfl fun l hl => by cases hl).autorelease
    have hobjects : (s.functionWithControlPoints thread).2.objects = (s.alloc .timingFunction).2.objects :=
      autorelease_objects
    have hnamed : (s.functionWithControlPoints thread).2.namedFunctions = s.namedFunctions := autorelease_namedFunctions
    have hfunction : (s.functionWithControlPoints thread).2.objects.lookup s.created = some .timingFunction := by
      rw [hobjects]
      exact alloc_lookup_self
    refine ⟨(hnew.retain hrefs).insertNamed (by rw [← hnone, hnamed]) hfunction, Assoc.lookup_insert_self, fun o => ?_⟩
    by_cases ho : o = s.created
    · subst ho
      exact .inr ⟨lookup_created hi.formed, hfunction⟩
    · left
      have hother := alloc_lookup_of_ne (s := s) (h := .timingFunction) ho
      rw [← hobjects] at hother
      exact hother

end World

/-! ## Animations -/

namespace AnimationHostObject

variable {x : AnimationHostObject} {fld fld' : Field} {v : Option ℕ}

theorem get_set_of_ne (hne : fld' ≠ fld) : (x.set v fld).get fld' = x.get fld' := by
  cases fld <;> cases fld' <;> first | rfl | exact absurd rfl hne

/-- a property that the class has, and the other ones -/
theorem count_kept_set (hr : x.isa.responds fld = true) (y : ℕ) : (HostObject.animation (x.set v fld)).kept.count y +
    (x.get fld).toList.count y = (HostObject.animation x).kept.count y + v.toList.count y := by
  obtain ⟨isa, timingFunction, delegate, duration, keyPath, fromValue, toValue, byValue⟩ := x
  -- the classes that do not have the property are ruled out last
  cases isa <;> cases fld <;> first
    | (simp only [HostObject.kept, HostObject.releases, HostObject.leaks, releases, leaks, set, get, reduceCtorEq,
      if_true, if_false,
        List.count_append, List.count_nil]
       omega)
    | cases hr

end AnimationHostObject

namespace World

variable {s s' : World} {os lost : List ℕ} {thread a f : ℕ} {v v' : Option ℕ} {refs : Counted.Counts} {key : String}
  {t : Transaction} {fld : Field} {x : AnimationHostObject} {isa : AnimationClass}

/-- the property of an animation, if it is one -/
def field (s : World) (a : ℕ) (fld : Field) : Option ℕ :=
  match s.objects.lookup a with
  | some (.animation h) => h.get fld
  | _ => none

theorem field_of_lookup (ha : s.objects.lookup a = some (.animation x)) : s.field a fld = x.get fld := by
  rw [field, ha]

/-- a property is the same where at most there is a new timing function -/
theorem field_congr (ho : s'.objects.lookup a = s.objects.lookup a ∨
    s.objects.lookup a = none ∧ s'.objects.lookup a = some .timingFunction) : s'.field a fld = s.field a fld := by
  unfold field
  rcases ho with ho | ⟨hnone, hnew⟩
  · rw [ho]
  · rw [hnone, hnew]

theorem borrowAnimation_cases (hb : s.borrowAnimation a = .ok x) : s.objects.lookup a = some (.animation x) := by
  unfold borrowAnimation at hb
  split at hb
  · next h hh =>
    cases hb
    exact hh
  · cases hb
  · cases hb

/-- an animation has another value for a property, and the old one is lost -/
theorem Inv.putField (hi : s.Inv os (v.toList ++ lost)) (ha : s.objects.lookup a = some (.animation x))
    (hr : x.isa.responds fld = true) : (s.put a (.animation (x.set v fld))).Inv os ((x.get fld).toList ++ lost) := by
  refine hi.put ha (by simp) (fun l hl => by cases hl) fun y => ?_
  have hcount := AnimationHostObject.count_kept_set hr (v := v) y
  simp only [List.count_append]
  omega

/-- **A setter** does not release what it replaces. -/
theorem storeField_cases (hi : s.Inv os lost) (hr : s.storeField fld a v = .ok s') :
    s'.Inv os ((s.field a fld).toList ++ lost) ∧
    ∃ x, s.objects.lookup a = some (.animation x) ∧ s'.objects.lookup a = some (.animation (x.set v fld)) := by
  obtain ⟨x, hborrow, hr⟩ := bind_eq_ok.1 hr
  obtain ⟨_, hresponds, hr⟩ := bind_eq_ok.1 hr
  obtain ⟨refs, hrefs, rfl⟩ := keep_cases hr
  have ha := borrowAnimation_cases hborrow
  have hput := (hi.keep hrefs).putField ha (assert_cases hresponds)
  rw [field_of_lookup ha]
  exact ⟨hput, x, ha, Assoc.lookup_insert_self⟩

theorem copy_cases (hi : s.Inv os lost) (hr : s.copy v = .ok (v', s')) :
    s'.Inv os (v'.toList ++ lost) ∧ ∀ o h, s.objects.lookup o = some h → s'.objects.lookup o = some h := by
  cases v with
  | none =>
    cases hr
    exact ⟨hi, fun o h hh => hh⟩
  | some o =>
    unfold copy at hr
    split at hr
    · cases ‹_ = none›
    · next o' heq =>
      cases heq
      split at hr
      · obtain ⟨s₁, hkeep, hr⟩ := bind_eq_ok.1 hr
        cases hr
        obtain ⟨refs, hrefs, rfl⟩ := keep_cases hkeep
        exact ⟨hi.keep hrefs, fun o h hh => hh⟩
      · cases hr
        have hnew : (s.alloc (.string false)).2.Inv ((some s.created).toList ++ os) lost := hi.alloc rfl fun l hl => by
            cases hl
        refine ⟨hnew.log, fun o h hh => ?_⟩
        exact (alloc_lookup_of_ne (Nat.ne_of_lt (lookup_lt hi.formed hh))).trans hh
      · cases hr

theorem setKeyPath_cases (hi : s.Inv os lost) (hr : s.setKeyPath a v = .ok s') :
    s'.Inv os ((s.field a .keyPath).toList ++ lost) := by
  obtain ⟨x, hborrow, hr⟩ := bind_eq_ok.1 hr
  obtain ⟨_, hresponds, hr⟩ := bind_eq_ok.1 hr
  obtain ⟨⟨pathCopy, s₁⟩, hcopy, hr⟩ := bind_eq_ok.1 hr
  cases hr
  have ha := borrowAnimation_cases hborrow
  obtain ⟨hi₁, hkeep⟩ := copy_cases hi hcopy
  rw [field_of_lookup ha]
  exact hi₁.putField (hkeep a _ ha) (assert_cases hresponds)

/-- **All setters.** -/
theorem setField_cases (hi : s.Inv os lost) (hr : s.setField fld a v = .ok s') :
    s'.Inv os ((s.field a fld).toList ++ lost) := by
  cases fld with
  | keyPath => exact setKeyPath_cases hi hr
  | timingFunction => exact (storeField_cases hi hr).1
  | delegate => exact (storeField_cases hi hr).1
  | fromValue => exact (storeField_cases hi hr).1
  | toValue => exact (storeField_cases hi hr).1
  | byValue => exact (storeField_cases hi hr).1

theorem setDuration_cases {duration : ℚ} (hi : s.Inv os lost) (hr : s.setDuration a duration = .ok s') : s'.Inv os lost ∧
    ∃ x, s'.objects = Assoc.insert a (.animation x) s.objects := by
  obtain ⟨x, hborrow, hr⟩ := bind_eq_ok.1 hr
  cases hr
  exact ⟨hi.put (borrowAnimation_cases hborrow) (by simp) (fun l hl => by cases hl) fun y => rfl, _, rfl⟩

theorem initAnimation_cases (hi : s.Inv os lost) (hr : s.initAnimation thread a = .ok s') :
    s'.Inv os ((s.field a .timingFunction).toList ++ lost) ∧
      ∀ fld, fld ≠ .timingFunction → s'.field a fld = s.field a fld := by
  obtain ⟨⟨f, s₁⟩, hname, hr⟩ := bind_eq_ok.1 hr
  obtain ⟨hi₁, -, hsame⟩ := functionWithName_cases hi hname
  obtain ⟨hi', x, ha, ha'⟩ := storeField_cases hi₁ hr
  rw [field_congr (hsame a)] at hi'
  refine ⟨hi', fun fld hne => ?_⟩
  rw [← field_congr (hsame a), field_of_lookup ha, field_of_lookup ha', AnimationHostObject.get_set_of_ne hne]

/-- a new animation has no properties -/
theorem allocAnimation_cases (isa : AnimationClass) (hi : s.Inv os lost) :
    (s.allocAnimation isa).2.Inv (s.created :: os) lost ∧ ∀ fld, (s.allocAnimation isa).2.field s.created fld = none := by
  refine ⟨hi.alloc ?_ (fun l hl => by cases hl), fun fld => ?_⟩
  · cases isa <;> rfl
  · have hlookup : (s.allocAnimation isa).2.objects.lookup s.created =
        some (.animation ⟨isa, none, none, 0, none, none, none, none⟩) :=
      alloc_lookup_self
    rw [field_of_lookup hlookup]
    cases fld <;> rfl

theorem animation_cases (hi : s.Inv os lost) (hr : s.animation thread isa = .ok s') :
    s'.Inv os lost := by
  obtain ⟨hi₁, hnone⟩ := allocAnimation_cases isa hi
  obtain ⟨s₂, hinit, hr⟩ := bind_eq_ok.1 hr
  cases hr
  obtain ⟨hi₂, -⟩ := initAnimation_cases hi₁ hinit
  rw [hnone] at hi₂
  exact hi₂.autorelease

theorem animationWithKeyPath_cases (hi : s.Inv os lost)
    (hr : s.animationWithKeyPath thread isa v = .ok s') : s'.Inv os lost := by
  obtain ⟨hi₁, hnone⟩ := allocAnimation_cases isa hi
  obtain ⟨s₂, hinit, hr⟩ := bind_eq_ok.1 hr
  obtain ⟨s₃, hpath, hr⟩ := bind_eq_ok.1 hr
  cases hr
  obtain ⟨hi₂, hfields⟩ := initAnimation_cases hi₁ hinit
  have hi₃ := setKeyPath_cases hi₂ hpath
  rw [hnone] at hi₃
  have hkeyPath := (hfields .keyPath (by decide)).trans (hnone .keyPath)
  change (field s₂ s.created .keyPath) = none at hkeyPath
  change s₃.Inv _ ((field s₂ s.created .keyPath).toList ++ _) at hi₃
  rw [hkeyPath] at hi₃
  exact hi₃.autorelease

/-! ## Layers -/

variable {layer anim : ℕ} {l : LayerHostObject} {value : Option ℕ} {s₁ : World}

/-- the animation that a layer has for a key -/
def animationFor (s : World) (layer : ℕ) (key : String) : Option ℕ :=
  match s.objects.lookup layer with
  | some (.layer l) => l.animations.lookup key
  | _ => none

theorem animationFor_of_lookup (hl : s.objects.lookup layer = some (.layer l)) :
    s.animationFor layer key = l.animations.lookup key := by
  rw [animationFor, hl]

theorem borrowLayer_cases (hb : s.borrowLayer layer = .ok l) : s.objects.lookup layer = some (.layer l) := by
  unfold borrowLayer at hb
  split at hb
  · next l' hl =>
    cases hb
    exact hl
  · cases hb
  · cases hb

/-- **An animation is added**, and the one that it replaces is not released. -/
theorem addAnimation_cases {key : Option String} (hi : s.Inv os lost) (hr : s.addAnimation thread layer anim key = .ok s') :
    s'.Inv os ((key.bind (s.animationFor layer)).toList ++ lost) := by
  obtain ⟨s₁, hduration, hr⟩ := bind_eq_ok.1 hr
  obtain ⟨l, hlayer, hr⟩ := bind_eq_ok.1 hr
  have hl := borrowLayer_cases hlayer
  obtain ⟨x, -, hduration⟩ := bind_eq_ok.1 hduration
  -- the duration of the animation is no reference
  have hs₁ : s₁.Inv os lost ∧ s.objects.lookup layer = some (.layer l) := by
    split_ifs at hduration
    · obtain ⟨t, -, hset⟩ := bind_eq_ok.1 hduration
      obtain ⟨hi₁, x', hobjects⟩ := setDuration_cases hi hset
      refine ⟨hi₁, ?_⟩
      rw [hobjects] at hl
      by_cases heq : layer = anim
      · rw [heq, Assoc.lookup_insert_self] at hl
        cases hl
      · rwa [Assoc.lookup_insert_of_ne heq] at hl
    · cases hduration
      exact ⟨hi, hl⟩
  obtain ⟨hi₁, hl₀⟩ := hs₁
  cases key with
  | none =>
    obtain ⟨-, -, hr⟩ := bind_eq_ok.1 hr
    obtain ⟨refs, hrefs, rfl⟩ := keep_cases hr
    have hnodup := hi₁.formed.layers _ (Assoc.mem_of_lookup hl) l rfl
    refine (hi₁.keep hrefs).put hl (by simp) (fun l' hl' => by cases hl'; exact hnodup) fun y => ?_
    simp only [HostObject.kept, HostObject.releases, HostObject.leaks, Option.bind_none, Option.toList_none,
      Option.toList_some,
      List.count_append, List.count_cons, List.count_nil]
    omega
  | some key =>
    obtain ⟨refs, hrefs, rfl⟩ := keep_cases hr
    have hnodup := hi₁.formed.layers _ (Assoc.mem_of_lookup hl) l rfl
    refine (hi₁.keep hrefs).put hl (by simp) (fun l' hl' => by cases hl'; exact Assoc.nodup_insert hnodup) fun y => ?_
    have hinsert := Assoc.count_flatMap_insert hnodup (k := key) (v := anim) (fun anim => [anim]) y
    rw [Option.bind_some, animationFor_of_lookup hl₀]
    cases hfound : l.animations.lookup key with
    | none =>
      simp only [hfound, HostObject.kept, HostObject.releases, HostObject.leaks, Option.elim_none, Option.toList_none,
        Option.toList_some, List.count_append, List.count_nil] at hinsert ⊢
      omega
    | some old =>
      simp only [hfound, HostObject.kept, HostObject.releases, HostObject.leaks, Option.elim_some, Option.toList_some,
        List.count_append, List.count_nil] at hinsert ⊢
      omega

/-- a layer without the animation that it has for a key -/
def without (s : World) (layer : ℕ) (key : String) : World :=
  match s.objects.lookup layer with
  | some (.layer l) => s.takeAnimation layer l key
  | _ => s

/-- **An animation is removed** and released. -/
theorem removeAnimationForKey_cases (hi : s.Inv [] lost) (hr : s.removeAnimationForKey layer key = .ok s') :
    ∃ more, s'.Inv [] (more ++ lost) ∧ (more = [] ↔ NothingLost (s.without layer key) s') := by
  obtain ⟨l, hlayer, hr⟩ := bind_eq_ok.1 hr
  have hl := borrowLayer_cases hlayer
  have hwithout : s.without layer key = s.takeAnimation layer l key := by rw [without, hl]
  have hnodup := hi.formed.layers _ (Assoc.mem_of_lookup hl) l rfl
  have herase := Assoc.count_flatMap_erase hnodup (k := key) (fun anim => [anim])
  have hnodup' : ((Assoc.erase key l.animations).map Prod.fst).Nodup := by
    rw [Assoc.keys_erase]
    exact hnodup.filter _
  rw [hwithout]
  cases hfound : l.animations.lookup key with
  | none =>
    rw [hfound] at hr
    cases hr
    refine ⟨[], hi, iff_of_true rfl fun o h hh hnone => ?_⟩
    by_cases heq : o = layer
    · rw [heq, hl] at hnone
      cases hnone
    · have hsame : (s.takeAnimation layer l key).objects.lookup o = s.objects.lookup o := Assoc.lookup_insert_of_ne heq
      rw [hsame, hnone] at hh
      cases hh
  | some anim =>
    rw [hfound] at hr
    refine Inv.drop (hi.put hl (by simp) (fun l' hl' => by cases hl'; exact hnodup') fun y => ?_) hr
    have hy := herase y
    rw [hfound, Option.elim_some] at hy
    simp only [HostObject.kept, HostObject.releases, HostObject.leaks, List.count_append, List.count_nil] at hy ⊢
    omega

/-! ## The methods of CATransaction -/

theorem nothingLost_of_objects (ho : s'.objects = s.objects) : NothingLost s s' := by
  intro o h hh hnone
  rw [ho, hh] at hnone
  cases hnone

theorem nothingLost_congr (ho : s₁.objects = s.objects) : NothingLost s₁ s' ↔ NothingLost s s' := by
  unfold NothingLost
  rw [ho]

theorem setCurrentTransaction_objects : (s.setCurrentTransaction thread t).objects = s.objects := by
  unfold World.setCurrentTransaction
  split <;> rfl

theorem setCurrentTransaction_with {retained : List ℕ} : { s.setCurrentTransaction thread t with refs, retained } =
    { s with refs, retained }.setCurrentTransaction thread t := by
  have hst : { s with refs, retained }.threadState thread = s.threadState thread := rfl
  unfold World.setCurrentTransaction
  rw [hst]
  split <;> rfl

/-- a reference that is retained for the current transaction -/
theorem keep_setCurrentTransaction (hk : (s.setCurrentTransaction thread t).keep v = .ok s') : ∃ refs,
    Counted.retain s.refs v = some refs ∧ s' =
      { s with refs, retained := v.toList ++ s.retained }.setCurrentTransaction thread t := by
  obtain ⟨refs, hrefs, rfl⟩ := keep_cases hk
  have hsame : (s.setCurrentTransaction thread t).refs = s.refs ∧ (s.setCurrentTransaction thread t).retained =
      s.retained := by
    unfold World.setCurrentTransaction
    split <;> exact ⟨rfl, rfl⟩
  rw [hsame.1] at hrefs
  exact ⟨refs, hrefs, by rw [hsame.2, setCurrentTransaction_with]⟩

theorem newTransaction_cases (hi : s.Inv os lost) (hr : s.newTransaction thread = .ok (t, s')) :
    s'.Inv os lost ∧ t.Plain s'.defaultFunction ∧ t.data = [] := by
  obtain ⟨⟨f, s₁⟩, hname, hr⟩ := bind_eq_ok.1 hr
  cases hr
  obtain ⟨hi₁, hfound, -⟩ := functionWithName_cases hi hname
  exact ⟨hi₁, ⟨rfl, List.nodup_nil, Option.some_ne_none f, hfound.symm⟩, rfl⟩

theorem beginTransaction_cases (hi : s.Inv os lost) (hr : s.beginTransaction thread = .ok s') : s'.Inv os lost := by
  obtain ⟨⟨t, s₁⟩, hnew, hr⟩ := bind_eq_ok.1 hr
  cases hr
  obtain ⟨hi₁, hplain, hdata⟩ := newTransaction_cases hi hnew
  have hthread := hi₁.formed.threadState thread
  refine hi₁.setThreadState ⟨hthread.implicit, fun t' ht' => ?_⟩ fun x => ?_
  · rcases List.mem_cons.1 ht' with rfl | ht'
    · exact hplain
    · exact hthread.explicit t' ht'
  · simp only [ThreadState.values, List.flatMap_cons, hdata, List.flatMap_nil, List.nil_append]

theorem commit_cases (hi : s.Inv [] lost) (hr : s.commit thread = .ok s') :
    ∃ more, s'.Inv [] (more ++ lost) ∧ (more = [] ↔ NothingLost s s') := by
  have hthread := hi.formed.threadState thread
  unfold World.commit at hr
  split at hr
  · cases hr
  · next implicit t ts hst =>
    rw [hst] at hthread
    have hplain := hthread.explicit t List.mem_cons_self
    obtain ⟨s₁, hloop, hr⟩ := bind_eq_ok.1 hr
    rw [hplain.animations] at hloop
    cases hloop
    have hi₁ : (s.setThreadState thread ⟨implicit, ts⟩).Inv [] ((t.data.flatMap fun e => e.2.toList) ++ lost) := by
      refine hi.setThreadState ⟨hthread.implicit, fun t' ht' => hthread.explicit t' (List.mem_cons_of_mem _ ht')⟩ fun x =>
        ?_
      rw [hst]
      simp only [ThreadState.values, List.flatMap_cons, List.count_append]
      omega
    exact hi₁.drop hr

/-- a timing function has no references to release -/
theorem release_timingFunction (hr : s.release [f] = .ok s') (hn : (s.objects.map Prod.fst).Nodup)
    (hf : s.objects.lookup f = some .timingFunction) : ∃ refs objects, s' = { s with refs, objects } ∧
      ∀ x, (objects.flatMap fun e => e.2.kept).count x = (s.objects.flatMap fun e => e.2.kept).count x := by
  rw [World.release, List.length_singleton, Nat.add_comm 1, releaseAll] at hr
  obtain ⟨refs, -, hr⟩ := bind_eq_ok.1 hr
  split_ifs at hr
  · obtain ⟨⟨fields, s₁⟩, hdealloc, hr⟩ := bind_eq_ok.1 hr
    obtain ⟨h, hh, hdealloc⟩ := bind_eq_ok.1 hdealloc
    cases hdealloc
    cases hf.symm.trans (unwrap_eq_ok.1 hh)
    simp only [HostObject.releases, List.nil_append, releaseAll_nil] at hr
    cases hr
    refine ⟨refs, Assoc.erase f s.objects, rfl, fun x => ?_⟩
    have herase := Assoc.count_flatMap_erase hn (k := f) HostObject.kept x
    rw [hf, Option.elim_some] at herase
    exact herase
  · rw [releaseAll_nil] at hr
    cases hr
    exact ⟨refs, s.objects, rfl, fun x => rfl⟩

/-- **A timing function that is replaced** in a transaction is released once too often. -/
theorem not_conserved_of_replaced (hi : s.Inv [] []) (ht : s.currentTransaction thread = .ok t)
    (hne : value ≠ t.animationTimingFunction)
    (hkeep : (s.setCurrentTransaction thread { t with animationTimingFunction := value }).keep value = .ok s₁)
    (hdrop : s₁.drop t.animationTimingFunction.toList = .ok s') : ¬s'.Conserved := by
  obtain ⟨ts, hst⟩ := hi.formed.currentTransaction ht
  have hthread := hi.formed.threadState thread
  rw [hst] at hthread
  have hplain := hthread.explicit t List.mem_cons_self
  obtain ⟨f, hfunction⟩ := Option.ne_none_iff_exists'.1 hplain.ne_nil
  have hdefault : s.defaultFunction = some f := hplain.first.symm.trans hfunction
  have hf : s.objects.lookup f = some .timingFunction := hi.formed.named _ (Assoc.mem_of_lookup hdefault)
  have hset : s.setCurrentTransaction thread { t with animationTimingFunction := value } =
      s.setThreadState thread ⟨none, { t with animationTimingFunction := value } :: ts⟩ := by
    unfold World.setCurrentTransaction
    rw [hst]
  rw [hset] at hkeep
  obtain ⟨refs, -, rfl⟩ := keep_cases hkeep
  rw [hfunction, Option.toList_some] at hdrop
  have hrelease : World.release { s with
      refs
      transactions := Assoc.insert thread ⟨none, { t with animationTimingFunction := value } :: ts⟩ s.transactions
      retained := value.toList ++ s.retained
      released := f :: s.released } [f] = .ok s' := hdrop
  obtain ⟨refs', objects, rfl, hobjects⟩ := release_timingFunction hrelease hi.formed.objects_nodup hf
  intro hc
  -- the function that is given is there, and the first one was released without a reference
  have hnew : Transaction.kept s.defaultFunction { t with animationTimingFunction := value } =
      value.toList ++ t.data.flatMap fun e => e.2.toList := by
    rw [Transaction.kept, if_neg (by rw [← hplain.first]; exact hne), hplain.animations, List.flatMap_nil, List.append_nil]
  have hcons (t : Transaction) : ThreadState.kept s.defaultFunction ⟨none, t :: ts⟩ =
      t.kept s.defaultFunction ++ ts.flatMap (Transaction.kept s.defaultFunction) := by
    rw [ThreadState.kept, Option.toList_none, List.nil_append, List.flatMap_cons]
  have hinsert := Assoc.count_flatMap_insert hi.formed.transactions_nodup (k := thread)
    (v := ⟨none, { t with animationTimingFunction := value } :: ts⟩) (ThreadState.kept s.defaultFunction) f
  have hlookup : (s.transactions.lookup thread).elim [] (ThreadState.kept s.defaultFunction) =
      ThreadState.kept s.defaultFunction ⟨none, t :: ts⟩ := by
    rw [← hst, World.threadState]
    cases s.transactions.lookup thread <;> rfl
  have hbalanced := hc.balanced f
  have hlost := hi.lost f
  have hx := hobjects f
  dsimp only at hx
  rw [hlookup, hcons, hcons, hnew, hplain.kept_eq] at hinsert
  simp only [kept, defaultFunction, List.count_append, List.count_cons_self, List.count_nil] at hbalanced hlost hinsert
  omega

/-- **A value for a transaction** is conserved, unless it is another timing function. -/
theorem setValue_cases (hi : s.Inv [] []) (hr : s.setValue thread value key = .ok s') :
    (s'.Conserved ↔ (key = kCATransactionAnimationTimingFunction → ∀ t, s.currentTransaction thread = .ok t →
      value = t.animationTimingFunction) ∧ NothingLost s s') ∧ (s'.Conserved → s'.Inv [] []) := by
  -- where no object is released
  have hother {t t' : Transaction} (hkey : key ≠ kCATransactionAnimationTimingFunction)
      (ht : s.currentTransaction thread = .ok t)
      (hplain : t.Plain s.defaultFunction → t'.Plain s.defaultFunction) (hdata : t'.data = t.data) :
      ((s.setCurrentTransaction thread t').Conserved ↔ (key = kCATransactionAnimationTimingFunction → ∀ t,
        s.currentTransaction thread = .ok t → value = t.animationTimingFunction) ∧
          NothingLost s (s.setCurrentTransaction thread t')) ∧
        ((s.setCurrentTransaction thread t').Conserved → (s.setCurrentTransaction thread t').Inv [] []) := by
    have hi' : (s.setCurrentTransaction thread t').Inv [] [] := hi.setCurrentTransaction t' ht hplain fun x => by rw [hdata]
    exact hi'.good (iff_of_true rfl ⟨fun heq => absurd heq hkey, nothingLost_of_objects setCurrentTransaction_objects⟩)
  unfold World.setValue at hr
  split_ifs at hr with hduration hactions hfunction hblock
  · obtain ⟨animationDuration, -, hr⟩ := bind_eq_ok.1 hr
    obtain ⟨t, ht, hr⟩ := bind_eq_ok.1 hr
    cases hr
    exact hother (by rw [hduration]; decide) ht (fun hp => ⟨hp.animations, hp.data, hp.ne_nil, hp.first⟩) rfl
  · obtain ⟨flag, -, hr⟩ := bind_eq_ok.1 hr
    obtain ⟨t, ht, hr⟩ := bind_eq_ok.1 hr
    cases hr
    exact hother (by rw [hactions]; decide) ht (fun hp => ⟨hp.animations, hp.data, hp.ne_nil, hp.first⟩) rfl
  · obtain ⟨t, ht, hr⟩ := bind_eq_ok.1 hr
    obtain ⟨s₁, hkeep, hr⟩ := bind_eq_ok.1 hr
    by_cases hsame : value = t.animationTimingFunction
    · -- the function is retained before it is released
      subst hsame
      obtain ⟨refs, hrefs, rfl⟩ := keep_setCurrentTransaction hkeep
      have hi₁ : ({ s with refs, retained := t.animationTimingFunction.toList ++ s.retained }.setCurrentTransaction thread t).Inv []
          (t.animationTimingFunction.toList ++ []) := (hi.keep hrefs).setCurrentTransaction t ht id fun x => rfl
      obtain ⟨more, hi', hmore⟩ := hi₁.drop hr
      rw [List.append_nil] at hi'
      have hnothing := hmore.trans (nothingLost_congr setCurrentTransaction_objects)
      refine hi'.good (hnothing.trans ⟨fun hn => ⟨fun _ t' ht' => ?_, hn⟩, And.right⟩)
      cases ht.symm.trans ht'
      rfl
    · refine ⟨iff_of_false (not_conserved_of_replaced hi ht hsame hkeep hr) fun hcond => hsame (hcond.1 hfunction t ht),
        fun hc => ?_⟩
      exact absurd hc (not_conserved_of_replaced hi ht hsame hkeep hr)
  · obtain ⟨t, ht, hr⟩ := bind_eq_ok.1 hr
    obtain ⟨s₁, hkeep, hr⟩ := bind_eq_ok.1 hr
    obtain ⟨refs, hrefs, rfl⟩ := keep_setCurrentTransaction hkeep
    obtain ⟨ts, hst⟩ := hi.formed.currentTransaction ht
    have hthread := hi.formed.threadState thread
    rw [hst] at hthread
    have hnodup := (hthread.explicit t List.mem_cons_self).data
    have hold : (t.data.lookup key).elim [] Option.toList = (t.data.lookup key).join.toList := by
      cases t.data.lookup key <;> rfl
    have hi₁ : ({ s with refs, retained := value.toList ++ s.retained }.setCurrentTransaction thread
        { t with data := Assoc.insert key value t.data }).Inv [] ((t.data.lookup key).join.toList ++ []) := by
      refine (hi.keep hrefs).setCurrentTransaction _ ht
        (fun hp => ⟨hp.animations, Assoc.nodup_insert hp.data, hp.ne_nil, hp.first⟩) fun x => ?_
      have hinsert := Assoc.count_flatMap_insert hnodup (k := key) (v := value) Option.toList x
      rw [hold] at hinsert
      simp only [List.count_append, List.count_nil]
      omega
    obtain ⟨more, hi', hmore⟩ := hi₁.drop hr
    rw [List.append_nil] at hi'
    have hnothing := hmore.trans (nothingLost_congr setCurrentTransaction_objects)
    refine hi'.good (hnothing.trans ⟨fun hn => ⟨fun heq => ?_, hn⟩, And.right⟩)
    exact absurd heq hfunction

end World

/-! ## Runs -/

/-- the references that the guest gives back -/
def Op.givesBack : Op → List ℕ
  | .release o => [o]
  | .autorelease _ o => [o]
  | _ => []

/-- **What the guest promises**: it gives back only references that it has. -/
def Legal (s : World) (o : Op) : Prop := ∀ x ∈ o.givesBack, x ∈ s.guest

instance (s : World) (o : Op) : Decidable (Legal s o) := inferInstanceAs (Decidable (∀ x ∈ o.givesBack, x ∈ s.guest))

/-- **What keeps references conserved**: a property, an animation for a key and the timing function of a transaction
are not replaced by anything else, and neither an animation with a by value nor a layer with animations is deallocated. -/
def Meets (s : World) (o : Op) (s' : World) : Prop :=
  match o with
  | .initAnimation _ a => s.field a .timingFunction = none
  | .setField fld a _ => s.field a fld = none
  | .addAnimation _ layer _ key => key.bind (s.animationFor layer) = none
  | .setValue thread value key => (key = kCATransactionAnimationTimingFunction → ∀ t, s.currentTransaction thread = .ok t →
      value = t.animationTimingFunction) ∧ World.NothingLost s s'
  | .removeAnimationForKey layer key => World.NothingLost (s.without layer key) s'
  | .commit _ | .release _ | .drainPool _ => World.NothingLost s s'
  | _ => True

variable {s s' : World}

/-- **Step rule.** A legal step conserves references exactly if it meets the condition. -/
theorem step_conserved {o : Op} (hl : Legal s o) (hi : s.Inv [] []) (hr : step s o = .ok s') :
    (s'.Conserved ↔ Meets s o s') ∧ (s'.Conserved → s'.Inv [] []) := by
  have hnew (h : HostObject) (hkept : h.kept = []) (hlayer : ∀ l, h = .layer l → (l.animations.map Prod.fst).Nodup) :
      (World.own (s.alloc h)).Inv [] [] := (hi.alloc hkept hlayer).own
  have hlost (l : Option ℕ) : l.toList ++ [] = [] ↔ l = none := by cases l <;> simp
  cases o with
  | newObject =>
    cases hr
    exact (hnew .object rfl fun l hl => by cases hl).good (iff_of_true rfl trivial)
  | newString isMutable =>
    cases hr
    exact (hnew (.string isMutable) rfl fun l hl => by cases hl).good (iff_of_true rfl trivial)
  | newNumber value =>
    cases hr
    exact (hnew (.number value) rfl fun l hl => by cases hl).good (iff_of_true rfl trivial)
  | newLayer =>
    cases hr
    exact (hnew (.layer ⟨[], []⟩) rfl fun l hl => by cases hl; exact List.nodup_nil).good (iff_of_true rfl trivial)
  | allocAnimation isa =>
    cases hr
    exact (World.allocAnimation_cases isa hi).1.own.good (iff_of_true rfl trivial)
  | initAnimation thread a => exact (World.initAnimation_cases hi hr).1.good (hlost _)
  | animation thread isa => exact (World.animation_cases hi hr).good (iff_of_true rfl trivial)
  | animationWithKeyPath thread isa path => exact (World.animationWithKeyPath_cases hi hr).good (iff_of_true rfl trivial)
  | setField fld a value => exact (World.setField_cases hi hr).good (hlost _)
  | setDuration a duration => exact (World.setDuration_cases hi hr).1.good (iff_of_true rfl trivial)
  | functionWithName thread name =>
    obtain ⟨f, hname⟩ : ∃ f, s.functionWithName thread name = .ok (f, s') := by
      change Prod.snd <$> s.functionWithName thread name = .ok s' at hr
      cases hname : s.functionWithName thread name with
      | error e =>
        rw [hname] at hr
        cases hr
      | ok r =>
        rw [hname] at hr
        cases hr
        exact ⟨r.1, rfl⟩
    exact (World.functionWithName_cases hi hname).1.good (iff_of_true rfl trivial)
  | functionWithControlPoints thread =>
    cases hr
    have hi' : (s.functionWithControlPoints thread).2.Inv [] [] := (hi.alloc rfl fun l hl => by cases hl).autorelease
    exact hi'.good (iff_of_true rfl trivial)
  | beginTransaction thread => exact (World.beginTransaction_cases hi hr).good (iff_of_true rfl trivial)
  | setValue thread value key => exact World.setValue_cases hi hr
  | commit thread =>
    obtain ⟨more, hi', hmore⟩ := World.commit_cases hi hr
    rw [List.append_nil] at hi'
    exact hi'.good hmore
  | addAnimation thread layer anim key => exact (World.addAnimation_cases hi hr).good (hlost _)
  | removeAnimationForKey layer key =>
    obtain ⟨more, hi', hmore⟩ := World.removeAnimationForKey_cases hi hr
    rw [List.append_nil] at hi'
    exact hi'.good hmore
  | retain o =>
    obtain ⟨s₁, hretain, hr⟩ := bind_eq_ok.1 hr
    cases hr
    obtain ⟨refs, hrefs, rfl⟩ := World.retain_cases hretain
    exact (hi.retain hrefs).own.good (iff_of_true rfl trivial)
  | release o =>
    obtain ⟨more, hi', hmore⟩ := (hi.disown (hl o (List.mem_singleton_self o))).release hr
    rw [List.append_nil] at hi'
    exact hi'.good hmore
  | autorelease thread o =>
    cases hr
    have hi' : (s.guestAutorelease thread o).Inv [] [] := (hi.disown (hl o (List.mem_singleton_self o))).autorelease
    exact hi'.good (iff_of_true rfl trivial)
  | newPool thread =>
    cases hr
    have hi' : (s.newPool thread).Inv [] [] := by
      refine hi.setPools fun x => ?_
      cases s.poolStacks.lookup thread <;> rfl
    exact hi'.good (iff_of_true rfl trivial)
  | drainPool thread =>
    change s.drainPool thread = .ok s' at hr
    unfold World.drainPool at hr
    split at hr
    · next pool pools hpools =>
      have hi₁ : World.Inv { s with poolStacks := Assoc.insert thread pools s.poolStacks } pool [] := by
        refine hi.setPools fun x => ?_
        rw [hpools, Option.elim_some, List.flatten_cons, List.count_append, List.count_nil]
        omega
      obtain ⟨more, hi', hmore⟩ := hi₁.release hr
      rw [List.append_nil] at hi'
      exact hi'.good hmore
    · cases hr

/-- nothing was created yet -/
def World.initial : World := ⟨fun _ => 0, [], 0, [], [], [], [], [], [], []⟩

theorem inv_initial : World.initial.Inv [] [] := by
  refine ⟨⟨fun o => rfl, fun o ho => absurd ho List.not_mem_nil⟩,
    ⟨List.nodup_nil, ?_, ?_, List.nodup_nil, ?_, List.nodup_nil, ?_⟩,
    fun o => rfl⟩
  all_goals exact fun e he => absurd he List.not_mem_nil

/-- **Core Animation in any run** conserves references exactly if every step meets the condition. -/
theorem references_conserved_iff (ops : List Op) (hl : LegalRun step Legal World.initial ops) :
    Throughout step World.Conserved World.initial ops ↔ Along step Meets World.initial ops :=
  throughout_iff_along_of_kept (I := fun s => s.Inv [] []) (fun _ _ _ hl hi _ hr => step_conserved hl hi hr) hl inv_initial
    (inv_initial.conserved_iff_lost.2 rfl)

def sampleOps : List Op :=
  [.newPool 0, .functionWithName 0 "easeIn", .beginTransaction 0, .newNumber (1 / 2),
    .setValue 0 (some 2) "animationDuration",
    .setValue 0 (some 2) "name", .newLayer, .newString true, .animationWithKeyPath 0 .basicAnimation (some 4),
    .setField .fromValue 5 (some 2), .addAnimation 0 3 5 (some "move"), .commit 0, .removeAnimationForKey 3 "move",
      .drainPool 0,
    .release 3]

theorem references_conserved_iff_sample : (run step World.initial sampleOps).toOption.isSome = true ∧
    (Throughout step World.Conserved World.initial sampleOps ↔ Along step Meets World.initial sampleOps) :=
  ⟨by decide +kernel, references_conserved_iff sampleOps (by decide +kernel)⟩

/-- **The shared default function** is deallocated after another function was set in a transaction. -/
theorem default_deallocated : let ops := [.newPool 0, .beginTransaction 0, .functionWithName 0 "easeIn",
      .setValue 0 (some 1) "animationTimingFunction", .drainPool 0]
    LegalRun step Legal World.initial ops ∧ (∃ s, run step World.initial ops = .ok s ∧
      ("default", 0) ∈ s.namedFunctions ∧ s.refs 0 = 0) ∧ ¬Throughout step World.Conserved World.initial ops := by
  intro ops
  have hrun : run step World.initial ops = .ok _ := eq_ok_of_toOption (d := World.initial) (by decide +kernel)
  have hnamed : ("default", 0) ∈ ((run step World.initial ops).toOption.getD World.initial).namedFunctions := by
      decide +kernel
  have hrefs : ((run step World.initial ops).toOption.getD World.initial).refs 0 = 0 := by decide +kernel
  refine ⟨by decide +kernel, ⟨_, hrun, hnamed, hrefs⟩, fun hth => ?_⟩
  have hconserved := (hth.inv (I := fun _ => True) (fun _ _ _ _ _ _ _ => trivial) trivial hrun).1
  exact hconserved.shared _ hnamed hrefs

end TouchHLE.CoreAnimation
