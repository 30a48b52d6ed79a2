/-
Unarchiving graphs of objects (`ns_keyed_unarchiver.rs`). What has been unarchived is recorded after its `initWithCoder:`
has returned.

- `Refers`, `Acyclic`: the references of an archive. `rank`: how deep they go.
- `Decodes`: what `unarchive_key` should do.
- `Keeps`: what it leaves as it is. `unarchiveKey_keeps`: it does, and ends, where there is no cycle.
- `Before`: two calls in their order. `calls_before`: all of them.
- `Decodable`: archives and methods that decode all that there is.
- `decodes_iff`: the result. `self_reference`: an object that refers to itself.
-/
import TouchHLE.Foundation.Decoding

namespace TouchHLE.Unarchiver

open Machine Relation

/-! ## References -/

/-- the item `u` refers to the item `w` -/
def Refers (objects : List Value) (u w : ℕ) : Prop :=
  ∃ dict name v, objects[u]? = some (.dictionary dict) ∧ dict.lookup name = some v ∧ v.refers w

/-- no cycle can be reached -/
def Acyclic (objects : List Value) (key : ℕ) : Prop :=
  ∀ u, ReflTransGen (Refers objects) key u → ¬TransGen (Refers objects) u u

variable {objects : List Value} {key u w : ℕ}

theorem Acyclic.next (h : Acyclic objects key) (hw : Refers objects key w) : Acyclic objects w :=
  fun u hu => h u (ReflTransGen.head hw hu)

theorem Acyclic.self (h : Acyclic objects key) : ¬TransGen (Refers objects) key key := h key .refl

/-- no cycle can be reached from the references, so none goes through the item -/
theorem Acyclic.of_next (h : ∀ w, Refers objects key w → Acyclic objects w) : Acyclic objects key := by
  intro u hu hcycle
  rcases ReflTransGen.cases_head hu with rfl | ⟨w, hw, hwu⟩
  · obtain ⟨w, hw, hback⟩ := TransGen.head'_iff.1 hcycle
    exact h w hw w .refl (TransGen.tail' hback hw)
  · exact h w hw u hwu hcycle

/-- the items that can be reached -/
def reach (objects : List Value) (key : ℕ) : Set ℕ := {u | u < objects.length ∧ ReflTransGen (Refers objects) key u}

noncomputable def rank (objects : List Value) (key : ℕ) : ℕ := (reach objects key).ncard

theorem reach_finite (objects : List Value) (key : ℕ) : (reach objects key).Finite :=
  (Set.finite_Iio objects.length).subset fun _ hu => hu.1

theorem rank_le (objects : List Value) (key : ℕ) : rank objects key ≤ objects.length := by
  have hsub : reach objects key ⊆ Set.Iio objects.length := fun _ hu => hu.1
  calc rank objects key ≤ (Set.Iio objects.length).ncard := Set.ncard_le_ncard hsub (Set.finite_Iio _)
    _ = objects.length := by rw [Set.ncard_eq_toFinset_card', Set.toFinset_Iio, Nat.card_Iio]

theorem rank_lt (h : Acyclic objects key) (hw : Refers objects key w) : rank objects w < rank objects key := by
  refine Set.ncard_lt_ncard ⟨fun u hu => ⟨hu.1, ReflTransGen.head hw hu.2⟩, fun hsub => ?_⟩ (reach_finite objects key)
  have hedge := hw
  obtain ⟨dict, name, v, hitem, -, -⟩ := hw
  obtain ⟨hlt, -⟩ := List.getElem?_eq_some_iff.1 hitem
  exact h.self (TransGen.head' hedge (hsub ⟨hlt, .refl⟩).2)

/-! ## Calls -/

/-- the call finds nothing for its uid -/
def Call.Instantiates (q : Call) : Prop := q.state.alreadyUnarchived[q.key]? = some none

instance (q : Call) : Decidable q.Instantiates := inferInstanceAs (Decidable (_ = _))

/-- **`unarchive_key`** as it should be -/
structure Decodes (c : Classes) (s : Unarchiver) (key : ℕ) : Prop where
  terminates : ∃ depth, unarchiveKey c depth s key ≠ .error .tooDeep
  once : ∀ depth, (((calls c depth s key).filter (·.Instantiates)).map Call.key).Nodup
  identical : ∀ depth, ∀ q ∈ calls c depth s key, ∀ q' ∈ calls c depth s key, q.key = q'.key → ∀ object s₁ object' s₂,
    q.result c = .ok (object, s₁) → q'.result c = .ok (object', s₂) → object = object'
  restored : ∀ depth object s', unarchiveKey c depth s key = .ok (object, s') → s'.currentKey = s.currentKey

variable {c : Classes} {s s' s'' : Unarchiver} {D D' : ℕ → Prop} {t : Unarchiver} {className : String} {coder : Coder}
  {classKey : ℕ} {v : Value}

/-- what is recorded stays, and only what `D` says is added -/
structure Keeps (D : ℕ → Prop) (s s' : Unarchiver) : Prop where
  objects : s'.objects = s.objects
  entries : ∀ (u : ℕ) object, s.alreadyUnarchived[u]? = some (some object) → s'.alreadyUnarchived[u]? = some (some object)
  frame : ∀ (u : ℕ), ¬D u → s'.alreadyUnarchived[u]? = s.alreadyUnarchived[u]?

theorem Keeps.of_same (h : s'.objects = s.objects) (h' : s'.alreadyUnarchived = s.alreadyUnarchived) : Keeps D s s' :=
  ⟨h, fun _ _ he => h' ▸ he, fun _ _ => by rw [h']⟩

theorem Keeps.refl (D : ℕ → Prop) (s : Unarchiver) : Keeps D s s := .of_same rfl rfl

theorem Keeps.trans (h : Keeps D s s') (h' : Keeps D s' s'') : Keeps D s s'' :=
  ⟨h'.objects.trans h.objects, fun u o ho => h'.entries u o (h.entries u o ho),
    fun u hu => (h'.frame u hu).trans (h.frame u hu)⟩

theorem Keeps.mono (h : Keeps D s s') (hD : ∀ u, D u → D' u) : Keeps D' s s' :=
  ⟨h.objects, h.entries, fun u hu => h.frame u fun hd => hu (hD u hd)⟩

/-- a new entry -/
theorem Keeps.remember (hnew : s.alreadyUnarchived[key]? = some none) (object : Id) :
    Keeps (· = key) s (s.remember key object) := by
  refine ⟨rfl, fun u o ho => ?_, fun u hu => List.getElem?_set_ne (Ne.symm hu)⟩
  have hne : key ≠ u := by
    rintro rfl
    rw [hnew] at ho
    cases ho
  exact (List.getElem?_set_ne hne).trans ho

theorem remember_self (hnew : s.alreadyUnarchived[key]? = some none) (object : Id) :
    (s.remember key object).alreadyUnarchived[key]? = some (some object) := by
  obtain ⟨hlt, -⟩ := List.getElem?_eq_some_iff.1 hnew
  exact List.getElem?_set_self hlt

theorem classFor_keeps (c : Classes) (s : Unarchiver) (classKey : ℕ) :
    Ends (· ≠ .tooDeep) (fun r => Same s r.2 ∧ Keeps (· = classKey) s r.2) (s.classFor c classKey) := by
  unfold classFor
  refine Ends.bind (ends_unwrap (by decide) fun _ he => he) fun existing hexisting => ?_
  cases existing with
  | some object => exact ⟨Same.refl s, Keeps.refl _ s⟩
  | none =>
    refine Ends.bind (ends_unwrap (by decide) fun _ _ => trivial) fun item _ => ?_
    refine Ends.bind (ends_unwrap (by decide) fun _ _ => trivial) fun dict _ => ?_
    refine Ends.bind (ends_unwrap (by decide) fun _ _ => trivial) fun className _ => ?_
    unfold assert
    split_ifs
    · exact ⟨⟨rfl, rfl, rfl⟩, Keeps.remember hexisting _⟩
    · exact fun h => nomatch h

/-! ## Without cycles -/

/-- what a scope refers to -/
theorem refers_of_scope {dict : List (String × Value)} {name : String}
    (hitem : s.objects[key]? = some (.dictionary dict)) (hcurrent : s.currentKey = some key) (hv : s.valueForKey name = .ok (some v)) (hw : v.refers w) :
    Refers s.objects key w := by
  refine ⟨dict, name, v, hitem, ?_, hw⟩
  unfold valueForKey scope at hv
  rw [hcurrent] at hv
  simp only [hitem, unwrap, ok_bind, pure_eq_ok] at hv
  exact Except.ok.inj hv

/-- the state in which the method of an item is called -/
def enter (s : Unarchiver) (key : ℕ) (className : String) : Unarchiver :=
  ({ s with currentKey := some key }.create (.instance className)).2

theorem enter_keeps (s : Unarchiver) (key : ℕ) (className : String) : Keeps D s (s.enter key className) := .of_same rfl rfl

/-- The calls in a scope, if those of its references are as they should be. A depth is enough for all of them. -/
theorem serves_acyclic {unarchive : Unarchiver → ℕ → Except Panic (Id × Unarchiver)} {F : Panic → Prop}
    (hmissing : F .missing) (hindex : F .index) (hobjects : s.objects = objects) (hcurrent : s.currentKey = some key)
    {dict : List (String × Value)} (hitem : s.objects[key]? = some (.dictionary dict))
    (hnext : ∀ t w, t.objects = objects → Refers objects key w →
      Ends F (fun r => Same t r.2 ∧ Keeps (ReflTransGen (Refers objects) w) t r.2) (unarchive t w)) :
    Serves unarchive F (fun t t' => Same t t' ∧ Keeps (TransGen (Refers objects) key) t t') (Refers objects key) s where
  missing := hmissing
  index := hindex
  refl t := ⟨Same.refl t, Keeps.refl _ t⟩
  trans h h' := ⟨h.1.trans h'.1, h.2.trans h'.2⟩
  create _ _ := ⟨⟨rfl, rfl, rfl⟩, .of_same rfl rfl⟩
  same h := h.1
  scope hv hw := hobjects ▸ refers_of_scope hitem hcurrent hv hw
  unarchive t w ht hw :=
    (hnext t w (ht.2.objects.trans hobjects) hw).mono fun _ hr => ⟨hr.1, hr.2.mono fun _ hu => TransGen.head' hw hu⟩

/-- **Unarchiving** where there is no cycle adds what can be reached, and the object itself; depths greater than the rank are
enough. -/
theorem unarchiveKey_keeps (c : Classes) (depth : ℕ) (hobjects : s.objects = objects) (hacyclic : Acyclic objects key) :
    Ends (fun e => rank objects key < depth → e ≠ .tooDeep)
      (fun r => (Same s r.2 ∧ Keeps (ReflTransGen (Refers objects) key) s r.2) ∧ r.2.alreadyUnarchived[key]? = some (some r.1))
      (unarchiveKey c depth s key) := by
  induction depth generalizing s key with
  | zero =>
    intro h
    cases h
  | succ depth ih =>
    unfold unarchiveKey
    refine Ends.bind (ends_unwrap (fun _ => by decide) fun _ he => he) fun existing hexisting => ?_
    cases existing with
    | some object => exact ⟨⟨Same.refl s, Keeps.refl _ s⟩, hexisting⟩
    | none =>
      refine Ends.bind (ends_unwrap (fun _ => by decide) fun _ hitem => hitem) fun item hitem => ?_
      -- the object is recorded when it is there
      have hrecord : ∀ (new : Id) t, Same s t → Keeps (TransGen (Refers objects) key) s t →
          (Same s (t.remember key new) ∧ Keeps (ReflTransGen (Refers objects) key) s (t.remember key new)) ∧
            (t.remember key new).alreadyUnarchived[key]? = some (some new) := by
        intro new t hsame hkeeps
        have hnew : t.alreadyUnarchived[key]? = some none := by rw [hkeeps.frame key hacyclic.self, hexisting]
        refine ⟨⟨⟨hsame.objects, hsame.top, hsame.currentKey⟩, ?_⟩, remember_self hnew new⟩
        exact (hkeeps.mono fun _ hu => hu.to_reflTransGen).trans ((Keeps.remember hnew new).mono fun u hu => hu ▸ .refl)
      cases item with
      | dictionary dict =>
        refine Ends.bind (P := fun r => Same s r.2 ∧ Keeps (TransGen (Refers objects) key) s r.2) ?_
          fun r hr => hrecord r.1 r.2 hr.1 hr.2
        refine Ends.bind (ends_unwrap (fun _ => by decide) fun _ hclass => hclass) fun classKey hclass => ?_
        have hedge : Refers objects key classKey := by
          obtain ⟨v, hv, huid⟩ := Option.bind_eq_some_iff.1 hclass
          refine ⟨dict, "$class", v, hobjects ▸ hitem, hv, .inl ?_⟩
          cases v with
          | uid u =>
            cases huid
            rfl
          | _ => cases huid
        refine Ends.bind (P := fun r => Same s r.2 ∧ Keeps (TransGen (Refers objects) key) s r.2) ?_ fun r hr => ?_
        · refine ((classFor_keeps c s classKey).imp fun _ he _ => he).mono fun r hr => ?_
          exact ⟨hr.1, hr.2.mono fun u hu => hu ▸ .single hedge⟩
        · obtain ⟨cls, s₁⟩ := r
          unfold initObject
          cases cls with
          | known className =>
            have hitem' : (s₁.enter key className).objects[key]? = some (.dictionary dict) := by
              rw [(enter_keeps (D := fun _ => False) s₁ key className).objects, hr.2.objects, hitem]
            have hnext : ∀ t w, t.objects = objects → Refers objects key w →
                Ends (fun e => rank objects key < depth + 1 → e ≠ .tooDeep)
                  (fun r => Same t r.2 ∧ Keeps (ReflTransGen (Refers objects) w) t r.2) (unarchiveKey c depth t w) := by
              intro t w ht hw
              refine ((ih ht (hacyclic.next hw)).imp fun e he hrank => he ?_).mono fun r hr => hr.1
              exact lt_of_lt_of_le (rank_lt hacyclic hw) (Nat.lt_succ_iff.1 hrank)
            have hserves := serves_acyclic (s := s₁.enter key className) (fun _ => by decide) (fun _ => by decide)
              (hr.2.objects.trans hobjects) rfl hitem' hnext
            refine (hserves.runCoder (c.initWithCoder className (.object s₁.heap.length))).bind fun r' hr' => ?_
            refine ⟨⟨hr'.1.objects.trans hr.1.objects, hr'.1.top.trans hr.1.top, hr.1.currentKey⟩, ?_⟩
            exact (hr.2.trans (enter_keeps s₁ key className)).trans (hr'.2.trans (.of_same rfl rfl))
          | _ => exact fun _ => by decide
      | string text => exact hrecord _ _ ⟨rfl, rfl, rfl⟩ (.of_same rfl rfl)
      | integer int => exact hrecord _ _ ⟨rfl, rfl, rfl⟩ (.of_same rfl rfl)
      | _ => exact fun _ => by decide

/-! ## Calls in their order -/

/-- how the method of an item is called -/
theorem methodFor_cases (h : s.methodFor c key = some (coder, t)) :
    ∃ dict classKey className s₁, s.objects[key]? = some (.dictionary dict) ∧ dict.lookup "$class" = some (.uid classKey) ∧
      s.classFor c classKey = .ok (.known className, s₁) ∧ t = s₁.enter key className := by
  unfold methodFor at h
  cases hitem : s.objects[key]? with
  | none =>
    rw [hitem] at h
    cases h
  | some item =>
    cases item with
    | dictionary dict =>
      rw [hitem] at h
      simp only at h
      cases hv : dict.lookup "$class" with
      | none =>
        rw [hv] at h
        cases h
      | some v =>
        cases v with
        | uid classKey =>
          simp only [hv, Option.bind_some, Value.asUid] at h
          cases hclass : s.classFor c classKey with
          | error e =>
            rw [hclass] at h
            cases h
          | ok r =>
            obtain ⟨cls, s₁⟩ := r
            cases cls with
            | known className =>
              rw [hclass] at h
              cases h
              exact ⟨dict, classKey, className, s₁, rfl, hv, hclass, rfl⟩
            | _ =>
              rw [hclass] at h
              cases h
        | _ =>
          rw [hv] at h
          cases h
    | _ =>
      rw [hitem] at h
      cases h

/-- unarchiving such an item -/
theorem unarchiveKey_method (hnew : s.alreadyUnarchived[key]? = some none)
    (h : s.methodFor c key = some (coder, t)) (n : ℕ) : ∃ old, unarchiveKey c (n + 1) s key =
      runCoder (unarchiveKey c n) coder t >>= fun r => .ok (r.1, { r.2 with currentKey := old }.remember key r.1) := by
  obtain ⟨dict, classKey, className, s₁, hitem, hclass, hfor, rfl⟩ := methodFor_cases h
  refine ⟨s₁.currentKey, ?_⟩
  unfold methodFor at h
  simp only [hitem, hclass, Option.bind_some, Value.asUid, hfor] at h
  cases h
  rw [unarchiveKey, hnew]
  simp only [unwrap, ok_bind, hitem, unarchiveItem, hclass, Option.bind_some, Value.asUid, hfor, initObject]
  unfold enter
  generalize runCoder (unarchiveKey c n) _ _ = x
  cases x <;> rfl

/-- the one call is made by the other, or when the other has returned -/
def Before (c : Classes) (objects : List Value) (q q' : Call) : Prop :=
  TransGen (Refers objects) q.key q'.key ∨ ∃ object t, q.result c = .ok (object, t) ∧ Keeps (fun _ => True) t q'.state

/-- the calls that follow from one -/
structure InOrder (c : Classes) (objects : List Value) (s : Unarchiver) (key : ℕ) (x : Except Panic (Id × Unarchiver))
    (qs : List Call) : Prop where
  reached : ∀ q ∈ qs, ReflTransGen (Refers objects) key q.key ∧ Keeps (fun _ => True) s q.state
  order : qs.Pairwise (Before c objects)
  finished : ∀ object t, x = .ok (object, t) → ∀ q ∈ qs, ∃ o t', q.result c = .ok (o, t') ∧ Keeps (fun _ => True) t' t

theorem InOrder.single (depth : ℕ) : InOrder c objects s key (unarchiveKey c depth s key) [⟨depth, s, key⟩] where
  reached q hq := by
    rw [List.mem_singleton.1 hq]
    exact ⟨.refl, Keeps.refl _ s⟩
  order := List.pairwise_singleton _ _
  finished object t ht q hq := by
    rw [List.mem_singleton.1 hq]
    exact ⟨object, t, ht, Keeps.refl _ t⟩

/-- **All calls**, where there is no cycle -/
theorem calls_before (c : Classes) (depth : ℕ) (hobjects : s.objects = objects) (hacyclic : Acyclic objects key) :
    InOrder c objects s key (unarchiveKey c depth s key) (calls c depth s key) := by
  induction depth generalizing s key with
  | zero => exact .single 0
  | succ n ih =>
    unfold calls
    split
    · rename_i hnew
      split
      · rename_i coder t hmethod
        obtain ⟨old, hunarchive⟩ := unarchiveKey_method hnew hmethod n
        obtain ⟨dict, classKey, className, s₁, hitem, hclass, hfor, rfl⟩ := methodFor_cases hmethod
        have hedge : Refers objects key classKey := ⟨dict, "$class", .uid classKey, hobjects ▸ hitem, hclass, .inl rfl⟩
        have hfirst := (((classFor_keeps c s classKey).ok hfor).2.mono fun u hu => hu ▸ TransGen.single hedge).trans
          (enter_keeps s₁ key className)
        have hitem' : (s₁.enter key className).objects[key]? = some (.dictionary dict) := by rw [hfirst.objects, hitem]
        have hscope : ∀ t w, t.objects = objects → Refers objects key w → Ends (fun _ => True)
            (fun r => Same t r.2 ∧ Keeps (ReflTransGen (Refers objects) w) t r.2) (unarchiveKey c n t w) :=
          fun t w ht hw => ((unarchiveKey_keeps c n ht (hacyclic.next hw)).imp fun _ _ => trivial).mono fun r hr => hr.1
        have hserves := serves_acyclic (s := s₁.enter key className) trivial trivial (hfirst.objects.trans hobjects) rfl hitem'
          hscope
        have hanswered := hserves.questions coder
        have hnext : ∀ q ∈ questions (unarchiveKey c n) coder (s₁.enter key className),
            InOrder c objects q.1 q.2 (unarchiveKey c n q.1 q.2) (calls c n q.1 q.2) := by
          intro q hq
          obtain ⟨⟨-, hkeeps⟩, hw⟩ := hanswered.asked q hq
          exact ih (hkeeps.objects.trans (hfirst.objects.trans hobjects)) (hacyclic.next hw)
        have hany : ∀ {D : ℕ → Prop} {s s' : Unarchiver}, Keeps D s s' → Keeps (fun _ => True) s s' :=
          fun h => h.mono fun _ _ => trivial
        have htail : ∀ p ∈ (questions (unarchiveKey c n) coder (s₁.enter key className)).flatMap fun q => calls c n q.1 q.2,
            TransGen (Refers objects) key p.key ∧ Keeps (fun _ => True) s p.state := by
          intro p hp
          obtain ⟨q, hq, hpq⟩ := List.mem_flatMap.1 hp
          obtain ⟨⟨-, hkeeps⟩, hw⟩ := hanswered.asked q hq
          obtain ⟨hreach, hstate⟩ := (hnext q hq).reached p hpq
          exact ⟨TransGen.head' hw hreach, ((hany hfirst).trans (hany hkeeps)).trans hstate⟩
        constructor
        · intro p hp
          rcases List.mem_cons.1 hp with rfl | hp
          · exact ⟨.refl, Keeps.refl _ s⟩
          · exact (htail p hp).imp_left TransGen.to_reflTransGen
        · refine List.pairwise_cons.2 ⟨fun p hp => .inl (htail p hp).1, ?_⟩
          refine List.pairwise_flatMap.2 ⟨fun q hq => (hnext q hq).order, ?_⟩
          refine hanswered.chain.imp_of_mem fun {q q'} hq hq' ⟨o, t, hok, hrel⟩ p hp p' hp' => .inr ?_
          obtain ⟨o', t', hresult, ht'⟩ := (hnext q hq).finished o t hok p hp
          exact ⟨o', t', hresult, (ht'.trans (hany hrel.2)).trans ((hnext q' hq').reached p' hp').2⟩
        · intro object t ht p hp
          rcases List.mem_cons.1 hp with rfl | hp
          · exact ⟨object, t, ht, Keeps.refl _ t⟩
          · obtain ⟨q, hq, hpq⟩ := List.mem_flatMap.1 hp
            rw [hunarchive] at ht
            obtain ⟨⟨new, t₁⟩, hrun, hlast⟩ := bind_eq_ok.1 ht
            cases hlast
            obtain ⟨o, t', hok, -, hkeeps⟩ := hanswered.answers new t₁ hrun q hq
            obtain ⟨o', t'', hresult, ht''⟩ := (hnext q hq).finished o t' hok p hpq
            refine ⟨o', t'', hresult, (ht''.trans (hany hkeeps)).trans ?_⟩
            have hnew' : t₁.alreadyUnarchived[key]? = some none := by
              rw [((hserves.runCoder coder).ok hrun).2.frame key hacyclic.self, hfirst.frame key hacyclic.self, hnew]
            have hback : Keeps (fun _ => True) t₁ { t₁ with currentKey := old } := .of_same rfl rfl
            exact hback.trans (hany (Keeps.remember (s := { t₁ with currentKey := old }) hnew' new))
      · exact .single (n + 1)
    · exact .single (n + 1)

/-- what is recorded is returned -/
theorem result_of_recorded {q : Call} {object object' : Id}
    (hentry : q.state.alreadyUnarchived[q.key]? = some (some object)) (h : q.result c = .ok (object', t)) :
    object' = object := by
  unfold Call.result at h
  cases hdepth : q.depth with
  | zero =>
    rw [hdepth] at h
    cases h
  | succ n =>
    rw [hdepth, unarchiveKey, hentry] at h
    cases h
    rfl

/-- a call for the same uid comes when the first has returned, and finds what it has recorded -/
theorem Before.recorded {q q' : Call} (h : Before c objects q q') (hacyclic : Acyclic objects q.key)
    (hobjects : q.state.objects = objects) (hkey : q.key = q'.key) : ∃ object t, q.result c = .ok (object, t) ∧
      q'.state.alreadyUnarchived[q'.key]? = some (some object) := by
  rcases h with hinside | ⟨object, t, hresult, hkeeps⟩
  · rw [← hkey] at hinside
    exact absurd hinside hacyclic.self
  · refine ⟨object, t, hresult, ?_⟩
    rw [← hkey]
    exact hkeeps.entries _ _ ((unarchiveKey_keeps c q.depth hobjects hacyclic).ok hresult).2

theorem decodes_of_acyclic (c : Classes) (s : Unarchiver) (hacyclic : Acyclic s.objects key) : Decodes c s key := by
  have hcalls := fun depth => calls_before c depth rfl hacyclic
  have hrecorded : ∀ depth, (calls c depth s key).Pairwise fun q q' => q.key = q'.key →
      ∃ object t, q.result c = .ok (object, t) ∧ q'.state.alreadyUnarchived[q'.key]? = some (some object) := by
    intro depth
    refine (hcalls depth).order.imp_of_mem fun {q q'} hq _ hbefore hkey => ?_
    obtain ⟨hreach, hkeeps⟩ := (hcalls depth).reached q hq
    exact hbefore.recorded (fun u hu => hacyclic u (hreach.trans hu)) hkeeps.objects hkey
  constructor
  · refine ⟨s.objects.length + 1, fun htoo => ?_⟩
    exact (unarchiveKey_keeps c (s.objects.length + 1) rfl hacyclic).error htoo (Nat.lt_succ_of_le (rank_le _ _)) rfl
  · intro depth
    refine List.pairwise_map.2 (List.pairwise_filter.2 ((hrecorded depth).imp fun h _ hsecond hkey => ?_))
    obtain ⟨object, t, -, hentry⟩ := h hkey
    rw [of_decide_eq_true hsecond] at hentry
    cases hentry
  · intro depth q hq q' hq'
    -- the calls are the same one, or one comes before the other
    refine List.Pairwise.forall_of_forall_of_flip (R := fun q q' : Call => q.key = q'.key → ∀ object s₁ object' s₂,
      q.result c = .ok (object, s₁) → q'.result c = .ok (object', s₂) → object = object') ?_ ?_ ?_ hq hq'
    · intro q _ _ object s₁ object' s₂ h h'
      rw [h] at h'
      cases h'
      rfl
    · refine (hrecorded depth).imp fun hrec hkey object s₁ object' s₂ h h' => ?_
      obtain ⟨o, t, hresult, hentry⟩ := hrec hkey
      rw [h] at hresult
      cases hresult
      exact (result_of_recorded hentry h').symm
    · refine (hrecorded depth).imp fun hrec hkey object s₁ object' s₂ h h' => ?_
      obtain ⟨o, t, hresult, hentry⟩ := hrec hkey.symm
      rw [h'] at hresult
      cases hresult
      exact result_of_recorded hentry h
  · intro depth object s' hok
    exact ((unarchiveKey_keeps c depth rfl hacyclic).ok hok).1.1.currentKey

/-! ## With cycles -/

/-- the item of a class -/
def ClassItem (c : Classes) (objects : List Value) (u : ℕ) (className : String) : Prop :=
  ∃ dict, objects[u]? = some (.dictionary dict) ∧ dict.lookup "$classname" = some (.string className) ∧
    c.known className = true ∧ ∀ w, ¬Refers objects u w

/-- the items that a field can refer to -/
inductive Item (objects : List Value) (u : ℕ) : Prop where
  | string {text : String} : objects[u]? = some (.string text) → Item objects u
  | integer {int : ℤ} : objects[u]? = some (.integer int) → Item objects u
  | object {dict : List (String × Value)} {classKey : ℕ} : objects[u]? = some (.dictionary dict) →
      dict.lookup "$class" = some (.uid classKey) → Item objects u

def FieldRefers (dict : List (String × Value)) (w : ℕ) : Prop :=
  ∃ name v, name ≠ "$class" ∧ dict.lookup name = some v ∧ v.refers w

/-- the method asks for what all fields refer to, apart from what has been asked for -/
def DecodesFields (dict : List (String × Value)) : List ℕ → Coder → Prop
  | asked, .done _ => ∀ w, FieldRefers dict w → w ∈ asked
  | asked, .decodeObject key next => key ≠ "$class" ∧
    ∀ object, DecodesFields dict (((dict.lookup key).bind Value.asUid).toList ++ asked) (next object)
  | asked, .decodeArray next => ∃ keys : List ℕ, dict.lookup "NS.objects" = some (.array (keys.map .uid)) ∧
    ∀ objects, DecodesFields dict (keys ++ asked) (next objects)
  | asked, .decodeDict next => ∃ keys vals : List ℕ, dict.lookup "NS.keys" = some (.array (keys.map .uid)) ∧
    dict.lookup "NS.objects" = some (.array (vals.map .uid)) ∧
    ∀ pairs, DecodesFields dict (keys ++ (vals ++ asked)) (next pairs)
  | asked, .decodeValue key next => DecodesFields dict asked (next (dict.lookup key))
  | asked, .create _ next => ∀ object, DecodesFields dict asked (next object)

/-- archives in which the fields of objects refer to items that there are, with known classes that decode all fields -/
structure Decodable (c : Classes) (objects : List Value) : Prop where
  known : ∀ (u : ℕ) dict classKey, objects[u]? = some (.dictionary dict) → dict.lookup "$class" = some (.uid classKey) →
    ∃ className, ClassItem c objects classKey className ∧ ∀ new, DecodesFields dict [] (c.initWithCoder className new)
  fields : ∀ (u : ℕ) dict classKey w, objects[u]? = some (.dictionary dict) →
    dict.lookup "$class" = some (.uid classKey) → FieldRefers dict w → Item objects w

/-- What has been unarchived has no cycles. -/
structure Settled (c : Classes) (objects : List Value) (s : Unarchiver) : Prop where
  stored : s.objects = objects
  length : s.alreadyUnarchived.length = objects.length
  classes : ∀ (u : ℕ) className object, ClassItem c objects u className → s.alreadyUnarchived[u]? = some (some object) →
    object = .known className
  acyclic : ∀ (u : ℕ) object, s.alreadyUnarchived[u]? = some (some object) → Acyclic objects u

theorem Settled.of_same (h : Settled c objects s) (hobjects : s'.objects = s.objects)
    (hentries : s'.alreadyUnarchived = s.alreadyUnarchived) : Settled c objects s' :=
  ⟨hobjects.trans h.stored, hentries ▸ h.length, hentries ▸ h.classes, hentries ▸ h.acyclic⟩

theorem Settled.remember (h : Settled c objects s) {object : Id} (hacyclic : Acyclic objects key)
    (hclass : ∀ className, ClassItem c objects key className → object = .known className) :
    Settled c objects (s.remember key object) := by
  have hentry : ∀ (u : ℕ) o, (s.remember key object).alreadyUnarchived[u]? = some (some o) →
      u = key ∧ o = object ∨ s.alreadyUnarchived[u]? = some (some o) := by
    intro u o ho
    by_cases hu : key = u
    · subst hu
      left
      obtain ⟨hlt, hget⟩ := List.getElem?_eq_some_iff.1 ho
      exact ⟨rfl, (Option.some.inj ((List.getElem_set_self hlt).symm.trans hget)).symm⟩
    · exact .inr ((List.getElem?_set_ne hu).symm.trans ho)
  refine ⟨h.stored, (List.length_set ..).trans h.length, fun u className o hitem ho => ?_, fun u o ho => ?_⟩
  · rcases hentry u o ho with ⟨rfl, rfl⟩ | ho
    · exact hclass className hitem
    · exact h.classes u className o hitem ho
  · rcases hentry u o ho with ⟨rfl, rfl⟩ | ho
    · exact hacyclic
    · exact h.acyclic u o ho

theorem acyclic_of_no_references (h : ∀ w, ¬Refers objects key w) : Acyclic objects key :=
  .of_next fun w hw => absurd hw (h w)

theorem Settled.entry (h : Settled c objects s) (hitem : objects[key]? = some v) :
    ∃ existing, s.alreadyUnarchived[key]? = some existing := by
  obtain ⟨hlt, -⟩ := List.getElem?_eq_some_iff.1 hitem
  rw [← h.length] at hlt
  exact ⟨_, List.getElem?_eq_getElem hlt⟩

/-- the class of an item is found -/
theorem classFor_settled (h : Settled c objects s)
    (hclass : ClassItem c objects classKey className) :
    ∃ s', s.classFor c classKey = .ok (.known className, s') ∧ Settled c objects s' ∧ Same s s' := by
  obtain ⟨dict, hitem, hname, hknown, hrefers⟩ := hclass
  obtain ⟨existing, hexisting⟩ := h.entry hitem
  unfold classFor
  rw [hexisting, unwrap, ok_bind]
  cases existing with
  | some object =>
    rw [h.classes classKey className object ⟨dict, hitem, hname, hknown, hrefers⟩ hexisting]
    exact ⟨s, rfl, h, Same.refl s⟩
  | none =>
    simp only [h.stored, hitem, unwrap, ok_bind, Value.asDictionary, hname, Option.bind_some, Value.asString, hknown, assert,
      if_true, pure_eq_ok]
    refine ⟨_, rfl, h.remember (acyclic_of_no_references hrefers) fun name' hitem' => ?_, rfl, rfl, rfl⟩
    obtain ⟨dict', hdict', hname', -⟩ := hitem'
    rw [hitem] at hdict'
    cases hdict'
    rw [hname] at hname'
    cases hname'
    rfl

section

variable {dict : List (String × Value)} {unarchive : Unarchiver → ℕ → Except Panic (Id × Unarchiver)} {keys : List ℕ}

theorem valueForKey_of_scope (hcurrent : s.currentKey = some key) (hitem : s.objects[key]? = some (.dictionary dict))
    (name : String) : s.valueForKey name = .ok (dict.lookup name) := by
  unfold valueForKey scope
  rw [hcurrent]
  simp only [hitem, unwrap, ok_bind, pure_eq_ok]
  rfl

theorem keysForKey_of_scope (hcurrent : s.currentKey = some key) (hitem : s.objects[key]? = some (.dictionary dict))
    {name : String} (hkeys : dict.lookup name = some (.array (keys.map .uid))) :
    s.keysForKey name = .ok keys := by
  unfold keysForKey
  rw [hcurrent]
  simp only [hitem, unwrap, ok_bind, Value.asDictionary, hkeys, Option.bind_some, Value.asArray]
  clear hkeys
  induction keys with
  | nil => rfl
  | cons w keys ih =>
    rw [List.map_cons, List.mapM_cons, Value.asUid]
    simp only [ok_bind, ih, pure_eq_ok]

/-- what is asked of unarchiving the references of a scope -/
def Settles (c : Classes) (objects : List Value) (unarchive : Unarchiver → ℕ → Except Panic (Id × Unarchiver)) : Prop :=
  ∀ s w, Settled c objects s → Ends (fun e => Item objects w → e = .tooDeep)
    (fun r => Settled c objects r.2 ∧ Same s r.2 ∧ Acyclic objects w) (unarchive s w)

theorem Settles.all (h : Settles c objects unarchive) (hs : Settled c objects s)
    (hkeys : ∀ k ∈ keys, Item objects k) : Ends (· = .tooDeep)
      (fun r => Settled c objects r.2 ∧ Same s r.2 ∧ ∀ k ∈ keys, Acyclic objects k) (unarchiveAll unarchive keys s) := by
  induction keys generalizing s with
  | nil => exact ⟨hs, Same.refl s, fun _ hk => nomatch hk⟩
  | cons key keys ih =>
    have hkey := hkeys key List.mem_cons_self
    refine Ends.bind ((h s key hs).imp fun _ he => he hkey) fun r ⟨hr, hsame, hacyclic⟩ => ?_
    refine (ih hr fun k hk => hkeys k (List.mem_cons_of_mem key hk)).bind fun r' ⟨hr', hsame', hacyclic'⟩ => ?_
    exact ⟨hr', hsame.trans hsame', List.forall_mem_cons.2 ⟨hacyclic, hacyclic'⟩⟩

/-- **A method that decodes all fields** ends too deep, or none of them refers to a cycle. -/
theorem Settles.runCoder (h : Settles c objects unarchive) (hs : Settled c objects s) (hcurrent : s.currentKey = some key)
    (hitem : objects[key]? = some (.dictionary dict)) (hfields : ∀ w, FieldRefers dict w → Item objects w) {coder : Coder}
    {asked : List ℕ} (hcoder : DecodesFields dict asked coder) (hasked : ∀ w ∈ asked, Acyclic objects w) : Ends (· = .tooDeep)
      (fun r => Settled c objects r.2 ∧ Same s r.2 ∧ ∀ w, FieldRefers dict w → Acyclic objects w)
      (runCoder unarchive coder s) := by
  have hmore : ∀ {keys asked : List ℕ}, (∀ k ∈ keys, Acyclic objects k) → (∀ w ∈ asked, Acyclic objects w) →
      ∀ w ∈ keys ++ asked, Acyclic objects w := fun hk ha w hw => (List.mem_append.1 hw).elim (hk w) (ha w)
  have harray : ∀ {name : String} {keys : List ℕ}, name ≠ "$class" → dict.lookup name = some (.array (keys.map .uid)) →
      ∀ k ∈ keys, Item objects k :=
    fun hname hv k hk => hfields k ⟨_, _, hname, hv, .inr ⟨_, rfl, List.mem_map_of_mem hk⟩⟩
  induction coder generalizing s asked with
  | done object => exact ⟨hs, Same.refl s, fun w hw => hasked w (hcoder w hw)⟩
  | decodeObject name next ih =>
    obtain ⟨hname, hnext⟩ := hcoder
    refine Ends.bind (P := fun r => Settled c objects r.2 ∧ Same s r.2 ∧
      ∀ w ∈ ((dict.lookup name).bind Value.asUid).toList, Acyclic objects w) ?_ fun r ⟨hr, hsame, hacyclic⟩ => ?_
    · unfold decodeObjectForKey
      rw [valueForKey_of_scope hcurrent (hs.stored ▸ hitem), ok_bind]
      cases hv : (dict.lookup name).bind Value.asUid with
      | none => exact ⟨hs, Same.refl s, fun _ hw => nomatch hw⟩
      | some w =>
        obtain ⟨v, hlookup, huid⟩ := Option.bind_eq_some_iff.1 hv
        have hrefers : v.refers w := by
          cases v with
          | uid u =>
            cases huid
            exact .inl rfl
          | _ => cases huid
        refine ((h s w hs).imp fun _ he => he (hfields w ⟨name, v, hname, hlookup, hrefers⟩)).mono fun r hr => ?_
        refine ⟨hr.1, hr.2.1, fun w' hw' => ?_⟩
        rw [Option.toList_some, List.mem_singleton] at hw'
        exact hw' ▸ hr.2.2
    · refine (ih r.1 hr (hsame.currentKey.trans hcurrent) (hnext r.1) (hmore hacyclic hasked)).mono fun r' hr' => ?_
      exact ⟨hr'.1, hsame.trans hr'.2.1, hr'.2.2⟩
  | decodeArray next ih =>
    obtain ⟨keys, hkeys, hnext⟩ := hcoder
    have hdecode : s.decodeCurrentArray unarchive = unarchiveAll unarchive keys s := by
      rw [decodeCurrentArray, keysForKey_of_scope hcurrent (hs.stored ▸ hitem) hkeys, ok_bind]
    refine Ends.bind (hdecode ▸ h.all hs (harray (by decide) hkeys)) fun r ⟨hr, hsame, hacyclic⟩ => ?_
    refine (ih r.1 hr (hsame.currentKey.trans hcurrent) (hnext r.1) (hmore hacyclic hasked)).mono fun r' hr' => ?_
    exact ⟨hr'.1, hsame.trans hr'.2.1, hr'.2.2⟩
  | decodeDict next ih =>
    obtain ⟨keys, vals, hkeys, hvals, hnext⟩ := hcoder
    refine Ends.bind (P := fun r => Settled c objects r.2 ∧ Same s r.2 ∧ (∀ k ∈ keys, Acyclic objects k) ∧
      ∀ k ∈ vals, Acyclic objects k) ?_ fun r ⟨hr, hsame, hacyclic, hacyclic'⟩ => ?_
    · unfold decodeCurrentDict
      rw [keysForKey_of_scope hcurrent (hs.stored ▸ hitem) hkeys, ok_bind,
        keysForKey_of_scope hcurrent (hs.stored ▸ hitem) hvals, ok_bind]
      refine (h.all hs (harray (by decide) hkeys)).bind fun r ⟨hr, hsame, hacyclic⟩ => ?_
      refine (h.all hr (harray (by decide) hvals)).bind fun r' ⟨hr', hsame', hacyclic'⟩ => ?_
      exact ⟨hr', hsame.trans hsame', hacyclic, hacyclic'⟩
    · refine (ih r.1 hr (hsame.currentKey.trans hcurrent) (hnext r.1) (hmore hacyclic (hmore hacyclic' hasked))).mono
        fun r' hr' => ?_
      exact ⟨hr'.1, hsame.trans hr'.2.1, hr'.2.2⟩
  | decodeValue name next ih =>
    rw [Unarchiver.runCoder, valueForKey_of_scope hcurrent (hs.stored ▸ hitem), ok_bind]
    exact ih (dict.lookup name) hs hcurrent hcoder hasked
  | create o next ih =>
    refine (ih (s.create o).1 (s := (s.create o).2) (hs.of_same rfl rfl) hcurrent (hcoder _) hasked).mono fun r hr => ?_
    exact ⟨hr.1, ⟨hr.2.1.objects, hr.2.1.top, hr.2.1.currentKey⟩, hr.2.2⟩

end

/-- no item for a class -/
theorem not_classItem (h : ∀ dict, objects[key]? ≠ some (.dictionary dict)) :
    ¬ClassItem c objects key className := fun ⟨dict, hitem, _⟩ => h dict hitem

/-- **Unarchiving** what there is ends too deep, or there is no cycle. -/
theorem unarchiveKey_settles (h : Decodable c objects) (depth : ℕ) : Settles c objects (unarchiveKey c depth) := by
  induction depth with
  | zero => exact fun _ _ _ _ => rfl
  | succ depth ih =>
    intro s key hs
    have hin : ∀ {e : Panic}, s.objects[key]? = none → Item objects key → e = .tooDeep := by
      rw [hs.stored]
      rintro e hnone (hitem | hitem | ⟨hitem, -⟩) <;> cases hnone.symm.trans hitem
    unfold unarchiveKey
    cases hexisting : s.alreadyUnarchived[key]? with
    | none =>
      refine hin (List.getElem?_eq_none ?_)
      rw [hs.stored, ← hs.length]
      exact List.getElem?_eq_none_iff.1 hexisting
    | some existing =>
      rw [unwrap, ok_bind]
      cases existing with
      | some object => exact ⟨hs, Same.refl s, hs.acyclic key object hexisting⟩
      | none =>
        cases hitem : s.objects[key]? with
        | none => exact hin hitem
        | some item =>
          have hstored := hs.stored ▸ hitem
          rw [unwrap, ok_bind]
          -- items without a method
          have hleaf : ∀ (o : GuestObject), (∀ dict, item ≠ .dictionary dict) →
              Settled c objects ((s.create o).2.remember key (s.create o).1) ∧
                Same s ((s.create o).2.remember key (s.create o).1) ∧ Acyclic objects key := by
            intro o hitem'
            have hno : ∀ dict, objects[key]? ≠ some (.dictionary dict) := by
              rw [hstored]
              exact fun dict hd => hitem' dict (Option.some.inj hd)
            have hacyclic : Acyclic objects key := acyclic_of_no_references fun w hw => by
              obtain ⟨dict, _, _, hd, -⟩ := hw
              exact hno dict hd
            have hcreated : Settled c objects (s.create o).2 := hs.of_same rfl rfl
            exact ⟨hcreated.remember hacyclic fun _ hclass => absurd hclass (not_classItem hno), ⟨rfl, rfl, rfl⟩, hacyclic⟩
          have hother : (∀ text, item ≠ .string text) → (∀ int, item ≠ .integer int) → (∀ dict, item ≠ .dictionary dict) →
              Item objects key → Panic.unimplemented = .tooDeep := by
            rintro hstring hint hdict (hi | hi | ⟨hi, -⟩) <;> rw [hstored] at hi
            · exact absurd (Option.some.inj hi) (hstring _)
            · exact absurd (Option.some.inj hi) (hint _)
            · exact absurd (Option.some.inj hi) (hdict _)
          cases item with
          | dictionary dict =>
            simp only [unarchiveItem]
            cases hclass : (dict.lookup "$class").bind Value.asUid with
            | none =>
              change Item objects key → Panic.missing = .tooDeep
              rintro (hi | hi | ⟨hi, hc⟩) <;> rw [hstored] at hi <;> cases hi
              rw [hc] at hclass
              cases hclass
            | some classKey =>
              have huid : dict.lookup "$class" = some (.uid classKey) := by
                obtain ⟨v, hv, hu⟩ := Option.bind_eq_some_iff.1 hclass
                cases v with
                | uid u =>
                  cases hu
                  exact hv
                | _ => cases hu
              obtain ⟨className, hknown, hdecodes⟩ := h.known key dict classKey hstored huid
              obtain ⟨s₁, hfor, hs₁, hsame₁⟩ := classFor_settled hs hknown
              have henter : Settled c objects (s₁.enter key className) := hs₁.of_same rfl rfl
              have hrun := ih.runCoder henter rfl hstored (fun w hw => h.fields key dict classKey w hstored huid hw)
                (hdecodes (.object s₁.heap.length)) fun _ hw => by cases hw
              simp only [unwrap, ok_bind, hfor, initObject]
              refine Ends.imp (F := (· = Panic.tooDeep)) ?_ fun e he _ => he
              refine Ends.bind (P := fun r => Settled c objects r.2 ∧ Same s r.2 ∧ ∀ w, FieldRefers dict w → Acyclic objects w)
                (Ends.bind hrun fun r hr => ?_) fun r hr => ?_
              · exact ⟨hr.1.of_same rfl rfl, ⟨hr.2.1.objects.trans hsame₁.objects, hr.2.1.top.trans hsame₁.top,
                  hsame₁.currentKey⟩, hr.2.2⟩
              · have hacyclic : Acyclic objects key := by
                  refine .of_next fun w href => ?_
                  obtain ⟨dict', name, v, hd, hv, hw⟩ := href
                  rw [hstored] at hd
                  cases hd
                  by_cases hname : name = "$class"
                  · subst hname
                    rw [huid] at hv
                    cases hv
                    rcases hw with hw | ⟨items, hw, -⟩ <;> cases hw
                    exact acyclic_of_no_references hknown.choose_spec.2.2.2
                  · exact hr.2.2 w ⟨name, v, hname, hv, hw⟩
                have hsame : Same s (r.2.remember key r.1) := ⟨hr.2.1.objects, hr.2.1.top, hr.2.1.currentKey⟩
                refine ⟨hr.1.remember hacyclic fun name' hitem' => ?_, hsame, hacyclic⟩
                obtain ⟨_, _, _, _, hnone⟩ := hitem'
                exact absurd ⟨dict, "$class", _, hstored, huid, .inl rfl⟩ (hnone classKey)
          | string text => exact hleaf (.string text) fun _ h => by cases h
          | integer int => exact hleaf (.number int) fun _ h => by cases h
          | _ => exact hother (fun _ h => by cases h) (fun _ h => by cases h) (fun _ h => by cases h)

variable {plist : List (String × Value)} {next : ℕ}

theorem Reached.settled (h : Decodable c objects) (hplist : (plist.lookup "$objects").bind Value.asArray = some objects)
    (hs : Reached c plist s) : Settled c objects s := by
  induction hs with
  | init hinit =>
    obtain ⟨top, rfl⟩ := init_cases hplist hinit
    have hempty : ∀ (u : ℕ) object, (List.replicate objects.length (none : Option Id))[u]? ≠ some (some object) := by
      intro u object
      rw [List.getElem?_replicate]
      split_ifs <;> exact nofun
    exact ⟨rfl, List.length_replicate, fun u _ object _ ho => absurd ho (hempty u object),
      fun u object ho => absurd ho (hempty u object)⟩
  | unarchived _ hok ih => exact ((unarchiveKey_settles h _ _ _ ih).ok hok).1
  | entered _ _ hitem hclass hfor ih =>
    obtain ⟨v, hv, huid⟩ := Option.bind_eq_some_iff.1 hclass
    cases v with
    | uid classKey =>
      cases huid
      obtain ⟨className, hknown, -⟩ := h.known _ _ _ (ih.stored ▸ hitem) hv
      obtain ⟨s', hfor', hs', -⟩ := classFor_settled ih hknown
      rw [hfor] at hfor'
      cases hfor'
      exact hs'.of_same rfl rfl
    | _ => cases huid
  | created o _ ih => exact ih.of_same rfl rfl

/-- **Unarchiving** is as it should be wherever there is no cycle, and only there if the fields of objects are decoded. -/
theorem decodes_iff (c : Classes) : (∀ s key, Acyclic s.objects key → Decodes c s key) ∧
    ∀ plist objects s key, (plist.lookup "$objects").bind Value.asArray = some objects → Reached c plist s →
      Decodable c objects → Item objects key → (Decodes c s key ↔ Acyclic objects key) := by
  refine ⟨fun s key => decodes_of_acyclic c s, fun plist objects s key hplist hs hdecodable hitem => ?_⟩
  have hsettled := Reached.settled hdecodable hplist hs
  refine ⟨fun hdecodes => ?_, fun hacyclic => decodes_of_acyclic c s (hsettled.stored.symm ▸ hacyclic)⟩
  obtain ⟨depth, hdepth⟩ := hdecodes.terminates
  have hends := unarchiveKey_settles hdecodable depth s key hsettled
  cases hresult : unarchiveKey c depth s key with
  | error e => exact absurd (hends.error hresult hitem ▸ hresult) hdepth
  | ok r => exact (hends.ok hresult).2.2

/-! ## Nodes -/

/-- a node, its class, and what its "next" is -/
def nodes (next : ℕ) : List Value :=
  [.string "$null", .dictionary [("$class", .uid 2), ("next", .uid next)], .dictionary [("$classname", .string "Node")]]

def nodePlist (next : ℕ) : List (String × Value) :=
  [("$version", .integer 100000), ("$archiver", .string "NSKeyedArchiver"), ("$objects", .array (nodes next)),
    ("$top", .dictionary [("root", .uid 1)])]

/-- `initWithCoder:` of a node: it decodes "next" -/
def nodeClasses : Classes := ⟨(· == "Node"), fun _ object => .decodeObject "next" fun _ => .done object⟩

def nodeStart (next : ℕ) : Unarchiver := ⟨nodes next, .dictionary [("root", .uid 1)], none, [none, none, none], []⟩

theorem nodes_reached (next : ℕ) : Reached nodeClasses (nodePlist next) (nodeStart next) := .init rfl

theorem nodes_object {dict : List (String × Value)}
    (hitem : (nodes next)[u]? = some (.dictionary dict)) (hclass : dict.lookup "$class" = some (.uid classKey)) :
    dict = [("$class", .uid 2), ("next", .uid next)] ∧ classKey = 2 := by
  match u, hitem with
  | 1, hitem =>
    cases hitem
    cases hclass
    exact ⟨rfl, rfl⟩
  | 2, hitem =>
    cases hitem
    cases hclass

theorem nodes_field (h : FieldRefers [("$class", .uid 2), ("next", .uid next)] w) : w = next := by
  obtain ⟨name, v, hname, hv, hw⟩ := h
  rw [List.lookup_cons, beq_false_of_ne hname, List.lookup_cons] at hv
  cases hnext : name == "next" with
  | true =>
    rw [hnext] at hv
    cases hv
    rcases hw with hw | ⟨items, hw, -⟩ <;> cases hw
    rfl
  | false =>
    rw [hnext] at hv
    cases hv

theorem nodes_decodable (hnext : Item (nodes next) next) : Decodable nodeClasses (nodes next) where
  known u dict classKey hitem hclass := by
    obtain ⟨rfl, rfl⟩ := nodes_object hitem hclass
    refine ⟨"Node", ⟨_, rfl, rfl, rfl, ?_⟩, fun new => ⟨by decide, fun object w hw => ?_⟩⟩
    · rintro w ⟨dict, name, v, hd, hv, hw⟩
      cases hd
      obtain rfl | ⟨items, rfl, -⟩ := hw <;> simp [List.lookup_cons] at hv <;> split at hv <;> cases hv
    · rw [nodes_field hw]
      exact List.mem_cons_self
  fields u dict classKey w hitem hclass hw := by
    obtain ⟨rfl, -⟩ := nodes_object hitem hclass
    exact nodes_field hw ▸ hnext

/-- a node without a next one -/
theorem decodes_iff_last : Decodes nodeClasses (nodeStart 0) 1 ↔ Acyclic (nodes 0) 1 :=
  (decodes_iff nodeClasses).2 (nodePlist 0) (nodes 0) (nodeStart 0) 1 rfl (nodes_reached 0) (nodes_decodable (.string rfl))
    (.object rfl rfl)

/-- the node is asked for again before it is recorded -/
theorem nodes_tooDeep (depth : ℕ) {s : Unarchiver} (hobjects : s.objects = nodes 1) {x : Option Id}
    (hentries : s.alreadyUnarchived = [none, none, x]) (hx : x = none ∨ x = some (.known "Node")) :
    unarchiveKey nodeClasses depth s 1 = .error .tooDeep := by
  induction depth generalizing s x with
  | zero => rfl
  | succ depth ih =>
    have hnew : s.alreadyUnarchived[1]? = some none := by rw [hentries, List.getElem?_cons_succ, List.getElem?_cons_zero]
    have hmethod : ∃ s₁, s.methodFor nodeClasses 1 = some (.decodeObject "next" fun _ => .done (.object s.heap.length), s₁) ∧
        s₁.objects = nodes 1 ∧ s₁.currentKey = some 1 ∧ s₁.alreadyUnarchived = [none, none, some (.known "Node")] := by
      obtain ⟨objects, top, currentKey, alreadyUnarchived, heap⟩ := s
      cases hobjects
      cases hentries
      obtain rfl | rfl := hx <;> exact ⟨_, rfl, rfl, rfl, rfl⟩
    obtain ⟨s₁, hcoder, hobjects₁, hcurrent, hentries₁⟩ := hmethod
    obtain ⟨old, hunarchive⟩ := unarchiveKey_method hnew hcoder depth
    have hitem : s₁.objects[1]? = some (.dictionary [("$class", .uid 2), ("next", .uid 1)]) := by
      rw [hobjects₁]
      rfl
    have hvalue : s₁.valueForKey "next" = .ok (some (.uid 1)) := valueForKey_of_scope hcurrent hitem "next"
    rw [hunarchive, runCoder, decodeObjectForKey, hvalue]
    simp only [ok_bind, Option.bind_some, Value.asUid, ih hobjects₁ hentries₁ (.inr rfl), error_bind]

/-- **An object that refers to itself**: unarchiving it never ends. -/
theorem self_reference : ¬∀ c plist objects s key, (plist.lookup "$objects").bind Value.asArray = some objects →
    Reached c plist s → Decodable c objects → Item objects key → Decodes c s key := by
  intro hall
  have hdecodes := hall nodeClasses (nodePlist 1) (nodes 1) (nodeStart 1) 1 rfl (nodes_reached 1)
    (nodes_decodable (.object rfl rfl)) (.object rfl rfl)
  obtain ⟨depth, hdepth⟩ := hdecodes.terminates
  exact hdepth (nodes_tooDeep depth rfl rfl (.inl rfl))

end TouchHLE.Unarchiver
