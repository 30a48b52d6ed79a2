/-
The references of Core Animation accounted for. The log of what transactions, animations and layers have retained and released is
compared with what they still have.

- `Conserved`: everything else that they have retained was released, and the named timing functions are there.
- `Inv`: all references are accounted for, up to some that are on their way and some that were lost.
- `Inv.keep`, `Inv.own`, `Inv.autorelease`, `Inv.put`, `Inv.alloc`: references that are taken, and objects that get them.
- `Cascade`: the deallocations that a release leads to. `Inv.release`, `Inv.drop`: what is lost by them.
-/
import TouchHLE.CoreAnimation.References

namespace TouchHLE.CoreAnimation

open Machine

/-! ## The purpose -/

namespace World

/-- the timing function that transactions have at first -/
def defaultFunction (s : World) : Option ℕ := s.namedFunctions.lookup kCAMediaTimingFunctionDefault

end World

/-- the objects that were given to a transaction; it does not have a reference to the timing function that it has at
first -/
def Transaction.kept (default : Option ℕ) (t : Transaction) : List ℕ :=
  (if t.animationTimingFunction = default then [] else t.animationTimingFunction.toList) ++
  (t.data.flatMap fun e => e.2.toList) ++
    t.animations.flatMap fun e => [e.1, e.2]

def ThreadState.kept (default : Option ℕ) (t : ThreadState) : List ℕ :=
  (t.implicitTransaction.toList ++ t.explicitTransactions).flatMap (Transaction.kept default)

namespace World

/-- the objects that transactions, animations and layers have, each as often as they have it -/
def kept (s : World) : List ℕ :=
  (s.objects.flatMap fun e => e.2.kept) ++ s.transactions.flatMap fun e => e.2.kept s.defaultFunction

/-- **The purpose**: the named timing functions are there, and transactions, animations and layers have released each
object as often as they have retained it, except for those that they still have. -/
structure Conserved (s : World) : Prop where
  shared : ∀ e ∈ s.namedFunctions, s.refs e.2 ≠ 0
  balanced : ∀ o, s.retained.count o = s.released.count o + s.kept.count o

end World

/-! ## The invariant -/

/-- no more than `begin` and `setValue:forKey:` make of a transaction, if it keeps its first timing function -/
structure Transaction.Plain (default : Option ℕ) (t : Transaction) : Prop where
  animations : t.animations = []
  data : (t.data.map Prod.fst).Nodup
  ne_nil : t.animationTimingFunction ≠ none
  first : t.animationTimingFunction = default

structure ThreadState.Plain (default : Option ℕ) (t : ThreadState) : Prop where
  implicit : t.implicitTransaction = none
  explicit : ∀ t' ∈ t.explicitTransactions, t'.Plain default

/-- the hash maps have different keys, the named functions are timing functions, and the transactions are plain -/
structure Formed (objects : List (ℕ × HostObject)) (transactions : List (ℕ × ThreadState))
    (poolStacks : List (ℕ × List (List ℕ))) (namedFunctions : List (String × ℕ)) (created : ℕ) : Prop where
  objects_nodup : (objects.map Prod.fst).Nodup
  objects_lt : ∀ e ∈ objects, e.1 < created
  layers : ∀ e ∈ objects, ∀ l, e.2 = .layer l → (l.animations.map Prod.fst).Nodup
  transactions_nodup : (transactions.map Prod.fst).Nodup
  transactions : ∀ e ∈ transactions, e.2.Plain (namedFunctions.lookup kCAMediaTimingFunctionDefault)
  poolStacks_nodup : (poolStacks.map Prod.fst).Nodup
  named : ∀ e ∈ namedFunctions, objects.lookup e.2 = some .timingFunction

namespace World

/-- the references that were taken, those in the log included -/
def claims (s : World) : List ℕ :=
  s.guest ++ (s.poolStacks.flatMap fun e => e.2.flatten) ++ s.leaked ++ (s.namedFunctions.flatMap fun e => [e.2]) ++
    s.retained

/-- **The counts** are those of the references, those included that were just taken or are about to be given back. -/
structure Accounted (s : World) (os : List ℕ) : Prop where
  accounts : ∀ o, s.refs o + s.released.count o = s.claims.count o + os.count o
  bounded : ∀ o ∈ s.claims ++ os, o < s.created

def WellFormed (s : World) : Prop := Formed s.objects s.transactions s.poolStacks s.namedFunctions s.created

/-- the log, where some references were lost -/
def Lost (s : World) (lost : List ℕ) : Prop := ∀ o, s.retained.count o = s.released.count o + s.kept.count o + lost.count o

/-- **The invariant.** -/
structure Inv (s : World) (os lost : List ℕ) : Prop where
  accounted : s.Accounted os
  formed : s.WellFormed
  lost : s.Lost lost

variable {s s' : World} {os lost lost' : List ℕ} {o thread a : ℕ} {v : Option ℕ} {h h' : HostObject} {refs : Counted.Counts}
  {gone objects : List (ℕ × HostObject)} {refs' : Counted.Counts} {released : List ℕ}

theorem Accounted.alive (ha : s.Accounted os) (ho : s.refs o ≠ 0) : o < s.created := by
  refine ha.bounded o (List.count_pos_iff.1 ?_)
  rw [List.count_append, ← ha.accounts o]
  omega

/-- a named function is there, since the references to it were not all given back -/
theorem Accounted.shared (ha : s.Accounted os) (hl : s.Lost lost) : ∀ e ∈ s.namedFunctions, s.refs e.2 ≠ 0 := by
  intro e he
  have haccounts := ha.accounts e.2
  have hlost := hl e.2
  have hnamed : 0 < (s.namedFunctions.flatMap fun e => [e.2]).count e.2 :=
    List.count_pos_iff.2 (List.mem_flatMap.2 ⟨e, he, List.mem_singleton_self _⟩)
  simp only [claims, List.count_append] at haccounts
  omega

/-- references are conserved if none was lost -/
theorem Inv.conserved_iff_lost (hi : s.Inv os lost) : s.Conserved ↔ lost = [] := by
  constructor
  · intro hc
    refine List.eq_nil_iff_forall_not_mem.2 fun o ho => ?_
    have hpos := List.count_pos_iff.2 ho
    have hlost := hi.lost o
    have hbalanced := hc.balanced o
    omega
  · rintro rfl
    exact ⟨hi.accounted.shared hi.lost, hi.lost⟩

/-- what a step to a state with the invariant has to show -/
theorem Inv.good {R : Prop} (hi : s.Inv [] lost) (hiff : lost = [] ↔ R) :
    (s.Conserved ↔ R) ∧ (s.Conserved → s.Inv [] []) := by
  refine ⟨hi.conserved_iff_lost.trans hiff, fun hc => ?_⟩
  obtain rfl := hi.conserved_iff_lost.1 hc
  exact hi

/-! ## References that are taken -/

theorem retain_cases (hr : s.retain v = .ok s') : ∃ refs, Counted.retain s.refs v = some refs ∧ s' = { s with refs } := by
  obtain ⟨refs, hrefs, hr⟩ := bind_eq_ok.1 hr
  exact ⟨refs, unwrap_eq_ok.1 hrefs, (Except.ok.inj hr).symm⟩

theorem keep_cases (hk : s.keep v = .ok s') :
    ∃ refs, Counted.retain s.refs v = some refs ∧ s' = { s with refs, retained := v.toList ++ s.retained } := by
  obtain ⟨s₁, hr, hk⟩ := bind_eq_ok.1 hk
  obtain ⟨refs, hrefs, rfl⟩ := retain_cases hr
  exact ⟨refs, hrefs, (Except.ok.inj hk).symm⟩

theorem Accounted.retain (ha : s.Accounted os) (hr : Counted.retain s.refs v = some refs) :
    Accounted { s with refs } (v.toList ++ os) := by
  refine ⟨fun o => ?_, fun o ho => ?_⟩
  · have haccounts := ha.accounts o
    have hcount := Counted.retain_count hr o
    rw [List.count_append]
    simp only [claims, List.count_append] at haccounts ⊢
    omega
  · rcases List.mem_append.1 ho with ho | ho
    · exact ha.bounded o (List.mem_append_left _ ho)
    rcases List.mem_append.1 ho with ho | ho
    · obtain rfl := Option.mem_toList.1 ho
      exact ha.alive (Counted.retain_alive hr)
    · exact ha.bounded o (List.mem_append_right _ ho)

/-- a reference that somebody is to have -/
theorem Inv.retain (hi : s.Inv os lost) (hr : Counted.retain s.refs v = some refs) :
    Inv { s with refs } (v.toList ++ os) lost :=
  ⟨hi.accounted.retain hr, hi.formed, hi.lost⟩

/-- a reference of a transaction, an animation or a layer that is not in its place yet -/
theorem Inv.log (hi : s.Inv (v.toList ++ os) lost) :
    Inv { s with retained := v.toList ++ s.retained } os (v.toList ++ lost) := by
  refine ⟨⟨fun o => ?_, fun o ho => hi.accounted.bounded o ?_⟩, hi.formed, fun o => ?_⟩
  · have haccounts := hi.accounted.accounts o
    simp only [claims, List.count_append] at haccounts ⊢
    omega
  · simp only [claims, List.mem_append] at ho ⊢
    tauto
  · have hlost := hi.lost o
    simp only [kept, defaultFunction, List.count_append] at hlost ⊢
    omega

theorem Inv.keep (hi : s.Inv os lost) (hr : Counted.retain s.refs v = some refs) :
    Inv { s with refs, retained := v.toList ++ s.retained } os (v.toList ++ lost) := (hi.retain hr).log

/-- a reference of the guest -/
theorem Inv.own (hi : s.Inv (o :: os) lost) : Inv { s with guest := o :: s.guest } os lost := by
  refine ⟨⟨fun x => ?_, fun x hx => hi.accounted.bounded x ?_⟩, hi.formed, hi.lost⟩
  · have haccounts := hi.accounted.accounts x
    simp only [claims, List.count_append, List.count_cons] at haccounts ⊢
    omega
  · simp only [claims, List.mem_append, List.mem_cons] at hx ⊢
    tauto

/-- a reference that the guest gives back -/
theorem Inv.disown (hi : s.Inv os lost) (ho : o ∈ s.guest) : Inv { s with guest := s.guest.erase o } (o :: os) lost := by
  have hperm := List.perm_cons_erase ho
  refine ⟨⟨fun x => ?_, fun x hx => hi.accounted.bounded x ?_⟩, hi.formed, hi.lost⟩
  · have haccounts := hi.accounted.accounts x
    have hcount := hperm.count_eq x
    simp only [claims, List.count_append, List.count_cons] at haccounts hcount ⊢
    omega
  · have hmem := hperm.mem_iff (a := x)
    simp only [claims, List.mem_append, List.mem_cons] at hx hmem ⊢
    tauto

/-! ## Pools -/

/-- the stacks with one of them changed -/
theorem Inv.setPools {pools : List (List ℕ)} {os' : List ℕ} (hi : s.Inv os lost)
    (hcount : ∀ x, pools.flatten.count x + os'.count x =
      ((s.poolStacks.lookup thread).elim [] List.flatten).count x + os.count x) :
    Inv { s with poolStacks := Assoc.insert thread pools s.poolStacks } os' lost := by
  have hinsert (x : ℕ) := Assoc.count_flatMap_insert hi.formed.poolStacks_nodup (k := thread) (v := pools) List.flatten x
  have hclaims (x : ℕ) : (claims { s with poolStacks := Assoc.insert thread pools s.poolStacks }).count x + os'.count x =
      s.claims.count x + os.count x := by
    have hpools := hcount x
    have hall := hinsert x
    simp only [claims, List.count_append] at hall ⊢
    omega
  refine ⟨⟨fun x => (hi.accounted.accounts x).trans (hclaims x).symm, fun x hx => hi.accounted.bounded x ?_⟩, ?_, hi.lost⟩
  · have hpos := List.count_pos_iff.2 hx
    rw [List.count_append, hclaims x, ← List.count_append] at hpos
    exact List.count_pos_iff.1 hpos
  · exact { hi.formed with poolStacks_nodup := Assoc.nodup_insert hi.formed.poolStacks_nodup }

/-- a reference of a pool -/
theorem Inv.autorelease (hi : s.Inv (o :: os) lost) : (s.autorelease thread o).Inv os lost := by
  unfold World.autorelease
  split
  · next pool pools hpools =>
    refine hi.setPools fun x => ?_
    simp only [hpools, Option.elim_some, List.flatten_cons, List.count_append, List.count_cons, List.count_nil]
    omega
  · refine ⟨⟨fun x => ?_, fun x hx => hi.accounted.bounded x ?_⟩, hi.formed, hi.lost⟩
    · have haccounts := hi.accounted.accounts x
      simp only [claims, List.count_append, List.count_cons] at haccounts ⊢
      omega
    · simp only [claims, List.mem_append, List.mem_cons] at hx ⊢
      tauto

@[simp] theorem autorelease_objects : (s.autorelease thread o).objects = s.objects := by
  unfold World.autorelease
  split <;> rfl

@[simp] theorem autorelease_namedFunctions : (s.autorelease thread o).namedFunctions = s.namedFunctions := by
  unfold World.autorelease
  split <;> rfl

/-! ## Objects -/

theorem lookup_lt (hf : s.WellFormed) (hh : s.objects.lookup o = some h) : o < s.created :=
  hf.objects_lt _ (Assoc.mem_of_lookup hh)

theorem lookup_created (hf : s.WellFormed) : s.objects.lookup s.created = none := by
  cases hh : s.objects.lookup s.created with
  | none => rfl
  | some h => exact absurd (lookup_lt hf hh) (lt_irrefl _)

/-- **A change of an object** that has other objects afterwards. -/
theorem Inv.put (hi : s.Inv os lost) (hh : s.objects.lookup a = some h) (hne : h ≠ .timingFunction)
    (hlayer : ∀ l, h' = .layer l → (l.animations.map Prod.fst).Nodup)
    (hkept : ∀ x, h'.kept.count x + lost'.count x = h.kept.count x + lost.count x) : (s.put a h').Inv os lost' := by
  obtain ⟨ha, hf, hlost⟩ := hi
  have hlt : a < s.created := lookup_lt hf hh
  refine ⟨⟨ha.accounts, ha.bounded⟩, ⟨Assoc.nodup_insert hf.objects_nodup, fun e he => ?_, fun e he l hl => ?_,
    hf.transactions_nodup,
    hf.transactions, hf.poolStacks_nodup, fun e he => ?_⟩, fun x => ?_⟩
  · rcases Assoc.mem_insert he with rfl | he
    · exact hlt
    · exact hf.objects_lt e he
  · rcases Assoc.mem_insert he with rfl | he
    · exact hlayer l hl
    · exact hf.layers e he l hl
  · have hnamed := hf.named e he
    have hea : e.2 ≠ a := by
      intro heq
      rw [heq, hh] at hnamed
      exact hne (Option.some.inj hnamed)
    exact (Assoc.lookup_insert_of_ne hea).trans hnamed
  · have hall := Assoc.count_flatMap_insert hf.objects_nodup (k := a) (v := h') HostObject.kept x
    have hx := hkept x
    have hlost' := hlost x
    rw [hh, Option.elim_some] at hall
    simp only [kept, defaultFunction, World.put, List.count_append] at hlost' ⊢
    omega

/-- **A new object** has a reference that somebody is to have. -/
theorem Inv.alloc (hi : s.Inv os lost) (hkept : h.kept = [])
    (hlayer : ∀ l, h = .layer l → (l.animations.map Prod.fst).Nodup) : (s.alloc h).2.Inv (s.created :: os) lost := by
  obtain ⟨ha, hf, hlost⟩ := hi
  have hnew : s.objects.lookup s.created = none := lookup_created hf
  refine ⟨⟨fun x => ?_, fun x hx => ?_⟩, ⟨Assoc.nodup_insert hf.objects_nodup, fun e he => ?_, fun e he l hl => ?_,
    hf.transactions_nodup, hf.transactions, hf.poolStacks_nodup, fun e he => ?_⟩, fun x => ?_⟩
  · have haccounts := ha.accounts x
    by_cases hx : x = s.created
    · subst hx
      have hzero : (s.claims ++ os).count s.created = 0 :=
        List.count_eq_zero.2 fun hmem => absurd (ha.bounded _ hmem) (lt_irrefl _)
      have hcreate : Counted.create s.refs s.created s.created = 1 := Function.update_self ..
      rw [List.count_append] at hzero
      change Counted.create s.refs s.created s.created + s.released.count s.created = s.claims.count s.created + _
      rw [List.count_cons_self, hcreate]
      omega
    · have hcreate : Counted.create s.refs s.created x = s.refs x := Function.update_of_ne hx ..
      change Counted.create s.refs s.created x + s.released.count x = s.claims.count x + _
      rw [List.count_cons_of_ne (Ne.symm hx), hcreate, haccounts]
  · change x ∈ s.claims ++ s.created :: os at hx
    change x < s.created + 1
    rcases List.mem_append.1 hx with hx | hx
    · exact Nat.lt_succ_of_lt (ha.bounded x (List.mem_append_left _ hx))
    rcases List.mem_cons.1 hx with rfl | hx
    · exact Nat.lt_succ_self _
    · exact Nat.lt_succ_of_lt (ha.bounded x (List.mem_append_right _ hx))
  · rcases Assoc.mem_insert he with rfl | he
    · exact Nat.lt_succ_self _
    · exact Nat.lt_succ_of_lt (hf.objects_lt e he)
  · rcases Assoc.mem_insert he with rfl | he
    · exact hlayer l hl
    · exact hf.layers e he l hl
  · have hnamed := hf.named e he
    exact (Assoc.lookup_insert_of_ne (Nat.ne_of_lt (lookup_lt hf hnamed))).trans hnamed
  · have hall := Assoc.count_flatMap_insert hf.objects_nodup (k := s.created) (v := h) HostObject.kept x
    have hlost' := hlost x
    rw [hnew, Option.elim_none, hkept, List.count_nil] at hall
    simp only [kept, defaultFunction, World.alloc, World.put, List.count_append] at hlost' ⊢
    omega

theorem alloc_lookup_self : (s.alloc h).2.objects.lookup s.created = some h := Assoc.lookup_insert_self

theorem alloc_lookup_of_ne (hne : o ≠ s.created) : (s.alloc h).2.objects.lookup o = s.objects.lookup o :=
  Assoc.lookup_insert_of_ne hne

/-! ## Deallocations -/

theorem count_flatMap_kept (l : List (ℕ × HostObject)) (x : ℕ) : (l.flatMap fun e => e.2.kept).count x =
    (l.flatMap fun e => e.2.releases).count x + (l.flatMap fun e => e.2.leaks).count x := by
  induction l with
  | nil => rfl
  | cons e l ih =>
    simp only [List.flatMap_cons, List.count_append, HostObject.kept] at ih ⊢
    omega

theorem releaseAll_nil {n : ℕ} : releaseAll n [] s = .ok s := by
  cases n <;> rfl

/-- what the release of some objects does, where some are deallocated -/
structure Cascade (s : World) (os : List ℕ) (gone : List (ℕ × HostObject)) (refs : Counted.Counts)
    (objects : List (ℕ × HostObject)) (released : List ℕ) : Prop where
  perm : s.objects.Perm (gone ++ objects)
  log : ∀ x, released.count x = (gone.flatMap fun e => e.2.releases).count x + s.released.count x
  counts : ∀ x, refs x + released.count x + os.count x = s.refs x + s.released.count x
  le : ∀ x, refs x ≤ s.refs x
  dead : ∀ e ∈ gone, refs e.1 = 0

theorem cascade_nil : s.Cascade [] [] s.refs s.objects s.released :=
  ⟨.refl _, fun _ => (Nat.zero_add _).symm, fun _ => rfl, fun _ => le_rfl, fun _ he => absurd he List.not_mem_nil⟩

/-- an object is released and has other references -/
theorem Cascade.release
    (hrefs : Counted.release s.refs (some o) = some refs) (hc : Cascade { s with refs } os gone refs' objects released) :
    s.Cascade (o :: os) gone refs' objects released := by
  have hcount := Counted.release_count hrefs
  simp only [Option.toList_some, List.count_singleton] at hcount
  refine ⟨hc.perm, hc.log, fun x => ?_, fun x => ?_, hc.dead⟩
  · have hx := hc.counts x
    have hxo := hcount x
    simp only [List.count_cons] at hx ⊢
    omega
  · have hx := hc.le x
    have hxo := hcount x
    dsimp only at hx
    omega

/-- an object is deallocated, and what it releases is released next -/
theorem Cascade.dealloc
    (hn : (s.objects.map Prod.fst).Nodup) (hh : s.objects.lookup o = some h) (hzero : s.refs o = 0)
    (hc : Cascade { s with objects := Assoc.erase o s.objects, released := h.releases ++ s.released } (h.releases ++ os) gone refs'
      objects released) : s.Cascade os ((o, h) :: gone) refs' objects released := by
  refine ⟨(Assoc.perm_of_lookup hn hh).trans (hc.perm.cons _), fun x => ?_, fun x => ?_, hc.le, fun e he => ?_⟩
  · have hx := hc.log x
    simp only [List.flatMap_cons, List.count_append] at hx ⊢
    omega
  · have hx := hc.counts x
    simp only [List.count_append] at hx ⊢
    omega
  · rcases List.mem_cons.1 he with rfl | he
    · exact Nat.le_zero.1 ((hc.le o).trans (le_of_eq hzero))
    · exact hc.dead e he

/-- **The releases**, by induction on how many there are. -/
theorem releaseAll_cases {n : ℕ} (hn : (s.objects.map Prod.fst).Nodup) (hr : releaseAll n os s = .ok s') :
    ∃ gone refs objects released, s' = { s with refs, objects, released } ∧ s.Cascade os gone refs objects released := by
  induction n generalizing os s with
  | zero =>
    cases os with
    | nil =>
      obtain rfl := Except.ok.inj hr
      exact ⟨[], s.refs, s.objects, s.released, rfl, cascade_nil⟩
    | cons o os => cases hr
  | succ n ih =>
    cases os with
    | nil =>
      obtain rfl := Except.ok.inj hr
      exact ⟨[], s.refs, s.objects, s.released, rfl, cascade_nil⟩
    | cons o os =>
      obtain ⟨refs, hrefs, hr⟩ := bind_eq_ok.1 hr
      have hrelease := unwrap_eq_ok.1 hrefs
      split_ifs at hr with hzero
      · -- the last reference
        obtain ⟨⟨fields, s₁⟩, hdealloc, hr⟩ := bind_eq_ok.1 hr
        obtain ⟨h, hh, hdealloc⟩ := bind_eq_ok.1 hdealloc
        cases hdealloc
        have hn' : ((Assoc.erase o s.objects).map Prod.fst).Nodup := by
          rw [Assoc.keys_erase]
          exact hn.filter _
        obtain ⟨gone, refs', objects, released, rfl, hc⟩ := ih hn' hr
        have hdealloc : Cascade { s with refs } os ((o, h) :: gone) refs' objects released :=
          Cascade.dealloc hn (unwrap_eq_ok.1 hh) hzero hc
        exact ⟨_, refs', objects, released, rfl, hdealloc.release hrelease⟩
      · obtain ⟨gone, refs', objects, released, rfl, hc⟩ := ih (s := { s with refs }) hn hr
        exact ⟨gone, refs', objects, released, rfl, hc.release hrelease⟩

/-- no object is deallocated that has a reference which its deallocation does not release -/
def NothingLost (s s' : World) : Prop := ∀ o h, s.objects.lookup o = some h → s'.objects.lookup o = none → h.leaks = []

theorem nothingLost_iff {gone : List (ℕ × HostObject)} (hn : (s.objects.map Prod.fst).Nodup)
    (hperm : s.objects.Perm (gone ++ s'.objects)) :
    (gone.flatMap fun e => e.2.leaks) = [] ↔ NothingLost s s' := by
  have hkeys : ((gone ++ s'.objects).map Prod.fst).Nodup := (hperm.map Prod.fst).nodup_iff.1 hn
  rw [List.map_append, List.nodup_append] at hkeys
  rw [List.flatMap_eq_nil_iff]
  constructor
  · intro hgone o h hh hnone
    rcases List.mem_append.1 (hperm.mem_iff.1 (Assoc.mem_of_lookup hh)) with hmem | hmem
    · exact hgone _ hmem
    · have hfound := Assoc.lookup_of_mem hkeys.2.1 hmem
      cases hnone.symm.trans hfound
  · intro hnothing e he
    refine hnothing e.1 e.2 (Assoc.lookup_of_mem hn (hperm.mem_iff.2 (List.mem_append_left _ he))) ?_
    refine List.lookup_eq_none_iff.2 fun e' he' => ?_
    simpa using hkeys.2.2 e.1 (List.mem_map_of_mem he) e'.1 (List.mem_map_of_mem he')

/-- **A release** keeps the invariant, and loses what deallocated objects do not release. -/
theorem Inv.release (hi : s.Inv os lost) (hr : s.release os = .ok s') :
    ∃ more, s'.Inv [] (more ++ lost) ∧ (more = [] ↔ NothingLost s s') := by
  obtain ⟨ha, hf, hl⟩ := hi
  obtain ⟨gone, refs, objects, released, rfl, hperm, hreleased, hrefs, -, hdead⟩ := releaseAll_cases hf.objects_nodup hr
  have hkeys : ((gone ++ objects).map Prod.fst).Nodup := (hperm.map Prod.fst).nodup_iff.1 hf.objects_nodup
  rw [List.map_append, List.nodup_append] at hkeys
  have hmem (e : ℕ × HostObject) (he : e ∈ objects) : e ∈ s.objects := hperm.mem_iff.2 (List.mem_append_right _ he)
  have ha' : Accounted { s with refs, objects, released } [] := by
    refine ⟨fun x => ?_, fun x hx => ha.bounded x ?_⟩
    · have hx := hrefs x
      have haccounts := ha.accounts x
      simp only [claims, List.count_append, List.count_nil] at haccounts ⊢
      omega
    · rw [List.append_nil] at hx
      exact List.mem_append_left _ hx
  have hl' : Lost { s with refs, objects, released } ((gone.flatMap fun e => e.2.leaks) ++ lost) := by
    intro x
    have hlost := hl x
    have hx := hreleased x
    have hall := (hperm.flatMap_right fun e => e.2.kept).count_eq x
    have hgone := count_flatMap_kept gone x
    simp only [List.flatMap_append, kept, defaultFunction, List.count_append] at hlost hall ⊢
    omega
  refine ⟨_,
    ⟨ha', ⟨hkeys.2.1, fun e he => hf.objects_lt e (hmem e he), fun e he => hf.layers e (hmem e he), hf.transactions_nodup,
    hf.transactions, hf.poolStacks_nodup, fun e he => ?_⟩, hl'⟩, nothingLost_iff hf.objects_nodup hperm⟩
  rcases List.mem_append.1 (hperm.mem_iff.1 (Assoc.mem_of_lookup (hf.named e he))) with hgone | hobject
  · exact absurd (hdead _ hgone) (ha'.shared hl' e he)
  · exact Assoc.lookup_of_mem hkeys.2.1 hobject

/-- **A release by a transaction, an animation or a layer** of what is not in its place any more. -/
theorem Inv.drop (hi : s.Inv [] (os ++ lost)) (hr : s.drop os = .ok s') :
    ∃ more, s'.Inv [] (more ++ lost) ∧ (more = [] ↔ NothingLost s s') := by
  have hi' : Inv { s with released := os ++ s.released } os lost := by
    refine ⟨⟨fun x => ?_, fun x hx => hi.accounted.bounded x ?_⟩, hi.formed, fun x => ?_⟩
    · have haccounts := hi.accounted.accounts x
      simp only [claims, List.count_append, List.count_nil] at haccounts ⊢
      omega
    · rcases List.mem_append.1 hx with hx | hx
      · exact List.mem_append_left _ hx
      -- it was retained
      have hpos := List.count_pos_iff.2 hx
      have hlost := hi.lost x
      rw [List.count_append] at hlost
      have hretained : x ∈ s.retained := List.count_pos_iff.1 (by omega)
      exact List.mem_append_left _ (List.mem_append_right _ hretained)
    · have hlost := hi.lost x
      simp only [kept, defaultFunction, List.count_append] at hlost ⊢
      omega
  exact hi'.release hr

end World

end TouchHLE.CoreAnimation
