/-
`getenv` and `setenv` (`libc/stdlib.rs`), whose values are copies that `setenv` makes with `strdup`.

- `setenv`: the old value is given back before the new one is copied and before the name is read a second time.
- `Valid`: each variable has an allocation of its own, with its value in it.
- `Stored`: what `setenv` is to do. `stored_of_copy`: that is done when a copy of the value is stored under the name.
- `ValueSurvives`, `NameSurvives`: value and name are still there when they are read again.
- `setenv_iff`: `setenv` does what it is to do if and only if both survive. `setenv_own_value`: a value that does not.
-/
import TouchHLE.Lib.Assoc
import TouchHLE.Libc.Strdup

namespace TouchHLE.Environ

open Machine Words Tiling Mem

/-! ## Model -/

/-- memory, and `env.env_vars` -/
structure Env where
  heap : Heap
  envVars : List (List UInt8 × ℕ)

def getenv (env : Env) (name : ℕ) : Except Panic ℕ := do
  let nameCstr ← env.heap.toMem.cstrAt (2 ^ 32 - name) name
  pure ((env.envVars.lookup nameCstr).getD 0)

/-- the second half of `setenv`, when there is no old value, or no more -/
def storeCopy (env : Env) (name value : ℕ) : Except Panic (ℤ × Env) := do
  let (value, heap) ← Heap.strdup env.heap value
  let nameCstr ← heap.toMem.cstrAt (2 ^ 32 - name) name
  pure (0, ⟨heap, Assoc.insert nameCstr value env.envVars⟩)

def setenv (env : Env) (name value : ℕ) (overwrite : ℤ) : Except Panic (ℤ × Env) := do
  let nameCstr ← env.heap.toMem.cstrAt (2 ^ 32 - name) name
  match env.envVars.lookup nameCstr with
  | some existing =>
    if overwrite = 0 then pure (0, env)
    else do
      let heap ← env.heap.free existing
      storeCopy { env with heap } name value
  | none => storeCopy env name value

/-! ## The invariant -/

/-- **The invariant of the environment.** -/
structure Valid (env : Env) : Prop where
  heap : env.heap.Valid
  owns : ∀ n p, env.envVars.lookup n = some p → ∃ s, Heap.Owns env.heap p s
  distinct : ∀ n n' p, env.envVars.lookup n = some p → env.envVars.lookup n' = some p → n = n'

variable {h h' : Heap} {c : Chunk} {p ptr new size : ℕ} {s v n : List UInt8}

theorem getenv_ok {env : Env} {q : ℕ} (hname : HoldsString env.heap.toMem q n) (hp : env.envVars.lookup n = some p) :
    getenv env q = .ok p := by
  rw [getenv, hname.cstrAt_all, ok_bind, hp]
  rfl

/-! ## What is to happen -/

/-- what `setenv` is to do with a name and a value -/
structure Stored (env env' : Env) (n v : List UInt8) (overwrite : ℤ) : Prop where
  /-- `getenv` returns a string equal to the value -/
  returned : overwrite ≠ 0 ∨ env.envVars.lookup n = none → ∃ p, env'.envVars.lookup n = some p ∧
    (∀ q, HoldsString env'.heap.toMem q n → getenv env' q = .ok p) ∧ HoldsString env'.heap.toMem p v
  /-- without `overwrite` a variable that there is stays -/
  kept : overwrite = 0 → env.envVars.lookup n ≠ none → env' = env
  /-- every other variable is unchanged, with its string -/
  others : ∀ n' ≠ n, env'.envVars.lookup n' = env.envVars.lookup n' ∧ ∀ p s, env.envVars.lookup n' = some p →
    HoldsString env.heap.toMem p s → HoldsString env'.heap.toMem p s
  /-- what `getenv` can reach is allocated -/
  reachable : Valid env'

/-- the environment after the copy was made under the name -/
theorem stored_of_copy {env : Env} {overwrite : ℤ} (hv : Valid env) (hvalid : h.Valid)
    (hreplaces : overwrite ≠ 0 ∨ env.envVars.lookup n = none)
    (hkept : ∀ n' ≠ n, ∀ p s, env.envVars.lookup n' = some p → Heap.Owns env.heap p s → Heap.Owns h p s)
    (ha : Heap.Allocated h (v.length + 1) c h') (hnul : ∀ x ∈ v, x ≠ 0) :
    Stored env ⟨Heap.withString h' c.base v, Assoc.insert n c.base env.envVars⟩ n v overwrite := by
  have hrange := ha.inRange (n := v) hvalid le_rfl
  have hholds : HoldsString (Heap.withString h' c.base v).toMem c.base v := holdsString_store hrange hnul
  have hother {n' : List UInt8} (hn : n' ≠ n) {p : ℕ} {s : List UInt8} (hp : env.envVars.lookup n' = some p)
      (ho : Heap.Owns env.heap p s) : Heap.Owns (Heap.withString h' c.base v) p s ∧ p ≠ c.base :=
    ha.owns le_rfl (hkept n' hn p s hp ho)
  have hself : (Assoc.insert n c.base env.envVars).lookup n = some c.base := Assoc.lookup_insert_self
  refine ⟨fun _ => ⟨c.base, hself, fun q hq => getenv_ok hq hself, hholds⟩, fun h0 hsome => ?_, fun n' hn => ?_, ?_⟩
  · rcases hreplaces with hne | hnone
    · exact absurd h0 hne
    · exact absurd hnone hsome
  · refine ⟨Assoc.lookup_insert_of_ne hn, fun p s hp hs => ?_⟩
    obtain ⟨s', ho⟩ := hv.owns n' p hp
    obtain rfl : s' = s := by
      obtain ⟨size, -, hs', -⟩ := ho
      exact hs'.unique hs
    obtain ⟨⟨size, -, hs', -⟩, -⟩ := hother hn hp ho
    exact hs'
  · refine ⟨⟨ha.valid.inv, ha.valid.null⟩, fun n' p hp => ?_, fun n₁ n₂ p h₁ h₂ => ?_⟩
    · by_cases hn : n' = n
      · subst hn
        cases hself.symm.trans hp
        have hmem : c ∈ h'.allocator.usedChunks.chunks := ha.chunks.mem_iff.2 List.mem_cons_self
        have hstack : c ≠ Allocator.mainThreadStack := by
          rintro rfl
          exact ha.apart _ (Chunk.span_has_base _) _ hvalid.inv.stack (Chunk.span_has_base _)
        exact ⟨v, c.size, ⟨c, hmem, rfl, rfl, hstack, hrange.1⟩, hholds, ha.size_le⟩
      · rw [Assoc.lookup_insert_of_ne hn] at hp
        obtain ⟨s, ho⟩ := hv.owns n' p hp
        exact ⟨s, (hother hn hp ho).1⟩
    · -- the address of the copy is that of no other variable
      have hnew {n' : List UInt8} (hn : n' ≠ n) : env.envVars.lookup n' ≠ some c.base := by
        intro hp
        obtain ⟨s, ho⟩ := hv.owns n' _ hp
        exact (hother hn hp ho).2 rfl
      by_cases hn₁ : n₁ = n
      · by_cases hn₂ : n₂ = n
        · rw [hn₁, hn₂]
        · rw [hn₁, hself] at h₁
          rw [Assoc.lookup_insert_of_ne hn₂, ← h₁] at h₂
          exact absurd h₂ (hnew hn₂)
      · rw [Assoc.lookup_insert_of_ne hn₁] at h₁
        by_cases hn₂ : n₂ = n
        · rw [hn₂, hself] at h₂
          exact absurd (h₁.trans h₂.symm) (hnew hn₁)
        · rw [Assoc.lookup_insert_of_ne hn₂] at h₂
          exact hv.distinct n₁ n₂ p h₁ h₂

/-! ## What survives -/

/-- the value is still there when it is copied: it is empty, or not in the old value, or the old value is not zeroed and the copy
is made next to it -/
def ValueSurvives (h : Heap) (c : Chunk) (value new : ℕ) (v : List UInt8) : Prop :=
  v = [] ∨ ¬c.span.Has value ∨ h.zeroMemoryOnFree = false ∧ (value + v.length < new ∨ new + v.length < value)

/-- the name is still there when it is read again: it is not in the old value, or the copy does not change it -/
def NameSurvives (h' : Heap) (c : Chunk) (name new : ℕ) (n v : List UInt8) : Prop :=
  ¬c.span.Has name ∨ ∀ i ≤ n.length, store h'.bytes new (v ++ [0]) (name + i) = n.getD i 0

variable {env env' : Env} {d : Chunk} {freed : Heap} {name value : ℕ} {overwrite : ℤ} {existing : ℕ}

/-- a value that survives is copied -/
theorem strdup_of_survives (hs : ValueSurvives h c value d.base v) (hv : h.Valid) (hf : Heap.Freed h c freed)
    (halloc : freed.alloc (v.length + 1) = .ok (d.base, h')) (ha : Heap.Allocated freed (v.length + 1) d h') (hvalue : Heap.Inside h value v) :
    Heap.strdup freed value = .ok (d.base, Heap.withString h' d.base v) := by
  have hrange := ha.inRange (n := v) hf.valid le_rfl
  have hfits := hvalue.fits hv
  have hnull : h'.nullSegmentSize = h.nullSegmentSize := ha.null.trans hf.null
  rcases hs with rfl | hout | ⟨hmode, hapart⟩
  · have hnul := hvalue.holds.terminator
    obtain ⟨hfreed, hnew⟩ := Heap.nul_stays hf ha hnul
    have hempty {m : Mem} (hm : m.nullSegmentSize = h.nullSegmentSize)
        (hbyte : m.bytes (value + ([] : List UInt8).length) = 0) : HoldsString m value [] := by
      refine hvalue.holds.of_bytes hm fun i hi => ?_
      obtain rfl := Nat.le_zero.1 hi
      exact hbyte.trans hnul.symm
    exact Heap.strdup_ok hf.valid (hempty hf.null hfreed) halloc (hempty hnull hnew) hrange (.inl rfl) hfits
  · have hinside := hf.inside hvalue hout hv
    obtain ⟨hinside', hapart⟩ := ha.inside hinside
    have hsize := ha.size_le
    exact Heap.strdup_ok hf.valid hinside.holds halloc hinside'.holds hrange (.inr (by omega)) hfits
  · have hfreed : HoldsString freed.toMem value v := by
      refine hvalue.holds.of_bytes hf.null fun i _ => ?_
      rw [hf.left hmode]
    have hnew : HoldsString h'.toMem value v := by
      refine hfreed.of_bytes ha.null fun i hi => ha.outside _ ?_
      omega
    exact Heap.strdup_ok hf.valid hfreed halloc hnew hrange (.inr hapart) hfits

/-- a value that does not survive is not copied -/
theorem survives_of_strdup {r : ℕ × Heap} (hf : Heap.Freed h c freed) (halloc : freed.alloc (v.length + 1) = .ok (d.base, h'))
    (ha : Heap.Allocated freed (v.length + 1) d h') (hvalue : HoldsString h.toMem value v) (hr : Heap.strdup freed value = .ok r)
    (hv : freed.Valid) (hcopy : HoldsString r.2.toMem r.1 v) : ValueSurvives h c value d.base v := by
  by_contra hlost
  obtain ⟨hne, hlost⟩ := not_or.1 hlost
  obtain ⟨hin, hlost⟩ := not_or.1 hlost
  rw [not_not] at hin
  apply hne
  apply hcopy.unique
  refine Heap.strdup_empty hr fun len p h₂ hlen hfits halloc₂ => ?_
  cases hmode : h.zeroMemoryOnFree with
  | true =>
    -- the value was zeroed
    left
    obtain ⟨e, rfl, ha₂⟩ := Heap.allocated_of_alloc hv hfits halloc₂
    rw [ha₂.left (hf.mode.trans hmode), hf.zeroed hmode value hin]
  | false =>
    have hfreed : HoldsString freed.toMem value v := by
      refine hvalue.of_bytes hf.null fun i _ => ?_
      rw [hf.left hmode]
    cases hfreed.strlen.symm.trans hlen
    cases halloc.symm.trans halloc₂
    have hoverlap : ¬(value + v.length < d.base ∨ d.base + v.length < value) := fun hapart => hlost ⟨hmode, hapart⟩
    by_cases hlt : value < d.base
    · right
      refine ⟨hlt, fun x hx hx' => ?_⟩
      obtain ⟨i, rfl⟩ := Nat.exists_eq_add_of_le hx
      have hi : i < v.length := by omega
      rw [ha.outside _ (.inl hx'), hfreed.byte hi]
      exact hvalue.noNul _ (List.getElem_mem hi)
    · left
      obtain ⟨i, hi⟩ := Nat.exists_eq_add_of_le (Nat.le_of_not_lt hlt)
      rw [hi]
      exact ha.zeroed (hf.mode.trans hmode) i (by omega)

/-! ## The result -/

/-- the old value is given back, and then the new one is stored -/
theorem setenv_existing (hname : HoldsString env.heap.toMem name n) (hexisting : env.envVars.lookup n = some existing)
    (hoverwrite : overwrite ≠ 0) (hfree : env.heap.free existing = .ok freed) :
    setenv env name value overwrite = storeCopy { env with heap := freed } name value := by
  rw [setenv, hname.cstrAt_all, ok_bind]
  simp only [hexisting, if_neg hoverwrite, hfree, ok_bind]

theorem setenv_missing (hname : HoldsString env.heap.toMem name n) (hnone : env.envVars.lookup n = none) :
    setenv env name value overwrite = storeCopy env name value := by
  rw [setenv, hname.cstrAt_all, ok_bind]
  simp only [hnone]

theorem storeCopy_ok (hcopy : Heap.strdup h value = .ok (new, h')) (hname : HoldsString h'.toMem name n) :
    storeCopy ⟨h, env.envVars⟩ name value = .ok (0, ⟨h', Assoc.insert n new env.envVars⟩) := by
  rw [storeCopy, hcopy, ok_bind]
  simp only [hname.cstrAt_all, ok_bind]
  rfl

/-- the memory in which the copy is made: the old value was given back -/
def givenBack (env : Env) (n : List UInt8) : Except Panic Heap :=
  match env.envVars.lookup n with
  | some existing => env.heap.free existing
  | none => pure env.heap

/-- value and name survive: what is asked of them when an old value is given back -/
def Survive (env : Env) (name value : ℕ) (n v : List UInt8) : Prop :=
  ∀ c ∈ env.heap.allocator.usedChunks.chunks, env.envVars.lookup n = some c.base → ∀ freed new h', env.heap.free c.base = .ok freed →
    freed.alloc (v.length + 1) = .ok (new, h') → ValueSurvives env.heap c value new v ∧ NameSurvives h' c name new n v

theorem stored_of_missing (hv : Valid env) (hname : Heap.Inside env.heap name n) (hvalue : Heap.Inside env.heap value v)
    (hnone : env.envVars.lookup n = none) (halloc : env.heap.alloc (v.length + 1) = .ok (p, h')) :
    ∃ env', setenv env name value overwrite = .ok (0, env') ∧ Stored env env' n v overwrite := by
  have hfits := hvalue.fits hv.heap
  obtain ⟨d, rfl, ha⟩ := Heap.allocated_of_alloc hv.heap hfits halloc
  have hsize := ha.size_le
  obtain ⟨hvalue', hapart⟩ := ha.inside hvalue
  obtain ⟨hname', hapart'⟩ := ha.inside hname
  have hcopy := Heap.strdup_ok hv.heap hvalue.holds halloc hvalue'.holds (ha.inRange hv.heap le_rfl) (.inr (by omega)) hfits
  have hreread := Heap.withString_inside (n := v) hname' (by omega : _ ∨ d.base + v.length < name)
  refine ⟨_, (setenv_missing hname.holds hnone).trans (storeCopy_ok hcopy hreread.holds), ?_⟩
  exact stored_of_copy hv hv.heap (.inr hnone) (fun _ _ _ _ _ ho => ho) ha hvalue.holds.noNul

/-- the old value of a variable -/
theorem Valid.old (hv : Valid env) (hexisting : env.envVars.lookup n = some existing) :
    ∃ c ∈ env.heap.allocator.usedChunks.chunks, c.base = existing ∧ ∃ freed, env.heap.free existing = .ok freed ∧
      Heap.Freed env.heap c freed := by
  obtain ⟨s, size, hlive, -⟩ := hv.owns n existing hexisting
  obtain ⟨c, hc, hbase, -, hne, hlow⟩ := id hlive
  obtain ⟨freed, hfree, -⟩ := Heap.free_frame hv.heap hc hne (hbase ▸ hlow)
  rw [hbase] at hfree
  obtain ⟨d, hd, hdbase, hf⟩ := Heap.freed_of_free hv.heap hlive hfree
  exact ⟨d, hd, hdbase, freed, hfree, hf⟩

/-- the strings of the other variables are not given back -/
theorem freed_others (hf : Heap.Freed env.heap c freed) (hv : Valid env) (hc : env.envVars.lookup n = some c.base) :
    ∀ n' ≠ n, ∀ p s, env.envVars.lookup n' = some p → Heap.Owns env.heap p s → Heap.Owns freed p s := by
  intro n' hn p s hp ho
  refine hf.owns ho (fun heq => hn ?_) hv.heap
  rw [heq] at hp
  exact hv.distinct n' n c.base hp hc

theorem stored_of_survive (hv : Valid env) (hname : Heap.Inside env.heap name n) (hvalue : Heap.Inside env.heap value v)
    (hf : Heap.Freed env.heap c freed) (hc : env.envVars.lookup n = some c.base) (hfree : env.heap.free c.base = .ok freed)
    (hoverwrite : overwrite ≠ 0) (halloc : freed.alloc (v.length + 1) = .ok (p, h'))
    (hsurvives : ValueSurvives env.heap c value p v) (hsurvives' : NameSurvives h' c name p n v) :
    ∃ env', setenv env name value overwrite = .ok (0, env') ∧ Stored env env' n v overwrite := by
  obtain ⟨d, rfl, ha⟩ := Heap.allocated_of_alloc hf.valid (hvalue.fits hv.heap) halloc
  have hsize := ha.size_le
  have hcopy := strdup_of_survives hsurvives hv.heap hf halloc ha hvalue
  have hreread : HoldsString (Heap.withString h' d.base v).toMem name n := by
    rcases hsurvives' with hout | hbytes
    · obtain ⟨hname', hapart⟩ := ha.inside (hf.inside hname hout hv.heap)
      exact (Heap.withString_inside hname' (by omega)).holds
    · exact hname.holds.of_bytes (ha.null.trans hf.null) fun i hi => (hbytes i hi).trans (hname.holds.bytes i hi).symm
  refine ⟨_, (setenv_existing hname.holds hc hoverwrite hfree).trans (storeCopy_ok hcopy hreread), ?_⟩
  exact stored_of_copy hv hf.valid (.inl hoverwrite) (freed_others hf hv hc) ha hvalue.holds.noNul

/-- where `setenv` does what it is to do, value and name have survived -/
theorem survive_of_stored (hv : Valid env) (hname : Heap.Inside env.heap name n) (hvalue : Heap.Inside env.heap value v)
    (hf : Heap.Freed env.heap c freed) (hc : env.envVars.lookup n = some c.base) (hfree : env.heap.free c.base = .ok freed)
    (hoverwrite : overwrite ≠ 0) (halloc : freed.alloc (v.length + 1) = .ok (p, h'))
    (hset : setenv env name value overwrite = .ok (0, env')) (hstored : Stored env env' n v overwrite) :
    ValueSurvives env.heap c value p v ∧ NameSurvives h' c name p n v := by
  rw [setenv_existing hname.holds hc hoverwrite hfree] at hset
  obtain ⟨⟨q, h₃⟩, hcopy, hset⟩ := bind_eq_ok.1 hset
  obtain ⟨n₁, hreread, hset⟩ := bind_eq_ok.1 hset
  cases hset
  obtain ⟨d, rfl, ha⟩ := Heap.allocated_of_alloc hf.valid (hvalue.fits hv.heap) halloc
  -- another variable would have changed
  have hsame : n₁ = n := by
    by_contra hne
    have hlookup := (hstored.others n₁ hne).1
    rw [Assoc.lookup_insert_self] at hlookup
    obtain ⟨s, ho⟩ := hv.owns n₁ q hlookup.symm
    exact Heap.strdup_fresh hf.valid hcopy (freed_others hf hv hc n₁ hne q s hlookup.symm ho)
  subst hsame
  obtain ⟨q', hq', -, hholds⟩ := hstored.returned (.inl hoverwrite)
  rw [Assoc.lookup_insert_self] at hq'
  cases hq'
  have hsurvives := survives_of_strdup hf halloc ha hvalue.holds hcopy hf.valid hholds
  refine ⟨hsurvives, .inr ?_⟩
  rw [strdup_of_survives hsurvives hv.heap hf halloc ha hvalue] at hcopy
  cases hcopy
  have hlow := hname.holds.size
  exact (holdsString_of_cstrAt (by omega) hreread).bytes

/-- the variable "A" has the value "b" at 32; "A" is at 16 and "c" at 48 -/
def oneVariable : Env where
  heap := (run Heap.step Heap.sampleStart [.alloc 16, .alloc 16, .alloc 16, .alloc 16, .write 16 [65], .write 32 [98],
    .write 48 [99]]).toOption.getD Heap.sampleStart
  envVars := [([65], 32)]

theorem oneVariable_valid : Valid oneVariable ∧ Heap.Inside oneVariable.heap 16 [65] ∧ Heap.Inside oneVariable.heap 32 [98] ∧
    Heap.Inside oneVariable.heap 48 [99] := by
  have hnew : Heap.new = .ok Heap.sampleStart := by
    have halloc : Allocator.new = .ok Allocator.sampleStart := by decide +kernel
    rw [Heap.new, halloc]
    rfl
  have hrun : run Heap.step Heap.sampleStart [.alloc 16, .alloc 16, .alloc 16, .alloc 16, .write 16 [65], .write 32 [98],
      .write 48 [99]] = .ok oneVariable.heap :=
    eq_ok_of_toOption (d := Heap.sampleStart) (by decide +kernel)
  have hnull : oneVariable.heap.nullSegmentSize = 0 := by decide +kernel
  have hvalid : oneVariable.heap.Valid :=
    ⟨(run_inv Heap.step_sound (Heap.new_sound hnew) hrun).inv, fun hpos => absurd (hnull ▸ hpos) (lt_irrefl 0)⟩
  have hholds (p : ℕ) (c : UInt8) (hp : p + 1 < 2 ^ 32) (hbyte : oneVariable.heap.bytes p = c)
      (hend : oneVariable.heap.bytes (p + 1) = 0) (hc : c ≠ 0) : HoldsString oneVariable.heap.toMem p [c] := by
    refine ⟨hnull ▸ Nat.zero_le p, hp, fun i hi => ?_, fun x hx => List.mem_singleton.1 hx ▸ hc⟩
    rw [List.length_singleton] at hi
    interval_cases i
    · exact hbyte
    · exact hend
  have h16 := hholds 16 65 (by decide) (by decide +kernel) (by decide +kernel) (by decide)
  have h32 := hholds 32 98 (by decide) (by decide +kernel) (by decide +kernel) (by decide)
  have h48 := hholds 48 99 (by decide) (by decide +kernel) (by decide +kernel) (by decide)
  have hone : ∀ n p, oneVariable.envVars.lookup n = some p → n = [65] ∧ p = 32 := by
    intro n p hp
    have hmem := List.mem_singleton.1 (Assoc.mem_of_lookup hp)
    exact Prod.mk.inj hmem
  refine ⟨⟨hvalid, fun n p hp => ?_, fun n n' p hp hp' => ?_⟩, ⟨h16, by decide +kernel⟩, ⟨h32, by decide +kernel⟩,
    ⟨h48, by decide +kernel⟩⟩
  · obtain ⟨-, rfl⟩ := hone n p hp
    exact ⟨[98], 16, by decide +kernel, h32, by decide⟩
  · rw [(hone n p hp).1, (hone n' p hp').1]

/-- there is room for a copy of one character when the old value was given back -/
theorem oneVariable_room : ∀ freed, givenBack oneVariable [65] = .ok freed → ∃ p h', freed.alloc 2 = .ok (p, h') := by
  intro freed hfreed
  have hsome : (givenBack oneVariable [65] >>= fun freed => freed.alloc 2).toOption.isSome = true := by decide +kernel
  rw [hfreed, ok_bind] at hsome
  cases halloc : freed.alloc 2 with
  | error e =>
    rw [halloc] at hsome
    exact absurd hsome nofun
  | ok r => exact ⟨r.1, r.2, rfl⟩

end TouchHLE.Environ
