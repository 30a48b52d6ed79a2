/-
Autorelease pools (`ns_autorelease_pool.rs`). Draining a pool releases its objects, and releasing an object can run
anything: pools can be created, filled and drained before the next object is released. The model therefore stops at each
release, with a frame for every drain that is not finished.

- `PoolState`, `dropPools`, `dealloc`, `drain`, `resume`: the pools of all threads, and the operations on them.
- `Conserved`: what is added to pools, taken off stacks, deallocated and released adds up.
- `Inv`: the states in which every drain so far was one of the youngest pool.
- `drain_youngest`, `drain_older`: the two kinds of drains.
- `conserved_iff`: runs. `older_pool`: what happens when an older pool is drained.
-/
import TouchHLE.Objc.Objects

namespace TouchHLE

open Machine

structure NSAutoreleasePoolHostObject where
  originalThread : ℕ
  objects : List ℕ
  /-- how many pools have been created before; only the logs depend on it -/
  number : ℕ

inductive FoundationObject where
  | pool (p : NSAutoreleasePoolHostObject)
  | object

/-- a drain that is not finished: the pools that are still to be dropped, the youngest first, and what is still to be
released of the last one -/
structure Frame where
  thread : ℕ
  this : ℕ
  toDrop : List ℕ
  rest : List ℕ

structure PoolState where
  objc : ObjC Unit FoundationObject
  /-- by thread, the youngest pool last; a thread without an entry has the empty stack -/
  poolStacks : ℕ → List ℕ
  /-- the drains of all threads, those of each thread in order, the innermost first -/
  frames : List Frame
  created : ℕ
  /-- the log: objects that were added, with the numbers of the pools -/
  adds : List (ℕ × ℕ)
  /-- the log: numbers of pools that were taken off their stacks -/
  off : List ℕ
  /-- the log: numbers of pools that were deallocated -/
  dealloced : List ℕ
  /-- the log: objects that were released -/
  released : List ℕ

namespace PoolState

def poolAt (s : PoolState) (a : ℕ) : Option NSAutoreleasePoolHostObject :=
  match s.objc.getHostObject a with
  | some (.other (.pool p)) => some p
  | _ => none

/-- `borrow_mut::<NSAutoreleasePoolHostObject>` -/
def borrowPool (s : PoolState) (a : ℕ) : Except Panic NSAutoreleasePoolHostObject := do
  let _ ← unwrap (s.objc.objects a) .missing
  unwrap (s.poolAt a) .hostObject

def setObjects (s : PoolState) (objects : ℕ → Option (HostObjectEntry Unit FoundationObject)) : PoolState :=
  { s with objc := { s.objc with objects } }

def setPool (s : PoolState) (a : ℕ) (p : NSAutoreleasePoolHostObject) : PoolState :=
  let entry := (s.objc.objects a).map fun entry => { entry with hostObject := .other (.pool p) }
  s.setObjects (Function.update s.objc.objects a entry)

def numberAt (s : PoolState) (a : ℕ) : List ℕ := (s.poolAt a).toList.map NSAutoreleasePoolHostObject.number

def contents (s : PoolState) (a : ℕ) : List ℕ := (s.poolAt a).toList.flatMap NSAutoreleasePoolHostObject.objects

/-- `allocWithZone:` and `init` -/
def create (s : PoolState) (thread a : ℕ) : Except Panic PoolState := do
  assert (s.objc.objects a).isNone .duplicateKey
  let entry := ⟨.other (.pool ⟨thread, [], s.created⟩), some 1⟩
  let s := s.setObjects (Function.update s.objc.objects a (some entry))
  let stack := s.poolStacks thread ++ [a]
  pure { s with poolStacks := Function.update s.poolStacks thread stack, created := s.created + 1 }

/-- `addObject:` of a pool -/
def addObject (s : PoolState) (a object : ℕ) : Except Panic PoolState := do
  let p ← s.borrowPool a
  let s := s.setPool a { p with objects := p.objects ++ [object] }
  pure { s with adds := s.adds ++ [(p.number, object)] }

/-- `addObject:` of the class; without a pool, the object is leaked -/
def addToCurrent (s : PoolState) (thread object : ℕ) : Except Panic PoolState :=
  match (s.poolStacks thread).getLast? with
  | some a => s.addObject a object
  | none => pure s

/-- the stack without the pool and those above it, which come second, the youngest first -/
def takeOff (stack : List ℕ) (this : ℕ) : Option (List ℕ × List ℕ) :=
  let above := stack.reverse.takeWhile (· ≠ this)
  match stack.reverse.drop above.length with
  | [] => none
  | _ :: kept => some (kept.reverse, above ++ [this])

/-- `dealloc_object` -/
def deallocObject (s : PoolState) (a : ℕ) : Except Panic PoolState := do
  let objc ← s.objc.removeObject a
  pure { s with objc, dealloced := s.dealloced ++ s.numberAt a }

/-- `release` of an object: the drain goes on when it is done -/
def beginRelease (s : PoolState) (f : Frame) (object : ℕ) : PoolState :=
  { s with frames := f :: s.frames, released := s.released ++ [object] }

/-- the loop of `dealloc` up to the next release -/
def dropPools (thread this : ℕ) : List ℕ → PoolState → Except Panic PoolState
  | [], s => pure s
  | a :: toDrop, s => do
    let p ← s.borrowPool a
    let s ← (s.setPool a { p with objects := [] }).deallocObject this
    match p.objects with
    | [] => dropPools thread this toDrop s
    | object :: rest => pure (s.beginRelease ⟨thread, this, toDrop, rest⟩ object)

/-- `dealloc` up to the first release -/
def dealloc (s : PoolState) (thread this : ℕ) : Except Panic PoolState := do
  let p ← s.borrowPool this
  assert (p.originalThread == thread) .poolThread
  match takeOff (s.poolStacks thread) this with
  | none => throw .badPool
  | some (kept, toDrop) =>
    let off := s.off ++ toDrop.flatMap s.numberAt
    dropPools thread this toDrop { s with poolStacks := Function.update s.poolStacks thread kept, off }

/-- `drain`, which is the `release` of NSObject -/
def drain (s : PoolState) (thread this : ℕ) : Except Panic PoolState := do
  let (dead, objc) ← s.objc.decrementRefcount this
  if dead then dealloc { s with objc } thread this else pure { s with objc }

/-- the object whose release has begun is released: the innermost drain of the thread goes on -/
def resume (s : PoolState) (thread : ℕ) : Except Panic PoolState :=
  match s.frames.find? (·.thread == thread) with
  | none => throw .notEnabled
  | some f =>
    let s := { s with frames := s.frames.eraseP (·.thread == thread) }
    match f.rest with
    | [] => dropPools thread f.this f.toDrop s
    | object :: rest => pure (s.beginRelease { f with rest } object)

inductive PoolOp where
  | create (thread a : ℕ)
  | addToCurrent (thread object : ℕ)
  | addObject (a object : ℕ)
  | drain (thread a : ℕ)
  | resume (thread : ℕ)
  /-- an object that is not a pool is created, changed or deallocated -/
  | other (a : ℕ) (entry : Option (HostObjectEntry Unit FoundationObject))

def step (s : PoolState) : PoolOp → Except Panic PoolState
  | .create thread a => s.create thread a
  | .addToCurrent thread object => s.addToCurrent thread object
  | .addObject a object => s.addObject a object
  | .drain thread a => s.drain thread a
  | .resume thread => s.resume thread
  | .other a entry => pure (s.setObjects (Function.update s.objc.objects a entry))

/-! ## What must hold -/

/-- pools that are off their stacks and still to be dropped -/
def pendingPools (s : PoolState) : List ℕ := s.frames.flatMap fun f => f.toDrop.flatMap s.numberAt

/-- objects that are still to be released by the drains -/
def pendingObjects (s : PoolState) : List ℕ := s.frames.flatMap fun f => f.rest ++ f.toDrop.flatMap s.contents

/-- how often an object was added to pools that were taken off their stacks -/
def addedToDrained (s : PoolState) (object : ℕ) : ℕ := s.adds.countP fun e => e.2 = object ∧ e.1 ∈ s.off

/-- **Nothing is lost or doubled**: every pool that is off its stack is deallocated once, now or later, and every object
is released as often as it was added to such pools, now or later. -/
structure Conserved (s : PoolState) : Prop where
  pools : ∀ n, s.off.count n = s.dealloced.count n + s.pendingPools.count n
  objects : ∀ o, s.addedToDrained o = s.released.count o + s.pendingObjects.count o

/-- what the operations are for: pools are created in unused memory, messages are for living pools, and a pool is drained
that is on the stack of the thread -/
def Legal (s : PoolState) : PoolOp → Prop
  | .create _ a => s.objc.objects a = none
  | .addToCurrent _ _ => True
  | .addObject a _ => ∃ p, s.poolAt a = some p
  | .drain thread a => a ∈ s.poolStacks thread
  | .resume thread => ∃ f ∈ s.frames, f.thread = thread
  | .other a entry => s.poolAt a = none ∧ ∀ e p, entry = some e → e.hostObject ≠ .other (.pool p)

/-- the operation succeeds and leaves nothing lost or doubled -/
def Conserves (s : PoolState) (o : PoolOp) : Prop := Legal s o ∧ ∃ s', step s o = .ok s' ∧ Conserved s'

/-- a drain is one of the youngest pool -/
def DrainsYoungest (s : PoolState) (o : PoolOp) : Prop :=
  Legal s o ∧ ∀ thread a, o = .drain thread a → (s.poolStacks thread).getLast? = some a

def start : PoolState := ⟨.new, fun _ => [], [], 0, [], [], [], []⟩

/-- the states in which every drain so far was one of the youngest pool -/
structure Inv (s : PoolState) : Prop where
  alive : ∀ t, ∀ a ∈ s.poolStacks t, ∃ p, s.objc.objects a = some ⟨.other (.pool p), some 1⟩ ∧ p.originalThread = t
  nodup : ∀ t, (s.poolStacks t).Nodup
  stacked : ∀ a p, s.poolAt a = some p → a ∈ s.poolStacks p.originalThread
  numbers : ∀ a b p q, s.poolAt a = some p → s.poolAt b = some q → p.number = q.number → a = b
  fresh : ∀ a p, s.poolAt a = some p → p.number < s.created ∧ p.number ∉ s.off
  offOld : ∀ n ∈ s.off, n < s.created
  addsOld : ∀ e ∈ s.adds, e.1 < s.created
  contents : ∀ a p, s.poolAt a = some p → ∀ o, s.adds.count (p.number, o) = p.objects.count o
  idle : ∀ f ∈ s.frames, f.toDrop = []
  once : s.off.Nodup
  dealloced : ∀ n, s.off.count n = s.dealloced.count n
  released : ∀ o, s.addedToDrained o = s.released.count o + (s.frames.flatMap Frame.rest).count o

variable {s s' : PoolState} {a b t o : ℕ} {p : NSAutoreleasePoolHostObject}
  {entry : Option (HostObjectEntry Unit FoundationObject)} {q : NSAutoreleasePoolHostObject} {kept above : List ℕ}
  {this : ℕ} {r : Option ℕ}

/-! ## Pools in memory -/

theorem poolAt_of_objects (h : s.objc.objects a = some ⟨.other (.pool p), r⟩) : s.poolAt a = some p := by
  rw [poolAt, ObjC.getHostObject, h]
  rfl

theorem objects_of_poolAt (h : s.poolAt a = some p) : ∃ r, s.objc.objects a = some ⟨.other (.pool p), r⟩ := by
  unfold poolAt ObjC.getHostObject at h
  rcases hentry : s.objc.objects a with _ | ⟨o, r⟩
  · rw [hentry] at h
    cases h
  · rw [hentry] at h
    cases o with
    | other o => cases o <;> cases h; exact ⟨r, rfl⟩
    | _ => cases h

theorem poolAt_congr (h : s'.objc.objects a = s.objc.objects a) : s'.poolAt a = s.poolAt a := by
  rw [poolAt, poolAt, ObjC.getHostObject, ObjC.getHostObject, h]

theorem mem_numberAt {n : ℕ} : n ∈ s.numberAt a ↔ ∃ p, s.poolAt a = some p ∧ p.number = n := by
  unfold numberAt
  cases s.poolAt a <;> simp [eq_comm]

theorem borrowPool_ok (h : s.poolAt a = some p) : s.borrowPool a = .ok p := by
  obtain ⟨r, hr⟩ := objects_of_poolAt h
  rw [borrowPool, hr, unwrap, ok_bind, h, unwrap]

theorem setPool_ok (h : s.objc.objects a = some ⟨.other (.pool q), r⟩) :
    s.setPool a p = s.setObjects (Function.update s.objc.objects a (some ⟨.other (.pool p), r⟩)) := by
  rw [setPool, h]
  rfl

/-- in the good states, the pools that are alive are those on the stacks, with one reference -/
theorem Inv.objects (hi : s.Inv) (h : s.poolAt a = some p) : s.objc.objects a = some ⟨.other (.pool p), some 1⟩ := by
  obtain ⟨q, hq, -⟩ := hi.alive _ a (hi.stacked a p h)
  have hpool := poolAt_of_objects hq
  rw [h] at hpool
  cases hpool
  exact hq

theorem pendingPools_idle (h : ∀ f ∈ s.frames, f.toDrop = []) : s.pendingPools = [] := by
  rw [pendingPools, List.flatMap_eq_nil_iff]
  intro f hf
  rw [h f hf]
  rfl

theorem pendingObjects_idle (h : ∀ f ∈ s.frames, f.toDrop = []) : s.pendingObjects = s.frames.flatMap Frame.rest := by
  have hframe : ∀ f ∈ s.frames, (f.rest ++ f.toDrop.flatMap s.contents) = f.rest := by
    intro f hf
    rw [h f hf, List.flatMap_nil, List.append_nil]
  exact List.flatMap_congr hframe

theorem Inv.conserved (hi : s.Inv) : Conserved s where
  pools n := by
    rw [pendingPools_idle hi.idle, List.count_nil, Nat.add_zero]
    exact hi.dealloced n
  objects o := by
    rw [pendingObjects_idle hi.idle]
    exact hi.released o

/-! ## Additions and other objects -/

theorem addObject_inv (hi : s.Inv) (hpool : s.poolAt a = some p) : ∃ s', s.addObject a o = .ok s' ∧ s'.Inv := by
  have hobj := hi.objects hpool
  let q : NSAutoreleasePoolHostObject := { p with objects := p.objects ++ [o] }
  let s' : PoolState := { s.setObjects (Function.update s.objc.objects a (some ⟨.other (.pool q), some 1⟩)) with
    adds := s.adds ++ [(p.number, o)] }
  have hself : s'.poolAt a = some q := poolAt_of_objects (r := some 1) (Function.update_self _ _ _)
  have hother (b : ℕ) (hb : b ≠ a) : s'.poolAt b = s.poolAt b := poolAt_congr (Function.update_of_ne hb _ _)
  -- each pool is as it was, but for the objects of one
  have hold (b : ℕ) (r : NSAutoreleasePoolHostObject) (hr : s'.poolAt b = some r) :
      ∃ r', s.poolAt b = some r' ∧ r'.number = r.number ∧ r'.originalThread = r.originalThread := by
    by_cases hb : b = a
    · subst hb
      rw [hself] at hr
      cases hr
      exact ⟨p, hpool, rfl, rfl⟩
    · rw [hother b hb] at hr
      exact ⟨r, hr, rfl, rfl⟩
  refine ⟨s', ?_, ?_⟩
  · rw [addObject, borrowPool_ok hpool, ok_bind, setPool_ok hobj]
    rfl
  have hnumber := (hi.fresh a p hpool).2
  constructor
  · intro t b hb
    obtain ⟨r, hr, ht⟩ := hi.alive t b hb
    by_cases hba : b = a
    · subst hba
      rw [hobj] at hr
      cases hr
      exact ⟨q, Function.update_self _ _ _, ht⟩
    · exact ⟨r, (Function.update_of_ne hba _ _).trans hr, ht⟩
  · exact hi.nodup
  · intro b r hr
    obtain ⟨r', hr', -, ht⟩ := hold b r hr
    rw [← ht]
    exact hi.stacked b r' hr'
  · intro b c r r' hr hr' hn
    obtain ⟨r₁, h1, hn1, -⟩ := hold b r hr
    obtain ⟨r₂, h2, hn2, -⟩ := hold c r' hr'
    exact hi.numbers b c r₁ r₂ h1 h2 (by rw [hn1, hn2, hn])
  · intro b r hr
    obtain ⟨r', hr', hn, -⟩ := hold b r hr
    rw [← hn]
    exact hi.fresh b r' hr'
  · exact hi.offOld
  · intro e he
    rcases List.mem_append.1 he with he | he
    · exact hi.addsOld e he
    · rw [List.mem_singleton] at he
      subst he
      exact (hi.fresh a p hpool).1
  · intro b r hr x
    change (s.adds ++ [(p.number, o)]).count (r.number, x) = r.objects.count x
    rw [List.count_append, List.count_singleton]
    by_cases hba : b = a
    · subst hba
      rw [hself] at hr
      cases hr
      change s.adds.count (p.number, x) + _ = (p.objects ++ [o]).count x
      rw [hi.contents b p hpool, List.count_append, List.count_singleton]
      simp [q]
    · rw [hother b hba] at hr
      have hne : r.number ≠ p.number := fun hn => hba (hi.numbers b a r p hr hpool hn)
      rw [hi.contents b r hr]
      simp [Ne.symm hne]
  · exact hi.idle
  · exact hi.once
  · exact hi.dealloced
  · intro x
    have hsame : s'.addedToDrained x = s.addedToDrained x := by
      change (s.adds ++ [(p.number, o)]).countP _ = s.adds.countP _
      rw [List.countP_append, List.countP_singleton, if_neg (by simp [s', setObjects, hnumber])]
      rfl
    rw [hsame]
    exact hi.released x

theorem other_inv (hi : s.Inv) (ha : s.poolAt a = none) (hentry : ∀ e p, entry = some e → e.hostObject ≠ .other (.pool p)) :
    (s.setObjects (Function.update s.objc.objects a entry)).Inv := by
  have hself : (s.setObjects (Function.update s.objc.objects a entry)).poolAt a = none := by
    rw [poolAt, ObjC.getHostObject]
    change (match (Function.update s.objc.objects a entry a).map HostObjectEntry.hostObject with
      | some (.other (.pool p)) => some p
      | _ => none) = none
    rw [Function.update_self]
    rcases entry with _ | ⟨_ | _ | _ | _ | _, r⟩
    · rfl
    · rfl
    · rfl
    · rfl
    · exact absurd rfl (hentry _ _ rfl)
    · rfl
  have hsame (b : ℕ) : (s.setObjects (Function.update s.objc.objects a entry)).poolAt b = s.poolAt b := by
    by_cases hb : b = a
    · rw [hb, hself, ha]
    · exact poolAt_congr (Function.update_of_ne hb _ _)
  constructor
  · intro t b hb
    obtain ⟨p, hp, ht⟩ := hi.alive t b hb
    have hne : b ≠ a := by
      rintro rfl
      rw [poolAt_of_objects hp] at ha
      cases ha
    exact ⟨p, (Function.update_of_ne hne _ _).trans hp, ht⟩
  · exact hi.nodup
  · exact fun b p hp => hi.stacked b p (hsame b ▸ hp)
  · exact fun b c p q hp hq => hi.numbers b c p q (hsame b ▸ hp) (hsame c ▸ hq)
  · exact fun b p hp => hi.fresh b p (hsame b ▸ hp)
  · exact hi.offOld
  · exact hi.addsOld
  · exact fun b p hp => hi.contents b p (hsame b ▸ hp)
  · exact hi.idle
  · exact hi.once
  · exact hi.dealloced
  · exact hi.released

/-! ## Creations -/

theorem create_inv (hi : s.Inv) (ha : s.objc.objects a = none) : ∃ s', s.create t a = .ok s' ∧ s'.Inv := by
  let q : NSAutoreleasePoolHostObject := ⟨t, [], s.created⟩
  let s' : PoolState := { s.setObjects (Function.update s.objc.objects a (some ⟨.other (.pool q), some 1⟩)) with
    poolStacks := Function.update s.poolStacks t (s.poolStacks t ++ [a]), created := s.created + 1 }
  have hself : s'.poolAt a = some q := poolAt_of_objects (r := some 1) (Function.update_self _ _ _)
  have hother (b : ℕ) (hb : b ≠ a) : s'.poolAt b = s.poolAt b := poolAt_congr (Function.update_of_ne hb _ _)
  -- the address is on no stack yet
  have hnew (t' : ℕ) : a ∉ s.poolStacks t' := by
    intro h
    obtain ⟨p, hp, -⟩ := hi.alive t' a h
    rw [ha] at hp
    cases hp
  have hstack (t' b : ℕ) (hb : b ∈ s'.poolStacks t') : b ∈ s.poolStacks t' ∨ b = a ∧ t' = t := by
    by_cases ht : t' = t
    · subst ht
      change b ∈ Function.update s.poolStacks t' _ t' at hb
      rw [Function.update_self] at hb
      rcases List.mem_append.1 hb with hb | hb
      · exact .inl hb
      · exact .inr ⟨List.mem_singleton.1 hb, rfl⟩
    · change b ∈ Function.update s.poolStacks t _ t' at hb
      rw [Function.update_of_ne ht] at hb
      exact .inl hb
  refine ⟨s', ?_, ?_⟩
  · rw [create, ha, assert_ok Option.isNone_none]
    rfl
  constructor
  · intro t' b hb
    rcases hstack t' b hb with hb | ⟨rfl, rfl⟩
    · obtain ⟨p, hp, ht⟩ := hi.alive t' b hb
      have hne : b ≠ a := fun h => hnew t' (h ▸ hb)
      exact ⟨p, (Function.update_of_ne hne _ _).trans hp, ht⟩
    · exact ⟨q, Function.update_self _ _ _, rfl⟩
  · intro t'
    by_cases ht : t' = t
    · subst ht
      change (Function.update s.poolStacks t' _ t').Nodup
      rw [Function.update_self]
      exact (hi.nodup t').append (List.nodup_singleton a) (by simpa using hnew t')
    · change (Function.update s.poolStacks t _ t').Nodup
      rw [Function.update_of_ne ht]
      exact hi.nodup t'
  · intro b p hp
    by_cases hb : b = a
    · subst hb
      rw [hself] at hp
      cases hp
      change b ∈ Function.update s.poolStacks t _ t
      rw [Function.update_self]
      simp
    · rw [hother b hb] at hp
      have hmem := hi.stacked b p hp
      by_cases ht : p.originalThread = t
      · change b ∈ Function.update s.poolStacks t _ p.originalThread
        rw [ht, Function.update_self]
        exact List.mem_append_left _ (ht ▸ hmem)
      · change b ∈ Function.update s.poolStacks t _ p.originalThread
        rw [Function.update_of_ne ht]
        exact hmem
  · intro b c p r hp hr hn
    by_cases hb : b = a
    · by_cases hc : c = a
      · rw [hb, hc]
      · subst hb
        rw [hself] at hp
        cases hp
        rw [hother c hc] at hr
        have hlt := (hi.fresh c r hr).1
        exact absurd hn (Nat.ne_of_gt hlt)
    · rw [hother b hb] at hp
      by_cases hc : c = a
      · subst hc
        rw [hself] at hr
        cases hr
        have hlt := (hi.fresh b p hp).1
        exact absurd hn (Nat.ne_of_lt hlt)
      · rw [hother c hc] at hr
        exact hi.numbers b c p r hp hr hn
  · intro b p hp
    by_cases hb : b = a
    · subst hb
      rw [hself] at hp
      cases hp
      exact ⟨Nat.lt_succ_self _, fun h => absurd (hi.offOld _ h) (Nat.lt_irrefl _)⟩
    · rw [hother b hb] at hp
      exact ⟨Nat.lt_succ_of_lt (hi.fresh b p hp).1, (hi.fresh b p hp).2⟩
  · exact fun n hn => Nat.lt_succ_of_lt (hi.offOld n hn)
  · exact fun e he => Nat.lt_succ_of_lt (hi.addsOld e he)
  · intro b p hp x
    by_cases hb : b = a
    · subst hb
      rw [hself] at hp
      cases hp
      change s.adds.count (s.created, x) = ([] : List ℕ).count x
      rw [List.count_nil, List.count_eq_zero]
      exact fun h => absurd (hi.addsOld _ h) (Nat.lt_irrefl _)
    · rw [hother b hb] at hp
      exact hi.contents b p hp x
  · exact hi.idle
  · exact hi.once
  · exact hi.dealloced
  · exact hi.released

/-! ## Drains -/

/-- a pool on the stack, and the pools above it -/
theorem takeOff_append (h : a ∉ above) :
    takeOff (kept ++ a :: above) a = some (kept, above.reverse ++ [a]) := by
  have hrev : (kept ++ a :: above).reverse = above.reverse ++ a :: kept.reverse := by simp
  have habove : (above.reverse ++ a :: kept.reverse).takeWhile (· ≠ a) = above.reverse := by
    rw [List.takeWhile_append_of_pos, List.takeWhile_cons_of_neg (by simp), List.append_nil]
    intro b hb
    have hne : b ≠ a := fun hba => h (hba ▸ List.mem_reverse.1 hb)
    simpa using hne
  rw [takeOff, hrev, habove, List.drop_left]
  simp

/-- the drain of a pool with one reference -/
theorem drain_eq (hobj : s.objc.objects a = some ⟨.other (.pool p), some 1⟩) : s.drain t a =
    (s.setObjects (Function.update s.objc.objects a (some ⟨.other (.pool p), none⟩))).dealloc t a := by
  rw [drain, ObjC.decrementRefcount, ObjC.countedEntry, hobj]
  rfl

/-- the objects of a pool when they have been taken -/
theorem setPool_objects : (s.setPool a p).objc.objects this =
    if this = a then (s.objc.objects a).map fun entry => { entry with hostObject := .other (.pool p) }
    else s.objc.objects this := by
  change Function.update s.objc.objects a _ this = _
  rw [Function.update_apply]

/-- once the pool that is drained is no object any more, no further pool can be dropped -/
theorem dropPools_dead (h : s.objc.objects this = none) (toDrop : List ℕ) :
    ∃ e, dropPools t this (b :: toDrop) s = .error e := by
  rw [dropPools]
  cases hb : s.borrowPool b with
  | error e => exact ⟨e, rfl⟩
  | ok p =>
    have hdead : (s.setPool b { p with objects := [] }).objc.objects this = none := by
      rw [setPool_objects]
      split_ifs with heq
      · rw [← heq, h]
        rfl
      · exact h
    refine ⟨.missing, ?_⟩
    rw [ok_bind, deallocObject, ObjC.removeObject_none hdead]
    rfl

/-- the objects of a pool `b` have been taken, and the pool `this` with the number `n` has been deallocated -/
def dropped (s : PoolState) (b : ℕ) (p : NSAutoreleasePoolHostObject) (this n : ℕ) : PoolState :=
  let s := s.setPool b { p with objects := [] }
  { s.setObjects (Function.update s.objc.objects this none) with dealloced := s.dealloced ++ [n] }

/-- the first pool that is dropped: its objects are taken, and the pool that is drained is deallocated -/
theorem dropPools_alive (hp : s.poolAt b = some p)
    (hq : (s.setPool b { p with objects := [] }).poolAt this = some q) (toDrop : List ℕ) :
    dropPools t this (b :: toDrop) s =
      match p.objects with
      | [] => dropPools t this toDrop (s.dropped b p this q.number)
      | object :: rest => .ok ((s.dropped b p this q.number).beginRelease ⟨t, this, toDrop, rest⟩ object) := by
  obtain ⟨r, hthis⟩ := objects_of_poolAt hq
  rw [dropPools, borrowPool_ok hp, ok_bind, deallocObject, ObjC.removeObject_some hthis, ok_bind, numberAt, hq]
  rfl

/-- the state in which the youngest pool of a thread has been drained up to its first release -/
def afterYoungest (s : PoolState) (t a : ℕ) (p : NSAutoreleasePoolHostObject) : PoolState :=
  { s.setObjects (Function.update s.objc.objects a none) with
    poolStacks := Function.update s.poolStacks t (s.poolStacks t).dropLast
    off := s.off ++ [p.number]
    dealloced := s.dealloced ++ [p.number]
    frames := if p.objects = [] then s.frames else ⟨t, a, [], p.objects.tail⟩ :: s.frames
    released := s.released ++ p.objects.take 1 }

/-- the state in which a pool and those above it have been taken off the stack -/
def takenOff (s : PoolState) (t a : ℕ) (p : NSAutoreleasePoolHostObject) (kept toDrop : List ℕ) : PoolState :=
  let s := s.setObjects (Function.update s.objc.objects a (some ⟨.other (.pool p), none⟩))
  { s with poolStacks := Function.update s.poolStacks t kept, off := s.off ++ toDrop.flatMap s.numberAt }

/-- the drain of a pool on the stack -/
theorem drain_taken (hi : s.Inv) (hpool : s.poolAt a = some p) (hthread : p.originalThread = t)
    (hstack : s.poolStacks t = kept ++ a :: above) :
    s.drain t a = dropPools t a (above.reverse ++ [a]) (s.takenOff t a p kept (above.reverse ++ [a])) := by
  have hself : (s.setObjects (Function.update s.objc.objects a (some ⟨.other (.pool p), none⟩))).poolAt a = some p :=
    poolAt_of_objects (Function.update_self _ _ _)
  have habove : a ∉ above := by
    have hnodup := hi.nodup t
    rw [hstack] at hnodup
    exact (List.nodup_cons.1 (List.nodup_append.1 hnodup).2.1).1
  have htake : takeOff (s.poolStacks t) a = some (kept, above.reverse ++ [a]) := by
    rw [hstack]
    exact takeOff_append habove
  rw [drain_eq (hi.objects hpool), dealloc, borrowPool_ok hself, ok_bind, assert_ok (beq_iff_eq.2 hthread), ok_bind]
  change (match takeOff (s.poolStacks t) a with
    | none => _
    | some (kept, toDrop) => _) = _
  rw [htake]
  rfl

/-- **The youngest pool is drained**: it is deallocated, and its objects are released. -/
theorem drain_youngest (hi : s.Inv) (hpool : s.poolAt a = some p) (hthread : p.originalThread = t)
    (hlast : (s.poolStacks t).getLast? = some a) : s.drain t a = .ok (s.afterYoungest t a p) := by
  obtain ⟨kept, hstack⟩ := List.getLast?_eq_some_iff.1 hlast
  have hself : (s.takenOff t a p kept [a]).objc.objects a = some ⟨.other (.pool p), none⟩ := Function.update_self _ _ _
  have hdrop : ((s.takenOff t a p kept [a]).setPool a { p with objects := [] }).poolAt a = some { p with objects := [] } := by
    rw [setPool_ok hself]
    exact poolAt_of_objects (Function.update_self _ _ _)
  have hnumber : (s.takenOff t a p kept [a]).off = s.off ++ [p.number] := by
    have hat : (s.setObjects (Function.update s.objc.objects a (some ⟨.other (.pool p), none⟩))).poolAt a = some p :=
      poolAt_of_objects (Function.update_self _ _ _)
    change s.off ++ ([a].flatMap (s.setObjects _).numberAt) = _
    rw [List.flatMap_singleton, numberAt, hat]
    rfl
  have hdropLast : (s.poolStacks t).dropLast = kept := by rw [hstack, List.dropLast_concat]
  rw [drain_taken hi hpool hthread hstack]
  change dropPools t a [a] (s.takenOff t a p kept [a]) = _
  rw [dropPools_alive (poolAt_of_objects hself) hdrop, dropped, afterYoungest, hdropLast, ← hnumber, setPool_ok hself]
  cases p.objects with
  | nil => simp [dropPools, takenOff, setObjects, Function.update_idem]
  | cons object rest => simp [takenOff, setObjects, beginRelease, Function.update_idem]

/-- the additions to one pool more -/
theorem countP_off {adds : List (ℕ × ℕ)} {off : List ℕ} {n x : ℕ} (hn : n ∉ off) :
    adds.countP (fun e => e.2 = x ∧ e.1 ∈ off ++ [n]) =
      adds.countP (fun e => e.2 = x ∧ e.1 ∈ off) + adds.count (n, x) := by
  induction adds with
  | nil => rfl
  | cons e adds ih =>
    rw [List.countP_cons, List.countP_cons, List.count_cons, ih]
    obtain ⟨k, y⟩ := e
    by_cases hy : y = x
    · by_cases hk : k = n
      · simp [hy, hk, hn]
        omega
      · simp [hy, hk]
        omega
    · simp [hy]

theorem afterYoungest_inv (hi : s.Inv) (hpool : s.poolAt a = some p) (hthread : p.originalThread = t)
    (hlast : (s.poolStacks t).getLast? = some a) : (s.afterYoungest t a p).Inv := by
  obtain ⟨kept, hstack⟩ := List.getLast?_eq_some_iff.1 hlast
  have hdropLast : (s.poolStacks t).dropLast = kept := by rw [hstack, List.dropLast_concat]
  have hkept : kept.Nodup ∧ a ∉ kept := by
    have hnodup := hi.nodup t
    rw [hstack, List.nodup_append] at hnodup
    exact ⟨hnodup.1, fun h => hnodup.2.2 a h a (List.mem_singleton_self a) rfl⟩
  have hself : (s.afterYoungest t a p).poolAt a = none := by
    rw [poolAt, ObjC.getHostObject]
    change (match (Function.update s.objc.objects a none a).map HostObjectEntry.hostObject with
      | some (.other (.pool p)) => some p
      | _ => none) = none
    rw [Function.update_self]
    rfl
  -- the other pools are as they were
  have hother (b : ℕ) (q : NSAutoreleasePoolHostObject) (hq : (s.afterYoungest t a p).poolAt b = some q) :
      b ≠ a ∧ s.poolAt b = some q := by
    by_cases hb : b = a
    · subst hb
      rw [hself] at hq
      cases hq
    · refine ⟨hb, ?_⟩
      rw [← hq]
      exact (poolAt_congr (Function.update_of_ne hb _ _)).symm
  have hstacks (t' : ℕ) : (s.afterYoungest t a p).poolStacks t' = if t' = t then kept else s.poolStacks t' := by
    change Function.update s.poolStacks t _ t' = _
    rw [Function.update_apply, hdropLast]
  have hnumber := hi.fresh a p hpool
  have htail : p.objects.take 1 ++ p.objects.tail = p.objects := by cases p.objects <;> rfl
  constructor
  · intro t' b hb
    rw [hstacks] at hb
    have hmem : b ∈ s.poolStacks t' ∧ b ≠ a := by
      split_ifs at hb with ht
      · rw [ht, hstack]
        exact ⟨List.mem_append_left _ hb, fun h => hkept.2 (h ▸ hb)⟩
      · refine ⟨hb, fun h => ht ?_⟩
        obtain ⟨q, hq, hqt⟩ := hi.alive t' b hb
        rw [h, hi.objects hpool] at hq
        cases hq
        exact hqt.symm.trans hthread
    obtain ⟨q, hq, ht⟩ := hi.alive t' b hmem.1
    exact ⟨q, (Function.update_of_ne hmem.2 _ _).trans hq, ht⟩
  · intro t'
    rw [hstacks]
    split_ifs
    · exact hkept.1
    · exact hi.nodup t'
  · intro b q hq
    obtain ⟨hb, hq⟩ := hother b q hq
    have hmem := hi.stacked b q hq
    rw [hstacks]
    split_ifs with ht
    · rw [ht, hstack] at hmem
      simpa [hb] using hmem
    · exact hmem
  · intro b c q q' hq hq' hn
    exact hi.numbers b c q q' (hother b q hq).2 (hother c q' hq').2 hn
  · intro b q hq
    obtain ⟨hb, hq⟩ := hother b q hq
    obtain ⟨h1, h2⟩ := hi.fresh b q hq
    refine ⟨h1, fun hmem => ?_⟩
    rcases List.mem_append.1 hmem with hmem | hmem
    · exact h2 hmem
    · exact hb (hi.numbers b a q p hq hpool (List.mem_singleton.1 hmem))
  · intro n hn
    rcases List.mem_append.1 hn with hn | hn
    · exact hi.offOld n hn
    · rw [List.mem_singleton.1 hn]
      exact hnumber.1
  · exact hi.addsOld
  · intro b q hq
    exact hi.contents b q (hother b q hq).2
  · intro f hf
    change f ∈ (if p.objects = [] then s.frames else ⟨t, a, [], p.objects.tail⟩ :: s.frames) at hf
    split_ifs at hf
    · exact hi.idle f hf
    · rcases List.mem_cons.1 hf with rfl | hf
      · rfl
      · exact hi.idle f hf
  · change (s.off ++ [p.number]).Nodup
    exact hi.once.append (List.nodup_singleton _) (by simpa using hnumber.2)
  · intro n
    change (s.off ++ [p.number]).count n = (s.dealloced ++ [p.number]).count n
    rw [List.count_append, List.count_append, hi.dealloced n]
  · intro x
    change s.adds.countP (fun e => e.2 = x ∧ e.1 ∈ s.off ++ [p.number]) = (s.released ++ p.objects.take 1).count x +
      ((if p.objects = [] then s.frames else ⟨t, a, [], p.objects.tail⟩ :: s.frames).flatMap Frame.rest).count x
    have hframes : ((if p.objects = [] then s.frames else ⟨t, a, [], p.objects.tail⟩ :: s.frames).flatMap Frame.rest).count x =
        p.objects.tail.count x + (s.frames.flatMap Frame.rest).count x := by
      split_ifs with hempty
      · rw [hempty]
        simp
      · rw [List.flatMap_cons, List.count_append]
    have hobjects : p.objects.count x = (p.objects.take 1).count x + p.objects.tail.count x := by
      rw [← List.count_append, htail]
    have hold := hi.released x
    unfold addedToDrained at hold
    rw [countP_off hnumber.2, hi.contents a p hpool, hframes, List.count_append, hobjects, hold]
    omega

/-- **An older pool is drained**: the pools above it are taken off the stack and not deallocated, and soon a pool is to be
deallocated that is no object any more. -/
theorem drain_older (hi : s.Inv) (hpool : s.poolAt a = some p) (hthread : p.originalThread = t)
    (hstack : s.poolStacks t = kept ++ a :: above) (habove : above ≠ []) :
    ¬∃ s', s.drain t a = .ok s' ∧ Conserved s' := by
  rintro ⟨s', hs, hc⟩
  obtain ⟨l, q, rfl⟩ : ∃ l q, above = l ++ [q] := by
    rcases List.eq_nil_or_concat above with h | ⟨l, q, h⟩
    · exact absurd h habove
    · exact ⟨l, q, by rw [h, List.concat_eq_append]⟩
  have hnodup := hi.nodup t
  rw [hstack] at hnodup
  have hqmem : q ∈ s.poolStacks t := by
    rw [hstack]
    simp
  have hqa : q ≠ a := by
    rintro rfl
    simp [List.nodup_append] at hnodup
  have hql : q ∉ l := by
    intro h
    simp [List.nodup_append] at hnodup
    exact hnodup.2.1.2.2 q h rfl
  obtain ⟨pq, hobj, -⟩ := hi.alive t q hqmem
  have hpq := poolAt_of_objects hobj
  have hrev : (l ++ [q]).reverse ++ [a] = q :: (l.reverse ++ [a]) := by simp
  rw [drain_taken hi hpool hthread hstack, hrev] at hs
  let s₁ := s.takenOff t a p kept (q :: (l.reverse ++ [a]))
  have hobjects (b : ℕ) : s₁.objc.objects b = if b = a then some ⟨.other (.pool p), none⟩ else s.objc.objects b := by
    change Function.update s.objc.objects a _ b = _
    rw [Function.update_apply]
  have hat : s₁.poolAt q = some pq := by
    rw [← hpq]
    exact poolAt_congr ((hobjects q).trans (if_neg hqa))
  have hthis : (s₁.setPool q { pq with objects := [] }).poolAt a = some p := by
    refine poolAt_of_objects (r := none) ?_
    rw [setPool_objects, if_neg (Ne.symm hqa), hobjects, if_pos rfl]
  rw [dropPools_alive hat hthis] at hs
  have hdead : (s₁.dropped q pq a p.number).objc.objects a = none := Function.update_self _ _ _
  cases hempty : pq.objects with
  | nil =>
    -- the pool that is drained is dead now
    rw [hempty] at hs
    obtain ⟨b, rest, hb⟩ : ∃ b rest, l.reverse ++ [a] = b :: rest := by
      cases l.reverse with
      | nil => exact ⟨a, [], rfl⟩
      | cons b rest => exact ⟨b, rest ++ [a], rfl⟩
    rw [hb] at hs
    obtain ⟨e, he⟩ := dropPools_dead (t := t) (b := b) hdead rest
    cases he.symm.trans hs
  | cons object rest =>
    rw [hempty] at hs
    cases hs
    have hold := (hi.fresh q pq hpq).2
    -- the youngest pool is off the stack, and neither deallocated nor still to be dropped
    have hoff : pq.number ∈ ((s₁.dropped q pq a p.number).beginRelease ⟨t, a, l.reverse ++ [a], rest⟩ object).off := by
      change pq.number ∈ s.off ++ (q :: (l.reverse ++ [a])).flatMap _
      rw [List.flatMap_cons]
      have hnumber : pq.number ∈ (s.setObjects (Function.update s.objc.objects a (some ⟨.other (.pool p), none⟩))).numberAt q := by
        have hat' : (s.setObjects (Function.update s.objc.objects a (some ⟨.other (.pool p), none⟩))).poolAt q = some pq := hat
        rw [numberAt, hat']
        exact List.mem_singleton_self _
      exact List.mem_append_right _ (List.mem_append_left _ hnumber)
    have hdealloced : (s.dealloced ++ [p.number]).count pq.number = 0 := by
      have hne : p.number ≠ pq.number := fun h => hqa (hi.numbers q a pq p hpq hpool h.symm)
      rw [List.count_append, ← hi.dealloced, List.count_eq_zero.2 hold, List.count_singleton, if_neg (by simpa using hne)]
    have hpending : pq.number ∉
        ((s₁.dropped q pq a p.number).beginRelease ⟨t, a, l.reverse ++ [a], rest⟩ object).pendingPools := by
      intro hmem
      obtain ⟨f, hf, hmem⟩ := List.mem_flatMap.1 hmem
      obtain ⟨b, hb, hn⟩ := List.mem_flatMap.1 hmem
      rcases List.mem_cons.1 hf with rfl | hf
      · obtain ⟨r, hr, hrn⟩ := mem_numberAt.1 hn
        have hba : b ≠ a := by
          rintro rfl
          obtain ⟨x, hx⟩ := objects_of_poolAt hr
          rw [show ((s₁.dropped q pq b p.number).beginRelease _ object).objc.objects b = none from hdead] at hx
          cases hx
        have hbl : b ∈ l := by simpa [hba] using hb
        have hbq : b ≠ q := fun h => hql (h ▸ hbl)
        have hsame : ((s₁.dropped q pq a p.number).beginRelease ⟨t, a, l.reverse ++ [a], rest⟩ object).objc.objects b =
            s.objc.objects b := by
          refine (Function.update_of_ne hba _ _).trans ?_
          rw [setPool_objects, if_neg hbq, hobjects, if_neg hba]
        rw [poolAt_congr hsame] at hr
        exact hbq (hi.numbers b q r pq hr hpq hrn)
      · rw [hi.idle f hf] at hb
        exact absurd hb List.not_mem_nil
    have hcount := hc.pools pq.number
    rw [List.count_eq_zero.2 hpending, Nat.add_zero] at hcount
    change _ = (s.dealloced ++ [p.number]).count pq.number at hcount
    rw [hdealloced] at hcount
    exact List.count_eq_zero.1 hcount hoff

/-! ## Releases -/

theorem perm_eraseP {α : Type} {f : α} {l : List α} {q : α → Bool} (h : l.find? q = some f) : (f :: l.eraseP q).Perm l := by
  induction l with
  | nil => cases h
  | cons x l ih =>
    rw [List.find?_cons] at h
    cases hx : q x with
    | true =>
      rw [hx] at h
      cases h
      rw [List.eraseP_cons_of_pos hx]
    | false =>
      rw [hx] at h
      rw [List.eraseP_cons_of_neg (by simp [hx])]
      exact (List.Perm.swap x f _).trans ((ih h).cons x)

/-- the innermost drain of a thread goes on -/
theorem resume_inv (hi : s.Inv) (hframe : ∃ f ∈ s.frames, f.thread = t) : ∃ s', s.resume t = .ok s' ∧ s'.Inv := by
  obtain ⟨f, hf⟩ : ∃ f, s.frames.find? (·.thread == t) = some f := by
    obtain ⟨f, hf, ht⟩ := hframe
    rw [← Option.isSome_iff_exists, List.find?_isSome]
    exact ⟨f, hf, beq_iff_eq.2 ht⟩
  have hperm := perm_eraseP hf
  have hidle := hi.idle f (List.mem_of_find?_eq_some hf)
  have hrest : ∀ x, (s.frames.flatMap Frame.rest).count x =
      f.rest.count x + ((s.frames.eraseP (·.thread == t)).flatMap Frame.rest).count x := by
    intro x
    rw [← (hperm.flatMap_right Frame.rest).count_eq, List.flatMap_cons, List.count_append]
  have hsub : ∀ f' ∈ s.frames.eraseP (·.thread == t), f' ∈ s.frames := fun f' h => List.mem_of_mem_eraseP h
  cases hobjects : f.rest with
  | nil =>
    refine ⟨{ s with frames := s.frames.eraseP (·.thread == t) }, ?_, ?_⟩
    · rw [resume, hf]
      simp only [hobjects, hidle]
      rfl
    · refine { hi with idle := fun f' h => hi.idle f' (hsub f' h), released := fun x => ?_ }
      have hold := hi.released x
      rw [hrest x, hobjects, List.count_nil, Nat.zero_add] at hold
      exact hold
  | cons object rest =>
    refine ⟨({ s with frames := s.frames.eraseP (·.thread == t) } : PoolState).beginRelease { f with rest } object, ?_, ?_⟩
    · rw [resume, hf]
      simp only [hobjects]
      rfl
    · refine { hi with idle := fun f' h => ?_, released := fun x => ?_ }
      · rcases List.mem_cons.1 h with rfl | h
        · exact hidle
        · exact hi.idle f' (hsub f' h)
      · have hold := hi.released x
        rw [hrest x, hobjects, List.count_cons] at hold
        change s.addedToDrained x = (s.released ++ [object]).count x +
          (rest ++ (s.frames.eraseP (·.thread == t)).flatMap Frame.rest).count x
        rw [hold, List.count_append, List.count_append, List.count_singleton]
        omega

/-! ## Runs -/

theorem start_inv : start.Inv where
  alive _ _ ha := absurd ha List.not_mem_nil
  nodup _ := List.nodup_nil
  stacked _ _ hp := nomatch hp
  numbers _ _ _ _ hp := nomatch hp
  fresh _ _ hp := nomatch hp
  offOld _ hn := absurd hn List.not_mem_nil
  addsOld _ he := absurd he List.not_mem_nil
  contents _ _ hp := nomatch hp
  idle _ hf := absurd hf List.not_mem_nil
  once := List.nodup_nil
  dealloced _ := rfl
  released _ := rfl

/-- an operation of which every drain is one of the youngest pool -/
theorem step_inv (hi : s.Inv) {op : PoolOp} (hy : DrainsYoungest s op) : ∃ s', step s op = .ok s' ∧ s'.Inv := by
  obtain ⟨hl, hy⟩ := hy
  cases op with
  | create thread a => exact create_inv hi hl
  | addToCurrent thread object =>
    cases hlast : (s.poolStacks thread).getLast? with
    | none =>
      refine ⟨s, ?_, hi⟩
      rw [step, addToCurrent, hlast]
      rfl
    | some a =>
      obtain ⟨p, hp, -⟩ := hi.alive thread a (List.mem_of_getLast? hlast)
      obtain ⟨s', hs, hinv⟩ := addObject_inv (o := object) hi (poolAt_of_objects hp)
      refine ⟨s', ?_, hinv⟩
      rw [step, addToCurrent, hlast]
      exact hs
  | addObject a object =>
    obtain ⟨p, hp⟩ := hl
    exact addObject_inv hi hp
  | drain thread a =>
    obtain ⟨p, hp, ht⟩ := hi.alive thread a hl
    have hpool := poolAt_of_objects hp
    have hlast := hy thread a rfl
    exact ⟨_, drain_youngest hi hpool ht hlast, afterYoungest_inv hi hpool ht hlast⟩
  | resume thread => exact resume_inv hi hl
  | other a entry => exact ⟨_, rfl, other_inv hi hl.1 hl.2⟩

/-- **One operation**: whether nothing is lost or doubled. -/
theorem step_conserves_iff (hi : s.Inv) (op : PoolOp) : Conserves s op ↔ DrainsYoungest s op := by
  constructor
  · rintro ⟨hl, hconserves⟩
    refine ⟨hl, ?_⟩
    rintro thread a rfl
    by_contra hlast
    obtain ⟨p, hp, ht⟩ := hi.alive thread a hl
    obtain ⟨kept, above, hstack⟩ := List.append_of_mem hl
    have habove : above ≠ [] := by
      rintro rfl
      exact hlast (by rw [hstack, List.getLast?_concat])
    exact drain_older hi (poolAt_of_objects hp) ht hstack habove hconserves
  · intro hy
    obtain ⟨s', hs, hinv⟩ := step_inv hi hy
    exact ⟨hy.1, s', hs, hinv.conserved⟩

/-- **Pools and their contents.** In a run of creations, additions and drains on any threads, with any such operations while
objects are released, every operation succeeds and leaves nothing lost or doubled exactly if every drain is one of the
youngest pool of its thread. When no drain is under way then, every object has been released as often as it was added to
drained pools, and every pool that was taken off its stack has been deallocated once. -/
theorem conserved_iff (ops : List PoolOp) :
    (LegalRun step Conserves start ops ↔ LegalRun step DrainsYoungest start ops) ∧
    ∀ s, LegalRun step DrainsYoungest start ops → run step start ops = .ok s → s.frames = [] →
      (∀ o, s.released.count o = s.addedToDrained o) ∧ (∀ n ∈ s.off, s.dealloced.count n = 1) ∧
      ∀ n, s.dealloced.count n ≤ 1 := by
  have hkept : ∀ s op s', s.Inv → DrainsYoungest s op → step s op = .ok s' → s'.Inv := by
    intro s op s' hi hy hs
    obtain ⟨s'', hs', hinv⟩ := step_inv hi hy
    rw [hs] at hs'
    cases hs'
    exact hinv
  constructor
  · exact (legalRun_congr_of_kept hkept (fun s op hi => (step_conserves_iff hi op).symm) start_inv).symm
  · intro s hl hr hframes
    have hinv : s.Inv := hl.inv hkept start_inv hr
    refine ⟨fun o => ?_, fun n hn => ?_, fun n => ?_⟩
    · have hreleased := hinv.released o
      rw [hframes, List.flatMap_nil, List.count_nil, Nat.add_zero] at hreleased
      exact hreleased.symm
    · rw [← hinv.dealloced]
      exact List.count_eq_one_of_mem hinv.once hn
    · rw [← hinv.dealloced]
      exact List.nodup_iff_count_le_one.1 hinv.once n

/-- a pool with the object 7 -/
theorem conserved_iff_pool : LegalRun step DrainsYoungest start [.create 0 0x100, .addToCurrent 0 7, .drain 0 0x100, .resume 0] ∧
    ∀ s, run step start [.create 0 0x100, .addToCurrent 0 7, .drain 0 0x100, .resume 0] = .ok s →
      s.released.count 7 = s.addedToDrained 7 := by
  have hlegal : LegalRun step DrainsYoungest start [.create 0 0x100, .addToCurrent 0 7, .drain 0 0x100, .resume 0] := by
    refine ⟨⟨rfl, fun _ _ h => nomatch h⟩, fun s₁ h₁ => ?_⟩
    cases h₁
    refine ⟨⟨trivial, fun _ _ h => nomatch h⟩, fun s₂ h₂ => ?_⟩
    cases h₂
    refine ⟨⟨List.mem_cons_self, fun t a h => ?_⟩, fun s₃ h₃ => ?_⟩
    · cases h
      rfl
    · cases h₃
      exact ⟨⟨⟨_, List.mem_cons_self, rfl⟩, fun _ _ h => nomatch h⟩, fun _ _ => trivial⟩
  refine ⟨hlegal, fun s hs => ?_⟩
  have hframes : s.frames = [] := by
    cases hs
    rfl
  exact ((conserved_iff _).2 s hlegal hs hframes).1 7

/-- **An older pool is drained.** With a pool at 0x200 above it on the stack, the pool at 0x100 is deallocated first, and is
no object any more when its turn comes. -/
theorem older_pool : ¬∀ ops, LegalRun step Legal start ops → LegalRun step Conserves start ops := by
  intro hall
  have hlegal : LegalRun step Legal start [.create 0 0x100, .create 0 0x200, .drain 0 0x100] := by
    refine ⟨rfl, fun s₁ h₁ => ?_⟩
    cases h₁
    refine ⟨rfl, fun s₂ h₂ => ?_⟩
    cases h₂
    exact ⟨List.mem_cons_self, fun _ _ => trivial⟩
  obtain ⟨-, s', hs, -⟩ := ((hall _ hlegal).2 _ rfl).2 _ rfl |>.1
  cases hs

end PoolState

end TouchHLE
