/-
The collections of Core Foundation (`_touchHLE_NSMutableArray_non_retaining` in `ns_array.rs`,
`_touchHLE_NSMutableDictionary_non_retaining` in `ns_dictionary.rs`): subclasses of those that send `retain`, `copy` and
`release` messages, with callbacks or nothing in their place. The messages that they do not override are the superclass's.

- `DictionaryObject.send`: a message to such a dictionary, with what was stored as a ghost.
- `insert_cases`, `remove_cases`: what the operations of the table change and call, whatever the callbacks answer.
- `Balanced`: every pair was retained once, and once released if it is not in the table any more.
- `follows_callbacks`: runs.
-/
import TouchHLE.Foundation.CFDictionary
import TouchHLE.Foundation.MutableArray

namespace TouchHLE.CFCollections

open Machine Buckets Arrays

/-- no `retain`, `copy` or `release` message at all -/
def noMessages : References := ⟨0, [], []⟩

structure DictionaryObject where
  dict : CFDictionaryHostObject
  calls : List GuestCall
  /-- the messages to keys and values -/
  refs : References
  deallocated : Bool
  /-- the pairs that were to be stored -/
  given : List (ℕ × ℕ)
  /-- the pairs that were stored, as the callbacks returned them -/
  stored : List (ℕ × ℕ)

inductive DictionaryMessage where
  | setObject (object key : ℕ)
  | setValue (value key : ℕ)
  | removeObjectForKey (key : ℕ)
  | removeAllObjects
  /-- the pairs of the other dictionary, none if it is the dictionary itself -/
  | addEntriesFromDictionary (other : Option (List (ℕ × ℕ)))
  | dealloc

namespace DictionaryObject

/-- a dictionary after `initWithKeyCallbacks:andValueCallbacks:` -/
def created (k : CFDictionaryKeyCallBacks) (v : CFDictionaryValueCallBacks) : DictionaryObject :=
  ⟨⟨⟨[], 0⟩, k, v⟩, [], noMessages, false, [], []⟩

variable (s : DictionaryObject)

def setObject (object key : ℕ) : Except Panic DictionaryObject := do
  assert (key ≠ nil) .nilArgument
  let (dict, calls) ← s.dict.insert s.calls key object
  let stored := ((s.dict.retainKey s.calls key).1, s.dict.storedValue s.calls key object)
  pure { s with dict, calls, given := s.given ++ [(key, object)], stored := s.stored ++ [stored] }

def removeObjectForKey (key : ℕ) : Except Panic DictionaryObject := do
  assert (key ≠ nil) .nilArgument
  let (dict, calls, _) ← s.dict.remove s.calls key
  pure { s with dict, calls }

def withTable (table : DictionaryHostObject) : DictionaryObject := { s with dict := { s.dict with superclass := table } }

def dealloc : Except Panic DictionaryObject := pure { s.withTable ⟨[], 0⟩ with deallocated := true }

/-- inherited -/
def setValue (value key : ℕ) : Except Panic DictionaryObject :=
  if value = nil then s.removeObjectForKey key else s.setObject value key

/-- inherited: the table is that of the superclass, and its release sends messages -/
def removeAllObjects : Except Panic DictionaryObject :=
  pure { s.withTable ⟨[], 0⟩ with refs := s.dict.superclass.release s.refs }

/-- inherited: the other dictionary has no table while its pairs are added, and then the same as before -/
def addEntriesFromDictionary (other : Option (List (ℕ × ℕ))) : Except Panic DictionaryObject :=
  match other with
  | some entries => run (fun s e => s.setObject e.2 e.1) s entries
  | none => do
    let hostObj := s.dict.superclass
    let s ← run (fun s e => s.setObject e.2 e.1) (s.withTable ⟨[], 0⟩) (pairs hostObj.map)
    pure (s.withTable hostObj)

/-- the method that the message calls -/
def method : DictionaryMessage → Except Panic DictionaryObject
  | .setObject object key => s.setObject object key
  | .setValue value key => s.setValue value key
  | .removeObjectForKey key => s.removeObjectForKey key
  | .removeAllObjects => s.removeAllObjects
  | .addEntriesFromDictionary other => s.addEntriesFromDictionary other
  | .dealloc => s.dealloc

def send (message : DictionaryMessage) : Except Panic DictionaryObject := do
  assert (!s.deallocated) .deallocated
  s.method message

end DictionaryObject

/-! ## What is to hold -/

/-- the two objects of a pair -/
inductive Side where
  | key
  | value

namespace Side

def of : Side → ℕ × ℕ → ℕ
  | .key => Prod.fst
  | .value => Prod.snd

def retains (d : CFDictionaryHostObject) : Side → Bool
  | .key => d.keyCallbacks.retain.isSome
  | .value => d.valueCallbacks.retain.isSome

def releases (d : CFDictionaryHostObject) : Side → Bool
  | .key => d.keyCallbacks.release
  | .value => d.valueCallbacks.release

def ofRetain : Side → GuestCall → Option ℕ
  | .key, .retainKey k => some k
  | .value, .retainValue v => some v
  | _, _ => none

def ofRelease : Side → GuestCall → Option ℕ
  | .key, .releaseKey k => some k
  | .value, .releaseValue v => some v
  | _, _ => none

/-- the objects for which the callback was called -/
def retained (side : Side) (calls : List GuestCall) : List ℕ := calls.filterMap side.ofRetain

def released (side : Side) (calls : List GuestCall) : List ℕ := calls.filterMap side.ofRelease

end Side

/-- **What callbacks are for**: the one that retains is called once for each object that is stored, and the one that
releases once for each object that was stored and is not in the table any more. -/
structure Balanced (s : DictionaryObject) : Prop where
  retained : ∀ side, Side.retained side s.calls = if Side.retains s.dict side then s.given.map (Side.of side) else []
  released : ∀ side o, (Side.released side s.calls).count o +
      (if Side.releases s.dict side then ((pairs s.dict.superclass.map).map (Side.of side)).count o else 0) =
    if Side.releases s.dict side then (s.stored.map (Side.of side)).count o else 0

/-- neither messages nor calls -/
def Silent (s : DictionaryObject) : Prop := s.refs = noMessages ∧ s.calls = []

/-- the inherited methods that retain and release are for nil only -/
def ArraySpared (s : ArrayState) : ArrayMessage → Prop
  | .insertObject object _ => object = nil
  | .replaceObjectAtIndex index obj => obj = nil ∧ s.array[index]? = some nil
  | .removeAllObjects => ∀ e ∈ s.array, e = nil
  | _ => True

/-- `removeAllObjects` is for an empty dictionary -/
def DictionarySpared (s : DictionaryObject) : DictionaryMessage → Prop
  | .removeAllObjects => pairs s.dict.superclass.map = []
  | _ => True

/-- what leaves the table otherwise than by a key is for a dictionary that is empty or has no callbacks that release -/
def CallbacksSpared (s : DictionaryObject) : DictionaryMessage → Prop
  | .setObject _ _ | .setValue _ _ | .removeObjectForKey _ | .addEntriesFromDictionary (some _) => True
  | .removeAllObjects | .dealloc | .addEntriesFromDictionary none =>
    pairs s.dict.superclass.map = [] ∨ ∀ side, Side.releases s.dict side = false

/-! ## The table -/

section

variable {d d' : CFDictionaryHostObject} {calls calls' : List GuestCall} {key value o : ℕ} {e : ℕ × ℕ} {side : Side}

/-- the calls to the guest when a pair is released -/
def releaseCalls (d : CFDictionaryHostObject) (e : ℕ × ℕ) : List GuestCall := d.releaseValue (d.releaseKey [] e.1) e.2

def retainCalls (d : CFDictionaryHostObject) (e : ℕ × ℕ) : List GuestCall :=
  (d.retainValue (d.retainKey [] e.1).2 e.2).2

theorem releaseCalls_eq (d : CFDictionaryHostObject) (calls : List GuestCall) (e : ℕ × ℕ) :
    d.releaseValue (d.releaseKey calls e.1) e.2 = calls ++ releaseCalls d e := by
  unfold releaseCalls CFDictionaryHostObject.releaseValue CFDictionaryHostObject.releaseKey
  split_ifs <;> simp

theorem retainCalls_eq (d : CFDictionaryHostObject) (calls : List GuestCall) (e : ℕ × ℕ) :
    (d.retainValue (d.retainKey calls e.1).2 e.2).2 = calls ++ retainCalls d e := by
  unfold retainCalls CFDictionaryHostObject.retainValue CFDictionaryHostObject.retainKey
  cases d.keyCallbacks.retain <;> cases d.valueCallbacks.retain <;> simp

theorem released_retainCalls (d : CFDictionaryHostObject) (e : ℕ × ℕ) : Side.released side (retainCalls d e) = [] := by
  unfold retainCalls CFDictionaryHostObject.retainValue CFDictionaryHostObject.retainKey
  cases d.keyCallbacks.retain <;> cases d.valueCallbacks.retain <;> cases side <;> rfl

theorem retained_retainCalls (d : CFDictionaryHostObject) (e : ℕ × ℕ) :
    Side.retained side (retainCalls d e) = if Side.retains d side then [side.of e] else [] := by
  unfold retainCalls CFDictionaryHostObject.retainValue CFDictionaryHostObject.retainKey
  cases side <;> unfold Side.retains <;> cases d.keyCallbacks.retain <;> cases d.valueCallbacks.retain <;> rfl

theorem retained_releaseCalls (d : CFDictionaryHostObject) (e : ℕ × ℕ) : Side.retained side (releaseCalls d e) = [] := by
  unfold releaseCalls CFDictionaryHostObject.releaseValue CFDictionaryHostObject.releaseKey
  cases d.keyCallbacks.release <;> cases d.valueCallbacks.release <;> cases side <;> rfl

theorem released_releaseCalls (d : CFDictionaryHostObject) (e : ℕ × ℕ) :
    Side.released side (releaseCalls d e) = if Side.releases d side then [side.of e] else [] := by
  unfold releaseCalls CFDictionaryHostObject.releaseValue CFDictionaryHostObject.releaseKey
  cases side <;> unfold Side.releases <;> cases d.keyCallbacks.release <;> cases d.valueCallbacks.release <;> rfl

theorem retained_append (a b : List GuestCall) : side.retained (a ++ b) = side.retained a ++ side.retained b :=
  List.filterMap_append

theorem released_append (a b : List GuestCall) : side.released (a ++ b) = side.released a ++ side.released b :=
  List.filterMap_append

theorem retained_calls (d : CFDictionaryHostObject) (given old : List (ℕ × ℕ)) :
    side.retained (given.flatMap (retainCalls d) ++ old.flatMap (releaseCalls d)) =
      if Side.retains d side then given.map side.of else [] := by
  have hrelease : side.retained (old.flatMap (releaseCalls d)) = [] := by
    induction old with
    | nil => rfl
    | cons e old ih => rw [List.flatMap_cons, retained_append, retained_releaseCalls, ih, List.append_nil]
  rw [retained_append, hrelease, List.append_nil]
  induction given with
  | nil => exact (ite_self _).symm
  | cons e given ih =>
    rw [List.flatMap_cons, retained_append, retained_retainCalls, ih]
    split_ifs <;> rfl

theorem released_calls (d : CFDictionaryHostObject) (given old : List (ℕ × ℕ)) :
    side.released (given.flatMap (retainCalls d) ++ old.flatMap (releaseCalls d)) =
      if Side.releases d side then old.map side.of else [] := by
  have hretain : side.released (given.flatMap (retainCalls d)) = [] := by
    induction given with
    | nil => rfl
    | cons e given ih => rw [List.flatMap_cons, released_append, released_retainCalls, ih, List.append_nil]
  rw [released_append, hretain, List.nil_append]
  induction old with
  | nil => exact (ite_self _).symm
  | cons e old ih =>
    rw [List.flatMap_cons, released_append, released_releaseCalls, ih]
    split_ifs <;> rfl

/-- **Removal**, whatever the callbacks answer: the pairs that leave the table, one at most, are released. -/
theorem remove_cases {removed : Bool} (hn : (d.superclass.map.map Prod.fst).Nodup)
    (h : d.remove calls key = .ok (d', calls', removed)) : ∃ old t, d' = { d with superclass := t } ∧
      calls' = calls ++ old.flatMap (releaseCalls d) ∧ (t.map.map Prod.fst).Nodup ∧
      (pairs d.superclass.map).Perm (old ++ pairs t.map) := by
  unfold CFDictionaryHostObject.remove at h
  cases hb : d.superclass.map.lookup (d.hash key) with
  | none =>
    simp only [hb] at h
    cases h
    exact ⟨[], d.superclass, rfl, (List.append_nil _).symm, hn, List.Perm.refl _⟩
  | some collisions =>
    cases hp : position d.equalKeys key collisions with
    | none =>
      simp only [hb, hp] at h
      cases h
      exact ⟨[], d.superclass, rfl, (List.append_nil _).symm, hn, List.Perm.refl _⟩
    | some pos =>
      obtain ⟨pre, e, post, rfl, rfl, -, -⟩ := position_cases hp
      simp only [hb, hp] at h
      obtain ⟨count, -, hd⟩ := bind_eq_ok.1 h
      have he : (pre ++ e :: post).getD pre.length (nil, nil) = e := by simp
      have herase : (pre ++ e :: post).eraseIdx pre.length = pre ++ post := by
        rw [List.eraseIdx_append_of_length_le le_rfl, Nat.sub_self, List.eraseIdx_cons_zero]
      simp only [he, herase, releaseCalls_eq] at hd
      cases hd
      refine ⟨[e], ⟨Assoc.insert (d.hash key) (pre ++ post) d.superclass.map, count⟩, rfl, by rw [List.flatMap_singleton],
        Assoc.nodup_insert hn, ?_⟩
      refine (pairs_perm (d.hash key) hn).trans ?_
      rw [bucket, hb, pairs_insert, Option.getD_some, List.append_assoc, List.append_assoc]
      exact List.perm_middle

/-- the pair that an insertion stores -/
def newPair (d : CFDictionaryHostObject) (calls : List GuestCall) (key value : ℕ) : ℕ × ℕ :=
  ((d.retainKey calls key).1, d.storedValue calls key value)

/-- **Insertion**: the new pair is retained, and the pairs that leave the table for it are released. -/
theorem insert_cases (hn : (d.superclass.map.map Prod.fst).Nodup) (h : d.insert calls key value = .ok (d', calls')) :
    ∃ old rest t, d' = { d with superclass := t } ∧
      calls' = calls ++ (retainCalls d (key, value) ++ old.flatMap (releaseCalls d)) ∧ (t.map.map Prod.fst).Nodup ∧
      (pairs d.superclass.map).Perm (old ++ rest) ∧ (pairs t.map).Perm (newPair d calls key value :: rest) := by
  obtain ⟨key', calls₁, hkey⟩ : ∃ key' calls₁, d.retainKey calls key = (key', calls₁) := ⟨_, _, rfl⟩
  obtain ⟨value', calls₂, hvalue⟩ : ∃ value' calls₂, d.retainValue calls₁ value = (value', calls₂) := ⟨_, _, rfl⟩
  have hcalls := retainCalls_eq d calls (key, value)
  simp only [hkey, hvalue] at hcalls
  rw [newPair, CFDictionaryHostObject.storedValue, hkey, hvalue]
  rw [CFDictionaryHostObject.insert, hkey] at h
  simp only [hvalue] at h
  obtain ⟨count, -, h⟩ := bind_eq_ok.1 h
  -- a pair at the end of its bucket
  have hpush (t : List (ℕ × List (ℕ × ℕ))) (hn : (t.map Prod.fst).Nodup) (e : ℕ × ℕ) :
      (pairs (Assoc.insert (d.hash key) (bucket t (d.hash key) ++ [e]) t)).Perm (e :: pairs t) := by
    rw [pairs_insert, List.append_assoc]
    exact List.perm_middle.trans ((pairs_perm _ hn).symm.cons _)
  cases hb : d.superclass.map.lookup (d.hash key) with
  | none =>
    simp only [CFDictionaryHostObject.withCount, hb] at h
    cases h
    have hbucket : bucket d.superclass.map (d.hash key) = [] := by
      rw [bucket, hb]
      rfl
    have hperm := hpush d.superclass.map hn (key', value')
    rw [hbucket, List.nil_append] at hperm
    refine ⟨[], _, ⟨_, count⟩, rfl, ?_, Assoc.nodup_insert hn, List.Perm.refl _, hperm⟩
    rw [hcalls, List.flatMap_nil, List.append_nil]
  | some collisions =>
    simp only [CFDictionaryHostObject.withCount, hb] at h
    obtain ⟨⟨d₁, calls₁, removed⟩, hremove, h⟩ := bind_eq_ok.1 h
    obtain ⟨collisions', hcollisions, h⟩ := bind_eq_ok.1 h
    have hbucket : bucket d₁.superclass.map (d.hash key) = collisions' := by
      rw [bucket, unwrap_eq_ok.1 hcollisions]
      rfl
    rw [← hbucket] at h
    cases h
    have hn₁ : ((d.withCount count).superclass.map.map Prod.fst).Nodup := hn
    obtain ⟨old, t, rfl, rfl, hn', hperm⟩ := remove_cases hn₁ hremove
    refine ⟨old, pairs t.map, ⟨_, t.count⟩, rfl, ?_, Assoc.nodup_insert hn', hperm, hpush _ hn' _⟩
    rw [hcalls, List.append_assoc]
    rfl

end

/-! ## The methods -/

section

variable {s s' t : DictionaryObject} {side : Side} {o object key : ℕ} {message : DictionaryMessage}

/-- how often an object is among the pairs that are stored, minus how often it is among those that are there or were
released -/
def owed (s : DictionaryObject) (side : Side) (o : ℕ) : ℤ :=
  (if Side.releases s.dict side then
    ((s.stored.map side.of).count o : ℤ) - ((pairs s.dict.superclass.map).map side.of).count o else 0) -
  (side.released s.calls).count o

/-- what the methods keep that work by keys -/
structure Kept (s s' : DictionaryObject) : Prop where
  keyCallbacks : s'.dict.keyCallbacks = s.dict.keyCallbacks
  valueCallbacks : s'.dict.valueCallbacks = s.dict.valueCallbacks
  refs : s'.refs = s.refs
  nodup : (s'.dict.superclass.map.map Prod.fst).Nodup
  given : ∃ l, s'.given = s.given ++ l ∧
    ∀ side, Side.retained side s'.calls = side.retained s.calls ++ if Side.retains s.dict side then l.map side.of else []
  owed : ∀ side o, owed s' side o = owed s side o
  /-- without callbacks -/
  calls : (∀ side, Side.retains s.dict side = false ∧ Side.releases s.dict side = false) → s'.calls = s.calls
  keys : Side.retains s.dict .key = false → (∀ e ∈ pairs s.dict.superclass.map, e.1 ≠ nil) →
    ∀ e ∈ pairs s'.dict.superclass.map, e.1 ≠ nil

theorem Kept.retains (h : Kept s s') (side : Side) : Side.retains s'.dict side = Side.retains s.dict side := by
  cases side
  · exact congrArg (fun k => k.retain.isSome) h.keyCallbacks
  · exact congrArg (fun v => v.retain.isSome) h.valueCallbacks

theorem Kept.releases (h : Kept s s') (side : Side) : Side.releases s'.dict side = Side.releases s.dict side := by
  cases side
  · exact congrArg CFDictionaryKeyCallBacks.release h.keyCallbacks
  · exact congrArg CFDictionaryValueCallBacks.release h.valueCallbacks

theorem Kept.refl (hn : (s.dict.superclass.map.map Prod.fst).Nodup) : Kept s s where
  keyCallbacks := rfl
  valueCallbacks := rfl
  refs := rfl
  nodup := hn
  given := ⟨[], (List.append_nil _).symm, fun side => by simp⟩
  owed _ _ := rfl
  calls _ := rfl
  keys _ h := h

theorem Kept.trans (h : Kept s t) (h' : Kept t s') : Kept s s' where
  keyCallbacks := h'.keyCallbacks.trans h.keyCallbacks
  valueCallbacks := h'.valueCallbacks.trans h.valueCallbacks
  refs := h'.refs.trans h.refs
  nodup := h'.nodup
  given := by
    obtain ⟨l, hl, hcalls⟩ := h.given
    obtain ⟨l', hl', hcalls'⟩ := h'.given
    refine ⟨l ++ l', by rw [hl', hl, List.append_assoc], fun side => ?_⟩
    rw [hcalls', hcalls, h.retains, List.append_assoc, List.map_append]
    split_ifs <;> rfl
  owed side o := (h'.owed side o).trans (h.owed side o)
  calls hnone := (h'.calls fun side => by rw [h.retains, h.releases]; exact hnone side).trans (h.calls hnone)
  keys hnone hkeys := h'.keys (by rw [h.retains]; exact hnone) (h.keys hnone hkeys)

theorem retainCalls_none {d : CFDictionaryHostObject} (h : ∀ side, Side.retains d side = false) (e : ℕ × ℕ) :
    retainCalls d e = [] := by
  have hkey : d.keyCallbacks.retain = none := by simpa [Side.retains] using h .key
  have hvalue : d.valueCallbacks.retain = none := by simpa [Side.retains] using h .value
  rw [retainCalls, CFDictionaryHostObject.retainValue, CFDictionaryHostObject.retainKey, hkey, hvalue]

theorem releaseCalls_none {d : CFDictionaryHostObject} (h : ∀ side, Side.releases d side = false) (e : ℕ × ℕ) :
    releaseCalls d e = [] := by
  have hkey : d.keyCallbacks.release = false := h .key
  have hvalue : d.valueCallbacks.release = false := h .value
  rw [releaseCalls, CFDictionaryHostObject.releaseValue, CFDictionaryHostObject.releaseKey, hkey, hvalue]
  rfl

theorem calls_none {d : CFDictionaryHostObject} (h : ∀ side, Side.retains d side = false ∧ Side.releases d side = false)
    (given old : List (ℕ × ℕ)) : given.flatMap (retainCalls d) ++ old.flatMap (releaseCalls d) = [] := by
  have hgiven : ∀ e ∈ given, retainCalls d e = [] := fun e _ => retainCalls_none (fun side => (h side).1) e
  have hold : ∀ e ∈ old, releaseCalls d e = [] := fun e _ => releaseCalls_none (fun side => (h side).2) e
  rw [List.flatMap_eq_nil_iff.2 hgiven, List.flatMap_eq_nil_iff.2 hold, List.nil_append]

theorem count_of_perm {l a b : List (ℕ × ℕ)} (h : l.Perm (a ++ b)) :
    (l.map side.of).count o = (a.map side.of).count o + (b.map side.of).count o := by
  rw [(h.map side.of).count_eq, List.map_append, List.count_append]

/-- some pairs leave the table and are released, others come to it and have been retained -/
theorem Kept.exchange {t : DictionaryHostObject} {old rest : List (ℕ × ℕ)} (given stored : List (ℕ × ℕ))
    (hn : (t.map.map Prod.fst).Nodup)
    (hold : (pairs s.dict.superclass.map).Perm (old ++ rest)) (hnew : (pairs t.map).Perm (stored ++ rest))
    (hkeys : Side.retains s.dict .key = false → ∀ e ∈ stored, e.1 ≠ nil) :
    Kept s { s with
      dict := { s.dict with superclass := t }
      calls := s.calls ++ (given.flatMap (retainCalls s.dict) ++ old.flatMap (releaseCalls s.dict))
      given := s.given ++ given
      stored := s.stored ++ stored } where
  keyCallbacks := rfl
  valueCallbacks := rfl
  refs := rfl
  nodup := hn
  given := ⟨given, rfl, fun side => by rw [retained_append, retained_calls]⟩
  owed side o := by
    have hreleases : Side.releases { s.dict with superclass := t } side = Side.releases s.dict side := by cases side <;> rfl
    unfold CFCollections.owed
    dsimp only
    rw [hreleases, released_append, released_calls, count_of_perm hold, count_of_perm hnew, List.map_append,
      List.count_append,
      List.count_append]
    split_ifs
    · omega
    · rfl
  calls hnone := by rw [calls_none hnone, List.append_nil]
  keys hnone hall e he := by
    rcases List.mem_append.1 (hnew.mem_iff.1 he) with he | he
    · exact hkeys hnone e he
    · exact hall e (hold.mem_iff.2 (List.mem_append_right _ he))

theorem removeObjectForKey_kept (hn : (s.dict.superclass.map.map Prod.fst).Nodup) (h : s.removeObjectForKey key = .ok s') :
    Kept s s' := by
  obtain ⟨-, -, h⟩ := bind_eq_ok.1 h
  obtain ⟨⟨d, calls, removed⟩, hremove, h⟩ := bind_eq_ok.1 h
  cases h
  obtain ⟨old, t, rfl, rfl, hn', hperm⟩ := remove_cases hn hremove
  have hkept := Kept.exchange [] [] hn' hperm (List.Perm.refl _) fun _ e he => by cases he
  simp only [List.append_nil] at hkept
  exact hkept

theorem setObject_kept (hn : (s.dict.superclass.map.map Prod.fst).Nodup) (h : s.setObject object key = .ok s') :
    Kept s s' ∧ pairs s'.dict.superclass.map ≠ [] := by
  obtain ⟨u, hkey, h⟩ := bind_eq_ok.1 h
  have hkey : key ≠ nil := of_decide_eq_true (assert_eq_ok.1 hkey)
  obtain ⟨⟨d, calls⟩, hinsert, h⟩ := bind_eq_ok.1 h
  cases h
  obtain ⟨old, rest, t, rfl, rfl, hn', hold, hnew⟩ := insert_cases hn hinsert
  refine ⟨?_, fun hnil => ?_⟩
  · have hkeys (hnone : Side.retains s.dict .key = false) : ∀ e ∈ [newPair s.dict s.calls key object], e.1 ≠ nil := by
      intro e he
      obtain rfl := List.mem_singleton.1 he
      have hretain : s.dict.keyCallbacks.retain = none := by simpa [Side.retains] using hnone
      rw [newPair, CFDictionaryHostObject.retainKey, hretain]
      exact hkey
    have hkept := Kept.exchange [(key, object)] _ hn' hold hnew hkeys
    rw [List.flatMap_singleton] at hkept
    exact hkept
  · rw [hnil] at hnew
    exact List.cons_ne_nil _ _ hnew.nil_eq.symm

theorem setValue_kept {value : ℕ} (hn : (s.dict.superclass.map.map Prod.fst).Nodup) (h : s.setValue value key = .ok s') :
    Kept s s' := by
  unfold DictionaryObject.setValue at h
  split_ifs at h
  · exact removeObjectForKey_kept hn h
  · exact (setObject_kept hn h).1

theorem setObjects_kept {entries : List (ℕ × ℕ)} (hn : (s.dict.superclass.map.map Prod.fst).Nodup)
    (h : run (fun s e => s.setObject e.2 e.1) s entries = .ok s') :
    Kept s s' ∧ (entries ≠ [] → pairs s'.dict.superclass.map ≠ []) := by
  cases entries with
  | nil =>
    cases h
    exact ⟨Kept.refl hn, fun hne => absurd rfl hne⟩
  | cons e entries =>
    obtain ⟨s₁, hfirst, hrest⟩ := run_cons_ok.1 h
    obtain ⟨hkept, hne⟩ := setObject_kept hn hfirst
    have hall := run_inv (P := fun t => Kept s t ∧ pairs t.dict.superclass.map ≠ []) (fun t e t' ht hstep => ?_) ⟨hkept,
        hne⟩ hrest
    · exact ⟨hall.1, fun _ => hall.2⟩
    · obtain ⟨hkept', hne'⟩ := setObject_kept ht.1.nodup hstep
      exact ⟨ht.1.trans hkept', hne'⟩

/-- what a dictionary does that adds its own entries to itself: the pairs of `s₁` are lost -/
theorem addOwnEntries_cases
    (h : s.addEntriesFromDictionary none = .ok s') :
    ∃ s₁, Kept (s.withTable ⟨[], 0⟩) s₁ ∧ (pairs s₁.dict.superclass.map = [] ↔ pairs s.dict.superclass.map = []) ∧
      s' = s₁.withTable s.dict.superclass := by
  obtain ⟨s₁, hrun, h⟩ := bind_eq_ok.1 h
  cases h
  have hempty : ((s.withTable ⟨[], 0⟩).dict.superclass.map.map Prod.fst).Nodup := List.nodup_nil
  obtain ⟨hkept, hne⟩ := setObjects_kept hempty hrun
  refine ⟨s₁, hkept, ⟨fun hnil => by_contra fun hs => hne hs hnil, fun hnil => ?_⟩, rfl⟩
  rw [hnil] at hrun
  cases hrun
  rfl

/-! ## Callbacks -/

theorem balanced_iff : Balanced s ↔
    (∀ side, Side.retained side s.calls = if Side.retains s.dict side then s.given.map side.of else []) ∧
      ∀ side o, owed s side o = 0 := by
  have hreleased (side : Side) (o : ℕ) : (Side.released side s.calls).count o +
      (if Side.releases s.dict side then ((pairs s.dict.superclass.map).map (Side.of side)).count o else 0) =
      (if Side.releases s.dict side then (s.stored.map (Side.of side)).count o else 0) ↔ owed s side o = 0 := by
    unfold owed
    split_ifs <;> omega
  exact ⟨fun h => ⟨h.retained, fun side o => (hreleased side o).1 (h.released side o)⟩,
    fun h => ⟨h.1, fun side o => (hreleased side o).2 (h.2 side o)⟩⟩

theorem Kept.balanced (h : Kept s s') (hs : Balanced s) : Balanced s' := by
  rw [balanced_iff] at hs ⊢
  obtain ⟨l, hgiven, hcalls⟩ := h.given
  refine ⟨fun side => ?_, fun side o => (h.owed side o).trans (hs.2 side o)⟩
  rw [hcalls, hs.1, h.retains, hgiven, List.map_append]
  split_ifs <;> rfl

/-- pairs leave the table, or come to it and leave it, without a call -/
theorem balanced_lost {l : List (ℕ × ℕ)} (hs : Balanced s)
    (hretained : ∀ side, Side.retained side s'.calls = if Side.retains s'.dict side then s'.given.map side.of else [])
    (howed : ∀ side o, owed s' side o = owed s side o + if Side.releases s.dict side then ((l.map side.of).count o :
    ℤ) else 0) :
    Balanced s' ↔ l = [] ∨ ∀ side, Side.releases s.dict side = false := by
  have hs := (balanced_iff.1 hs).2
  rw [balanced_iff]
  constructor
  · rintro ⟨-, h⟩
    refine or_iff_not_imp_left.2 fun hne side => Bool.eq_false_iff.2 fun hr => ?_
    obtain ⟨e, l, rfl⟩ := List.exists_cons_of_ne_nil hne
    have hzero := h side (side.of e)
    rw [howed, hs, if_pos hr, List.map_cons, List.count_cons_self] at hzero
    omega
  · intro h
    refine ⟨hretained, fun side o => ?_⟩
    rw [howed, hs]
    rcases h with rfl | h
    · split_ifs <;> rfl
    · rw [if_neg (by rw [h side]; decide)]
      rfl

@[simp] theorem retains_withTable (s : DictionaryObject) (table : DictionaryHostObject) (side : Side) :
    Side.retains (s.withTable table).dict side = Side.retains s.dict side := by cases side <;> rfl

@[simp] theorem releases_withTable (s : DictionaryObject) (table : DictionaryHostObject) (side : Side) :
    Side.releases (s.withTable table).dict side = Side.releases s.dict side := by cases side <;> rfl

theorem owed_withTable (table : DictionaryHostObject) (side : Side) (o : ℕ) :
    owed (s.withTable table) side o = owed s side o + if Side.releases s.dict side then
      (((pairs s.dict.superclass.map).map side.of).count o : ℤ) - ((pairs table.map).map side.of).count o else 0 := by
  unfold owed
  rw [releases_withTable]
  split_ifs
  · change ((s.stored.map side.of).count o : ℤ) - ((pairs table.map).map side.of).count o -
      (side.released s.calls).count o = _
    omega
  · exact (add_zero _).symm

theorem send_callbacks (hn : (s.dict.superclass.map.map Prod.fst).Nodup) (hs : Balanced s)
    (h : s.send message = .ok s') :
    (s'.dict.superclass.map.map Prod.fst).Nodup ∧ (Balanced s' ↔ CallbacksSpared s message) := by
  obtain ⟨-, -, h⟩ := bind_eq_ok.1 h
  have hbalanced := balanced_iff.1 hs
  -- the table is lost
  have hlost (t : DictionaryObject) (ht : t.dict = (s.withTable ⟨[], 0⟩).dict) (hcalls : t.calls = s.calls)
      (hgiven : t.given = s.given) (hstored : t.stored = s.stored) : (t.dict.superclass.map.map Prod.fst).Nodup ∧
      (Balanced t ↔ pairs s.dict.superclass.map = [] ∨ ∀ side, Side.releases s.dict side = false) := by
    have howed (side : Side) (o : ℕ) : owed t side o = owed (s.withTable ⟨[], 0⟩) side o := by
      unfold owed
      rw [ht, hcalls, hstored]
      rfl
    refine ⟨by rw [ht]; exact List.nodup_nil, balanced_lost hs (fun side => ?_) fun side o => ?_⟩
    · rw [hcalls, hgiven, ht, hbalanced.1, retains_withTable]
    · rw [howed, owed_withTable]
      simp [pairs]
  cases message with
  | setObject object key =>
    have hkept := (setObject_kept hn h).1
    exact ⟨hkept.nodup, fun _ => trivial, fun _ => hkept.balanced hs⟩
  | setValue value key =>
    have hkept := setValue_kept hn h
    exact ⟨hkept.nodup, fun _ => trivial, fun _ => hkept.balanced hs⟩
  | removeObjectForKey key =>
    have hkept := removeObjectForKey_kept hn h
    exact ⟨hkept.nodup, fun _ => trivial, fun _ => hkept.balanced hs⟩
  | removeAllObjects =>
    cases h
    exact hlost _ rfl rfl rfl rfl
  | dealloc =>
    cases h
    exact hlost _ rfl rfl rfl rfl
  | addEntriesFromDictionary other =>
    cases other with
    | some entries =>
      have hkept := (setObjects_kept hn h).1
      exact ⟨hkept.nodup, fun _ => trivial, fun _ => hkept.balanced hs⟩
    | none =>
      obtain ⟨s₁, hkept, hpairs, rfl⟩ := addOwnEntries_cases h
      refine ⟨hn, ?_⟩
      change _ ↔ _ ∨ _
      rw [← hpairs]
      obtain ⟨l, hgiven, hcalls⟩ := hkept.given
      refine balanced_lost hs (fun side => ?_) fun side o => ?_
      · have hcalls' :
            side.retained s₁.calls = side.retained s.calls ++ if Side.retains s.dict side then l.map side.of else [] := by
          rw [hcalls, retains_withTable]
          rfl
        have hgiven' : s₁.given = s.given ++ l := hgiven
        change side.retained s₁.calls = if _ then s₁.given.map side.of else []
        rw [hcalls', hbalanced.1, retains_withTable, hkept.retains, retains_withTable, hgiven', List.map_append]
        split_ifs <;> rfl
      · rw [owed_withTable, hkept.owed, owed_withTable, hkept.releases, releases_withTable]
        split_ifs <;> simp [pairs]

/-! ## No callbacks -/

def noKeyCallbacks : CFDictionaryKeyCallBacks := ⟨none, false, none, none⟩

def noValueCallbacks : CFDictionaryValueCallBacks := ⟨none, false⟩

/-- a dictionary that was created without callbacks -/
structure Plain (s : DictionaryObject) : Prop where
  nodup : (s.dict.superclass.map.map Prod.fst).Nodup
  none : ∀ side, Side.retains s.dict side = false ∧ Side.releases s.dict side = false
  keys : ∀ e ∈ pairs s.dict.superclass.map, e.1 ≠ nil

theorem Kept.plain (h : Kept s s') (hs : Plain s) : Plain s' :=
  ⟨h.nodup, fun side => by rw [h.retains, h.releases]; exact hs.none side, h.keys (hs.none .key).1 hs.keys⟩

theorem Kept.silent (h : Kept s s') (hp : Plain s) (hs : Silent s) : Silent s' :=
  ⟨h.refs.trans hs.1, (h.calls hp.none).trans hs.2⟩

theorem Plain.withTable (hp : Plain s) {table : DictionaryHostObject} (hn : (table.map.map Prod.fst).Nodup)
    (hkeys : ∀ e ∈ pairs table.map, e.1 ≠ nil) : Plain (s.withTable table) :=
  ⟨hn, fun side => by rw [retains_withTable, releases_withTable]; exact hp.none side, hkeys⟩

theorem release_silent {d : DictionaryHostObject} (hkeys : ∀ e ∈ pairs d.map, e.1 ≠ nil) :
    d.release noMessages = noMessages ↔ pairs d.map = [] := by
  constructor
  · intro h
    by_contra hne
    obtain ⟨e, l, hl⟩ := List.exists_cons_of_ne_nil hne
    have he : e.1 ≠ nil := hkeys e (by rw [hl]; exact List.mem_cons_self)
    have hcount := DictionaryState.releaseAll_given he (pairs d.map) noMessages
    have hgiven : (d.release noMessages).given.count e.1 = 0 := by
      rw [h]
      rfl
    rw [DictionaryHostObject.release, hcount, hl, DictionaryState.refsOf_cons, if_pos rfl] at hgiven
    omega
  · intro h
    rw [DictionaryHostObject.release, h]
    rfl

theorem send_plain (hp : Plain s) (hs : Silent s) (h : s.send message = .ok s') :
    Plain s' ∧ (Silent s' ↔ DictionarySpared s message) := by
  obtain ⟨-, -, h⟩ := bind_eq_ok.1 h
  have hempty : Plain (s.withTable ⟨[], 0⟩) := hp.withTable List.nodup_nil fun e he => by cases he
  have hkept (hk : Kept s s') : Plain s' ∧ (Silent s' ↔ True) := ⟨hk.plain hp, fun _ => trivial, fun _ => hk.silent hp hs⟩
  cases message with
  | setObject object key => exact hkept (setObject_kept hp.nodup h).1
  | setValue value key => exact hkept (setValue_kept hp.nodup h)
  | removeObjectForKey key => exact hkept (removeObjectForKey_kept hp.nodup h)
  | removeAllObjects =>
    cases h
    refine ⟨⟨hempty.nodup, hempty.none, hempty.keys⟩, ?_⟩
    rw [Silent, hs.1, release_silent hp.keys]
    exact ⟨fun h => h.1, fun h => ⟨h, hs.2⟩⟩
  | dealloc =>
    cases h
    exact ⟨⟨hempty.nodup, hempty.none, hempty.keys⟩, fun _ => trivial, fun _ => hs⟩
  | addEntriesFromDictionary other =>
    cases other with
    | some entries => exact hkept (setObjects_kept hp.nodup h).1
    | none =>
      obtain ⟨s₁, hk, -, rfl⟩ := addOwnEntries_cases h
      exact ⟨(hk.plain hempty).withTable hp.nodup hp.keys, fun _ => trivial, fun _ => hk.silent hempty hs⟩

end

/-! ## Arrays -/

section

variable {isEqual : ℕ → ℕ → Bool} {s s' : ArrayState} {r : References} {o : ℕ}

theorem retain_silent : r.retain o = r ↔ o = nil := by
  unfold References.retain
  split_ifs with ho
  · simp [ho]
  · refine ⟨fun h => ?_, fun h => absurd h ho⟩
    have htaken := congrArg (fun r => r.taken.length) h
    simp at htaken

theorem releaseEach_given (l : List ℕ) (r : References) :
    l.foldl References.release r = { r with given := r.given ++ l.filter fun e => e ≠ nil } := by
  induction l generalizing r with
  | nil => simp
  | cons e l ih =>
    rw [List.foldl_cons, ih, References.release]
    by_cases he : e = nil <;> simp [he]

theorem send_array {message : ArrayMessage} (hs : s.refs = noMessages)
    (h : ArrayClass.nonRetaining.send isEqual s message = .ok s') : s'.refs = noMessages ↔ ArraySpared s message := by
  obtain ⟨-, -, h⟩ := bind_eq_ok.1 h
  cases message with
  | insertObject object index =>
    obtain ⟨-, -, h⟩ := bind_eq_ok.1 h
    cases h
    rw [← hs]
    exact retain_silent
  | addObject object =>
    cases h
    exact ⟨fun _ => trivial, fun _ => hs⟩
  | removeObject object =>
    obtain ⟨count, -, h⟩ := bind_eq_ok.1 h
    refine ⟨fun _ => trivial, fun _ => ?_⟩
    refine run_inv (P := fun t => t.refs = noMessages) (fun t i t' ht hstep => ?_) hs h
    obtain ⟨-, -, hstep⟩ := bind_eq_ok.1 hstep
    cases hstep
    exact ht
  | removeObjectAtIndex index =>
    obtain ⟨-, -, h⟩ := bind_eq_ok.1 h
    cases h
    exact ⟨fun _ => trivial, fun _ => hs⟩
  | replaceObjectAtIndex index obj =>
    obtain ⟨object, hobject, h⟩ := bind_eq_ok.1 h
    cases h
    rw [ArraySpared, unwrap_eq_ok.1 hobject, hs]
    unfold References.release References.retain
    by_cases hobj : obj = nil <;> by_cases hold : object = nil <;> simp [hobj, hold, noMessages]
  | removeLastObject =>
    obtain ⟨-, -, h⟩ := bind_eq_ok.1 h
    cases h
    exact ⟨fun _ => trivial, fun _ => hs⟩
  | removeAllObjects =>
    cases h
    rw [ArraySpared, releaseEach_given, hs]
    simp [noMessages]
  | dealloc =>
    cases h
    exact ⟨fun _ => trivial, fun _ => hs⟩

end

/-- a new array of `CFArrayCreateMutable` -/
def newArray : ArrayState := ⟨[], noMessages, false⟩

/-- callbacks that retain an object as it is -/
def typeKeyCallbacks : CFDictionaryKeyCallBacks :=
    ⟨some fun _ key => key, true, some fun key key' => key == key', some fun key => key⟩

def typeValueCallbacks : CFDictionaryValueCallBacks := ⟨some fun _ value => value, true⟩

end TouchHLE.CFCollections
