/-
The hash table of `CFDictionary` (`ns_dictionary.rs`): the table of `NSDictionary` with guest functions for the keys and
values in the place of messages. A function that is not there is a null pointer in the source.

- `CFDictionaryHostObject.lookup`, `insert`, `remove`: the operations, with the calls they make to the guest.
- `Refines`: the table is a finite map from keys, up to equality, to values.
- `remove_spec`, `insert_spec`: one operation. `refines_map`: runs.
-/
import TouchHLE.Foundation.Dictionary

namespace TouchHLE

open Machine Buckets

/-- a guest function that retains an object: its answer can be another object each time -/
abbrev RetainFunction := ℕ → ℕ → ℕ

structure CFDictionaryKeyCallBacks where
  retain : Option RetainFunction
  /-- whether there is a function -/
  release : Bool
  equal : Option (ℕ → ℕ → Bool)
  hash : Option (ℕ → ℕ)

structure CFDictionaryValueCallBacks where
  retain : Option RetainFunction
  /-- whether there is a function -/
  release : Bool

inductive GuestCall where
  | retainKey (key : ℕ)
  | releaseKey (key : ℕ)
  | retainValue (value : ℕ)
  | releaseValue (value : ℕ)

structure CFDictionaryHostObject where
  superclass : DictionaryHostObject
  keyCallbacks : CFDictionaryKeyCallBacks
  valueCallbacks : CFDictionaryValueCallBacks

namespace CFDictionaryHostObject

variable (d : CFDictionaryHostObject) (calls : List GuestCall)

def hash (key : ℕ) : ℕ :=
  match d.keyCallbacks.hash with
  | none => key
  | some hashFunc => hashFunc key

def equalKeys (key1 key2 : ℕ) : Bool :=
  match d.keyCallbacks.equal with
  | none => key1 == key2
  | some equalFunc => equalFunc key1 key2

def retainKey (key : ℕ) : ℕ × List GuestCall :=
  match d.keyCallbacks.retain with
  | none => (key, calls)
  | some keyRetainFunc => (keyRetainFunc calls.length key, calls ++ [.retainKey key])

def releaseKey (key : ℕ) : List GuestCall := if d.keyCallbacks.release then calls ++ [.releaseKey key] else calls

def retainValue (value : ℕ) : ℕ × List GuestCall :=
  match d.valueCallbacks.retain with
  | none => (value, calls)
  | some valueRetainFunc => (valueRetainFunc calls.length value, calls ++ [.retainValue value])

def releaseValue (value : ℕ) : List GuestCall :=
  if d.valueCallbacks.release then calls ++ [.releaseValue value] else calls

def withMap (map : List (ℕ × List (ℕ × ℕ))) : CFDictionaryHostObject := { d with superclass := { d.superclass with map } }

def withCount (count : ℕ) : CFDictionaryHostObject := { d with superclass := { d.superclass with count } }

def lookup (key : ℕ) : ℕ :=
  match d.superclass.map.lookup (d.hash key) with
  | none => nil
  | some collisions => (find d.equalKeys key collisions).getD nil

def remove (key : ℕ) : Except Panic (CFDictionaryHostObject × List GuestCall × Bool) :=
  let hash := d.hash key
  match d.superclass.map.lookup hash with
  | none => pure (d, calls, false)
  | some collisions =>
    match position d.equalKeys key collisions with
    | none => pure (d, calls, false)
    | some pos => do
      let (existingKey, existingValue) := collisions.getD pos (nil, nil)
      let calls := d.releaseValue (d.releaseKey calls existingKey) existingValue
      let count ← sub32 d.superclass.count 1
      pure ((d.withMap (Assoc.insert hash (collisions.eraseIdx pos) d.superclass.map)).withCount count, calls, true)

def insert (key value : ℕ) : Except Panic (CFDictionaryHostObject × List GuestCall) := do
  let hash := d.hash key
  let (key, calls) := d.retainKey calls key
  let (value, calls) := d.retainValue calls value
  let count ← add32 d.superclass.count 1
  let d := d.withCount count
  match d.superclass.map.lookup hash with
  | none => pure (d.withMap (Assoc.insert hash [(key, value)] d.superclass.map), calls)
  | some _ =>
    let (d, calls, _) ← d.remove calls key
    let collisions ← unwrap (d.superclass.map.lookup hash) .missing
    pure (d.withMap (Assoc.insert hash (collisions ++ [(key, value)]) d.superclass.map), calls)

/-- the value that `insert` stores: the one it is given, if there is no function to retain it -/
def storedValue (key value : ℕ) : ℕ := (d.retainValue (d.retainKey calls key).2 value).1

end CFDictionaryHostObject

inductive CFDictionaryOp where
  | insert (key value : ℕ)
  | remove (key : ℕ)

structure CFDictionaryState where
  dict : CFDictionaryHostObject
  calls : List GuestCall
  /-- the finite map, as a function of the keys: for each key the value last inserted for an equal one, as it was retained -/
  values : ℕ → Option ℕ

namespace CFDictionaryState

def start (k : CFDictionaryKeyCallBacks) (v : CFDictionaryValueCallBacks) : CFDictionaryState :=
  ⟨⟨⟨[], 0⟩, k, v⟩, [], fun _ => none⟩

def step (s : CFDictionaryState) : CFDictionaryOp → Except Panic CFDictionaryState
  | .insert key value => do
    let (dict, calls) ← s.dict.insert s.calls key value
    let stored := s.dict.storedValue s.calls key value
    pure { dict, calls, values := fun k => if s.dict.equalKeys key k then some stored else s.values k }
  | .remove key => do
    let (dict, calls, _) ← s.dict.remove s.calls key
    pure { dict, calls, values := fun k => if s.dict.equalKeys key k then none else s.values k }

/-- the functions for keys: hashes and equality fit together, and a retained key is equal to the one that was retained -/
structure KeyFunctions (d : CFDictionaryHostObject) : Prop where
  consistent : Consistent d.hash d.equalKeys
  retain : ∀ calls key, d.equalKeys (d.retainKey calls key).1 key = true

/-- **What the dictionary is**: a finite map. -/
structure Refines (s : CFDictionaryState) : Prop where
  lookup : ∀ key, s.dict.lookup key = (s.values key).getD nil
  distinct : Distinct s.dict.equalKeys (pairs s.dict.superclass.map)
  remove : ∀ key, ∃ d' calls', s.dict.remove s.calls key = .ok (d', calls', (s.values key).isSome)
  count : s.dict.superclass.count = (keySets s.dict.equalKeys s.values).ncard

structure Inv (s : CFDictionaryState) : Prop where
  functions : KeyFunctions s.dict
  table : WellFormed s.dict.hash s.dict.equalKeys s.dict.superclass.map
  count : s.dict.superclass.count = (pairs s.dict.superclass.map).length
  values : ∀ key, valueAt s.dict.hash s.dict.equalKeys s.dict.superclass.map key = s.values key

variable {s : CFDictionaryState} {d : CFDictionaryHostObject} {calls : List GuestCall} {key value : ℕ}
  {t : DictionaryHostObject}

/-! ## Removal -/

theorem find_isSome (d : CFDictionaryHostObject) (key : ℕ) : (valueAt d.hash d.equalKeys d.superclass.map key).isSome =
    (position d.equalKeys key (bucket d.superclass.map (d.hash key))).isSome := by
  rw [Bool.eq_iff_iff, Option.isSome_iff_ne_none, Option.isSome_iff_ne_none, valueAt, Ne, Ne, find_eq_none,
    position_eq_none]

/-- **Removal** of a key, from a table whose count can be larger than its number of pairs -/
theorem remove_spec (hc : Consistent d.hash d.equalKeys) (hw : WellFormed d.hash d.equalKeys d.superclass.map)
    (hcount : (pairs d.superclass.map).length ≤ d.superclass.count) (calls : List GuestCall) (key : ℕ) :
    ∃ t calls', d.remove calls key =
        .ok ({ d with superclass := t }, calls', (valueAt d.hash d.equalKeys d.superclass.map key).isSome) ∧
      WellFormed d.hash d.equalKeys t.map ∧
      (∀ k, valueAt d.hash d.equalKeys t.map k =
        if d.equalKeys key k then none else valueAt d.hash d.equalKeys d.superclass.map k) ∧
      t.count + (pairs d.superclass.map).length = d.superclass.count + (pairs t.map).length ∧
      ∀ h, (d.superclass.map.lookup h).isSome → (t.map.lookup h).isSome := by
  rw [find_isSome]
  cases hp : position d.equalKeys key (bucket d.superclass.map (d.hash key)) with
  | none =>
    refine ⟨d.superclass, calls, ?_, hw, fun k => ?_, rfl, fun h hh => hh⟩
    · unfold CFDictionaryHostObject.remove
      unfold bucket at hp
      cases hb : d.superclass.map.lookup (d.hash key) with
      | none => simp only [hb]; rfl
      | some collisions =>
        rw [hb, Option.getD_some] at hp
        simp only [hb, hp]
        rfl
    · split_ifs with hkey
      · rw [hw.valueAt_eq_none hc]
        intro e he
        rw [hc.comm, ← hc.congr hkey, hc.comm]
        exact hw.valueAt_of_position hc hp e he
      · rfl
  | some pos =>
    obtain ⟨e, he, -, htable, hvalues, hperm⟩ := hw.remove hc rfl hp
    have hlength := hperm.length_eq
    rw [List.length_cons] at hlength
    have hpos : 1 ≤ d.superclass.count := by
      rw [hlength] at hcount
      exact le_trans (Nat.le_add_left 1 _) hcount
    refine ⟨⟨Assoc.insert (d.hash key) ((bucket d.superclass.map (d.hash key)).eraseIdx pos) d.superclass.map,
      d.superclass.count - 1⟩, d.releaseValue (d.releaseKey calls e.1) e.2, ?_, htable, hvalues, ?_, fun h hh => ?_⟩
    · unfold CFDictionaryHostObject.remove
      unfold bucket at hp he ⊢
      cases hb : d.superclass.map.lookup (d.hash key) with
      | none =>
        rw [hb] at he
        cases he
      | some collisions =>
        rw [hb, Option.getD_some] at hp he
        simp only [hb, hp, Option.getD_some, List.getD_eq_getElem?_getD, he, sub32_ok hpos]
        rfl
    · dsimp only
      omega
    · by_cases hk : h = d.hash key
      · rw [hk, Assoc.lookup_insert_self]
        rfl
      · rw [Assoc.lookup_insert_of_ne hk]
        exact hh

/-! ## Insertion -/

/-- the calls to the guest when the key and the value have been retained -/
def retained (d : CFDictionaryHostObject) (calls : List GuestCall) (key value : ℕ) : List GuestCall :=
  (d.retainValue (d.retainKey calls key).2 value).2

theorem insert_vacant (hroom : d.superclass.count + 1 < 2 ^ 32) (hb : d.superclass.map.lookup (d.hash key) = none) :
    d.insert calls key value = .ok ({ d with superclass :=
      ⟨Assoc.insert (d.hash key) [((d.retainKey calls key).1, d.storedValue calls key value)] d.superclass.map,
        d.superclass.count + 1⟩ }, retained d calls key value) := by
  rw [CFDictionaryHostObject.insert, add32_ok hroom]
  simp only [CFDictionaryHostObject.withCount, hb, ok_bind]
  rfl

theorem insert_occupied {collisions collisions' : List (ℕ × ℕ)} {calls' : List GuestCall}
    {removed : Bool} (hroom : d.superclass.count + 1 < 2 ^ 32)
    (hb : d.superclass.map.lookup (d.hash key) = some collisions)
    (hremove : (d.withCount (d.superclass.count + 1)).remove (retained d calls key value) (d.retainKey calls key).1 =
      .ok ({ d with superclass := t }, calls', removed)) (hb' : t.map.lookup (d.hash key) = some collisions') :
    d.insert calls key value = .ok ({ d with superclass :=
      ⟨Assoc.insert (d.hash key) (collisions' ++ [((d.retainKey calls key).1, d.storedValue calls key value)]) t.map,
        t.count⟩ }, calls') := by
  unfold CFDictionaryHostObject.withCount retained at hremove
  rw [CFDictionaryHostObject.insert, add32_ok hroom]
  simp only [CFDictionaryHostObject.withCount, hb, ok_bind, hremove, hb']
  rfl

theorem insert_full (hfull : 2 ^ 32 ≤ d.superclass.count + 1) : d.insert calls key value = .error .overflow := by
  rw [CFDictionaryHostObject.insert, add32, if_neg (not_lt.2 hfull)]
  rfl

/-- the new pair goes to a bucket without its key -/
theorem added_pair (hf : KeyFunctions d) (ht : WellFormed d.hash d.equalKeys t.map)
    (hgone : ∀ k, d.equalKeys key k = true → valueAt d.hash d.equalKeys t.map k = none) {key' : ℕ}
    (hsame : d.equalKeys key' key = true) (v : ℕ) :
    WellFormed d.hash d.equalKeys (Assoc.insert (d.hash key) (bucket t.map (d.hash key) ++ [(key', v)]) t.map) ∧
    (∀ k, valueAt d.hash d.equalKeys (Assoc.insert (d.hash key) (bucket t.map (d.hash key) ++ [(key', v)]) t.map) k =
      if d.equalKeys key k = true then some v else valueAt d.hash d.equalKeys t.map k) ∧
    (pairs (Assoc.insert (d.hash key) (bucket t.map (d.hash key) ++ [(key', v)]) t.map)).length =
      (pairs t.map).length + 1 := by
  have hc := hf.consistent
  have hhash : d.hash key' = d.hash key := hc.hash _ _ hsame
  have hnone := hgone key' (hc.symm _ _ hsame)
  rw [valueAt, find_eq_none, hhash, ← position_eq_none] at hnone
  obtain ⟨htable, hvalues, hperm⟩ := ht.add (v := v) hc hhash hnone
  refine ⟨htable, fun k => ?_, hperm.length_eq⟩
  rw [hvalues, hc.congr hsame]

/-- **Insertion**: an old pair with an equal key goes first. -/
theorem insert_spec (hf : KeyFunctions d) (hw : WellFormed d.hash d.equalKeys d.superclass.map)
    (hcount : d.superclass.count = (pairs d.superclass.map).length) (hroom : d.superclass.count + 1 < 2 ^ 32)
    (calls : List GuestCall) (key value : ℕ) :
    ∃ t calls', d.insert calls key value = .ok ({ d with superclass := t }, calls') ∧
      WellFormed d.hash d.equalKeys t.map ∧ t.count = (pairs t.map).length ∧
      ∀ k, valueAt d.hash d.equalKeys t.map k = if d.equalKeys key k then some (d.storedValue calls key value)
        else valueAt d.hash d.equalKeys d.superclass.map k := by
  have hc := hf.consistent
  have hsame := hf.retain calls key
  cases hb : d.superclass.map.lookup (d.hash key) with
  | none =>
    have hbucket : bucket d.superclass.map (d.hash key) = [] := by
      rw [bucket, hb]
      rfl
    have hgone : ∀ k, d.equalKeys key k = true → valueAt d.hash d.equalKeys d.superclass.map k = none := by
      intro k hk
      rw [valueAt, ← hc.hash _ _ hk, hbucket]
      rfl
    obtain ⟨htable, hvalues, hlength⟩ := added_pair hf hw hgone hsame (d.storedValue calls key value)
    rw [hbucket, List.nil_append] at htable hvalues hlength
    refine ⟨_, _, insert_vacant hroom hb, htable, ?_, hvalues⟩
    rw [hlength, hcount]
  | some collisions =>
    -- the count is one ahead when the old pair is removed
    obtain ⟨t, calls', hremove, htable, hvalues, hlength, hkept⟩ :=
      remove_spec (d := d.withCount (d.superclass.count + 1)) hc hw (hcount.symm.le.trans (Nat.le_succ _))
        (retained d calls key value) (d.retainKey calls key).1
    have hvalues : ∀ k, valueAt d.hash d.equalKeys t.map k =
        if d.equalKeys key k then none else valueAt d.hash d.equalKeys d.superclass.map k := by
      intro k
      rw [← hc.congr hsame]
      exact hvalues k
    have hlength : t.count + (pairs d.superclass.map).length = d.superclass.count + 1 + (pairs t.map).length := hlength
    have hsome : (d.superclass.map.lookup (d.hash key)).isSome := by
      rw [hb]
      rfl
    obtain ⟨collisions', hb'⟩ := Option.isSome_iff_exists.1 (hkept (d.hash key) hsome)
    have hbucket : bucket t.map (d.hash key) = collisions' := by
      rw [bucket, hb']
      rfl
    have hgone : ∀ k, d.equalKeys key k = true → valueAt d.hash d.equalKeys t.map k = none := by
      intro k hk
      rw [hvalues k, if_pos hk]
    obtain ⟨htable', hvalues', hlength'⟩ := added_pair hf htable hgone hsame (d.storedValue calls key value)
    rw [hbucket] at htable' hvalues' hlength'
    refine ⟨_, _, insert_occupied hroom hb hremove hb', htable', ?_, fun k => ?_⟩
    · rw [hlength']
      rw [hcount] at hlength
      dsimp only
      omega
    · rw [hvalues', hvalues k]
      split_ifs <;> rfl

/-! ## Runs -/

theorem Inv.refines (hi : s.Inv) : Refines s where
  lookup key := by
    rw [← hi.values key, CFDictionaryHostObject.lookup, valueAt, bucket]
    cases s.dict.superclass.map.lookup (s.dict.hash key) <;> rfl
  distinct := hi.table.pairwise hi.functions.consistent
  remove key := by
    obtain ⟨t, calls', hremove, -⟩ := remove_spec hi.functions.consistent hi.table hi.count.symm.le s.calls key
    rw [hi.values key] at hremove
    exact ⟨_, _, hremove⟩
  count := by
    have hvalues : valueAt s.dict.hash s.dict.equalKeys s.dict.superclass.map = s.values := funext hi.values
    rw [hi.count, ← hi.table.ncard_keySets hi.functions.consistent, hvalues]

/-- an insertion for which the count has no room -/
def Full (s : CFDictionaryState) : CFDictionaryOp → Prop
  | .insert _ _ => 2 ^ 32 ≤ s.dict.superclass.count + 1
  | .remove _ => False

theorem step_inv (hi : s.Inv) (op : CFDictionaryOp) : (∃ s', step s op = .ok s' ∧ s'.Inv) ∨ Full s op := by
  cases op with
  | remove key =>
    obtain ⟨t, calls', hremove, htable, hvalues, hlength, -⟩ :=
      remove_spec hi.functions.consistent hi.table hi.count.symm.le s.calls key
    refine Or.inl ⟨⟨{ s.dict with superclass := t }, calls', fun k => if s.dict.equalKeys key k then none else s.values k⟩,
      by rw [step, hremove]; rfl, ⟨hi.functions.consistent, hi.functions.retain⟩, htable, ?_, fun k => ?_⟩
    · rw [hi.count] at hlength
      dsimp only
      omega
    · exact (hvalues k).trans (by rw [hi.values k])
  | insert key value =>
    by_cases hroom : s.dict.superclass.count + 1 < 2 ^ 32
    · obtain ⟨t, calls', hinsert, htable, hcount, hvalues⟩ :=
        insert_spec hi.functions hi.table hi.count hroom s.calls key value
      let stored := s.dict.storedValue s.calls key value
      refine Or.inl ⟨⟨{ s.dict with superclass := t }, calls',
        fun k => if s.dict.equalKeys key k then some stored else s.values k⟩,
        by rw [step, hinsert]; rfl, ⟨hi.functions.consistent, hi.functions.retain⟩, htable, hcount, fun k => ?_⟩
      exact (hvalues k).trans (by rw [hi.values k])
    · exact Or.inr (not_lt.1 hroom)

theorem start_inv {k : CFDictionaryKeyCallBacks} {v : CFDictionaryValueCallBacks} (hf : KeyFunctions (start k v).dict) :
    (start k v).Inv where
  functions := hf
  table := wellFormed_nil
  count := rfl
  values _ := rfl

/-- **A dictionary is a finite map.** After any run of insertions and removals, with functions for the keys that fit
together, the dictionary is the finite map that the run says. A run fails only at an insertion for which the count has
no room; the count is never too small. -/
theorem refines_map {k : CFDictionaryKeyCallBacks} {v : CFDictionaryValueCallBacks} (hf : KeyFunctions (start k v).dict)
    (ops : List CFDictionaryOp) : (∀ s, run step (start k v) ops = .ok s → Refines s) ∧
      ∀ e, run step (start k v) ops = .error e →
        ∃ pre op post s, ops = pre ++ op :: post ∧ run step (start k v) pre = .ok s ∧ Refines s ∧ Full s op := by
  have hlegal : LegalRun step (fun _ _ => True) (start k v) ops :=
    legalRun_of_inv (I := fun _ => True) (fun _ _ _ _ _ => trivial) (fun _ _ _ => trivial) trivial
  have hcases := legal_run_cases (P := Inv) (fun s op hi _ => step_inv hi op) (start_inv hf) hlegal
  constructor
  · intro s hs
    rcases hcases with ⟨s', hs', hi⟩ | ⟨pre, op, post, s', rfl, hs', hi, hfull⟩
    · rw [hs] at hs'
      cases hs'
      exact hi.refines
    · -- the operation that has no room would have failed
      obtain ⟨s₁, hs₁, hrest⟩ := run_append_ok.1 hs
      rw [hs'] at hs₁
      cases hs₁
      obtain ⟨s₂, hs₂, -⟩ := run_cons_ok.1 hrest
      cases op with
      | remove key => exact hfull.elim
      | insert key value =>
        rw [step, insert_full hfull] at hs₂
        cases hs₂
  · intro e he
    rcases hcases with ⟨s', hs', -⟩ | ⟨pre, op, post, s', hops, hs', hi, hfull⟩
    · rw [he] at hs'
      cases hs'
    · exact ⟨pre, op, post, s', hops, hs', hi.refines, hfull⟩

/-- keys that are equal if they are the same but for the last digit, of which the first such is stored -/
def byTens : CFDictionaryKeyCallBacks :=
  ⟨some fun _ key => key / 10 * 10, true, some fun key1 key2 => key1 / 10 == key2 / 10, some fun key => key / 10⟩

theorem byTens_functions (v : CFDictionaryValueCallBacks) : KeyFunctions (start byTens v).dict where
  consistent := {
    refl := fun a => beq_self_eq_true _
    symm := fun a b h => beq_iff_eq.2 (beq_iff_eq.1 h).symm
    trans := fun a b c h h' => beq_iff_eq.2 ((beq_iff_eq.1 h).trans (beq_iff_eq.1 h'))
    hash := fun a b h => beq_iff_eq.1 h }
  retain _ key := beq_iff_eq.2 (by
    change key / 10 * 10 / 10 = key / 10
    rw [Nat.mul_div_cancel _ (by decide)])

/-- two keys, of which one is inserted twice and the other removed -/
theorem refines_map_two : ∃ s, run step (start byTens ⟨none, false⟩) [.insert 11 5, .insert 20 6, .insert 15 7, .remove 21] = .ok s ∧
    Refines s := by
  have hrun := eq_ok_of_toOption (x := run step (start byTens ⟨none, false⟩) [.insert 11 5, .insert 20 6, .insert 15 7, .remove 21])
    (d := start byTens ⟨none, false⟩) (by decide +kernel)
  exact ⟨_, hrun, (refines_map (byTens_functions ⟨none, false⟩) _).1 _ hrun⟩

example : (run step (start byTens ⟨none, false⟩) [.insert 11 5, .insert 20 6, .insert 15 7, .remove 21]).toOption.map
    (fun s => (s.dict.lookup 19, s.dict.lookup 20, s.dict.superclass.count)) = some (7, nil, 1) := by
  decide +kernel

end CFDictionaryState

end TouchHLE
