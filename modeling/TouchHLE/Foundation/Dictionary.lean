/-
The hash table of `NSDictionary` (`ns_dictionary.rs`): pairs of objects in buckets by the hash of the key, each pair with a
reference to its key and one to its value. What the keys answer to `hash`, `isEqual:` and `copy` is given by `KeyMessages`.

- `DictionaryHostObject.lookup`, `insert`, `remove`, `release`: the operations.
- `Conserved`: the table holds what was last inserted, and the references it has taken are those of its pairs.
- `insert_new`, `insert_equal`: two kinds of insertions, of which the last leaks.
- `references_iff`: runs. `equal_key`: what happens when an equal key is inserted.
-/
import TouchHLE.Lib.Buckets
import TouchHLE.Lib.Machine
import TouchHLE.Objc.Objects

namespace TouchHLE

open Machine Buckets

/-- what keys answer; a `copy` can be another object each time -/
structure KeyMessages where
  hash : ℕ → ℕ
  isEqual : ℕ → ℕ → Bool
  copy : ℕ → ℕ → ℕ

/-- `candidate_key == key || msg![env; candidate_key isEqual:key]` -/
def KeyMessages.same (m : KeyMessages) (candidateKey key : ℕ) : Bool := candidateKey == key || m.isEqual candidateKey key

/-- the references that a dictionary has taken and given back, and how many copies have been made for it -/
structure References where
  copies : ℕ
  taken : List ℕ
  given : List ℕ

namespace References

/-- `retain`: messages to nil do nothing -/
def retain (r : References) (object : ℕ) : References :=
  if object = nil then r else { r with taken := r.taken ++ [object] }

def release (r : References) (object : ℕ) : References :=
  if object = nil then r else { r with given := r.given ++ [object] }

/-- `copy`: a reference to an object that may be new -/
def copy (m : KeyMessages) (r : References) (object : ℕ) : ℕ × References :=
  let new := m.copy r.copies object
  (new, { r.retain new with copies := r.copies + 1 })

/-- the key that is stored, with a reference to it -/
def own (m : KeyMessages) (r : References) (key : ℕ) (copyKey : Bool) : ℕ × References :=
  if copyKey then r.copy m key else (key, r.retain key)

end References

structure DictionaryHostObject where
  map : List (ℕ × List (ℕ × ℕ))
  count : ℕ

namespace DictionaryHostObject

variable (m : KeyMessages)

def lookup (d : DictionaryHostObject) (key : ℕ) : ℕ :=
  match d.map.lookup (m.hash key) with
  | none => nil
  | some collisions => (find m.same key collisions).getD nil

def insert (d : DictionaryHostObject) (r : References) (key value : ℕ) (copyKey : Bool) :
    Except Panic (DictionaryHostObject × References) := do
  let (key, r) := r.own m key copyKey
  let hash := m.hash key
  let r := r.retain value
  match d.map.lookup hash with
  | none =>
    let count ← add32 d.count 1
    pure (⟨Assoc.insert hash [(key, value)] d.map, count⟩, r)
  | some collisions =>
    match position m.same key collisions with
    | some i =>
      let (candidateKey, existingValue) := collisions.getD i (nil, nil)
      let collisions := collisions.set i (candidateKey, value)
      pure ({ d with map := Assoc.insert hash collisions d.map }, r.release existingValue)
    | none =>
      let count ← add32 d.count 1
      pure (⟨Assoc.insert hash (collisions ++ [(key, value)]) d.map, count⟩, r)

def remove (d : DictionaryHostObject) (r : References) (key : ℕ) : Except Panic (DictionaryHostObject × References) :=
  let hash := m.hash key
  match d.map.lookup hash with
  | none => pure (d, r)
  | some collisions =>
    match position m.same key collisions with
    | none => pure (d, r)
    | some idx => do
      let (existingKey, value) := collisions.getD idx (nil, nil)
      let r := (r.release existingKey).release value
      let count ← sub32 d.count 1
      pure (⟨Assoc.insert hash (collisions.eraseIdx idx) d.map, count⟩, r)

def release (d : DictionaryHostObject) (r : References) : References :=
  (pairs d.map).foldl (fun r e => (r.release e.1).release e.2) r

end DictionaryHostObject

inductive DictionaryOp where
  | insert (key value : ℕ) (copyKey : Bool)
  | remove (key : ℕ)

structure DictionaryState where
  dict : DictionaryHostObject
  refs : References
  /-- the log: for each key the value last inserted for an equal key, if it was not removed since -/
  values : ℕ → Option ℕ

namespace DictionaryState

variable (m : KeyMessages)

def start : DictionaryState := ⟨⟨[], 0⟩, ⟨0, [], []⟩, fun _ => none⟩

def step (s : DictionaryState) : DictionaryOp → Except Panic DictionaryState
  | .insert key value copyKey => do
    let (dict, refs) ← s.dict.insert m s.refs key value copyKey
    pure { dict, refs, values := fun k => if m.same key k then some value else s.values k }
  | .remove key => do
    let (dict, refs) ← s.dict.remove m s.refs key
    pure { dict, refs, values := fun k => if m.same key k then none else s.values k }

/-- keys fit together: their hash and `isEqual:` do, copies are equal, and nil answers no -/
structure Keys (m : KeyMessages) : Prop where
  consistent : Consistent m.hash m.same
  copy : ∀ n k, m.same (m.copy n k) k = true
  nilAnswer : ∀ k, m.isEqual nil k = false

def refsOf (l : List (ℕ × ℕ)) (o : ℕ) : ℕ := (l.map Prod.fst).count o + (l.map Prod.snd).count o

/-- the table has what was last inserted, each pair holds one reference to its key and one to its value, and the final
release gives back what was taken -/
structure Conserved (m : KeyMessages) (s : DictionaryState) : Prop where
  count : s.dict.count = (pairs s.dict.map).length
  distinct : Distinct m.same (pairs s.dict.map)
  lookup : ∀ key, s.dict.lookup m key = (s.values key).getD nil
  held : ∀ o ≠ nil, s.refs.taken.count o = s.refs.given.count o + refsOf (pairs s.dict.map) o
  atEnd : ∀ o, (s.dict.release s.refs).taken.count o = (s.dict.release s.refs).given.count o

/-- the operation succeeds and leaves the references right -/
def Conserves (m : KeyMessages) (s : DictionaryState) (op : DictionaryOp) : Prop :=
  ∃ s', step m s op = .ok s' ∧ Conserved m s'

/-- an insertion is one of a new key, and there is room for it; nil counts as new -/
def InsertsNew (m : KeyMessages) (s : DictionaryState) : DictionaryOp → Prop
  | .insert key _ _ => if ∃ e ∈ pairs s.dict.map, m.same e.1 key = true then key = nil else s.dict.count + 1 < 2 ^ 32
  | .remove _ => True

instance (s : DictionaryState) : ∀ op, Decidable (InsertsNew m s op)
  | .insert _ _ _ => inferInstanceAs (Decidable (ite _ _ _))
  | .remove _ => isTrue trivial

/-- there are no references to nil -/
def NoNil (r : References) : Prop := nil ∉ r.taken ∧ nil ∉ r.given

/-- the states in which no key was inserted twice -/
structure Inv (m : KeyMessages) (s : DictionaryState) : Prop where
  table : WellFormed m.hash m.same s.dict.map
  count : s.dict.count = (pairs s.dict.map).length
  values : ∀ key, valueAt m.hash m.same s.dict.map key = s.values key
  noNil : NoNil s.refs
  held : ∀ o ≠ nil, s.refs.taken.count o = s.refs.given.count o + refsOf (pairs s.dict.map) o

variable {m} {s s' : DictionaryState} {d : DictionaryHostObject} {r r' : References} {key key' value o : ℕ} {copyKey : Bool}

/-! ## References -/

theorem refsOf_cons (e : ℕ × ℕ) (l : List (ℕ × ℕ)) :
    refsOf (e :: l) o = refsOf l o + (if e.1 = o then 1 else 0) + if e.2 = o then 1 else 0 := by
  unfold refsOf
  rw [List.map_cons, List.map_cons, List.count_cons, List.count_cons]
  simp only [beq_iff_eq]
  omega

theorem refsOf_perm {l l' : List (ℕ × ℕ)} (h : l.Perm l') : refsOf l o = refsOf l' o := by
  rw [refsOf, refsOf, (h.map Prod.fst).count_eq, (h.map Prod.snd).count_eq]

theorem retain_taken (ho : o ≠ nil) : (r.retain key).taken.count o = r.taken.count o + if key = o then 1 else 0 := by
  unfold References.retain
  split_ifs with hn hk hk
  · exact absurd (hk.symm.trans hn) ho
  · rfl
  · rw [List.count_append, hk, List.count_singleton_self]
  · rw [List.count_append, List.count_singleton, if_neg (by simpa using hk)]

@[simp] theorem retain_given : (r.retain key).given = r.given := by
  unfold References.retain
  split_ifs <;> rfl

theorem release_given (ho : o ≠ nil) : (r.release key).given.count o = r.given.count o + if key = o then 1 else 0 := by
  unfold References.release
  split_ifs with hn hk hk
  · exact absurd (hk.symm.trans hn) ho
  · rfl
  · rw [List.count_append, hk, List.count_singleton_self]
  · rw [List.count_append, List.count_singleton, if_neg (by simpa using hk)]

@[simp] theorem release_taken : (r.release key).taken = r.taken := by
  unfold References.release
  split_ifs <;> rfl

theorem NoNil.retain (h : NoNil r) : NoNil (r.retain key) := by
  unfold References.retain
  split_ifs with hn
  · exact h
  · refine ⟨fun hmem => ?_, h.2⟩
    rcases List.mem_append.1 hmem with hmem | hmem
    · exact h.1 hmem
    · exact hn (List.mem_singleton.1 hmem).symm

theorem NoNil.release (h : NoNil r) : NoNil (r.release key) := by
  unfold References.release
  split_ifs with hn
  · exact h
  · refine ⟨h.1, fun hmem => ?_⟩
    rcases List.mem_append.1 hmem with hmem | hmem
    · exact h.2 hmem
    · exact hn (List.mem_singleton.1 hmem).symm

/-- only nil is the same as nil -/
theorem Keys.same_nil (hk : Keys m) (h : m.same key key' = true) : key = nil ↔ key' = nil := by
  have hnil (k : ℕ) (h : m.same nil k = true) : k = nil := by
    rw [KeyMessages.same, hk.nilAnswer, Bool.or_false] at h
    exact (beq_iff_eq.1 h).symm
  constructor
  · rintro rfl
    exact hnil _ h
  · rintro rfl
    exact hnil _ (hk.consistent.symm _ _ h)

/-- the stored key is the same as the given one, and one reference to it is taken -/
theorem own_cases (hk : Keys m) (r : References) (key : ℕ) (copyKey : Bool) : ∃ key' r', r.own m key copyKey = (key', r') ∧
    m.same key' key = true ∧ r'.given = r.given ∧ (NoNil r → NoNil r') ∧
    ∀ o ≠ nil, r'.taken.count o = r.taken.count o + if key' = o then 1 else 0 := by
  cases copyKey with
  | false => exact ⟨key, r.retain key, rfl, hk.consistent.refl key, retain_given, NoNil.retain, fun o ho => retain_taken ho⟩
  | true =>
    let new := m.copy r.copies key
    exact ⟨new, { r.retain new with copies := r.copies + 1 }, rfl, hk.copy _ _, retain_given, NoNil.retain,
      fun o ho => retain_taken ho⟩

theorem releaseAll_taken (l : List (ℕ × ℕ)) (r : References) :
    (l.foldl (fun r e => (r.release e.1).release e.2) r).taken = r.taken := by
  induction l generalizing r with
  | nil => rfl
  | cons e l ih => rw [List.foldl_cons, ih, release_taken, release_taken]

theorem releaseAll_given (ho : o ≠ nil) (l : List (ℕ × ℕ)) (r : References) :
    (l.foldl (fun r e => (r.release e.1).release e.2) r).given.count o = r.given.count o + refsOf l o := by
  induction l generalizing r with
  | nil => rfl
  | cons e l ih =>
    rw [List.foldl_cons, ih, release_given ho, release_given ho, refsOf_cons]
    omega

theorem NoNil.releaseAll (l : List (ℕ × ℕ)) (h : NoNil r) :
    NoNil (l.foldl (fun r e => (r.release e.1).release e.2) r) := by
  induction l generalizing r with
  | nil => exact h
  | cons e l ih => exact ih h.release.release

/-! ## What the invariant gives -/

theorem lookup_eq (d : DictionaryHostObject) (key : ℕ) : d.lookup m key = (valueAt m.hash m.same d.map key).getD nil := by
  unfold DictionaryHostObject.lookup valueAt bucket
  cases d.map.lookup (m.hash key) <;> rfl

theorem Inv.conserved (hk : Keys m) (hi : s.Inv m) : Conserved m s where
  count := hi.count
  distinct := hi.table.pairwise hk.consistent
  lookup key := by rw [lookup_eq, hi.values]
  held := hi.held
  atEnd o := by
    by_cases ho : o = nil
    · subst ho
      have hall : NoNil (s.dict.release s.refs) := NoNil.releaseAll (pairs s.dict.map) hi.noNil
      rw [List.count_eq_zero_of_not_mem hall.1, List.count_eq_zero_of_not_mem hall.2]
    · rw [DictionaryHostObject.release, releaseAll_taken, releaseAll_given ho]
      exact hi.held o ho

theorem start_inv : start.Inv m where
  table := wellFormed_nil
  count := rfl
  values _ := rfl
  noNil := ⟨List.not_mem_nil, List.not_mem_nil⟩
  held _ _ := rfl

/-! ## Insertion -/

/-- a new key -/
theorem insert_absent (hown : r.own m key copyKey = (key', r'))
    (hp : position m.same key' (bucket d.map (m.hash key')) = none) (hroom : d.count + 1 < 2 ^ 32) :
    d.insert m r key value copyKey = .ok
      (⟨Assoc.insert (m.hash key') (bucket d.map (m.hash key') ++ [(key', value)]) d.map, d.count + 1⟩, r'.retain value) := by
  rw [DictionaryHostObject.insert, hown, add32_ok hroom]
  unfold bucket at hp ⊢
  cases hb : d.map.lookup (m.hash key') with
  | none => simp only [hb]; rfl
  | some collisions =>
    rw [hb, Option.getD_some] at hp
    simp only [hb, hp]
    rfl

theorem insert_full (hown : r.own m key copyKey = (key', r'))
    (hp : position m.same key' (bucket d.map (m.hash key')) = none) (hfull : ¬d.count + 1 < 2 ^ 32) :
    d.insert m r key value copyKey = .error .overflow := by
  rw [DictionaryHostObject.insert, hown, add32, if_neg hfull]
  unfold bucket at hp
  cases hb : d.map.lookup (m.hash key') with
  | none => simp only [hb]; rfl
  | some collisions =>
    rw [hb, Option.getD_some] at hp
    simp only [hb, hp]
    rfl

/-- an equal key: the stored one stays -/
theorem insert_present {i : ℕ} {e : ℕ × ℕ} (hown : r.own m key copyKey = (key', r'))
    (hp : position m.same key' (bucket d.map (m.hash key')) = some i) (he : (bucket d.map (m.hash key'))[i]? = some e) :
    d.insert m r key value copyKey = .ok
      ({ d with map := Assoc.insert (m.hash key') ((bucket d.map (m.hash key')).set i (e.1, value)) d.map },
        (r'.retain value).release e.2) := by
  rw [DictionaryHostObject.insert, hown]
  unfold bucket at hp he ⊢
  cases hb : d.map.lookup (m.hash key') with
  | none =>
    rw [hb] at he
    cases he
  | some collisions =>
    rw [hb, Option.getD_some] at hp he
    simp only [hb, hp, Option.getD_some, List.getD_eq_getElem?_getD, he]
    rfl

theorem Inv.position_eq_none (hk : Keys m) (hi : s.Inv m) (hsame : m.same key' key = true)
    (hnew : ∀ e ∈ pairs s.dict.map, m.same e.1 key = false) :
    position m.same key' (bucket s.dict.map (m.hash key')) = none := by
  rw [Buckets.position_eq_none]
  intro e he
  rw [hk.consistent.comm, hk.consistent.congr hsame, hk.consistent.comm]
  exact hnew e (mem_pairs_of_bucket hi.table.nodup he)

/-- **A new key** is inserted. -/
theorem insert_new (hk : Keys m) (hi : s.Inv m) (hnew : ∀ e ∈ pairs s.dict.map, m.same e.1 key = false)
    (hroom : s.dict.count + 1 < 2 ^ 32) (value : ℕ) (copyKey : Bool) :
    ∃ s', step m s (.insert key value copyKey) = .ok s' ∧ s'.Inv m := by
  obtain ⟨key', r, hown, hsame, hgiven, hnil, htaken⟩ := own_cases hk s.refs key copyKey
  have hc := hk.consistent
  have hp := hi.position_eq_none hk hsame hnew
  obtain ⟨htable, hvalues, hperm⟩ := hi.table.add (v := value) hc rfl hp
  refine ⟨_, by rw [step, insert_absent hown hp hroom]; rfl, htable, ?_, fun k => ?_, (hnil hi.noNil).retain, fun o ho => ?_⟩
  · rw [hperm.length_eq, List.length_cons, hi.count]
  · rw [hvalues k, hi.values k, hc.congr hsame]
  · rw [retain_taken ho, htaken o ho, retain_given, hgiven, refsOf_perm hperm, refsOf_cons, hi.held o ho]
    dsimp only
    omega

/-- **An equal key** is inserted: the value is replaced, and the new key keeps its reference without a pair. -/
theorem insert_equal (hk : Keys m) (hi : s.Inv m) (hold : ∃ e ∈ pairs s.dict.map, m.same e.1 key = true) (value : ℕ)
    (copyKey : Bool) : ∃ s' key', step m s (.insert key value copyKey) = .ok s' ∧ m.same key' key = true ∧
      WellFormed m.hash m.same s'.dict.map ∧ s'.dict.count = (pairs s'.dict.map).length ∧
      (∀ k, valueAt m.hash m.same s'.dict.map k = s'.values k) ∧ NoNil s'.refs ∧
      ∀ o ≠ nil, s'.refs.taken.count o = s'.refs.given.count o + refsOf (pairs s'.dict.map) o + if key' = o then 1 else 0 := by
  obtain ⟨key', r, hown, hsame, hgiven, hnil, htaken⟩ := own_cases hk s.refs key copyKey
  have hc := hk.consistent
  obtain ⟨i, hp⟩ : ∃ i, position m.same key' (bucket s.dict.map (m.hash key')) = some i := by
    rw [← Option.isSome_iff_exists, Option.isSome_iff_ne_none]
    intro hnone
    obtain ⟨e, he, hekey⟩ := hold
    have habsent := hi.table.valueAt_of_position hc hnone e he
    rw [hc.trans _ _ _ hekey (hc.symm _ _ hsame)] at habsent
    cases habsent
  obtain ⟨e, rest, he, hekey, htable, hvalues, hperm, hperm'⟩ := hi.table.change (v := value) hc rfl hp
  refine ⟨_, key', by rw [step, insert_present hown hp he]; rfl, hsame, htable, ?_, fun k => ?_, (hnil hi.noNil).retain.release,
    fun o ho => ?_⟩
  · change s.dict.count = _
    rw [hperm'.length_eq, hi.count, hperm.length_eq]
    rfl
  · rw [hvalues k, hi.values k, hc.congr hsame]
  · have hheld := hi.held o ho
    rw [refsOf_perm hperm, refsOf_cons] at hheld
    rw [release_taken, retain_taken ho, htaken o ho, release_given ho, retain_given, hgiven, refsOf_perm hperm', refsOf_cons,
      hheld]
    dsimp only
    omega

/-! ## Removal -/

theorem remove_inv (hk : Keys m) (hi : s.Inv m) (key : ℕ) : ∃ s', step m s (.remove key) = .ok s' ∧ s'.Inv m := by
  have hc := hk.consistent
  cases hp : position m.same key (bucket s.dict.map (m.hash key)) with
  | none =>
    -- nothing changes, and there was no value for the key
    have hremove : s.dict.remove m s.refs key = .ok (s.dict, s.refs) := by
      unfold DictionaryHostObject.remove
      unfold bucket at hp
      cases hb : s.dict.map.lookup (m.hash key) with
      | none => simp only [hb]; rfl
      | some collisions =>
        rw [hb, Option.getD_some] at hp
        simp only [hb, hp]
        rfl
    have habsent := (hi.table.valueAt_eq_none hc).2 (hi.table.valueAt_of_position hc hp)
    refine ⟨{ s with values := fun k => if m.same key k then none else s.values k }, by rw [step, hremove]; rfl, hi.table,
      hi.count, fun k => ?_, hi.noNil, hi.held⟩
    change valueAt m.hash m.same s.dict.map k = if m.same key k then none else s.values k
    split_ifs with hkey
    · have hk' := (hi.table.valueAt_eq_none hc).1 habsent
      rw [hi.table.valueAt_eq_none hc]
      intro e he
      rw [hc.comm, ← hc.congr hkey, hc.comm]
      exact hk' e he
    · exact hi.values k
  | some i =>
    obtain ⟨e, he, -, htable, hvalues, hperm⟩ := hi.table.remove hc rfl hp
    have hcount : 1 ≤ s.dict.count := by
      rw [hi.count, hperm.length_eq, List.length_cons]
      exact Nat.le_add_left 1 _
    have hremove : s.dict.remove m s.refs key = .ok
        (⟨Assoc.insert (m.hash key) ((bucket s.dict.map (m.hash key)).eraseIdx i) s.dict.map, s.dict.count - 1⟩,
          (s.refs.release e.1).release e.2) := by
      unfold DictionaryHostObject.remove
      unfold bucket at hp he ⊢
      cases hb : s.dict.map.lookup (m.hash key) with
      | none =>
        rw [hb] at he
        cases he
      | some collisions =>
        rw [hb, Option.getD_some] at hp he
        simp only [hb, hp, Option.getD_some, List.getD_eq_getElem?_getD, he, sub32_ok hcount]
        rfl
    refine ⟨_, by rw [step, hremove]; rfl, htable, ?_, fun k => ?_, hi.noNil.release.release, fun o ho => ?_⟩
    · change s.dict.count - 1 = _
      rw [hi.count, hperm.length_eq, List.length_cons, Nat.add_sub_cancel]
    · rw [hvalues k, hi.values k]
    · have hheld := hi.held o ho
      rw [refsOf_perm hperm, refsOf_cons] at hheld
      rw [release_taken, release_taken, release_given ho, release_given ho, hheld]
      dsimp only
      omega

/-! ## Runs -/

theorem step_inv (hk : Keys m) (hi : s.Inv m) {op : DictionaryOp} (hnew : InsertsNew m s op) :
    ∃ s', step m s op = .ok s' ∧ s'.Inv m := by
  cases op with
  | remove key => exact remove_inv hk hi key
  | insert key value copyKey =>
    rw [InsertsNew] at hnew
    split_ifs at hnew with hold
    · obtain ⟨s', key', hs, hsame, htable, hcount, hvalues, hnil, hheld⟩ := insert_equal hk hi hold value copyKey
      have hkey' := (hk.same_nil hsame).2 hnew
      refine ⟨s', hs, htable, hcount, hvalues, hnil, fun o ho => ?_⟩
      rw [hheld o ho, hkey', if_neg (Ne.symm ho), Nat.add_zero]
    · push Not at hold
      exact insert_new hk hi (fun e he => Bool.eq_false_of_not_eq_true (hold e he)) hnew value copyKey

/-- **One operation**: whether the references are right afterwards. -/
theorem step_conserves_iff (hk : Keys m) (hi : s.Inv m) (op : DictionaryOp) : Conserves m s op ↔ InsertsNew m s op := by
  constructor
  · rintro ⟨s', hs, hconserved⟩
    cases op with
    | remove key => trivial
    | insert key value copyKey =>
      rw [InsertsNew]
      split_ifs with hold
      · obtain ⟨s'', key', hs', hsame, -, -, -, -, hheld⟩ := insert_equal hk hi hold value copyKey
        rw [hs] at hs'
        cases hs'
        by_contra hkey
        have hkey' : key' ≠ nil := fun h => hkey ((hk.same_nil hsame).1 h)
        have hleak := hheld key' hkey'
        rw [hconserved.held key' hkey', if_pos rfl] at hleak
        omega
      · push Not at hold
        obtain ⟨key', r, hown, hsame, -⟩ := own_cases hk s.refs key copyKey
        by_contra hfull
        have hp := hi.position_eq_none hk hsame fun e he => Bool.eq_false_of_not_eq_true (hold e he)
        rw [step, insert_full hown hp hfull] at hs
        cases hs
  · intro hnew
    obtain ⟨s', hs, hinv⟩ := step_inv hk hi hnew
    exact ⟨s', hs, hinv.conserved hk⟩

/-- **Dictionaries and their references.** In a run of insertions, copying or retaining the keys, and removals, all
operations leave the table and its references right exactly if no inserted key is equal to a stored one and there is
room for every new one. -/
theorem references_iff (hk : Keys m) (ops : List DictionaryOp) :
    LegalRun (step m) (Conserves m) start ops ↔ LegalRun (step m) (InsertsNew m) start ops := by
  refine (legalRun_congr_of_kept (P := InsertsNew m) (Q := Conserves m) ?_ ?_ (start_inv (m := m))).symm
  · intro s op s' hi hnew hs
    obtain ⟨s'', hs', hinv⟩ := step_inv hk hi hnew
    rw [hs] at hs'
    cases hs'
    exact hinv
  · intro s op hi
    exact (step_conserves_iff hk hi op).symm

/-- objects that are equal only to themselves and cannot change, in one bucket -/
def identical : KeyMessages := ⟨fun _ => 0, fun a b => a == b && a != nil, fun _ k => k⟩

theorem identical_same (a b : ℕ) : identical.same a b = true ↔ a = b := by
  simp only [KeyMessages.same, identical, Bool.or_eq_true, Bool.and_eq_true, beq_iff_eq]
  exact ⟨fun h => h.elim id And.left, Or.inl⟩

theorem identical_keys : Keys identical where
  consistent := {
    refl := fun a => (identical_same a a).2 rfl
    symm := fun a b h => (identical_same b a).2 ((identical_same a b).1 h).symm
    trans := fun a b c h h' => (identical_same a c).2 (((identical_same a b).1 h).trans ((identical_same b c).1 h'))
    hash := fun _ _ _ => rfl }
  copy _ k := (identical_same k k).2 rfl
  nilAnswer k := by simp [identical]

/-- two keys in one bucket, and the first is removed -/
theorem references_iff_two : LegalRun (step identical) (Conserves identical) start
    [.insert 8 16 true, .insert 12 16 false, .remove 8] := by
  have hnew : LegalRun (step identical) (InsertsNew identical) start
      [.insert 8 16 true, .insert 12 16 false, .remove 8] := by decide +kernel
  exact (references_iff identical_keys _).2 hnew

/-- **An equal key is inserted.** The key 8 is inserted twice: its second reference is never given back. -/
theorem equal_key : ¬∀ m, Keys m → ∀ ops, LegalRun (step m) (Conserves m) start ops := by
  intro hall
  obtain ⟨-, hrest⟩ := hall identical identical_keys [.insert 8 16 false, .insert 8 20 false]
  obtain ⟨⟨s, hs, hconserved⟩, -⟩ := hrest _ rfl
  cases hs
  have hheld := hconserved.held 8 (by decide)
  revert hheld
  decide

end DictionaryState

end TouchHLE
