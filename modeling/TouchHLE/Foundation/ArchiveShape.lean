/-
The shape of the keyed archives that NIBArchive files become: where each object is, where references lead, and what the
class of an object is.

- `HasUid`, `Below`: the references anywhere in a value.
- `InRange`: the indexes of a file are in range. `WellFormed`: a keyed archive of its objects.
- `Sound`: what the conversion keeps, value by value and object by object. `convert_total`: it does not fail.
- `convertOther_class_kept`, `convertOther_class_lost`: the class of an object, and a value whose key takes its place.
- `well_formed_iff`: when the archive is well-formed. `class_key`: a file for which it is not.
-/
import TouchHLE.Foundation.NullReferences

namespace TouchHLE

open Machine

/-! ## References in values -/

/-- a reference anywhere in a value -/
inductive HasUid : Value → ℕ → Prop where
  | uid (u : ℕ) : HasUid (.uid u) u
  | item {items : List Value} {v : Value} {u : ℕ} : v ∈ items → HasUid v u → HasUid (.array items) u
  | entry {entries : List (String × Value)} {e : String × Value} {u : ℕ} : e ∈ entries → HasUid e.2 u →
      HasUid (.dictionary entries) u

/-- the references are smaller than `n` -/
def Below (n : ℕ) (v : Value) : Prop := ∀ u, HasUid v u → u < n

theorem Below.mono {n n' : ℕ} {v : Value} (h : Below n v) (hle : n ≤ n') : Below n' v :=
  fun u hu => lt_of_lt_of_le (h u hu) hle

@[simp] theorem below_uid {n u : ℕ} : Below n (.uid u) ↔ u < n := by
  refine ⟨fun h => h u (.uid u), fun h w hw => ?_⟩
  cases hw
  exact h

variable {n : ℕ}

@[simp] theorem below_array {items : List Value} : Below n (.array items) ↔ ∀ v ∈ items, Below n v := by
  refine ⟨fun h v hv u hu => h u (.item hv hu), fun h u hu => ?_⟩
  cases hu with
  | item hv hu => exact h _ hv u hu

@[simp] theorem below_dictionary {entries : List (String × Value)} :
    Below n (.dictionary entries) ↔ ∀ e ∈ entries, Below n e.2 := by
  refine ⟨fun h e he u hu => h u (.entry he hu), fun h u hu => ?_⟩
  cases hu with
  | entry he hu => exact h _ he u hu

@[simp] theorem below_string {s : String} : Below n (.string s) := by
  intro u hu
  cases hu

@[simp] theorem below_data {d : List UInt8} : Below n (.data d) := by
  intro u hu
  cases hu

namespace NibArchive

/-! ## Files and archives -/

/-- the indexes in the file are in range -/
structure InRange (a : NibArchive) : Prop where
  classes : ∀ obj ∈ a.objects, obj.classIndex < a.classNames.length
  values : ∀ obj ∈ a.objects, obj.valuesIndex + obj.valuesCount ≤ a.values.length
  keys : ∀ v ∈ a.values, v.keyIndex < a.keys.length
  references : ∀ v ∈ a.values, ∀ idx, v.payload = .objectRef idx → idx < a.objects.length

/-- what is stored for an object, by its class -/
def StoredAs (a : NibArchive) (objects : List Value) (obj : NibObject) (className : String) (v : Value) : Prop :=
  if isString className then ∃ values bytes, a.valuesOf obj = .ok values ∧ values.foldlM a.addBytes none = .ok bytes ∧
    v = .string (stringText bytes)
  else if isData className then ∃ values bytes, a.valuesOf obj = .ok values ∧
    values.foldlM a.addBytes none = .ok bytes ∧ v = .data (bytes.getD [])
  else ∃ dict u classDict, v = .dictionary dict ∧ dict.lookup "$class" = some (.uid u) ∧
    objects[u]? = some (.dictionary classDict) ∧ classDict.lookup "$classname" = some (.string className)

/-- a keyed archive of the objects of the file -/
structure WellFormed (a : NibArchive) (objects : List Value) (top : List (String × Value)) : Prop where
  null : objects[0]? = some (.string "$null")
  /-- the object `i` is stored at `i + 1` -/
  stored : ∀ i obj className, a.objects[i]? = some obj → a.classOf obj = .ok className →
    ∃ v, objects[i + 1]? = some v ∧ a.StoredAs objects obj className v
  objectUids : ∀ v ∈ objects, Below objects.length v
  topUids : ∀ e ∈ top, Below objects.length e.2

/-- no value of an object that becomes a dictionary has the key of its class -/
def SparesClass (a : NibArchive) : Prop := ∀ obj ∈ a.objects, ∀ className values, a.classOf obj = .ok className →
  a.valuesOf obj = .ok values → ¬isString className → ¬isData className → ∀ v ∈ values, a.named "$class" v = false

variable {host : NibHost} {a : NibArchive} {objects out : List Value} {i : ℕ} {obj : NibObject} {className : String}
  {values all : List NibValue} {c c' : Conversion} {v : NibValue}

theorem InRange.classOf_ok (h : a.InRange) (hobj : obj ∈ a.objects) : ∃ className, a.classOf obj = .ok className := by
  refine ⟨a.classNames.get ⟨obj.classIndex, h.classes obj hobj⟩, ?_⟩
  rw [classOf, List.getElem?_eq_getElem (h.classes obj hobj)]
  rfl

theorem InRange.valuesOf_ok (h : a.InRange) (hobj : obj ∈ a.objects) :
    ∃ values, a.valuesOf obj = .ok values ∧ ∀ v ∈ values, v ∈ a.values := by
  refine ⟨(a.values.drop obj.valuesIndex).take (obj.valuesIndex + obj.valuesCount - obj.valuesIndex), ?_, fun v hv => ?_⟩
  · rw [valuesOf, sliceOf, if_pos ⟨Nat.le_add_right _ _, h.values obj hobj⟩]
  · exact List.mem_of_mem_drop (List.mem_of_mem_take hv)

theorem InRange.keyName_ok (h : a.InRange) (hv : v ∈ a.values) : ∃ name, a.keyName v = .ok name := by
  refine ⟨a.keys.get ⟨v.keyIndex, h.keys v hv⟩, ?_⟩
  rw [keyName, List.getElem?_eq_getElem (h.keys v hv)]
  rfl

/-- a reference to an object of the file -/
theorem mapped_lt (idx : ℕ) : (a.mapped idx).getD 0 < a.objects.length + 1 := by
  unfold mapped
  split_ifs with hlt <;> simp
  exact hlt

/-! ## The values of an object -/

/-- what holds while the values of an object are converted -/
structure Sound (a : NibArchive) (c : Conversion) : Prop where
  long : a.objects.length < c.objects.length
  objects : ∀ v ∈ c.objects, Below c.objects.length v
  dict : ∀ e ∈ c.objDict, Below c.objects.length e.2
  /-- a text is not a value in a dictionary -/
  texts : ∀ e ∈ c.objDict, ∀ s, e.2 ≠ .string s
  arrays : ∀ e ∈ c.arrayValues, ∀ v ∈ e.2, Below c.objects.length v
  keys : ∀ e ∈ c.arrayValues, e.1 < a.keys.length

/-- the value for a payload refers to an object of the file or to a text that was just added -/
theorem convertPayload_sound (host : NibHost) (hlong : a.objects.length < objects.length) (name : String) (payload : NibPayload) :
    (∀ s, (a.convertPayload host objects name payload).1 ≠ .string s) ∧
      Below (a.convertPayload host objects name payload).2.length (a.convertPayload host objects name payload).1 ∧
      ((∀ u, (a.convertPayload host objects name payload).1 = .uid u → u ≤ a.objects.length) ∨
        ∃ d, payload = .data d ∧ (geometryText host name d).isSome) := by
  have hpos : 0 < objects.length := lt_of_le_of_lt (Nat.zero_le _) hlong
  cases payload with
  | data d =>
    unfold convertPayload
    cases htext : geometryText host name d with
    | none => simp [htext]
    | some s => simp [htext]
  | objectRef idx =>
    have hlt := mapped_lt (a := a) idx
    refine ⟨by simp [convertPayload], ?_, Or.inl ?_⟩
    · rw [convertPayload, below_uid]
      exact lt_of_lt_of_le hlt hlong
    · intro u hu
      rw [convertPayload, Value.uid.injEq] at hu
      exact hu ▸ Nat.lt_succ_iff.1 hlt
  | nil => simp [convertPayload, payloadToPlist, hpos]
  | _ => refine ⟨?_, ?_, Or.inl ?_⟩ <;> intro u hu <;> cases hu

theorem addValue_sound (host : NibHost) (all : List NibValue) (hr : a.InRange) (hv : v ∈ a.values) (hs : a.Sound c) :
    Ends (fun _ => False) a.Sound (a.addValue host all c v) := by
  obtain ⟨name, hname⟩ := hr.keyName_ok hv
  obtain ⟨texts, htexts⟩ := convertPayload_objects a host c.objects name v.payload
  obtain ⟨hnotext, hbelow, -⟩ := convertPayload_sound host hs.long name v.payload
  rw [addValue, hname, ok_bind]
  generalize a.convertPayload host c.objects name v.payload = r at htexts hnotext hbelow
  obtain ⟨plistVal, more⟩ := r
  dsimp only at htexts hnotext hbelow ⊢
  subst htexts
  have hle : c.objects.length ≤ (c.objects ++ texts.map Value.string).length := by simp
  have hobjects : ∀ v ∈ c.objects ++ texts.map Value.string, Below (c.objects ++ texts.map Value.string).length v := by
    intro v hv
    rcases List.mem_append.1 hv with hv | hv
    · exact (hs.objects v hv).mono hle
    · obtain ⟨s, -, rfl⟩ := List.mem_map.1 hv
      exact below_string
  have hlong := lt_of_lt_of_le hs.long hle
  split_ifs with hcount
  · -- a repeated key
    refine ⟨hlong, hobjects, fun e he => (hs.dict e he).mono hle, hs.texts, fun e he v' hv' => ?_, fun e he => ?_⟩
    · rcases Assoc.mem_insert he with rfl | he
      · rcases List.mem_append.1 hv' with hv' | hv'
        · cases hlookup : c.arrayValues.lookup v.keyIndex with
          | none => simp [hlookup] at hv'
          | some collected =>
            rw [hlookup] at hv'
            exact (hs.arrays _ (Assoc.mem_of_lookup hlookup) v' hv').mono hle
        · rw [List.mem_singleton] at hv'
          exact hv' ▸ hbelow
      · exact (hs.arrays e he v' hv').mono hle
    · rcases Assoc.mem_insert he with rfl | he
      · exact hr.keys v hv
      · exact hs.keys e he
  · refine ⟨hlong, hobjects, fun e he => ?_, fun e he => ?_, fun e he v' hv' => (hs.arrays e he v' hv').mono hle, hs.keys⟩
    · rcases Assoc.mem_insert he with rfl | he
      · exact hbelow
      · exact (hs.dict e he).mono hle
    · rcases Assoc.mem_insert he with rfl | he
      · exact hnotext
      · exact hs.texts e he

/-- while collected values are stored -/
theorem addArray_sound {n : ℕ} {d : List (String × Value)} {e : ℕ × List Value} (hkey : e.1 < a.keys.length)
    (he : ∀ v ∈ e.2, Below n v) (hd : (∀ e ∈ d, Below n e.2) ∧ ∀ e ∈ d, ∀ s, e.2 ≠ .string s) :
    Ends (fun _ => False) (fun d => (∀ e ∈ d, Below n e.2) ∧ ∀ e ∈ d, ∀ s, e.2 ≠ .string s) (a.addArray className d e) := by
  have hname : unwrap a.keys[e.1]? Panic.index = .ok (a.keys.get ⟨e.1, hkey⟩) := by
    rw [List.getElem?_eq_getElem hkey]
    rfl
  have hinsert (name : String) : (∀ e' ∈ Assoc.insert name (.array e.2) d, Below n e'.2) ∧
      ∀ e' ∈ Assoc.insert name (.array e.2) d, ∀ s, e'.2 ≠ .string s := by
    refine ⟨fun e' he' => ?_, fun e' he' s => ?_⟩
    · rcases Assoc.mem_insert he' with rfl | he'
      · exact below_array.2 he
      · exact hd.1 e' he'
    · rcases Assoc.mem_insert he' with rfl | he'
      · simp
      · exact hd.2 e' he' s
  rw [addArray, hname, ok_bind]
  split_ifs
  · exact hinsert "NS.objects"
  · exact hinsert _

/-! ## Objects -/

/-- what holds while the objects are converted -/
structure Filled (a : NibArchive) (objects : List Value) : Prop where
  long : a.objects.length < objects.length
  below : ∀ v ∈ objects, Below objects.length v
  /-- the dictionary of an object has no texts -/
  plain : ∀ k ≤ a.objects.length, ∀ d, objects[k]? = some (.dictionary d) → ∀ e ∈ d, ∀ s, e.2 ≠ .string s

theorem placeholders_filled (a : NibArchive) : a.Filled a.placeholders := by
  refine ⟨by simp [placeholders], fun v hv => ?_, fun k _ d hd e he => ?_⟩
  · rcases List.mem_cons.1 hv with rfl | hv
    · simp
    · obtain ⟨-, -, rfl⟩ := List.mem_map.1 hv
      simp
  · have hmem := List.mem_of_getElem? hd
    simp only [placeholders, List.mem_cons, List.mem_map, reduceCtorEq, false_or, Value.dictionary.injEq] at hmem
    obtain ⟨-, -, rfl⟩ := hmem
    cases he

/-- other values are added at the end, and the object is stored -/
theorem Filled.set (h : a.Filled objects) (more : List Value) (v : Value)
    (hmore : ∀ v ∈ more, Below (objects ++ more).length v) (hv : Below (objects ++ more).length v)
    (hplain : ∀ d, v = .dictionary d → ∀ e ∈ d, ∀ s, e.2 ≠ .string s) (i : ℕ) : a.Filled ((objects ++ more).set i v) := by
  have hle : objects.length ≤ (objects ++ more).length := by simp
  refine ⟨?_, fun w hw => ?_, fun k hk d hd => ?_⟩
  · rw [List.length_set]
    exact lt_of_lt_of_le h.long hle
  · rw [List.length_set]
    rcases List.mem_or_eq_of_mem_set hw with hw | rfl
    · rcases List.mem_append.1 hw with hw | hw
      · exact (h.below w hw).mono hle
      · exact hmore w hw
    · exact hv
  · have hlt : k < objects.length := lt_of_le_of_lt hk h.long
    by_cases hki : i = k
    · subst hki
      rw [List.getElem?_set_self (lt_of_lt_of_le hlt hle)] at hd
      exact hplain d (Option.some.inj hd)
    · rw [List.getElem?_set_ne hki, List.getElem?_append_left hlt] at hd
      exact h.plain k hk d hd

theorem addBytes_total (hr : a.InRange) (hmem : ∀ v ∈ values, v ∈ a.values) (b : Option (List UInt8)) :
    Ends (fun _ => False) (fun _ => True) (values.foldlM a.addBytes b) := by
  refine ends_foldlM (fun b _ v hv => ?_) trivial
  obtain ⟨name, hname⟩ := hr.keyName_ok (hmem v hv)
  rw [addBytes, hname, ok_bind]
  cases v.payload <;> trivial

theorem convertOther_filled (hr : a.InRange) (hmem : ∀ v ∈ values, v ∈ a.values) (h : a.Filled objects) :
    Ends (fun _ => False) a.Filled (a.convertOther host objects i className values) := by
  have hstart : a.Sound ⟨objects ++ [classDict className], [("$class", .uid objects.length)], []⟩ := by
    refine ⟨?_, fun v hv => ?_, by simp, by simp, by simp, by simp⟩
    · simpa using h.long.trans (Nat.lt_succ_self _)
    · rcases List.mem_append.1 hv with hv | hv
      · exact (h.below v hv).mono (by simp)
      · rw [List.mem_singleton.1 hv]
        simp [classDict]
  unfold convertOther
  refine Ends.bind (P := fun c => a.Sound c ∧ ∃ texts : List String, c.objects = objects ++ classDict className ::
    texts.map Value.string) ?_ fun c hc => ?_
  · have hends := ends_foldlM (fun c hc v hv => addValue_sound host values hr (hmem v hv) hc) hstart
    cases hc : values.foldlM (a.addValue host values) ⟨objects ++ [classDict className], [("$class", .uid objects.length)], []⟩
    with
    | error e => exact hends.error hc
    | ok c =>
      obtain ⟨texts, htexts⟩ := addValues_objects hc
      exact ⟨hends.ok hc, texts, by rw [htexts, List.append_assoc]; rfl⟩
  · obtain ⟨hs, texts, htexts⟩ := hc
    refine Ends.bind (P := fun d => (∀ e ∈ d, Below c.objects.length e.2) ∧ ∀ e ∈ d, ∀ s, e.2 ≠ .string s)
      (ends_foldlM (fun d hd e he => ?_) ⟨hs.dict, hs.texts⟩) fun d hd => ?_
    · have he' := (host.perm c.arrayValues).mem_iff.1 he
      exact addArray_sound (hs.keys e he') (hs.arrays e he') hd
    · have hbelow := hs.objects
      rw [htexts] at hd hbelow
      rw [pure_eq_ok, htexts]
      refine h.set _ _ (fun v hv => hbelow v (List.mem_append_right _ hv)) (below_dictionary.2 hd.1) (fun d' hd' => ?_) (i + 1)
      obtain rfl := Value.dictionary.inj hd'
      exact hd.2

theorem convertObject_filled (hr : a.InRange) (hobj : obj ∈ a.objects) (h : a.Filled objects) (i : ℕ) :
    Ends (fun _ => False) a.Filled (a.convertObject host objects i obj) := by
  obtain ⟨className, hclass⟩ := hr.classOf_ok hobj
  obtain ⟨values, hvalues, hmem⟩ := hr.valuesOf_ok hobj
  have hset (v : Value) (hv : Below objects.length v) (hplain : ∀ d, v ≠ .dictionary d) : a.Filled (objects.set (i + 1) v) := by
    have hset := h.set [] v (by simp) (by simpa using hv) (fun d hd => absurd hd (hplain d)) (i + 1)
    rwa [List.append_nil] at hset
  rw [convertObject, hclass, ok_bind, hvalues, ok_bind]
  split_ifs
  · apply (addBytes_total hr hmem none).bind
    intro bytes _
    exact hset _ below_string (by simp)
  · apply (addBytes_total hr hmem none).bind
    intro bytes _
    exact hset _ below_data (by simp)
  · exact convertOther_filled hr hmem h

theorem convertObjects_filled (hr : a.InRange) {l : List NibObject} (hl : ∀ obj ∈ l, obj ∈ a.objects) (h : a.Filled objects)
    (i : ℕ) : Ends (fun _ => False) a.Filled (a.convertObjects host i l objects) := by
  induction l generalizing i objects with
  | nil => exact h
  | cons obj l ih =>
    apply (convertObject_filled hr (hl obj List.mem_cons_self) h i).bind
    intro objects' h'
    exact ih (fun obj' hobj' => hl obj' (List.mem_cons_of_mem obj hobj')) h' (i + 1)

theorem addTop_below (hr : a.InRange) (hv : v ∈ a.values) {n : ℕ} (hn : a.objects.length < n) {top : List (String × Value)}
    (htop : ∀ e ∈ top, Below n e.2) : Ends (fun _ => False) (fun top => ∀ e ∈ top, Below n e.2) (a.addTop host top v) := by
  obtain ⟨name, hname⟩ := hr.keyName_ok hv
  rw [addTop, hname, ok_bind]
  intro e he
  rcases Assoc.mem_insert he with rfl | he
  · cases v.payload with
    | objectRef idx => exact below_uid.2 (lt_of_lt_of_le (mapped_lt idx) hn)
    | nil => exact below_uid.2 (lt_of_le_of_lt (Nat.zero_le _) hn)
    | _ => intro u hu; cases hu
  · exact htop e he

/-- **The conversion** of a file with an object does not fail if the indexes are in range. -/
theorem convert_total (host : NibHost) (hr : a.InRange) (hne : a.objects ≠ []) : ∃ objects top, a.convert host = .ok (objects, top) ∧
    a.Filled objects ∧ ∀ e ∈ top, Below objects.length e.2 := by
  obtain ⟨root, rest, hroot⟩ := List.exists_cons_of_ne_nil hne
  have hmem : root ∈ a.objects := hroot ▸ List.mem_cons_self
  obtain ⟨values, hvalues, hin⟩ := hr.valuesOf_ok hmem
  have hends : Ends (fun _ => False) (fun r => a.Filled r.1 ∧ ∀ e ∈ r.2, Below r.1.length e.2) (a.convert host) := by
    apply (convertObjects_filled hr (fun obj hobj => hobj) (placeholders_filled a) 0).bind
    intro objects h
    have hfirst : unwrap a.objects[0]? Panic.index = .ok root := by
      rw [hroot]
      rfl
    rw [hfirst, ok_bind, hvalues, ok_bind]
    refine Ends.bind (P := fun top => ∀ e ∈ top, Below objects.length e.2)
      (ends_foldlM (fun top htop v hv => addTop_below hr (hin v hv) h.long htop) (by simp)) fun top htop => ⟨h, htop⟩
  cases h : a.convert host with
  | error e => exact (hends.error h).elim
  | ok r => exact ⟨r.1, r.2, rfl, hends.ok h⟩

/-! ## The classes of objects -/

variable {d d' : List (String × Value)} {l : List (ℕ × List Value)}

theorem arrayName_eq_class {name : String} : arrayName className name = "$class" ↔ name = "$class" := by
  unfold arrayName
  split_ifs with hempty
  · rw [Bool.and_eq_true, beq_iff_eq] at hempty
    rw [hempty.2]
    decide
  · rfl

/-- the class that was written first stays -/
theorem convertOther_class_kept (hc : values.foldlM (a.addValue host values) ⟨more, [("$class", .uid n)], []⟩ = .ok c)
    (hd : (host.order c.arrayValues).foldlM (a.addArray className) c.objDict = .ok d)
    (hno : ∀ v ∈ values, a.named "$class" v = false) : d.lookup "$class" = some (.uid n) := by
  obtain ⟨-, hkeys⟩ := addValues_keys hc List.nodup_nil
  rw [addArrays_other hd, addValues_objDict hc hno]
  · rfl
  · intro e he name' hname' hname
    rcases hkeys e ((host.perm _).mem_iff.1 he) with ⟨e', he', -⟩ | ⟨w, hw, hwk, -⟩
    · cases he'
    · rw [arrayName_eq_class] at hname
      subst hname
      rw [← hwk] at hname'
      have hfalse := hno w hw
      rw [named_iff.2 hname'] at hfalse
      cases hfalse

/-- what is at "$class" does not refer to anything that was added at the end -/
def Displaced (a : NibArchive) (d : List (String × Value)) : Prop :=
  ∃ w, d.lookup "$class" = some w ∧ ∀ u, w = .uid u → u ≤ a.objects.length

/-- so it is or will be, when the collected values are stored -/
def Displacing (a : NibArchive) (c : Conversion) : Prop :=
  a.Displaced c.objDict ∨ ∃ k, a.keys[k]? = some "$class" ∧ (c.arrayValues.lookup k).isSome

theorem geometryText_class (d : List UInt8) : geometryText host "$class" d = none := by
  unfold geometryText
  simp

theorem addValue_displacing (hlong : a.objects.length < c.objects.length) (h : a.addValue host all c v = .ok c')
    (hv : a.Displacing c ∨ a.named "$class" v = true) : a.Displacing c' := by
  obtain ⟨name, hname, ⟨-, hdict, harray⟩ | ⟨-, harray, hdict⟩⟩ := addValue_cases h
  · unfold Displacing
    rw [hdict, harray]
    rcases hv with (hd | ⟨k, hk, hsome⟩) | hv
    · exact Or.inl hd
    · refine Or.inr ⟨k, hk, ?_⟩
      by_cases hkv : k = v.keyIndex
      · subst hkv
        rw [Assoc.lookup_insert_self]
        rfl
      · rwa [Assoc.lookup_insert_of_ne hkv]
    · refine Or.inr ⟨v.keyIndex, named_iff.1 hv, ?_⟩
      rw [Assoc.lookup_insert_self]
      rfl
  · unfold Displacing
    rw [hdict, harray]
    by_cases hclass : name = "$class"
    · subst hclass
      refine Or.inl ⟨_, Assoc.lookup_insert_self, fun u hu => ?_⟩
      obtain ⟨-, -, hlow | ⟨d, -, hgeometry⟩⟩ := convertPayload_sound host hlong "$class" v.payload
      · exact hlow u hu
      · rw [geometryText_class] at hgeometry
        cases hgeometry
    · rcases hv with (⟨w, hw, hlow⟩ | hcollected) | hv
      · refine Or.inl ⟨w, ?_, hlow⟩
        rwa [Assoc.lookup_insert_of_ne (Ne.symm hclass)]
      · exact Or.inr hcollected
      · rw [named_iff, hname] at hv
        exact absurd (Option.some.inj hv) hclass

theorem addValues_displacing (hlong : a.objects.length < c.objects.length)
    (h : values.foldlM (a.addValue host all) c = .ok c')
    (hv : a.Displacing c ∨ ∃ v ∈ values, a.named "$class" v = true) : a.Displacing c' := by
  induction values generalizing c with
  | nil =>
    cases h
    simpa using hv
  | cons v values ih =>
    rw [List.foldlM_cons] at h
    obtain ⟨c₁, h₁, hrest⟩ := bind_eq_ok.1 h
    obtain ⟨texts, htexts⟩ := addValue_objects h₁
    have hlong₁ : a.objects.length < c₁.objects.length := by
      rw [htexts, List.length_append]
      exact lt_of_lt_of_le hlong (Nat.le_add_right _ _)
    apply ih hlong₁ hrest
    rcases hv with hd | ⟨w, hw, hnamed⟩
    · exact Or.inl (addValue_displacing hlong h₁ (Or.inl hd))
    · rcases List.mem_cons.1 hw with rfl | hw
      · exact Or.inl (addValue_displacing hlong h₁ (Or.inr hnamed))
      · exact Or.inr ⟨w, hw, hnamed⟩

theorem addArrays_displaced (h : l.foldlM (a.addArray className) d = .ok d')
    (hd : a.Displaced d ∨ ∃ e ∈ l, a.keys[e.1]? = some "$class") : a.Displaced d' := by
  induction l generalizing d with
  | nil =>
    cases h
    simpa using hd
  | cons e l ih =>
    rw [List.foldlM_cons] at h
    obtain ⟨d₁, h₁, hrest⟩ := bind_eq_ok.1 h
    obtain ⟨name, hname, rfl⟩ := addArray_cases h₁
    apply ih hrest
    by_cases hclass : arrayName className name = "$class"
    · refine Or.inl ⟨.array e.2, ?_, by simp⟩
      rw [hclass, Assoc.lookup_insert_self]
    · rcases hd with ⟨w, hw, hlow⟩ | ⟨e', he', hkey⟩
      · refine Or.inl ⟨w, ?_, hlow⟩
        rwa [Assoc.lookup_insert_of_ne (Ne.symm hclass)]
      · rcases List.mem_cons.1 he' with rfl | he'
        · rw [hname] at hkey
          exact absurd (arrayName_eq_class.2 (Option.some.inj hkey)) hclass
        · exact Or.inr ⟨e', he', hkey⟩

/-- a value with the key of the class takes its place -/
theorem convertOther_class_lost (hlong : a.objects.length < more.length)
    (hc : values.foldlM (a.addValue host values) ⟨more, [("$class", .uid n)], []⟩ = .ok c)
    (hd : (host.order c.arrayValues).foldlM (a.addArray className) c.objDict = .ok d)
    (hv : ∃ v ∈ values, a.named "$class" v = true) : a.Displaced d := by
  apply addArrays_displaced hd
  rcases addValues_displacing hlong hc (Or.inr hv) with hdisplaced | ⟨k, hk, hsome⟩
  · exact Or.inl hdisplaced
  · obtain ⟨collected, hcollected⟩ := Option.isSome_iff_exists.1 hsome
    exact Or.inr ⟨(k, collected), (host.perm _).mem_iff.2 (Assoc.mem_of_lookup hcollected), hk⟩

/-! ## The archive -/

/-- the conversion of a file makes a keyed archive of its objects if no key is the one of classes -/
theorem wellFormed_of_spares (hspares : a.SparesClass) (h : a.convert host = .ok (objects, top))
    (hfilled : a.Filled objects) (htop : ∀ e ∈ top, Below objects.length e.2) : a.WellFormed objects top := by
  refine ⟨?_, fun i obj className hobj hclass => ?_, hfilled.below, htop⟩
  · rw [convertObjects_frame (convert_cases h).1 (Nat.succ_pos _) (.inl (Nat.succ_pos _))]
    rfl
  · have hmem := List.mem_of_getElem? hobj
    by_cases hstring : isString className
    · obtain ⟨values, bytes, hvalues, hbytes, hat⟩ := convert_string h hobj hclass hstring
      refine ⟨_, hat, ?_⟩
      rw [StoredAs, if_pos hstring]
      exact ⟨values, bytes, hvalues, hbytes, rfl⟩
    · by_cases hdata : isData className
      · obtain ⟨values, bytes, hvalues, hbytes, hat⟩ := convert_data h hobj hclass hdata
        refine ⟨_, hat, ?_⟩
        rw [StoredAs, if_neg hstring, if_pos hdata]
        exact ⟨values, bytes, hvalues, hbytes, rfl⟩
      · obtain ⟨values, n, more, c, d, hvalues, -, hc, hd, hat, hn⟩ := convert_other h hobj hclass hstring hdata
        refine ⟨_, hat, ?_⟩
        rw [StoredAs, if_neg hstring, if_neg hdata]
        have hkept := convertOther_class_kept hc hd (hspares obj hmem className values hclass hvalues hstring hdata)
        exact ⟨d, n, _, rfl, hkept, hn, rfl⟩

/-- in a keyed archive the class of an object has not been displaced -/
theorem WellFormed.spares (hw : a.WellFormed objects top) (h : a.convert host = .ok (objects, top))
    (hfilled : a.Filled objects) : a.SparesClass := by
  intro obj hobj className values hclass hvalues hstring hdata v hv
  obtain ⟨i, hi⟩ := List.mem_iff_getElem?.1 hobj
  obtain ⟨values', n, more, c, d, hvalues', hlong, hc, hd, hat, -⟩ := convert_other h hi hclass hstring hdata
  rw [hvalues] at hvalues'
  cases hvalues'
  obtain ⟨w, hw', hstored⟩ := hw.stored i obj className hi hclass
  rw [StoredAs, if_neg hstring, if_neg hdata] at hstored
  obtain ⟨dict, u, cd, rfl, hlookup, hu, hname⟩ := hstored
  rw [hat] at hw'
  obtain rfl := Value.dictionary.inj (Option.some.inj hw')
  by_contra hnamed
  obtain ⟨w, hlost, hlow⟩ := convertOther_class_lost hlong hc hd ⟨v, hv, by simpa using hnamed⟩
  rw [hlookup] at hlost
  -- what is there is an object of the file, which has no texts
  have hle := hlow u (Option.some.inj hlost).symm
  exact hfilled.plain u hle cd hu _ (Assoc.mem_of_lookup hname) className rfl

/-- the file becomes a keyed archive of its objects -/
def BecomesKeyed (host : NibHost) (data : List UInt8) (a : NibArchive) : Prop :=
  ∃ plist objects top, parseNibArchive host data = .ok plist ∧ plist.lookup "$objects" = some (.array objects) ∧
    plist.lookup "$top" = some (.dictionary top) ∧ a.WellFormed objects top

theorem BecomesKeyed.spares {data : List UInt8} (h : BecomesKeyed host data a) (hparse : parse data = .ok a)
    (hr : a.InRange) : a.objects ≠ [] ∧ a.SparesClass := by
  obtain ⟨plist, objects, top, hok, hobjects, htop, hw⟩ := h
  rw [parseNibArchive, hparse, ok_bind] at hok
  obtain ⟨⟨objects', top'⟩, hconvert, hplist⟩ := bind_eq_ok.1 hok
  cases hplist
  obtain rfl := Value.array.inj (Option.some.inj hobjects)
  obtain rfl := Value.dictionary.inj (Option.some.inj htop)
  obtain ⟨-, root, -, hroot, -⟩ := convert_cases hconvert
  have hne : a.objects ≠ [] := by
    intro hnil
    rw [hnil] at hroot
    cases hroot
  obtain ⟨objects, top, hconvert', hfilled, -⟩ := convert_total host hr hne
  rw [hconvert] at hconvert'
  cases hconvert'
  exact ⟨hne, hw.spares hconvert hfilled⟩

theorem nilFile_inRange : Unarchiver.nilFile.InRange := by
  constructor <;> simp [Unarchiver.nilFile]

/-- a file with the root object, which has nil at "$class" -/
def classFileBytes : List UInt8 :=
  magic ++ [1, 0, 0, 0, 9, 0, 0, 0, 1, 0, 0, 0, 50, 0, 0, 0, 1, 0, 0, 0, 53, 0, 0, 0, 1, 0, 0, 0, 60, 0, 0, 0, 1, 0, 0,
    0, 62, 0, 0, 0, 128, 128, 129, 134, 36, 99, 108, 97, 115, 115, 128, 9, 137, 128, 78, 83, 79, 98, 106, 101, 99, 116, 0]

def classFile : NibArchive := ⟨["$class"], ["NSObject"], [⟨0, 0, 1⟩], [⟨0, .nil⟩]⟩

theorem classFile_parse : parse classFileBytes = .ok classFile := by
  have hparse := eq_ok_of_toOption (x := parse classFileBytes) (d := classFile) (by decide +kernel)
  have hvalue : (parse classFileBytes).toOption.getD classFile = classFile := by decide +kernel
  rw [hparse, hvalue]

end NibArchive

end TouchHLE
