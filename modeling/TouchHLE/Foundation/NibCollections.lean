/-
Collections in NIBArchive files: what becomes of the arrays and dictionaries of a file when it is converted, and what
`decode_current_array` and `decode_current_dict` make of them.

- `NibContents`, `IsCollection`: an object of a file that is a collection, and what it holds.
- `Survives`: the converted object has the same contents, for the decoder too.
- `addValues_array`, `addArrays_self`: how repeated keys are collected.
- `survives_iff`: which collections survive. `one_element`: an array that does not.
-/
import TouchHLE.Foundation.KeyedUnarchiver

namespace TouchHLE.NibArchive

open Machine

variable {host : NibHost} {a : NibArchive} {objects : List Value} {top : List (String × Value)} {i k : ℕ} {name : String}
  {className : String} {values all : List NibValue} {refs : List ℕ} {c c' : Conversion} {v : NibValue}

def named (a : NibArchive) (name : String) (v : NibValue) : Bool := a.keys[v.keyIndex]? == some name

/-- the values hold references under one key, which is repeated, and nothing under the keys of a keyed archive -/
structure Holds (a : NibArchive) (values : List NibValue) (refs : List ℕ) : Prop where
  elements : (values.filter (a.named "UINibEncoderEmptyKey")).map NibValue.payload = refs.map NibPayload.objectRef
  oneKey : ∀ v ∈ values, ∀ v' ∈ values, a.named "UINibEncoderEmptyKey" v = true → a.named "UINibEncoderEmptyKey" v' = true →
    v.keyIndex = v'.keyIndex
  others : ∀ v ∈ values, a.named "NS.objects" v = false ∧ a.named "NS.keys" v = false
  inRange : ∀ r ∈ refs, r < a.objects.length

/-- what a collection holds: objects by their indexes in the file -/
inductive NibContents where
  | array (elements : List ℕ)
  | dictionary (pairs : List (ℕ × ℕ))

namespace NibContents

def classNames : NibContents → List String
  | .array _ => ["NSArray", "NSMutableArray"]
  | .dictionary _ => ["NSDictionary", "NSMutableDictionary"]

/-- the references in the order of the file, keys and values of a dictionary in turns -/
def references : NibContents → List ℕ
  | .array elements => elements
  | .dictionary pairs => pairs.flatMap fun p => [p.1, p.2]

end NibContents

/-- the object `i` of the file is a collection with these contents -/
def IsCollection (a : NibArchive) (i : ℕ) (contents : NibContents) : Prop :=
  ∃ obj className values, a.objects[i]? = some obj ∧ a.classOf obj = .ok className ∧ className ∈ contents.classNames ∧
    a.valuesOf obj = .ok values ∧ Holds a values contents.references

/-- the references to objects of the file in `$objects` -/
def uids (refs : List ℕ) : List Value := refs.map fun r => .uid (r + 1)

/-- the object `i` of the file has its contents in `$objects`, and they are decoded in their order -/
def Survives (objects : List Value) (i : ℕ) : NibContents → Prop
  | .array elements => ∃ dict, objects[i + 1]? = some (.dictionary dict) ∧ dict.lookup "NS.objects" = some (.array (uids elements)) ∧
      ∀ unarchive (s : Unarchiver), s.objects = objects → s.currentKey = some (i + 1) →
        s.decodeCurrentArray unarchive = Unarchiver.unarchiveAll unarchive (elements.map (· + 1)) s
  | .dictionary pairs => ∃ dict, objects[i + 1]? = some (.dictionary dict) ∧
      dict.lookup "NS.keys" = some (.array (uids (pairs.map Prod.fst))) ∧
      dict.lookup "NS.objects" = some (.array (uids (pairs.map Prod.snd))) ∧
      ∀ unarchive (s : Unarchiver), s.objects = objects → s.currentKey = some (i + 1) →
        s.decodeCurrentDict unarchive = (do
          let (keys, s) ← Unarchiver.unarchiveAll unarchive (pairs.map fun p => p.1 + 1) s
          let (vals, s) ← Unarchiver.unarchiveAll unarchive (pairs.map fun p => p.2 + 1) s
          pure (keys.zip vals, s))

/-! ## The values of an object -/

/-- a value is stored at once if its key is not repeated, and collected otherwise -/
theorem addValue_cases (h : a.addValue host all c v = .ok c') : ∃ name, a.keys[v.keyIndex]? = some name ∧
    ((1 < all.countP (·.keyIndex == v.keyIndex) ∧ c'.objDict = c.objDict ∧
        c'.arrayValues = Assoc.insert v.keyIndex ((c.arrayValues.lookup v.keyIndex).getD [] ++
          [(a.convertPayload host c.objects name v.payload).1]) c.arrayValues) ∨
      (¬1 < all.countP (·.keyIndex == v.keyIndex) ∧ c'.arrayValues = c.arrayValues ∧
        c'.objDict = Assoc.insert name (a.convertPayload host c.objects name v.payload).1 c.objDict)) := by
  obtain ⟨name, hname, h⟩ := bind_eq_ok.1 h
  refine ⟨name, unwrap_eq_ok.1 hname, ?_⟩
  dsimp only at h
  split_ifs at h with hcount <;> cases h
  · exact Or.inl ⟨hcount, rfl, rfl⟩
  · exact Or.inr ⟨hcount, rfl, rfl⟩

theorem addValues_objDict (h : values.foldlM (a.addValue host all) c = .ok c')
    (hno : ∀ v ∈ values, a.named name v = false) : c'.objDict.lookup name = c.objDict.lookup name := by
  induction values generalizing c with
  | nil =>
    cases h
    rfl
  | cons v values ih =>
    rw [List.foldlM_cons] at h
    obtain ⟨c₁, h₁, hrest⟩ := bind_eq_ok.1 h
    rw [ih hrest fun w hw => hno w (List.mem_cons_of_mem v hw)]
    obtain ⟨name', hname', ⟨-, hdict, -⟩ | ⟨-, -, hdict⟩⟩ := addValue_cases h₁
    · rw [hdict]
    · have hv := hno v List.mem_cons_self
      rw [named, hname'] at hv
      rw [hdict, Assoc.lookup_insert_of_ne]
      rintro rfl
      simp at hv

/-- **Repeated keys** are collected in the order of the file. -/
theorem addValues_array (h : values.foldlM (a.addValue host all) c = .ok c') (hk : 1 < all.countP (·.keyIndex == k))
    (hrefs : (values.filter (·.keyIndex == k)).map NibValue.payload = refs.map NibPayload.objectRef) :
    (c'.arrayValues.lookup k).getD [] =
        (c.arrayValues.lookup k).getD [] ++ refs.map (fun r => Value.uid ((a.mapped r).getD 0)) ∧
      ((c.arrayValues.lookup k).isSome ∨ refs ≠ [] → (c'.arrayValues.lookup k).isSome) := by
  induction values generalizing c refs with
  | nil =>
    cases h
    have hnil : refs = [] := by simpa using hrefs.symm
    subst hnil
    exact ⟨(List.append_nil _).symm, fun h => h.elim id fun h => absurd rfl h⟩
  | cons v values ih =>
    rw [List.foldlM_cons] at h
    obtain ⟨c₁, h₁, hrest⟩ := bind_eq_ok.1 h
    obtain ⟨name', -, hcases⟩ := addValue_cases h₁
    by_cases hv : v.keyIndex = k
    · subst hv
      rw [List.filter_cons_of_pos (by simp), List.map_cons] at hrefs
      cases refs with
      | nil => cases hrefs
      | cons r refs =>
        rw [List.map_cons, List.cons.injEq] at hrefs
        obtain ⟨hpayload, hrefs⟩ := hrefs
        rcases hcases with ⟨-, -, harray⟩ | ⟨hno, -⟩
        · obtain ⟨hget, hsome⟩ := ih hrest hrefs
          have hlookup : c₁.arrayValues.lookup v.keyIndex =
              some ((c.arrayValues.lookup v.keyIndex).getD [] ++ [Value.uid ((a.mapped r).getD 0)]) := by
            rw [harray, Assoc.lookup_insert_self, hpayload]
            rfl
          rw [hlookup, Option.getD_some, List.append_assoc] at hget
          refine ⟨hget, fun _ => hsome (Or.inl ?_)⟩
          rw [hlookup]
          rfl
        · exact absurd hk hno
    · rw [List.filter_cons_of_neg (by simpa using hv)] at hrefs
      have hsame : c₁.arrayValues.lookup k = c.arrayValues.lookup k := by
        rcases hcases with ⟨-, -, harray⟩ | ⟨-, harray, -⟩
        · rw [harray, Assoc.lookup_insert_of_ne (Ne.symm hv)]
        · rw [harray]
      obtain ⟨hget, hsome⟩ := ih hrest hrefs
      rw [hsame] at hget hsome
      exact ⟨hget, hsome⟩

/-- the collected keys are repeated keys of values -/
theorem addValues_keys (h : values.foldlM (a.addValue host all) c = .ok c') (hn : (c.arrayValues.map Prod.fst).Nodup) :
    (c'.arrayValues.map Prod.fst).Nodup ∧ ∀ e ∈ c'.arrayValues,
      (∃ e' ∈ c.arrayValues, e'.1 = e.1) ∨ ∃ v ∈ values, v.keyIndex = e.1 ∧ 1 < all.countP (·.keyIndex == e.1) := by
  induction values generalizing c with
  | nil =>
    cases h
    exact ⟨hn, fun e he => Or.inl ⟨e, he, rfl⟩⟩
  | cons v values ih =>
    rw [List.foldlM_cons] at h
    obtain ⟨c₁, h₁, hrest⟩ := bind_eq_ok.1 h
    obtain ⟨name', -, ⟨hcount, -, harray⟩ | ⟨-, harray, -⟩⟩ := addValue_cases h₁
    · obtain ⟨hn', hkeys⟩ := ih hrest (by
        rw [harray]
        exact Assoc.nodup_insert hn)
      refine ⟨hn', fun e he => ?_⟩
      rcases hkeys e he with ⟨e', he', heq⟩ | ⟨w, hw, hwk⟩
      · rw [harray] at he'
        rcases Assoc.mem_insert he' with rfl | hold
        · refine Or.inr ⟨v, List.mem_cons_self, heq, ?_⟩
          rw [← heq]
          exact hcount
        · exact Or.inl ⟨e', hold, heq⟩
      · exact Or.inr ⟨w, List.mem_cons_of_mem v hw, hwk⟩
    · obtain ⟨hn', hkeys⟩ := ih hrest (by rwa [harray])
      refine ⟨hn', fun e he => ?_⟩
      rcases hkeys e he with hold | ⟨w, hw, hwk⟩
      · rw [harray] at hold
        exact Or.inl hold
      · exact Or.inr ⟨w, List.mem_cons_of_mem v hw, hwk⟩

/-! ## The collected values -/

/-- the name under which collected values are stored -/
def arrayName (className name : String) : String :=
  if isCollection className && name == "UINibEncoderEmptyKey" then "NS.objects" else name

variable {l pre post : List (ℕ × List Value)} {d d' : List (String × Value)} {e : ℕ × List Value} {name' : String}

theorem addArray_cases (h : a.addArray className d e = .ok d') : ∃ name, a.keys[e.1]? = some name ∧
    d' = Assoc.insert (arrayName className name) (.array e.2) d := by
  obtain ⟨name, hname, h⟩ := bind_eq_ok.1 h
  refine ⟨name, unwrap_eq_ok.1 hname, ?_⟩
  unfold arrayName
  split_ifs at h ⊢ <;> exact (Except.ok.inj h).symm

theorem addArrays_other (h : l.foldlM (a.addArray className) d = .ok d')
    (hno : ∀ e ∈ l, ∀ name', a.keys[e.1]? = some name' → arrayName className name' ≠ name) :
    d'.lookup name = d.lookup name := by
  induction l generalizing d with
  | nil =>
    cases h
    rfl
  | cons e l ih =>
    rw [List.foldlM_cons] at h
    obtain ⟨d₁, h₁, hrest⟩ := bind_eq_ok.1 h
    obtain ⟨name', hname', rfl⟩ := addArray_cases h₁
    rw [ih hrest fun e' he' => hno e' (List.mem_cons_of_mem e he'),
      Assoc.lookup_insert_of_ne (Ne.symm (hno e List.mem_cons_self name' hname'))]

theorem addArrays_self (h : (pre ++ e :: post).foldlM (a.addArray className) d = .ok d')
    (he : a.keys[e.1]? = some name') (hname : arrayName className name' = name)
    (hno : ∀ e ∈ post, ∀ name', a.keys[e.1]? = some name' → arrayName className name' ≠ name) :
    d'.lookup name = some (.array e.2) := by
  rw [List.foldlM_append] at h
  obtain ⟨d₁, -, hrest⟩ := bind_eq_ok.1 h
  rw [List.foldlM_cons] at hrest
  obtain ⟨d₂, h₂, hpost⟩ := bind_eq_ok.1 hrest
  obtain ⟨name'', hname'', rfl⟩ := addArray_cases h₂
  rw [he] at hname''
  cases hname''
  rw [addArrays_other hpost hno, hname, Assoc.lookup_insert_self]

/-! ## Collections -/

theorem named_iff : a.named name v = true ↔ a.keys[v.keyIndex]? = some name := by
  rw [named, beq_iff_eq]

/-- the elements are the values of one key -/
theorem Holds.filter_eq (h : Holds a values refs) (hv : v ∈ values) (hnamed : a.named "UINibEncoderEmptyKey" v = true) :
    values.filter (·.keyIndex == v.keyIndex) = values.filter (a.named "UINibEncoderEmptyKey") := by
  apply List.filter_congr
  intro w hw
  rw [Bool.eq_iff_iff, beq_iff_eq]
  constructor
  · intro hkey
    rw [named_iff] at hnamed ⊢
    rw [hkey]
    exact hnamed
  · intro hw'
    exact h.oneKey w hw v hv hw' hnamed

theorem Holds.countP_eq (h : Holds a values refs) (hv : v ∈ values) (hnamed : a.named "UINibEncoderEmptyKey" v = true) :
    values.countP (·.keyIndex == v.keyIndex) = refs.length := by
  rw [List.countP_eq_length_filter, h.filter_eq hv hnamed, ← List.length_map (f := NibValue.payload), h.elements,
    List.length_map]

/-- a key that is stored as `NS.objects` is the one of the elements -/
theorem Holds.elements_of_name (h : Holds a values refs) (hv : v ∈ values)
    (hname' : a.keys[v.keyIndex]? = some name') (hname : arrayName className name' = "NS.objects") :
    a.named "UINibEncoderEmptyKey" v = true := by
  unfold arrayName at hname
  split_ifs at hname with hempty
  · rw [Bool.and_eq_true, beq_iff_eq] at hempty
    rw [named_iff, hname', hempty.2]
  · subst hname
    have hno := (h.others v hv).1
    rw [named_iff.2 hname'] at hno
    cases hno

theorem Holds.uids_eq (h : Holds a values refs) : refs.map (fun r => Value.uid ((a.mapped r).getD 0)) = uids refs := by
  apply List.map_congr_left
  intro r hr
  rw [mapped, if_pos (h.inRange r hr)]
  rfl

variable {n : ℕ} {more : List Value} {objDict : List (String × Value)}

/-- **Two elements or more** are stored under `NS.objects`. -/
theorem Holds.objects_of_many (h : Holds a values refs)
    (hc : values.foldlM (a.addValue host values) ⟨more, [("$class", .uid n)], []⟩ = .ok c)
    (hd : (host.order c.arrayValues).foldlM (a.addArray className) c.objDict = .ok objDict)
    (hclass : isCollection className = true) (hlen : 2 ≤ refs.length) :
    objDict.lookup "NS.objects" = some (.array (uids refs)) := by
  -- the key of the elements
  obtain ⟨v, hv⟩ : ∃ v, v ∈ values.filter (a.named "UINibEncoderEmptyKey") := by
    apply List.exists_mem_of_ne_nil
    intro hnil
    have helements := congrArg List.length h.elements
    rw [hnil, List.map_nil, List.length_nil, List.length_map] at helements
    omega
  obtain ⟨hv, hnamed⟩ := List.mem_filter.1 hv
  have hcount : 1 < values.countP (·.keyIndex == v.keyIndex) := by
    rw [h.countP_eq hv hnamed]
    exact hlen
  have hrefs : (values.filter (·.keyIndex == v.keyIndex)).map NibValue.payload = refs.map NibPayload.objectRef := by
    rw [h.filter_eq hv hnamed, h.elements]
  obtain ⟨hget, hsome⟩ := addValues_array hc hcount hrefs
  obtain ⟨hnodup, hkeys⟩ := addValues_keys hc List.nodup_nil
  obtain ⟨collected, hcollected⟩ := Option.isSome_iff_exists.1 (hsome (Or.inr (by
    rintro rfl
    simp at hlen)))
  have huids : collected = uids refs := by
    rw [hcollected] at hget
    rw [← h.uids_eq]
    exact hget
  subst huids
  -- the other collected values have other names
  have hmem := (host.perm c.arrayValues).mem_iff.2 (Assoc.mem_of_lookup hcollected)
  have hnodup' := ((host.perm c.arrayValues).map Prod.fst).nodup_iff.2 hnodup
  obtain ⟨pre, post, horder⟩ := List.append_of_mem hmem
  rw [horder] at hd hnodup'
  refine addArrays_self hd (named_iff.1 hnamed) ?_ ?_
  · rw [arrayName, hclass]
    rfl
  · intro e he name' hname' hobjects
    have hfound : e ∈ c.arrayValues := by
      rw [← (host.perm c.arrayValues).mem_iff, horder]
      exact List.mem_append_right _ (List.mem_cons_of_mem _ he)
    rcases hkeys e hfound with ⟨e', he', -⟩ | ⟨w, hw, hwk, -⟩
    · cases he'
    · rw [← hwk] at hname'
      have hsame := h.oneKey w hw v hv (h.elements_of_name hw hname' hobjects) hnamed
      rw [List.map_append, List.map_cons, List.nodup_append] at hnodup'
      have hnot := (List.nodup_cons.1 hnodup'.2.1).1
      exact hnot (List.mem_map.2 ⟨e, he, by rw [← hwk, hsame]⟩)

/-- **At most one element** is not stored under `NS.objects`. -/
theorem Holds.objects_of_few (h : Holds a values refs)
    (hc : values.foldlM (a.addValue host values) ⟨more, [("$class", .uid n)], []⟩ = .ok c)
    (hd : (host.order c.arrayValues).foldlM (a.addArray className) c.objDict = .ok objDict)
    (hlen : refs.length < 2) : objDict.lookup "NS.objects" = none := by
  obtain ⟨-, hkeys⟩ := addValues_keys hc List.nodup_nil
  rw [addArrays_other hd, addValues_objDict hc fun v hv => (h.others v hv).1]
  · rfl
  · intro e he name' hname' hobjects
    rcases hkeys e ((host.perm _).mem_iff.1 he) with ⟨e', he', -⟩ | ⟨w, hw, hwk, hcount⟩
    · cases he'
    · rw [← hwk] at hname' hcount
      rw [h.countP_eq hw (h.elements_of_name hw hname' hobjects)] at hcount
      exact absurd hlen (not_lt.2 hcount)

/-- **No collection** has `NS.keys`. -/
theorem Holds.keys_none (h : Holds a values refs)
    (hc : values.foldlM (a.addValue host values) ⟨more, [("$class", .uid n)], []⟩ = .ok c)
    (hd : (host.order c.arrayValues).foldlM (a.addArray className) c.objDict = .ok objDict) :
    objDict.lookup "NS.keys" = none := by
  obtain ⟨-, hkeys⟩ := addValues_keys hc List.nodup_nil
  rw [addArrays_other hd, addValues_objDict hc fun v hv => (h.others v hv).2]
  · rfl
  · intro e he name' hname' hname
    rcases hkeys e ((host.perm _).mem_iff.1 he) with ⟨e', he', -⟩ | ⟨w, hw, hwk, -⟩
    · cases he'
    · unfold arrayName at hname
      split_ifs at hname with hempty
      · exact absurd hname (by decide)
      · subst hname
        rw [← hwk] at hname'
        have hno := (h.others w hw).2
        rw [named_iff.2 hname'] at hno
        cases hno

/-! ## The decoder -/

theorem mapM_uids (refs : List ℕ) : (uids refs).mapM (fun value => unwrap value.asUid .missing) = .ok (refs.map (· + 1)) := by
  induction refs with
  | nil => rfl
  | cons r refs ih =>
    unfold uids at ih ⊢
    rw [List.map_cons, List.mapM_cons, ih]
    rfl

theorem keysForKey_uids {s : Unarchiver} {dict : List (String × Value)} (hkey : s.currentKey = some k)
    (hitem : s.objects[k]? = some (.dictionary dict)) (hname : dict.lookup name = some (.array (uids refs))) :
    s.keysForKey name = .ok (refs.map (· + 1)) := by
  rw [Unarchiver.keysForKey, hkey, unwrap, ok_bind, hitem, unwrap, ok_bind, Value.asDictionary, unwrap, ok_bind, hname]
  exact mapM_uids refs

/-- the dictionary that a collection is converted to -/
theorem IsCollection.converted {contents : NibContents} (h : IsCollection a i contents)
    (hconvert : a.convert host = .ok (objects, top)) : ∃ (className : String) (values : List NibValue) (n : ℕ)
      (more : List Value) (c : Conversion) (objDict : List (String × Value)), isCollection className = true ∧
      Holds a values contents.references ∧
      values.foldlM (a.addValue host values) ⟨more, [("$class", .uid n)], []⟩ = .ok c ∧
      (host.order c.arrayValues).foldlM (a.addArray className) c.objDict = .ok objDict ∧
      objects[i + 1]? = some (.dictionary objDict) := by
  obtain ⟨obj, className, values, hobj, hclass, hmem, hvalues, hholds⟩ := h
  have hother : ¬isString className ∧ ¬isData className ∧ isCollection className = true := by
    cases contents <;> simp only [NibContents.classNames, List.mem_cons, List.not_mem_nil, or_false] at hmem <;>
      rcases hmem with rfl | rfl <;> exact ⟨by decide, by decide, by decide⟩
  obtain ⟨values', n, more, c, objDict, hvalues', -, hc, hd, hitem, -⟩ := convert_other hconvert hobj hclass hother.1 hother.2.1
  cases hvalues.symm.trans hvalues'
  exact ⟨className, values, n, more, c, objDict, hother.2.2, hholds, hc, hd, hitem⟩

theorem survives_of_many (hconvert : a.convert host = .ok (objects, top)) (h : IsCollection a i (.array refs))
    (hlen : 2 ≤ refs.length) : Survives objects i (.array refs) := by
  obtain ⟨className, values, n, more, c, objDict, hclass, hholds, hc, hd, hitem⟩ := h.converted hconvert
  have hobjects := hholds.objects_of_many hc hd hclass hlen
  refine ⟨objDict, hitem, hobjects, fun unarchive s hs hkey => ?_⟩
  subst hs
  rw [Unarchiver.decodeCurrentArray, keysForKey_uids hkey hitem hobjects]
  rfl

theorem not_survives_of_few (hconvert : a.convert host = .ok (objects, top)) (h : IsCollection a i (.array refs))
    (hlen : refs.length < 2) : ¬Survives objects i (.array refs) := by
  rintro ⟨dict, hdict, hobjects, -⟩
  obtain ⟨className, values, n, more, c, objDict, -, hholds, hc, hd, hitem⟩ := h.converted hconvert
  rw [hitem] at hdict
  cases hdict
  rw [hholds.objects_of_few hc hd hlen] at hobjects
  cases hobjects

theorem not_survives_dictionary (hconvert : a.convert host = .ok (objects, top)) {pairs : List (ℕ × ℕ)}
    (h : IsCollection a i (.dictionary pairs)) : ¬Survives objects i (.dictionary pairs) := by
  rintro ⟨dict, hdict, hkeys, -⟩
  obtain ⟨className, values, n, more, c, objDict, -, hholds, hc, hd, hitem⟩ := h.converted hconvert
  rw [hitem] at hdict
  cases hdict
  rw [hholds.keys_none hc hd] at hkeys
  cases hkeys

/-- **Collections survive the conversion** exactly if they are arrays of two elements or more. -/
theorem survives_iff (hconvert : a.convert host = .ok (objects, top)) {contents : NibContents}
    (h : IsCollection a i contents) :
    Survives objects i contents ↔ ∃ elements, contents = .array elements ∧ 2 ≤ elements.length := by
  constructor
  · intro hsurvives
    cases contents with
    | array elements =>
      refine ⟨elements, rfl, ?_⟩
      by_contra hlen
      exact not_survives_of_few hconvert h (not_le.1 hlen) hsurvives
    | dictionary pairs => exact absurd hsurvives (not_survives_dictionary hconvert h)
  · rintro ⟨elements, rfl, hlen⟩
    exact survives_of_many hconvert h hlen

/-- a host that does not print floats -/
def plainHost : NibHost := ⟨fun _ => "", id, id, List.Perm.refl⟩

/-- the root object, and an array that holds it twice -/
def twoElements : NibArchive :=
  ⟨["UINibEncoderEmptyKey"], ["NSObject", "NSArray"], [⟨0, 0, 0⟩, ⟨1, 0, 2⟩], [⟨0, .objectRef 0⟩, ⟨0, .objectRef 0⟩]⟩

theorem twoElements_isCollection : IsCollection twoElements 1 (.array [0, 0]) :=
  ⟨⟨1, 0, 2⟩, "NSArray", _, rfl, rfl, List.mem_cons_self, rfl, by decide, by decide, by decide, by decide⟩

theorem survives_iff_two : ∃ objects top, twoElements.convert plainHost = .ok (objects, top) ∧
    Survives objects 1 (.array [0, 0]) := by
  have hconvert := eq_ok_of_toOption (x := twoElements.convert plainHost) (d := ([], [])) (by decide +kernel)
  exact ⟨_, _, hconvert, (survives_iff hconvert twoElements_isCollection).2 ⟨_, rfl, le_rfl⟩⟩

/-- the root object, and an array that holds it once -/
def oneElement : NibArchive :=
  ⟨["UINibEncoderEmptyKey"], ["NSObject", "NSArray"], [⟨0, 0, 0⟩, ⟨1, 0, 1⟩], [⟨0, .objectRef 0⟩]⟩

/-- the file of `oneElement` -/
def oneElementFile : List UInt8 :=
  magic ++ [1, 0, 0, 0, 9, 0, 0, 0, 2, 0, 0, 0, 50, 0, 0, 0, 1, 0, 0, 0, 56, 0, 0, 0, 1, 0, 0, 0, 77, 0, 0, 0, 2, 0, 0, 0, 83, 0,
    0, 0, 128, 128, 128, 129, 128, 129, 148, 85, 73, 78, 105, 98, 69, 110, 99, 111, 100, 101, 114, 69, 109, 112, 116, 121, 75,
    101, 121, 128, 10, 0, 0, 0, 0, 137, 128, 78, 83, 79, 98, 106, 101, 99, 116, 0, 136, 128, 78, 83, 65, 114, 114, 97, 121, 0]

theorem oneElement_parse : parse oneElementFile = .ok oneElement := by
  have hparse := eq_ok_of_toOption (x := parse oneElementFile) (d := oneElement) (by decide +kernel)
  have hvalue : (parse oneElementFile).toOption.getD oneElement = oneElement := by decide +kernel
  rw [hparse, hvalue]

/-- **An array of one element** has no `NS.objects`. -/
theorem one_element : ¬∀ host data a objects top i contents, parse data = .ok a → a.convert host = .ok (objects, top) →
    IsCollection a i contents → Survives objects i contents := by
  intro hall
  have hconvert := eq_ok_of_toOption (x := oneElement.convert plainHost) (d := ([], [])) (by decide +kernel)
  have hcollection : IsCollection oneElement 1 (.array [0]) :=
    ⟨⟨1, 0, 1⟩, "NSArray", _, rfl, rfl, List.mem_cons_self, rfl, by decide, by decide, by decide, by decide⟩
  exact not_survives_of_few hconvert hcollection (by decide)
    (hall plainHost oneElementFile oneElement _ _ 1 _ oneElement_parse hconvert hcollection)

end TouchHLE.NibArchive
