/-
References to the uid 0 (`ns_keyed_unarchiver.rs`), which stand for nil: `$objects` starts with the string "$null".

- `HasNull`: the property lists. `parseNibArchive_hasNull`: those of NIBArchive files.
- `NullEntry`: what an unarchiver has for the uid 0, kept by everything that is unarchived.
- `NullAsNil`: references to it are decoded as nil. `null_is_string`: all of them are decoded as a string.
- `nil_payload`: a file with a Nil payload.
-/
import TouchHLE.Foundation.Decoding
import TouchHLE.Foundation.NibCollections

namespace TouchHLE

open Machine

/-- a property list of a keyed archive -/
def HasNull (plist : List (String × Value)) : Prop :=
  ∃ objects, (plist.lookup "$objects").bind Value.asArray = some objects ∧ objects[0]? = some (.string "$null")

/-! ## NIBArchive files -/

/-- what there is to unarchive -/
inductive KeyedArchive (plist : List (String × Value)) : Prop where
  | plist : HasNull plist → KeyedArchive plist
  | nib {host : NibHost} {data : List UInt8} : parseNibArchive host data = .ok plist → KeyedArchive plist

namespace NibArchive

theorem parseNibArchive_hasNull {host : NibHost} {data : List UInt8} {plist : List (String × Value)}
    (h : parseNibArchive host data = .ok plist) : HasNull plist := by
  obtain ⟨a, -, hrest⟩ := bind_eq_ok.1 h
  obtain ⟨⟨objects, top⟩, hconvert, hplist⟩ := bind_eq_ok.1 hrest
  cases hplist
  refine ⟨objects, rfl, ?_⟩
  rw [convertObjects_frame (convert_cases hconvert).1 (Nat.succ_pos _) (.inl (Nat.succ_pos _))]
  rfl

end NibArchive

theorem KeyedArchive.hasNull {plist : List (String × Value)} (h : KeyedArchive plist) : HasNull plist := by
  cases h with
  | plist h => exact h
  | nib h => exact NibArchive.parseNibArchive_hasNull h

namespace Unarchiver

variable {c : Classes} {s s' : Unarchiver} {depth key : ℕ} {plist : List (String × Value)} {object : Id}

/-! ## The entry -/

/-- a string that says what it stands for -/
def NilString (s : Unarchiver) (object : Id) : Prop := s.objectAt object = some (.string "$null")

theorem NilString.ne_nil (h : NilString s object) : object ≠ .nil := by
  rintro rfl
  cases h

theorem NilString.mono (h : NilString s object) (hheap : s.heap <+: s'.heap) : NilString s' object := by
  obtain ⟨more, hmore⟩ := hheap
  cases object with
  | object n =>
    obtain ⟨hlt, -⟩ := List.getElem?_eq_some_iff.1 h
    change s'.heap[n]? = some _
    rw [← hmore, List.getElem?_append_left hlt]
    exact h
  | _ => cases h

/-- nothing yet, or the string -/
structure NullEntry (s : Unarchiver) : Prop where
  item : s.objects[0]? = some (.string "$null")
  entry : s.alreadyUnarchived[0]? = some none ∨
    ∃ object, s.alreadyUnarchived[0]? = some (some object) ∧ NilString s object

/-- objects stay what they are, and so does the entry -/
structure KeepsNull (s s' : Unarchiver) : Prop where
  same : Same s s'
  heap : s.heap <+: s'.heap
  null : NullEntry s → NullEntry s'

theorem KeepsNull.refl (s : Unarchiver) : KeepsNull s s := ⟨Same.refl s, List.prefix_refl _, id⟩

theorem KeepsNull.trans {s'' : Unarchiver} (h : KeepsNull s s') (h' : KeepsNull s' s'') : KeepsNull s s'' :=
  ⟨h.same.trans h'.same, h.heap.trans h'.heap, fun hn => h'.null (h.null hn)⟩

/-- changes of other things -/
theorem NullEntry.of (h : NullEntry s) (hobjects : s'.objects = s.objects)
    (hentry : s'.alreadyUnarchived[0]? = s.alreadyUnarchived[0]?) (hheap : s.heap <+: s'.heap) : NullEntry s' := by
  refine ⟨hobjects ▸ h.item, ?_⟩
  rw [hentry]
  exact h.entry.imp_right fun ⟨object, hobject, hstring⟩ => ⟨object, hobject, hstring.mono hheap⟩

theorem keepsNull_create (s : Unarchiver) (o : GuestObject) : KeepsNull s (s.create o).2 :=
  ⟨⟨rfl, rfl, rfl⟩, List.prefix_append _ _, fun h => h.of rfl rfl (List.prefix_append _ _)⟩

theorem remember_entry {k : ℕ} (hk : k ≠ 0) (s : Unarchiver) (object : Id) :
    (s.remember k object).alreadyUnarchived[0]? = s.alreadyUnarchived[0]? := List.getElem?_set_ne hk

/-- what is remembered for another reference -/
theorem NullEntry.remember {k : ℕ} (h : NullEntry s) (hk : k ≠ 0) (object : Id) : NullEntry (s.remember k object) :=
  h.of rfl (remember_entry hk s object) (List.prefix_refl _)

theorem classFor_keepsNull (classKey : ℕ) : Ends (fun _ => True) (fun r => KeepsNull s r.2) (s.classFor c classKey) := by
  unfold classFor
  refine Ends.bind (ends_unwrap trivial fun _ _ => trivial) fun existing _ => ?_
  cases existing with
  | some object => exact KeepsNull.refl s
  | none =>
    refine Ends.bind (ends_unwrap trivial fun _ hitem => hitem) fun item hitem => ?_
    refine Ends.bind (ends_unwrap trivial fun _ hdict => hdict) fun dict hdict => ?_
    refine Ends.bind (ends_unwrap trivial fun _ _ => trivial) fun className _ => ?_
    unfold assert
    split_ifs
    · refine ⟨⟨rfl, rfl, rfl⟩, List.prefix_refl _, fun hn => hn.remember ?_ _⟩
      -- the class has a dictionary, and the uid 0 has a string
      rintro rfl
      rw [hn.item] at hitem
      cases hitem
      cases hdict
    · trivial

theorem serves_null {unarchive : Unarchiver → ℕ → Except Panic (Id × Unarchiver)}
    (h : ∀ s key, Ends (fun _ => True) (fun r => KeepsNull s r.2) (unarchive s key)) (s : Unarchiver) :
    Serves unarchive (fun _ => True) KeepsNull (fun _ => True) s where
  missing := trivial
  index := trivial
  refl := KeepsNull.refl
  trans := KeepsNull.trans
  create := keepsNull_create
  same := KeepsNull.same
  scope _ _ := trivial
  unarchive s w _ _ := h s w

/-- **Everything that is unarchived** keeps the entry. -/
theorem unarchiveKey_keepsNull (c : Classes) (depth : ℕ) (s : Unarchiver) (key : ℕ) :
    Ends (fun _ => True) (fun r => KeepsNull s r.2) (unarchiveKey c depth s key) := by
  induction depth generalizing s key with
  | zero => trivial
  | succ depth ih =>
    unfold unarchiveKey
    refine Ends.bind (ends_unwrap trivial fun _ _ => trivial) fun existing _ => ?_
    cases existing with
    | some object => exact KeepsNull.refl s
    | none =>
      refine Ends.bind (ends_unwrap trivial fun _ hitem => hitem) fun item hitem => ?_
      cases item with
      | dictionary dict =>
        refine Ends.bind (P := fun r => KeepsNull s r.2) ?_ fun r hr => ?_
        · refine Ends.bind (ends_unwrap trivial fun _ _ => trivial) fun classKey _ => ?_
          refine (classFor_keepsNull classKey).bind fun r hr => ?_
          obtain ⟨cls, s₁⟩ := r
          refine Ends.mono (P := fun r => KeepsNull s₁ r.2) ?_ fun _ hr' => hr.trans hr'
          unfold initObject
          cases cls with
          | known className =>
            have hserves := serves_null ih ({ s₁ with currentKey := some key }.create (.instance className)).2
            refine (hserves.runCoder (c.initWithCoder className (.object s₁.heap.length))).bind fun r' hr' => ?_
            have hheap := (List.prefix_append s₁.heap [.instance className]).trans hr'.heap
            refine ⟨⟨hr'.same.objects, hr'.same.top, rfl⟩, hheap, fun hn => ?_⟩
            have hstart : NullEntry ({ s₁ with currentKey := some key }.create (.instance className)).2 :=
              hn.of rfl rfl (List.prefix_append _ _)
            exact (hr'.null hstart).of rfl rfl (List.prefix_refl _)
          | _ => trivial
        · refine ⟨⟨hr.same.objects, hr.same.top, hr.same.currentKey⟩, hr.heap, fun hn => (hr.null hn).remember ?_ _⟩
          rintro rfl
          rw [hn.item] at hitem
          cases hitem
      | string text =>
        refine ⟨⟨rfl, rfl, rfl⟩, List.prefix_append _ _, fun hn => ?_⟩
        by_cases hk : key = 0
        · subst hk
          rw [hn.item] at hitem
          cases hitem
          have hstring : (s.heap ++ [GuestObject.string "$null"])[s.heap.length]? = some (.string "$null") :=
            List.getElem?_concat_length
          refine ⟨hn.item, ?_⟩
          rcases Nat.lt_or_ge 0 s.alreadyUnarchived.length with hlt | hge
          · exact .inr ⟨.object s.heap.length, List.getElem?_set_self hlt, hstring⟩
          · have hnone := List.getElem?_eq_none hge
            rcases hn.entry with h | ⟨n, h, -⟩ <;> rw [hnone] at h <;> cases h
        · exact ((keepsNull_create s (.string text)).null hn).remember hk _
      | integer int =>
        refine ⟨⟨rfl, rfl, rfl⟩, List.prefix_append _ _, fun hn => ?_⟩
        refine ((keepsNull_create s (.number int)).null hn).remember ?_ _
        rintro rfl
        rw [hn.item] at hitem
        cases hitem
      | _ => trivial

theorem init_nullEntry (h : HasNull plist) (hinit : init plist = .ok s) : NullEntry s := by
  obtain ⟨objects, hobjects, hnull⟩ := h
  obtain ⟨top, rfl⟩ := init_cases hobjects hinit
  obtain ⟨hlt, -⟩ := List.getElem?_eq_some_iff.1 hnull
  refine ⟨hnull, .inl ?_⟩
  rw [List.getElem?_replicate, if_pos hlt]

/-- so it holds whenever the unarchiver is asked -/
theorem Reached.nullEntry (h : HasNull plist) (hs : Reached c plist s) : NullEntry s := by
  induction hs with
  | init hinit => exact init_nullEntry h hinit
  | unarchived _ hok ih => exact ((unarchiveKey_keepsNull _ _ _ _).ok hok).null ih
  | entered _ _ _ _ hclass ih =>
    exact (((classFor_keepsNull _).ok hclass).null ih).of rfl rfl (List.prefix_append _ _)
  | created o _ ih => exact (keepsNull_create _ o).null ih

/-! ## What is decoded -/

theorem NullEntry.unarchive (h : NullEntry s) (c : Classes) (depth : ℕ) :
    ∃ object s', unarchiveKey c (depth + 1) s 0 = .ok (object, s') ∧ NilString s' object := by
  rcases h.entry with hnew | ⟨object, hold, hstring⟩
  · exact unarchiveKey_string hnew h.item depth
  · refine ⟨object, s, ?_, hstring⟩
    rw [unarchiveKey, hold, unwrap, ok_bind]
    rfl

theorem NullEntry.all (h : NullEntry s) {keys : List ℕ} {objects : List Id}
    (hok : unarchiveAll (unarchiveKey c (depth + 1)) keys s = .ok (objects, s')) {i : ℕ} (hi : keys[i]? = some 0) :
    ∃ object, objects[i]? = some object ∧ NilString s' object := by
  induction keys generalizing s objects i with
  | nil => cases hi
  | cons key keys ih =>
    obtain ⟨⟨object, s₁⟩, hone, hrest⟩ := bind_eq_ok.1 hok
    obtain ⟨⟨objects', s₂⟩, hall, hlast⟩ := bind_eq_ok.1 hrest
    cases hlast
    cases i with
    | zero =>
      cases hi
      obtain ⟨object', s₁', hnull, hstring⟩ := h.unarchive c depth
      rw [hone] at hnull
      cases hnull
      have hserves := serves_null (unarchiveKey_keepsNull c (depth + 1)) s₁
      exact ⟨object, rfl, hstring.mono ((hserves.unarchiveAll fun _ _ => trivial).ok hall).heap⟩
    | succ i => exact ih ((unarchiveKey_keepsNull c (depth + 1) s key).ok hone |>.null h) hall hi

/-- references to the uid 0 in the scope of the unarchiver, and what each of them is decoded as -/
structure EveryNull (c : Classes) (depth : ℕ) (s : Unarchiver) (As : Unarchiver → Id → Prop) : Prop where
  /-- `decodeObjectForKey:` -/
  direct : ∀ key, s.valueForKey key = .ok (some (.uid 0)) →
    ∃ object s', s.decodeObjectForKey (unarchiveKey c depth) key = .ok (object, s') ∧ As s' object
  array : ∀ (keys : List ℕ) (objects : List Id) s' (i : ℕ), s.keysForKey "NS.objects" = .ok keys → keys[i]? = some 0 →
    s.decodeCurrentArray (unarchiveKey c depth) = .ok (objects, s') → ∃ object, objects[i]? = some object ∧ As s' object
  keys : ∀ (keys : List ℕ) (pairs : List (Id × Id)) s' (i : ℕ) pair, s.keysForKey "NS.keys" = .ok keys → keys[i]? = some 0 →
    s.decodeCurrentDict (unarchiveKey c depth) = .ok (pairs, s') → pairs[i]? = some pair → As s' pair.1
  values : ∀ (keys : List ℕ) (pairs : List (Id × Id)) s' (i : ℕ) pair, s.keysForKey "NS.objects" = .ok keys →
    keys[i]? = some 0 → s.decodeCurrentDict (unarchiveKey c depth) = .ok (pairs, s') → pairs[i]? = some pair → As s' pair.2

/-- what is wanted for all of them -/
def NullAsNil (c : Classes) (depth : ℕ) (s : Unarchiver) : Prop := EveryNull c depth s fun _ object => object = .nil

/-- **References to nil** are decoded as a string wherever they occur, and never as nil. -/
theorem null_is_string (hplist : KeyedArchive plist) (hs : Reached c plist s) (depth : ℕ) :
    EveryNull c (depth + 1) s fun s' object => NilString s' object ∧ object ≠ .nil := by
  have hnull := Reached.nullEntry hplist.hasNull hs
  have hkeeps : ∀ {keys objects s s'}, unarchiveAll (unarchiveKey c (depth + 1)) keys s = .ok (objects, s') →
      KeepsNull s s' :=
    fun h => ((serves_null (unarchiveKey_keepsNull c (depth + 1)) _).unarchiveAll fun _ _ => trivial).ok h
  constructor
  · intro key hkey
    obtain ⟨object, s', hok, hstring⟩ := hnull.unarchive c depth
    refine ⟨object, s', ?_, hstring, hstring.ne_nil⟩
    rw [decodeObjectForKey, hkey]
    exact hok
  · intro keys objects s' i hkeys hi hok
    rw [decodeCurrentArray, hkeys] at hok
    obtain ⟨object, hobject, hstring⟩ := hnull.all hok hi
    exact ⟨object, hobject, hstring, hstring.ne_nil⟩
  · intro keys pairs s' i pair hkeys hi hok hpair
    obtain ⟨keys', vals, keyObjects, valObjects, s₁, hkeys', -, hfirst, hsecond, rfl⟩ := decodeCurrentDict_cases hok
    rw [hkeys] at hkeys'
    cases hkeys'
    obtain ⟨object, hobject, hstring⟩ := hnull.all hfirst hi
    rw [List.getElem?_zip_eq_some] at hpair
    rw [hobject] at hpair
    cases hpair.1
    have hlater := hstring.mono (hkeeps hsecond).heap
    exact ⟨hlater, hlater.ne_nil⟩
  · intro vals pairs s' i pair hvals hi hok hpair
    obtain ⟨keys, vals', keyObjects, valObjects, s₁, -, hvals', hfirst, hsecond, rfl⟩ := decodeCurrentDict_cases hok
    rw [hvals] at hvals'
    cases hvals'
    obtain ⟨object, hobject, hstring⟩ := ((hkeeps hfirst).null hnull).all hsecond hi
    rw [List.getElem?_zip_eq_some] at hpair
    rw [hobject] at hpair
    cases hpair.2
    exact ⟨hstring, hstring.ne_nil⟩

/-- a keyed archive with nil at "root" -/
def nilPlist : List (String × Value) :=
  [("$version", .integer 100000), ("$archiver", .string "NSKeyedArchiver"), ("$objects", .array [.string "$null"]),
    ("$top", .dictionary [("root", .uid 0)])]

theorem null_is_string_root : KeyedArchive nilPlist ∧ ∃ c s, Reached c nilPlist s ∧
    EveryNull c 1 s fun s' object => NilString s' object ∧ object ≠ .nil := by
  have hplist : KeyedArchive nilPlist := .plist ⟨[.string "$null"], rfl, rfl⟩
  let c : Classes := ⟨fun _ => false, fun _ object => .done object⟩
  let s : Unarchiver := ⟨[.string "$null"], .dictionary [("root", .uid 0)], none, [none], []⟩
  have hs : Reached c nilPlist s := .init rfl
  exact ⟨hplist, c, s, hs, null_is_string hplist hs 0⟩

/-- a file with the root object, which has nil at "next" -/
def nilFileBytes : List UInt8 :=
  magic ++ [1, 0, 0, 0, 9, 0, 0, 0, 1, 0, 0, 0, 50, 0, 0, 0, 1, 0, 0, 0, 53, 0, 0, 0, 1, 0, 0, 0, 58, 0, 0, 0, 1, 0,
    0, 0, 60, 0, 0, 0, 128, 128, 129, 132, 110, 101, 120, 116, 128, 9, 137, 128, 78, 83, 79, 98, 106, 101, 99, 116, 0]

def nilFile : NibArchive := ⟨["next"], ["NSObject"], [⟨0, 0, 1⟩], [⟨0, .nil⟩]⟩

theorem nilFile_parse : parse nilFileBytes = .ok nilFile := by
  have hparse := eq_ok_of_toOption (x := parse nilFileBytes) (d := nilFile) (by decide +kernel)
  have hvalue : (parse nilFileBytes).toOption.getD nilFile = nilFile := by decide +kernel
  rw [hparse, hvalue]

def nilFileObjects : List Value :=
  [.string "$null", .dictionary [("next", .uid 0), ("$class", .uid 2)], NibArchive.classDict "NSObject"]

def nilFilePlist : List (String × Value) :=
  [("$archiver", .string "NSKeyedArchiver"), ("$version", .integer 100000), ("$top", .dictionary [("next", .uid 0)]),
    ("$objects", .array nilFileObjects)]

/-- **A Nil payload**: `decodeObjectForKey:` with its key returns an object. -/
theorem nil_payload : ¬∀ plist c depth s, KeyedArchive plist → Reached c plist s → NullAsNil c (depth + 1) s := by
  intro hall
  let c : Classes := ⟨fun _ => false, fun _ object => .done object⟩
  have hplist : parseNibArchive NibArchive.plainHost nilFileBytes = .ok nilFilePlist := by
    unfold parseNibArchive
    rw [nilFile_parse]
    rfl
  let s : Unarchiver := ⟨nilFileObjects, .dictionary [("next", .uid 0)], none, [none, none, none], []⟩
  have hs : Reached c nilFilePlist s := .init rfl
  obtain ⟨object, s', hok, hnil⟩ := (hall nilFilePlist c 0 s (.nib hplist) hs).direct "next" rfl
  cases hok
  exact nomatch hnil

end Unarchiver

end TouchHLE
