/-
Objects in NIBArchive files that are decoded without an `initWithCoder:`: texts and bytes. What the conversion stores for
them is what `unarchive_key` has to understand.

- `Reachable`: the references that decoding can come to.
- `HasText`, `HasBytes`: what a file says about an object.
- `Agrees`: the decoder understands everything that the conversion has stored.
- `unarchiveKey_sound`: decoding only comes to references that can be reached.
- `agrees_iff`: when the two agree. `data_object`: a file for which they do not.
-/
import TouchHLE.Foundation.NibCollections
import TouchHLE.Foundation.Decoding

namespace TouchHLE

open Machine Utf8

/-- references from `$top`, and from the objects that are reached -/
inductive Reachable (objects : List Value) (top : List (String × Value)) : ℕ → Prop where
  | top {name : String} {v : Value} {u : ℕ} : (name, v) ∈ top → v.refers u → Reachable objects top u
  | field {u w : ℕ} {dict : List (String × Value)} {name : String} {v : Value} : Reachable objects top u →
      objects[u]? = some (.dictionary dict) → (name, v) ∈ dict → v.refers w → Reachable objects top w

namespace NibArchive

/-- the bytes that a text or data object has, the last ones if there are several -/
def storedBytes (a : NibArchive) (values : List NibValue) : Option (List UInt8) :=
  (values.filterMap fun v =>
    match v.payload with
    | .data d => if a.named "NS.bytes" v || a.named "UINibEncoderEmptyKey" v then some d else none
    | _ => none).getLast?

/-- the object `i` of the file is a string with these characters, which can have NULs after them -/
def HasText (a : NibArchive) (i : ℕ) (chars : List Char) : Prop :=
  ∃ obj className values bytes n, a.objects[i]? = some obj ∧ a.classOf obj = .ok className ∧ isString className ∧
    a.valuesOf obj = .ok values ∧ a.storedBytes values = some bytes ∧
    fromUtf8 bytes = some (chars ++ List.replicate n '\x00') ∧ chars.getLast? ≠ some '\x00'

/-- the object `i` of the file is data with these bytes -/
def HasBytes (a : NibArchive) (i : ℕ) (bytes : List UInt8) : Prop :=
  ∃ obj className values, a.objects[i]? = some obj ∧ a.classOf obj = .ok className ∧ isData className ∧
    a.valuesOf obj = .ok values ∧ (a.storedBytes values).getD [] = bytes

end NibArchive

namespace Unarchiver

/-- an unarchiver for this property list, which is in the scope of `$top` or of an object that is reached -/
structure Of (objects : List Value) (top : List (String × Value)) (s : Unarchiver) : Prop where
  stored : s.objects = objects
  root : s.top = .dictionary top
  current : ∀ k, s.currentKey = some k → Reachable objects top k

variable {objects : List Value} {top : List (String × Value)} {s s' s'' : Unarchiver} {c : Classes}
  {unarchive : Unarchiver → ℕ → Except Panic (Id × Unarchiver)} {key : ℕ}

theorem Of.same (h : s.Of objects top) (hs : Same s s') : s'.Of objects top where
  stored := hs.objects.trans h.stored
  root := hs.top.trans h.root
  current k hk := h.current k (hs.currentKey.symm.trans hk)

/-- what the scope refers to can be reached -/
theorem Of.scope (h : s.Of objects top) {key : String} {v : Value} {u : ℕ} (hv : s.valueForKey key = .ok (some v))
    (hu : v.refers u) : Reachable objects top u := by
  obtain ⟨item, hitem, hlookup⟩ := bind_eq_ok.1 hv
  have hlookup := Except.ok.inj hlookup
  unfold Unarchiver.scope at hitem
  cases hcurrent : s.currentKey with
  | none =>
    rw [hcurrent, h.root] at hitem
    cases hitem
    exact .top (Assoc.mem_of_lookup hlookup) hu
  | some k =>
    rw [hcurrent, h.stored] at hitem
    simp only at hitem
    cases hobject : objects[k]? with
    | none =>
      rw [hobject] at hitem
      cases hitem
    | some item' =>
      rw [hobject] at hitem
      cases hitem
      cases item with
      | dictionary dict => exact .field (h.current k hcurrent) hobject (Assoc.mem_of_lookup hlookup) hu
      | _ => cases hlookup

/-! ## Decoding -/

/-- unarchiving a reference that can be reached -/
def Sound (objects : List Value) (top : List (String × Value))
    (unarchive : Unarchiver → ℕ → Except Panic (Id × Unarchiver)) : Prop :=
  ∀ s uid, s.Of objects top → Reachable objects top uid → Ends (· ≠ .unimplemented) (fun r => Same s r.2) (unarchive s uid)

theorem Sound.serves (hu : Sound objects top unarchive) (h : s.Of objects top) :
    Serves unarchive (· ≠ .unimplemented) Same (Reachable objects top) s where
  missing := by decide
  index := by decide
  refl := Same.refl
  trans := Same.trans
  create _ _ := ⟨rfl, rfl, rfl⟩
  same hs := hs
  scope := h.scope
  unarchive t w ht hw := hu t w (h.same ht) hw

theorem classFor_same (classKey : ℕ) : Ends (· ≠ .unimplemented) (fun r => Same s r.2) (s.classFor c classKey) := by
  unfold classFor
  refine Ends.bind (ends_unwrap (by decide) fun _ _ => trivial) fun existing _ => ?_
  cases existing with
  | some object => exact Same.refl s
  | none =>
    refine Ends.bind (ends_unwrap (by decide) fun _ _ => trivial) fun item _ => ?_
    refine Ends.bind (ends_unwrap (by decide) fun _ _ => trivial) fun dict _ => ?_
    refine Ends.bind (ends_unwrap (by decide) fun _ _ => trivial) fun className _ => ?_
    unfold assert
    split_ifs
    · exact ⟨rfl, rfl, rfl⟩
    · exact fun h => nomatch h

theorem initObject_same (hu : Sound objects top unarchive) (h : s.Of objects top)
    (hkey : Reachable objects top key) (cls : Id) :
    Ends (· ≠ .unimplemented) (fun r => Same s r.2) (s.initObject unarchive c key cls) := by
  cases cls with
  | known className =>
    let s₁ : Unarchiver := ({ s with currentKey := some key }.create (.instance className)).2
    have h₁ : s₁.Of objects top := by
      refine ⟨h.stored, h.root, fun k hk => ?_⟩
      cases hk
      exact hkey
    refine ((hu.serves h₁).runCoder (c.initWithCoder className (.object s.heap.length))).bind fun r hr => ?_
    exact ⟨hr.objects, hr.top, rfl⟩
  | _ => exact fun h => nomatch h

/-- the values that `unarchive_key` has a branch for -/
def Understood : Value → Prop
  | .dictionary _ => True
  | .string _ => True
  | .integer _ => True
  | _ => False

theorem unarchiveItem_same (hu : Sound objects top unarchive) (h : s.Of objects top)
    (hkey : Reachable objects top key) {item : Value} (hitem : Understood item) :
    Ends (· ≠ .unimplemented) (fun r => Same s r.2) (s.unarchiveItem unarchive c key item) := by
  cases item with
  | dictionary dict =>
    refine Ends.bind (ends_unwrap (by decide) fun _ _ => trivial) fun classKey _ => ?_
    refine (classFor_same classKey).bind fun r hr => ?_
    exact (initObject_same hu (h.same hr) hkey r.1).mono fun _ hr' => hr.trans hr'
  | string text => exact ⟨rfl, rfl, rfl⟩
  | integer int => exact ⟨rfl, rfl, rfl⟩
  | _ => exact hitem.elim

/-- **Decoding** never comes to a value it has no branch for, if none of these can be reached. -/
theorem unarchiveKey_sound (hall : ∀ uid v, Reachable objects top uid → objects[uid]? = some v → Understood v) (depth : ℕ) :
    Sound objects top (unarchiveKey c depth) := by
  induction depth with
  | zero => exact fun s uid _ _ h => nomatch h
  | succ depth ih =>
    intro s uid h hreach
    unfold unarchiveKey
    refine Ends.bind (ends_unwrap (by decide) fun _ _ => trivial) fun existing _ => ?_
    cases existing with
    | some object => exact Same.refl s
    | none =>
      refine Ends.bind (ends_unwrap (by decide) fun item hitem => hitem) fun item hitem => ?_
      rw [h.stored] at hitem
      refine (unarchiveItem_same ih h hreach (hall uid item hreach hitem)).bind fun r hr => ?_
      exact ⟨hr.objects, hr.top, hr.currentKey⟩

end Unarchiver

namespace NibArchive

open Unarchiver

variable {host : NibHost} {a : NibArchive} {objects : List Value} {top : List (String × Value)} {i : ℕ}
  {chars : List Char}

/-- **The decoder agrees** with the conversion: it has a branch for all that can be reached, and texts and bytes are decoded
as what they are in the file. -/
structure Agrees (a : NibArchive) (objects : List Value) (top : List (String × Value)) : Prop where
  understood : ∀ c depth uid (s : Unarchiver), Reachable objects top uid → s.Of objects top →
    unarchiveKey c depth s uid ≠ .error .unimplemented
  texts : ∀ i chars, a.HasText i chars → Reachable objects top (i + 1) → ∀ c depth (s : Unarchiver), s.Of objects top →
    s.alreadyUnarchived[i + 1]? = some none → ∃ object s', unarchiveKey c (depth + 1) s (i + 1) = .ok (object, s') ∧
      s'.objectAt object = some (.string (String.ofList chars))
  data : ∀ i bytes, a.HasBytes i bytes → Reachable objects top (i + 1) → ∀ c depth (s : Unarchiver), s.Of objects top →
    s.alreadyUnarchived[i + 1]? = some none → ∃ object s', unarchiveKey c (depth + 1) s (i + 1) = .ok (object, s') ∧
      s'.objectAt object = some (.data bytes)

/-- no object that is data can be reached -/
def NoData (a : NibArchive) (objects : List Value) (top : List (String × Value)) : Prop :=
  ∀ i obj className, a.objects[i]? = some obj → a.classOf obj = .ok className → isData className →
    ¬Reachable objects top (i + 1)

/-! ## Texts -/

/-- the loop finds the last bytes -/
theorem addBytes_last {values : List NibValue} {b b' : Option (List UInt8)} (h : values.foldlM a.addBytes b = .ok b') :
    b' = (a.storedBytes values).or b := by
  induction values generalizing b with
  | nil =>
    cases h
    rfl
  | cons v values ih =>
    rw [List.foldlM_cons] at h
    obtain ⟨b₁, h₁, hrest⟩ := bind_eq_ok.1 h
    obtain ⟨name, hname, h₁⟩ := bind_eq_ok.1 h₁
    have hkey : a.keys[v.keyIndex]? = some name := unwrap_eq_ok.1 hname
    rw [ih hrest]
    unfold storedBytes
    rw [List.filterMap_cons]
    cases hpayload : v.payload with
    | data d =>
      rw [hpayload] at h₁
      have hb₁ := Except.ok.inj h₁
      simp only [named, hkey, Bool.or_eq_true, beq_iff_eq, Option.some.injEq]
      split_ifs at hb₁ ⊢ with hmatch
      · subst hb₁
        rw [List.getLast?_cons]
        cases (List.filterMap _ values).getLast? <;> rfl
      · rw [← hb₁]
    | _ =>
      rw [hpayload] at h₁
      cases h₁
      rfl

theorem rdropWhile_nul (n : ℕ) (h : chars.getLast? ≠ some '\x00') :
    (chars ++ List.replicate n '\x00').rdropWhile (· == '\x00') = chars := by
  induction n with
  | zero =>
    rw [List.replicate_zero, List.append_nil, List.rdropWhile_eq_self_iff]
    intro hne hnul
    apply h
    rw [List.getLast?_eq_some_getLast hne, beq_iff_eq.1 hnul]
  | succ n ih =>
    rw [List.replicate_succ', ← List.append_assoc, List.rdropWhile_concat_pos _ _ _ (by decide)]
    exact ih

/-- what is stored for a string is its text -/
theorem HasText.stored (hconvert : a.convert host = .ok (objects, top)) (h : a.HasText i chars) :
    objects[i + 1]? = some (.string (String.ofList chars)) := by
  obtain ⟨obj, className, values, bytes, n, hobj, hclass, hstring, hvalues, hbytes, hutf8, hlast⟩ := h
  obtain ⟨values', bytes', hvalues', hfold, hitem⟩ := convert_string hconvert hobj hclass hstring
  rw [hvalues] at hvalues'
  cases hvalues'
  rw [addBytes_last hfold, hbytes] at hitem
  have htext : stringText (some bytes) = String.ofList chars := by
    change String.ofList ((fromUtf8Lossy bytes).rdropWhile (· == '\x00')) = _
    rw [fromUtf8Lossy_of_some hutf8, rdropWhile_nul n hlast]
  rw [hitem, ← htext]
  rfl

/-! ## Agreement -/

theorem start_of (objects : List Value) (top : List (String × Value)) :
    Of objects top ⟨objects, .dictionary top, none, List.replicate objects.length none, []⟩ :=
  ⟨rfl, rfl, fun _ h => nomatch h⟩

/-- a data object that is reached is not understood -/
theorem data_unimplemented (hconvert : a.convert host = .ok (objects, top)) {obj : NibObject} {className : String}
    (hobj : a.objects[i]? = some obj) (hclass : a.classOf obj = .ok className) (hdata : isData className) (c : Classes) :
    unarchiveKey c 1 ⟨objects, .dictionary top, none, List.replicate objects.length none, []⟩ (i + 1) =
      .error .unimplemented := by
  obtain ⟨values, bytes, -, -, hitem⟩ := convert_data hconvert hobj hclass hdata
  obtain ⟨hlt, -⟩ := List.getElem?_eq_some_iff.1 hitem
  have hnew : (List.replicate objects.length (none : Option Id))[i + 1]? = some none := by
    rw [List.getElem?_replicate, if_pos hlt]
  rw [unarchiveKey, hnew, unwrap, ok_bind, hitem]
  rfl

/-- **Converter and decoder agree** exactly if no data object can be reached. -/
theorem agrees_iff (hconvert : a.convert host = .ok (objects, top)) : Agrees a objects top ↔ NoData a objects top := by
  constructor
  · intro hagrees i obj className hobj hclass hdata hreach
    let c : Classes := ⟨fun _ => false, fun _ object => .done object⟩
    exact hagrees.understood c 1 (i + 1) _ hreach (start_of objects top) (data_unimplemented hconvert hobj hclass hdata c)
  · intro hno
    constructor
    · intro c depth uid s hreach hs
      refine fun herror => (unarchiveKey_sound (fun uid v hreach hv => ?_) depth s uid hs hreach).error herror rfl
      rcases convert_kind hconvert hv with hextra | ⟨j, obj, className, hobj, rfl, hclass, hdata⟩
      · rcases hextra with ⟨d, rfl⟩ | ⟨text, rfl⟩ <;> trivial
      · exact absurd hreach (hno j obj className hobj hclass hdata)
    · intro i chars htext hreach c depth s hs hnew
      have hitem := htext.stored hconvert
      rw [← hs.stored] at hitem
      exact unarchiveKey_string hnew hitem depth
    · rintro i bytes ⟨obj, className, values, hobj, hclass, hdata, -⟩ hreach
      exact absurd hreach (hno i obj className hobj hclass hdata)

/-- the root object with a string, which is hi -/
def textFile : NibArchive :=
  ⟨["UINibObjectsKey", "NS.bytes"], ["NSObject", "NSString"], [⟨0, 0, 1⟩, ⟨1, 1, 1⟩], [⟨0, .objectRef 1⟩, ⟨1, .data [104, 105]⟩]⟩

theorem agrees_iff_text : ∃ objects top, textFile.convert plainHost = .ok (objects, top) ∧ Agrees textFile objects top := by
  have hconvert := eq_ok_of_toOption (x := textFile.convert plainHost) (d := ([], [])) (by decide +kernel)
  refine ⟨_, _, hconvert, (agrees_iff hconvert).2 fun i obj className hobj hclass hdata => ?_⟩
  match i, hobj with
  | 0, hobj =>
    cases hobj
    cases hclass
    exact absurd hdata (by decide)
  | 1, hobj =>
    cases hobj
    cases hclass
    exact absurd hdata (by decide)

/-- the root object with data, which is the byte 7 -/
def dataFile : NibArchive :=
  ⟨["UINibObjectsKey", "NS.bytes"], ["NSObject", "NSData"], [⟨0, 0, 1⟩, ⟨1, 1, 1⟩], [⟨0, .objectRef 1⟩, ⟨1, .data [7]⟩]⟩

/-- the bytes of `dataFile` -/
def dataFileBytes : List UInt8 :=
  magic ++ [1, 0, 0, 0, 9, 0, 0, 0, 2, 0, 0, 0, 50, 0, 0, 0, 2, 0, 0, 0, 56, 0, 0, 0, 2, 0, 0, 0, 81, 0, 0, 0, 2, 0, 0, 0, 91, 0,
    0, 0, 128, 128, 129, 129, 129, 129, 143, 85, 73, 78, 105, 98, 79, 98, 106, 101, 99, 116, 115, 75, 101, 121, 136, 78, 83, 46,
    98, 121, 116, 101, 115, 128, 10, 1, 0, 0, 0, 129, 8, 129, 7, 137, 128, 78, 83, 79, 98, 106, 101, 99, 116, 0, 135, 128, 78,
    83, 68, 97, 116, 97, 0]

theorem dataFile_parse : parse dataFileBytes = .ok dataFile := by
  have hparse := eq_ok_of_toOption (x := parse dataFileBytes) (d := dataFile) (by decide +kernel)
  have hvalue : (parse dataFileBytes).toOption.getD dataFile = dataFile := by decide +kernel
  rw [hparse, hvalue]

/-- **A data object** is stored as bytes, for which the decoder has no branch. -/
theorem data_object : ¬∀ host data a objects top, parse data = .ok a → a.convert host = .ok (objects, top) →
    Agrees a objects top := by
  intro hall
  have hconvert := eq_ok_of_toOption (x := dataFile.convert plainHost) (d := ([], [])) (by decide +kernel)
  have hagrees := hall plainHost dataFileBytes dataFile _ _ dataFile_parse hconvert
  have htop : ((dataFile.convert plainHost).toOption.getD ([], [])).2.lookup "UINibObjectsKey" = some (.uid 2) := rfl
  let c : Classes := ⟨fun _ => false, fun _ object => .done object⟩
  exact hagrees.understood c 1 2 _ (.top (Assoc.mem_of_lookup htop) (Or.inl rfl)) (start_of _ _)
    (data_unimplemented (i := 1) hconvert rfl rfl (Or.inl rfl) c)

end NibArchive

end TouchHLE
