/-
NIBArchive files (`nib_archive.rs`): the binary format is parsed, and converted into the property list that a keyed archive
would be. How floats are printed and widened is given by `NibHost`, and so is the order in which a hash map is gone
through.

- `Value`: property lists.
- `NibArchive`, `parse`: what is in a file.
- `NibArchive.convert`, `parseNibArchive`: the conversion, object by object.
- `convertObject_cases`, `convertObjects_at`: what is stored for an object, and that it stays.
- `convert_kind`: the kinds of values that `$objects` has.
-/
import TouchHLE.Lib.Assoc
import TouchHLE.Lib.Machine
import TouchHLE.Lib.Utf8
import TouchHLE.Panic
import Mathlib.Data.List.DropRight

namespace TouchHLE

open Machine Utf8

/-! ## Property lists -/

/-- a `plist::Value`; a real number is given by its bits -/
inductive Value where
  | array (items : List Value)
  | dictionary (entries : List (String × Value))
  | boolean (b : Bool)
  | data (bytes : List UInt8)
  | date (nanoseconds : ℤ)
  | real (bits : ℕ)
  | integer (i : ℤ)
  | string (s : String)
  | uid (u : ℕ)

namespace Value

def asDictionary : Value → Option (List (String × Value))
  | .dictionary entries => some entries
  | _ => none

def asArray : Value → Option (List Value)
  | .array items => some items
  | _ => none

def asString : Value → Option String
  | .string s => some s
  | _ => none

def asUid : Value → Option ℕ
  | .uid u => some u
  | _ => none

end Value

/-! ## The file -/

inductive NibPayload where
  | int8 (v : ℤ)
  | int16 (v : ℤ)
  | int32 (v : ℤ)
  | int64 (v : ℤ)
  | true
  | false
  | float (bits : ℕ)
  | double (bits : ℕ)
  | data (d : List UInt8)
  | nil
  | objectRef (idx : ℕ)
deriving DecidableEq

structure NibObject where
  classIndex : ℕ
  valuesIndex : ℕ
  valuesCount : ℕ
deriving DecidableEq

structure NibValue where
  keyIndex : ℕ
  payload : NibPayload
deriving DecidableEq

structure NibArchive where
  keys : List String
  classNames : List String
  objects : List NibObject
  values : List NibValue
deriving DecidableEq

structure NibHeader where
  objectCount : ℕ
  objectOffset : ℕ
  keyCount : ℕ
  keyOffset : ℕ
  valueCount : ℕ
  valueOffset : ℕ
  classCount : ℕ
  classOffset : ℕ

/-- the name of the format, in ASCII -/
def magic : List UInt8 := [78, 73, 66, 65, 114, 99, 104, 105, 118, 101]

def isNibArchive (data : List UInt8) : Bool := decide (10 < data.length) && data.take 10 == magic

/-- `&l[start..stop]` -/
def sliceOf {α : Type} (l : List α) (start stop : ℕ) : Except Panic (List α) :=
  if start ≤ stop ∧ stop ≤ l.length then .ok ((l.drop start).take (stop - start)) else .error .sliceRange

/-- `from_le_bytes` of an unsigned number -/
def readLe (n : ℕ) (data : List UInt8) (offset : ℕ) : Except Panic ℕ := do
  let bytes ← sliceOf data offset (offset + n)
  pure (bytes.foldr (fun b v => b.toNat + 256 * v) 0)

/-- `from_le_bytes` of a signed number -/
def readSignedLe (n : ℕ) (data : List UInt8) (offset : ℕ) : Except Panic ℤ := do
  let v ← readLe n data offset
  pure (if v < 2 ^ (8 * n - 1) then v else v - 2 ^ (8 * n))

/-- the loop of `read_varint`: the last byte has the high bit; a shift by 32 bits or more overflows -/
def readVarintFrom : List UInt8 → ℕ → ℕ → ℕ → Except Panic (ℕ × ℕ)
  | [], _, _, _ => throw .index
  | byte :: rest, shift, result, pos => do
    assert (decide (shift < 32)) .overflow
    let result := result ||| ((byte.toNat % 0x80) <<< shift) % 2 ^ 32
    if 0x80 ≤ byte.toNat then pure (result, pos + 1) else readVarintFrom rest (shift + 7) result (pos + 1)

def readVarint (data : List UInt8) (pos : ℕ) : Except Panic (ℕ × ℕ) := readVarintFrom (data.drop pos) 0 0 pos

/-- `strip_suffix(&[0])`, and the characters -/
def trimmedText (raw : List UInt8) : String :=
  String.ofList (fromUtf8Lossy (if raw.getLast? = some 0 then raw.dropLast else raw))

def parseHeader (data : List UInt8) : Except Panic NibHeader := do
  let objectCount ← readLe 4 data 18
  let objectOffset ← readLe 4 data 22
  let keyCount ← readLe 4 data 26
  let keyOffset ← readLe 4 data 30
  let valueCount ← readLe 4 data 34
  let valueOffset ← readLe 4 data 38
  let classCount ← readLe 4 data 42
  let classOffset ← readLe 4 data 46
  pure ⟨objectCount, objectOffset, keyCount, keyOffset, valueCount, valueOffset, classCount, classOffset⟩

/-- `n` items, one after the other -/
def parseMany {α : Type} (parse : ℕ → Except Panic (α × ℕ)) : ℕ → ℕ → Except Panic (List α)
  | 0, _ => pure []
  | n + 1, pos => do
    let (item, pos) ← parse pos
    let items ← parseMany parse n pos
    pure (item :: items)

def parseKey (data : List UInt8) (pos : ℕ) : Except Panic (String × ℕ) := do
  let (length, pos) ← readVarint data pos
  let raw ← sliceOf data pos (pos + length)
  pure (trimmedText raw, pos + length)

def parseClassName (data : List UInt8) (pos : ℕ) : Except Panic (String × ℕ) := do
  let (nameLength, pos) ← readVarint data pos
  let (fallbackCount, pos) ← readVarint data pos
  let pos := pos + fallbackCount * 4
  let raw ← sliceOf data pos (pos + nameLength)
  pure (trimmedText raw, pos + nameLength)

def parseObject (data : List UInt8) (pos : ℕ) : Except Panic (NibObject × ℕ) := do
  let (classIndex, pos) ← readVarint data pos
  let (valuesIndex, pos) ← readVarint data pos
  let (valuesCount, pos) ← readVarint data pos
  pure (⟨classIndex, valuesIndex, valuesCount⟩, pos)

/-- the payload of a type; an unknown type is logged -/
def parsePayload (data : List UInt8) (valueType : UInt8) (pos : ℕ) : Except Panic (NibPayload × ℕ) :=
  match valueType.toNat with
  | 0x00 => do pure (.int8 (← readSignedLe 1 data pos), pos + 1)
  | 0x01 => do pure (.int16 (← readSignedLe 2 data pos), pos + 2)
  | 0x02 => do pure (.int32 (← readSignedLe 4 data pos), pos + 4)
  | 0x03 => do pure (.int64 (← readSignedLe 8 data pos), pos + 8)
  | 0x04 => pure (.true, pos)
  | 0x05 => pure (.false, pos)
  | 0x06 => do pure (.float (← readLe 4 data pos), pos + 4)
  | 0x07 => do pure (.double (← readLe 8 data pos), pos + 8)
  | 0x08 => do
    let (length, pos) ← readVarint data pos
    let d ← sliceOf data pos (pos + length)
    pure (.data d, pos + length)
  | 0x09 => pure (.nil, pos)
  | 0x0A => do pure (.objectRef (← readLe 4 data pos), pos + 4)
  | _ => pure (.nil, pos)

def parseValue (data : List UInt8) (pos : ℕ) : Except Panic (NibValue × ℕ) := do
  let (keyIndex, pos) ← readVarint data pos
  let valueType ← unwrap data[pos]? .index
  let (payload, pos) ← parsePayload data valueType (pos + 1)
  pure (⟨keyIndex, payload⟩, pos)

/-- `parse_nib_archive` up to the conversion -/
def parse (data : List UInt8) : Except Panic NibArchive := do
  assert (isNibArchive data) .badArchive
  let header ← parseHeader data
  let keys ← parseMany (parseKey data) header.keyCount header.keyOffset
  let classNames ← parseMany (parseClassName data) header.classCount header.classOffset
  let objects ← parseMany (parseObject data) header.objectCount header.objectOffset
  let values ← parseMany (parseValue data) header.valueCount header.valueOffset
  pure ⟨keys, classNames, objects, values⟩

/-! ## The conversion -/

/-- what the host does with floats and with hash maps -/
structure NibHost where
  /-- the text of an `f32` -/
  display : ℕ → String
  /-- an `f32` as an `f64` -/
  widen : ℕ → ℕ
  /-- the order in which a hash map is gone through -/
  order : List (ℕ × List Value) → List (ℕ × List Value)
  perm : ∀ l, (order l).Perm l

def payloadToPlist (host : NibHost) : NibPayload → Value
  | .int8 v => .integer v
  | .int16 v => .integer v
  | .int32 v => .integer v
  | .int64 v => .integer v
  | .true => .boolean true
  | .false => .boolean false
  | .float bits => .real (host.widen bits)
  | .double bits => .real bits
  | .data d => .data d
  | .nil => .uid 0
  | .objectRef idx => .uid idx

/-- the text of the `f32` at `offset` -/
def floatAt (host : NibHost) (d : List UInt8) (offset : ℕ) : String :=
  host.display (((d.drop offset).take 4).foldr (fun b v => b.toNat + 256 * v) 0)

def pairText (host : NibHost) (d : List UInt8) (offset : ℕ) : String :=
  "\x7b" ++ floatAt host d offset ++ ", " ++ floatAt host d (offset + 4) ++ "\x7d"

/-- inline geometry as text, for the keys that have it -/
def geometryText (host : NibHost) (keyName : String) (d : List UInt8) : Option String :=
  if d.length = 16 ∧ keyName ∈ ["UIBounds", "UIFrame", "UIFrameX", "UIAutoresizeToFitContentFrame"] then
    some ("\x7b" ++ pairText host d 0 ++ ", " ++ pairText host d 8 ++ "\x7d")
  else if d.length = 8 ∧ keyName ∈ ["UICenter", "UIContentOffset"] then some (pairText host d 0)
  else if d.length = 8 ∧ keyName ∈ ["UIContentSize", "UIScrollViewContentSize", "UIMinimumSize", "UIMaximumSize"] then
    some (pairText host d 0)
  else none

namespace NibArchive

variable (host : NibHost) (a : NibArchive)

/-- `obj_index_map`: the index in `$objects` -/
def mapped (idx : ℕ) : Option ℕ := if idx < a.objects.length then some (idx + 1) else none

def keyName (v : NibValue) : Except Panic String := unwrap a.keys[v.keyIndex]? .index

def classOf (obj : NibObject) : Except Panic String := unwrap a.classNames[obj.classIndex]? .index

def valuesOf (obj : NibObject) : Except Panic (List NibValue) :=
  sliceOf a.values obj.valuesIndex (obj.valuesIndex + obj.valuesCount)

/-- a step of the loop for the bytes of a string or of data: the last bytes count -/
def addBytes (bytes : Option (List UInt8)) (v : NibValue) : Except Panic (Option (List UInt8)) := do
  let keyName ← a.keyName v
  match v.payload with
  | .data d => pure (if keyName = "NS.bytes" ∨ keyName = "UINibEncoderEmptyKey" then some d else bytes)
  | _ => pure bytes

/-- `trim_end_matches('\0')` of the characters -/
def stringText (bytes : Option (List UInt8)) : String :=
  String.ofList ((bytes.elim [] fromUtf8Lossy).rdropWhile (· == '\x00'))

/-- the value for a payload, and `$objects` with the texts that are added for it -/
def convertPayload (objects : List Value) (keyName : String) : NibPayload → Value × List Value
  | .objectRef idx => (.uid ((a.mapped idx).getD 0), objects)
  | .data d =>
    match geometryText host keyName d with
    | some s => (.uid objects.length, objects ++ [.string s])
    | none => (.data d, objects)
  | other => (payloadToPlist host other, objects)

structure Conversion where
  objects : List Value
  objDict : List (String × Value)
  arrayValues : List (ℕ × List Value)

/-- a step of the loop over the values of an object: the values of repeated keys are collected -/
def addValue (values : List NibValue) (c : Conversion) (v : NibValue) : Except Panic Conversion := do
  let keyName ← a.keyName v
  let (plistVal, objects) := a.convertPayload host c.objects keyName v.payload
  if 1 < values.countP (·.keyIndex == v.keyIndex) then
    let collected := (c.arrayValues.lookup v.keyIndex).getD [] ++ [plistVal]
    pure { c with objects, arrayValues := Assoc.insert v.keyIndex collected c.arrayValues }
  else
    pure { c with objects, objDict := Assoc.insert keyName plistVal c.objDict }

def isCollection (className : String) : Bool :=
  (className == "NSArray" || className == "NSMutableArray") ||
    (className == "NSDictionary" || className == "NSMutableDictionary")

/-- a step of the loop over the collected values -/
def addArray (className : String) (objDict : List (String × Value)) (e : ℕ × List Value) :
    Except Panic (List (String × Value)) := do
  let keyName ← unwrap a.keys[e.1]? .index
  if isCollection className && keyName == "UINibEncoderEmptyKey" then
    pure (Assoc.insert "NS.objects" (.array e.2) objDict)
  else
    pure (Assoc.insert keyName (.array e.2) objDict)

def classDict (className : String) : Value :=
  .dictionary [("$classname", .string className), ("$classes", .array [.string className, .string "NSObject"])]

/-- `$objects` with the dictionary of an object of any other class than strings and data -/
def convertOther (objects : List Value) (i : ℕ) (className : String) (values : List NibValue) :
    Except Panic (List Value) := do
  let start : Conversion := ⟨objects ++ [classDict className], [("$class", .uid objects.length)], []⟩
  let c ← values.foldlM (a.addValue host values) start
  let objDict ← (host.order c.arrayValues).foldlM (a.addArray className) c.objDict
  pure (c.objects.set (i + 1) (.dictionary objDict))

/-- the second pass for one object: `$objects` with its value -/
def convertObject (objects : List Value) (i : ℕ) (obj : NibObject) : Except Panic (List Value) := do
  let className ← a.classOf obj
  let values ← a.valuesOf obj
  if className = "NSString" ∨ className = "NSMutableString" then
    let bytes ← values.foldlM a.addBytes none
    pure (objects.set (i + 1) (.string (stringText bytes)))
  else if className = "NSData" ∨ className = "NSMutableData" then
    let bytes ← values.foldlM a.addBytes none
    pure (objects.set (i + 1) (.data (bytes.getD [])))
  else
    a.convertOther host objects i className values

/-- the second pass from the object `i` on -/
def convertObjects : ℕ → List NibObject → List Value → Except Panic (List Value)
  | _, [], objects => pure objects
  | i, obj :: rest, objects => do
    let objects ← a.convertObject host objects i obj
    convertObjects (i + 1) rest objects

/-- `$objects` after the first pass -/
def placeholders : List Value := .string "$null" :: a.objects.map fun _ => .dictionary []

/-- a step of the loop over the values of the root object -/
def addTop (top : List (String × Value)) (v : NibValue) : Except Panic (List (String × Value)) := do
  let keyName ← a.keyName v
  let plistVal := match v.payload with
    | .objectRef idx => .uid ((a.mapped idx).getD 0)
    | other => payloadToPlist host other
  pure (Assoc.insert keyName plistVal top)

/-- `$objects` and `$top` -/
def convert : Except Panic (List Value × List (String × Value)) := do
  let objects ← a.convertObjects host 0 a.objects a.placeholders
  let root ← unwrap a.objects[0]? .index
  let values ← a.valuesOf root
  let top ← values.foldlM (a.addTop host) []
  pure (objects, top)

end NibArchive

def parseNibArchive (host : NibHost) (data : List UInt8) : Except Panic (List (String × Value)) := do
  let a ← parse data
  let (objects, top) ← a.convert host
  pure [("$archiver", .string "NSKeyedArchiver"), ("$version", .integer 100000), ("$top", .dictionary top),
    ("$objects", .array objects)]

namespace NibArchive

variable {host : NibHost} {a : NibArchive} {objects out : List Value} {i : ℕ} {obj : NibObject} {className : String}
  {values : List NibValue} {l : List NibObject} {all : List NibValue} {c c' : Conversion} {v : Value} {j : ℕ}

/-! ## One object -/

theorem convertPayload_objects (a : NibArchive) (host : NibHost) (objects : List Value) (keyName : String) (payload : NibPayload) :
    ∃ texts : List String, (a.convertPayload host objects keyName payload).2 = objects ++ texts.map Value.string := by
  cases payload with
  | data d =>
    unfold convertPayload
    cases htext : geometryText host keyName d with
    | none => exact ⟨[], by simp [htext]⟩
    | some s => exact ⟨[s], by simp [htext]⟩
  | _ => exact ⟨[], (List.append_nil _).symm⟩

theorem addValue_objects {v : NibValue} (h : a.addValue host all c v = .ok c') :
    ∃ texts : List String, c'.objects = c.objects ++ texts.map Value.string := by
  obtain ⟨keyName, -, h⟩ := bind_eq_ok.1 h
  obtain ⟨texts, htexts⟩ := convertPayload_objects a host c.objects keyName v.payload
  refine ⟨texts, ?_⟩
  rw [← htexts]
  dsimp only at h
  split_ifs at h <;> cases h <;> rfl

/-- only texts are added to `$objects` for the values of an object -/
theorem addValues_objects (h : values.foldlM (a.addValue host all) c = .ok c') :
    ∃ texts : List String, c'.objects = c.objects ++ texts.map Value.string := by
  induction values generalizing c with
  | nil =>
    cases h
    exact ⟨[], (List.append_nil _).symm⟩
  | cons v values ih =>
    rw [List.foldlM_cons] at h
    obtain ⟨c₁, h₁, h⟩ := bind_eq_ok.1 h
    obtain ⟨texts, ht⟩ := addValue_objects h₁
    obtain ⟨texts', ht'⟩ := ih h
    exact ⟨texts ++ texts', by rw [ht', ht, List.map_append, List.append_assoc]⟩

def isString (className : String) : Prop := className = "NSString" ∨ className = "NSMutableString"

def isData (className : String) : Prop := className = "NSData" ∨ className = "NSMutableData"

instance : DecidablePred isString := fun _ => inferInstanceAs (Decidable (_ ∨ _))

instance : DecidablePred isData := fun _ => inferInstanceAs (Decidable (_ ∨ _))

/-- **What is stored for an object**: a text, bytes, or a dictionary, for which other values are added at the end. -/
theorem convertObject_cases (hclass : a.classOf obj = .ok className) (h : a.convertObject host objects i obj = .ok out) :
    ∃ values, a.valuesOf obj = .ok values ∧
      ((isString className ∧ ∃ bytes, values.foldlM a.addBytes none = .ok bytes ∧
          out = objects.set (i + 1) (.string (stringText bytes))) ∨
        (isData className ∧ ∃ bytes, values.foldlM a.addBytes none = .ok bytes ∧
          out = objects.set (i + 1) (.data (bytes.getD []))) ∨
        (¬isString className ∧ ¬isData className ∧ a.convertOther host objects i className values = .ok out)) := by
  obtain ⟨className', hclass', h⟩ := bind_eq_ok.1 h
  cases hclass.symm.trans hclass'
  obtain ⟨values, hvalues, h⟩ := bind_eq_ok.1 h
  refine ⟨values, hvalues, ?_⟩
  split_ifs at h with hstring hdata
  · obtain ⟨bytes, hbytes, h⟩ := bind_eq_ok.1 h
    exact Or.inl ⟨hstring, bytes, hbytes, (Except.ok.inj h).symm⟩
  · obtain ⟨bytes, hbytes, h⟩ := bind_eq_ok.1 h
    exact Or.inr (Or.inl ⟨hdata, bytes, hbytes, (Except.ok.inj h).symm⟩)
  · exact Or.inr (Or.inr ⟨hstring, hdata, h⟩)

theorem convertOther_cases (h : a.convertOther host objects i className values = .ok out) :
    ∃ (c : Conversion) (objDict : List (String × Value)) (texts : List String),
    values.foldlM (a.addValue host values) ⟨objects ++ [classDict className], [("$class", .uid objects.length)], []⟩ = .ok c ∧
    (host.order c.arrayValues).foldlM (a.addArray className) c.objDict = .ok objDict ∧
    out = (objects ++ classDict className :: texts.map Value.string).set (i + 1) (.dictionary objDict) := by
  obtain ⟨c, hc, h⟩ := bind_eq_ok.1 h
  obtain ⟨objDict, hdict, h⟩ := bind_eq_ok.1 h
  obtain ⟨texts, htexts⟩ := addValues_objects hc
  refine ⟨c, objDict, texts, hc, hdict, ?_⟩
  rw [← Except.ok.inj h, htexts, List.append_assoc]
  rfl

/-- the values that can be added at the end -/
def IsExtra (v : Value) : Prop := (∃ d, v = .dictionary d) ∨ ∃ s, v = .string s

/-- **One object**: its own index and the end of `$objects` are written. -/
theorem convertObject_shape (h : a.convertObject host objects i obj = .ok out) :
    ∃ v more, out = (objects ++ more).set (i + 1) v ∧ (∀ x ∈ more, IsExtra x) ∧
      ((∃ className, a.classOf obj = .ok className ∧ isData className) ∨ IsExtra v) := by
  obtain ⟨className, hclass, -⟩ := bind_eq_ok.1 h
  obtain ⟨values, -, hcases⟩ := convertObject_cases hclass h
  rcases hcases with ⟨-, bytes, -, rfl⟩ | ⟨hdata, bytes, -, rfl⟩ | ⟨-, -, hother⟩
  · exact ⟨_, [], by rw [List.append_nil], (fun x hx => nomatch hx), Or.inr (Or.inr ⟨_, rfl⟩)⟩
  · exact ⟨_, [], by rw [List.append_nil], (fun x hx => nomatch hx), Or.inl ⟨className, hclass, hdata⟩⟩
  · obtain ⟨c, objDict, texts, -, -, rfl⟩ := convertOther_cases hother
    refine ⟨_, _, rfl, fun x hx => ?_, Or.inr (Or.inl ⟨_, rfl⟩)⟩
    rcases List.mem_cons.1 hx with rfl | hx
    · exact Or.inl ⟨_, rfl⟩
    · obtain ⟨s, -, rfl⟩ := List.mem_map.1 hx
      exact Or.inr ⟨s, rfl⟩

theorem convertObject_length (h : a.convertObject host objects i obj = .ok out) : objects.length ≤ out.length := by
  obtain ⟨v, more, rfl, -⟩ := convertObject_shape h
  rw [List.length_set, List.length_append]
  exact Nat.le_add_right _ _

theorem convertObject_frame (h : a.convertObject host objects i obj = .ok out) (hj : j < objects.length)
    (hne : j ≠ i + 1) : out[j]? = objects[j]? := by
  obtain ⟨v, more, rfl, -⟩ := convertObject_shape h
  rw [List.getElem?_set_ne (Ne.symm hne), List.getElem?_append_left hj]

/-! ## All objects -/

theorem convertObjects_frame (h : a.convertObjects host i l objects = .ok out)
    (hj : j < objects.length) (hout : j < i + 1 ∨ i + l.length < j) : out[j]? = objects[j]? := by
  induction l generalizing i objects with
  | nil =>
    cases h
    rfl
  | cons obj l ih =>
    obtain ⟨objects₁, h₁, h⟩ := bind_eq_ok.1 h
    rw [List.length_cons] at hout
    rw [ih h (lt_of_lt_of_le hj (convertObject_length h₁)) (by omega), convertObject_frame h₁ hj (by omega)]

/-- **Each object** is converted once; its value and what was added for it stay. -/
theorem convertObjects_at (h : a.convertObjects host i l objects = .ok out)
    (hlen : i + l.length < objects.length) (hj : l[j]? = some obj) :
    ∃ before after, a.convertObject host before (i + j) obj = .ok after ∧ i + l.length < before.length ∧
      ∀ k < after.length, k = i + j + 1 ∨ i + l.length < k → out[k]? = after[k]? := by
  induction l generalizing i j objects with
  | nil => cases hj
  | cons obj' l ih =>
    obtain ⟨objects₁, h₁, hnext⟩ := bind_eq_ok.1 h
    have hlen₁ := convertObject_length h₁
    rw [List.length_cons] at hlen ⊢
    cases j with
    | zero =>
      cases hj
      exact ⟨objects, objects₁, h₁, hlen, fun k hk hwhere => convertObjects_frame hnext hk (by omega)⟩
    | succ j =>
      rw [List.getElem?_cons_succ] at hj
      have hrest := ih hnext (by omega) hj
      rwa [show i + 1 + j = i + (j + 1) by omega, show i + 1 + l.length = i + (l.length + 1) by omega] at hrest

/-- the value at an index is bytes only for an object that is data -/
theorem convertObjects_kind (h : a.convertObjects host i l objects = .ok out) {k : ℕ}
    (hv : out[k]? = some v) : objects[k]? = some v ∨ IsExtra v ∨
      ∃ j obj className, l[j]? = some obj ∧ k = i + j + 1 ∧ a.classOf obj = .ok className ∧ isData className := by
  induction l generalizing i objects with
  | nil =>
    cases h
    exact Or.inl hv
  | cons obj l ih =>
    obtain ⟨objects₁, h₁, h⟩ := bind_eq_ok.1 h
    rcases ih h with hold | hextra | ⟨j, obj', className, hj, rfl, hclass, hdata⟩
    · obtain ⟨w, more, rfl, hmore, hw⟩ := convertObject_shape h₁
      by_cases hk : k = i + 1
      · subst hk
        have hwv : w = v := by
          obtain ⟨hlt, hget⟩ := List.getElem?_eq_some_iff.1 hold
          rw [List.getElem_set_self] at hget
          exact hget
        subst hwv
        rcases hw with ⟨className, hclass, hdata⟩ | hextra
        · exact Or.inr (Or.inr ⟨0, obj, className, rfl, rfl, hclass, hdata⟩)
        · exact Or.inr (Or.inl hextra)
      · rw [List.getElem?_set_ne (Ne.symm hk)] at hold
        by_cases hlt : k < objects.length
        · rw [List.getElem?_append_left hlt] at hold
          exact Or.inl hold
        · rw [List.getElem?_append_right (not_lt.1 hlt)] at hold
          exact Or.inr (Or.inl (hmore v (List.mem_of_getElem? hold)))
    · exact Or.inr (Or.inl hextra)
    · exact Or.inr (Or.inr ⟨j + 1, obj', className, hj, by omega, hclass, hdata⟩)

/-! ## The archive -/

variable {top : List (String × Value)}

theorem convert_cases (h : a.convert host = .ok (objects, top)) :
    a.convertObjects host 0 a.objects a.placeholders = .ok objects ∧
      ∃ root values, a.objects[0]? = some root ∧ a.valuesOf root = .ok values ∧ values.foldlM (a.addTop host) [] = .ok top := by
  obtain ⟨objects', hobjects, hrest⟩ := bind_eq_ok.1 h
  obtain ⟨root, hroot, hrest⟩ := bind_eq_ok.1 hrest
  obtain ⟨values, hvalues, hrest⟩ := bind_eq_ok.1 hrest
  obtain ⟨top', htop, hrest⟩ := bind_eq_ok.1 hrest
  cases hrest
  exact ⟨hobjects, root, values, unwrap_eq_ok.1 hroot, hvalues, htop⟩

/-- the value of an object is what its own conversion stores -/
theorem convert_at (h : a.convert host = .ok (objects, top)) (hobj : a.objects[i]? = some obj) :
    ∃ before after, a.convertObject host before i obj = .ok after ∧ (i + 1 < before.length ∧ a.objects.length < before.length) ∧
      ∀ k < after.length, k = i + 1 ∨ a.objects.length < k → objects[k]? = after[k]? := by
  have hlen : 0 + a.objects.length < a.placeholders.length := by simp [placeholders]
  obtain ⟨before, after, hconvert, hlong, hat⟩ := convertObjects_at (convert_cases h).1 hlen hobj
  simp only [Nat.zero_add] at hconvert hlong hat
  obtain ⟨hlt, -⟩ := List.getElem?_eq_some_iff.1 hobj
  exact ⟨before, after, hconvert, ⟨by omega, hlong⟩, hat⟩

theorem convert_string (h : a.convert host = .ok (objects, top)) (hobj : a.objects[i]? = some obj)
    (hclass : a.classOf obj = .ok className) (hstring : isString className) : ∃ values bytes, a.valuesOf obj = .ok values ∧
      values.foldlM a.addBytes none = .ok bytes ∧ objects[i + 1]? = some (.string (stringText bytes)) := by
  obtain ⟨before, after, hconvert, ⟨hlt, -⟩, hat⟩ := convert_at h hobj
  obtain ⟨values, hvalues, hcases⟩ := convertObject_cases hclass hconvert
  rcases hcases with ⟨-, bytes, hbytes, rfl⟩ | ⟨hdata, -⟩ | ⟨hno, -⟩
  · refine ⟨values, bytes, hvalues, hbytes, ?_⟩
    rw [hat _ (by rwa [List.length_set]) (.inl rfl), List.getElem?_set_self hlt]
  · rcases hstring with rfl | rfl <;> rcases hdata with hdata | hdata <;> exact absurd hdata (by decide)
  · exact absurd hstring hno

theorem convert_data (h : a.convert host = .ok (objects, top)) (hobj : a.objects[i]? = some obj)
    (hclass : a.classOf obj = .ok className) (hdata : isData className) : ∃ values bytes, a.valuesOf obj = .ok values ∧
      values.foldlM a.addBytes none = .ok bytes ∧ objects[i + 1]? = some (.data (bytes.getD [])) := by
  obtain ⟨before, after, hconvert, ⟨hlt, -⟩, hat⟩ := convert_at h hobj
  obtain ⟨values, hvalues, hcases⟩ := convertObject_cases hclass hconvert
  rcases hcases with ⟨hstring, -⟩ | ⟨-, bytes, hbytes, rfl⟩ | ⟨-, hno, -⟩
  · rcases hstring with rfl | rfl <;> rcases hdata with hdata | hdata <;> exact absurd hdata (by decide)
  · refine ⟨values, bytes, hvalues, hbytes, ?_⟩
    rw [hat _ (by rwa [List.length_set]) (.inl rfl), List.getElem?_set_self hlt]
  · exact absurd hdata hno

/-- what is stored for an object of another class than strings and data -/
theorem convert_other (h : a.convert host = .ok (objects, top)) (hobj : a.objects[i]? = some obj)
    (hclass : a.classOf obj = .ok className) (hstring : ¬isString className) (hdata : ¬isData className) :
    ∃ values n more c d, a.valuesOf obj = .ok values ∧ a.objects.length < more.length ∧
      values.foldlM (a.addValue host values) ⟨more, [("$class", .uid n)], []⟩ = .ok c ∧
      (host.order c.arrayValues).foldlM (a.addArray className) c.objDict = .ok d ∧
      objects[i + 1]? = some (.dictionary d) ∧ objects[n]? = some (classDict className) := by
  obtain ⟨before, after, hconvert, ⟨hlt, hlong⟩, hat⟩ := convert_at h hobj
  obtain ⟨values, hvalues, hcases⟩ := convertObject_cases hclass hconvert
  rcases hcases with ⟨hyes, -⟩ | ⟨hyes, -⟩ | ⟨-, -, hother⟩
  · exact absurd hyes hstring
  · exact absurd hyes hdata
  · obtain ⟨c, d, texts, hc, hd, rfl⟩ := convertOther_cases hother
    refine ⟨values, before.length, _, c, d, hvalues, ?_, hc, hd, ?_, ?_⟩
    · rw [List.length_append]
      omega
    · rw [hat (i + 1) ?_ (Or.inl rfl), List.getElem?_set_self]
      all_goals
        simp only [List.length_set, List.length_append]
        omega
    · rw [hat before.length ?_ (Or.inr (by omega)), List.getElem?_set_ne (by omega), List.getElem?_append_right le_rfl]
      · simp
      · simp

/-- **The kinds of values in `$objects`.** Bytes are only stored for objects that are data; everything else is a text or a
dictionary. -/
theorem convert_kind (h : a.convert host = .ok (objects, top)) {k : ℕ} (hv : objects[k]? = some v) :
    IsExtra v ∨ ∃ j obj className, a.objects[j]? = some obj ∧ k = j + 1 ∧ a.classOf obj = .ok className ∧ isData className := by
  rcases convertObjects_kind (convert_cases h).1 hv with hold | hextra | ⟨j, obj, className, hj, rfl, hclass, hdata⟩
  · refine Or.inl ?_
    rcases List.mem_cons.1 (List.mem_of_getElem? hold) with rfl | hmem
    · exact Or.inr ⟨_, rfl⟩
    · obtain ⟨-, -, rfl⟩ := List.mem_map.1 hmem
      exact Or.inl ⟨_, rfl⟩
  · exact Or.inl hextra
  · exact Or.inr ⟨j, obj, className, hj, by omega, hclass, hdata⟩

end NibArchive

end TouchHLE
