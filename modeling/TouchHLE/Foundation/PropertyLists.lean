/-
Property lists as objects and back (`ns_property_list_serialization.rs`). Objects are numbered from one, nil is zero; the
bytes of data are in the guest memory.

- `PlistObject`, `Graph`: the objects that there are.
- `asSecsF64`, `fromSecsF64`: times as `f64`.
- `deserializePlist`: objects are created for a value. `serializePlist`: a value for objects, to a depth.
-/
import TouchHLE.Foundation.Dictionary
import TouchHLE.Foundation.NibArchive
import TouchHLE.Lib.Rounding
import TouchHLE.Mem.Heap

namespace TouchHLE

open Machine Buckets Rounding

/-! ## Times -/

/-- `SystemTime`: nanoseconds since the Unix epoch, with an `i64` of seconds -/
def IsSystemTime (t : ℤ) : Prop := -2 ^ 63 * 10 ^ 9 ≤ t ∧ t < 2 ^ 63 * 10 ^ 9

instance (t : ℤ) : Decidable (IsSystemTime t) := inferInstanceAs (Decidable (_ ∧ _))

/-- `apple_epoch` -/
def appleEpoch : ℤ := 978307200 * 10 ^ 9

/-- `duration_since().unwrap()` -/
def durationSince (t earlier : ℤ) : Except Panic ℕ := if earlier ≤ t then .ok (t - earlier).toNat else .error .conversion

/-- `Duration::as_secs_f64`: the seconds plus the quotient of the nanoseconds, each rounded -/
def asSecsF64 (nanos : ℕ) : ℚ :=
  significant 53 (significant 53 (nanos / 10 ^ 9 : ℕ) + significant 53 ((nanos % 10 ^ 9 : ℕ) / 10 ^ 9))

/-- `Duration::from_secs_f64` -/
def fromSecsF64 (secs : ℚ) : Except Panic ℕ :=
  if 0 ≤ secs ∧ toNearest (secs * 10 ^ 9) < 2 ^ 64 * 10 ^ 9 then .ok (toNearest (secs * 10 ^ 9)).toNat else .error .conversion

/-- `SystemTime::add` -/
def timeAdd (t : ℤ) (nanos : ℕ) : Except Panic ℤ := if IsSystemTime (t + nanos) then .ok (t + nanos) else .error .overflow

/-! ## Objects -/

/-- a `f32` or `f64` is given by its bits -/
inductive NSNumberHostObject where
  | bool (b : Bool)
  | unsignedLongLong (x : ℕ)
  | unsignedInt (x : ℕ)
  | int (x : ℤ)
  | longLong (x : ℤ)
  | float (bits : ℕ)
  | double (bits : ℕ)
  | short (x : ℤ)
  | char (x : ℤ)

inductive PlistObject where
  | array (items : List ℕ)
  | dictionary (d : DictionaryHostObject)
  | string (text : String)
  | number (n : NSNumberHostObject)
  | data (bytes length : ℕ)
  | date (timeInterval : ℚ)

structure Graph where
  heap : Heap
  objects : List PlistObject

namespace Graph

def hostObject (s : Graph) : ℕ → Option PlistObject
  | 0 => none
  | n + 1 => s.objects[n]?

def create (s : Graph) (o : PlistObject) : ℕ × Graph := (s.objects.length + 1, { s with objects := s.objects ++ [o] })

def text (s : Graph) (object : ℕ) : Option String :=
  match s.hostObject object with
  | some (.string text) => some text
  | _ => none

/-- `std::mem::take` of the host object of an array -/
def takeArray (s : Graph) (object : ℕ) : Graph := { s with objects := s.objects.set (object - 1) (.array []) }

end Graph

/-- what is used of the host -/
structure PlistHost where
  /-- `hash_helper` -/
  hash : String → ℕ
  /-- an `f32` as an `f64` -/
  widen : ℕ → ℕ
  /-- the order in which a hash map is gone through -/
  order : List (ℕ × List (ℕ × ℕ)) → List (ℕ × List (ℕ × ℕ))
  perm : ∀ l, (order l).Perm l

variable (host : PlistHost)

/-- `hash`, `isEqual:` and `copy` of strings, which are immutable -/
def Graph.messages (s : Graph) : KeyMessages where
  hash key := (s.text key).elim 0 host.hash
  isEqual key key' := (s.text key).isSome && s.text key == s.text key'
  copy _ key := key

def dictFromKeysAndObjects (s : Graph) (keysAndObjects : List (ℕ × ℕ)) : Except Panic DictionaryHostObject := do
  let (d, _) ← keysAndObjects.foldlM
    (fun d e => d.1.insert (s.messages host) d.2 e.1 e.2 true) (⟨[], 0⟩, ⟨0, [], []⟩)
  pure d

/-! ## Both directions -/

/-- `try_into().unwrap()` for an `NSUInteger` -/
def toNSUInteger (n : ℕ) : Except Panic ℕ := if n < 2 ^ 32 then .ok n else .error .conversion

/-- new memory with the bytes of a data value -/
def Graph.createData (s : Graph) (d : List UInt8) : Except Panic (ℕ × Graph) := do
  let length ← toNSUInteger d.length
  let (alloc, heap) ← s.heap.alloc length
  let m ← heap.toMem.writeBytes alloc d
  pure (Graph.create { s with heap := { heap with toMem := m } } (.data alloc length))

/-- `as_signed` is preferred to `as_unsigned` -/
def numberFor (int : ℤ) : NSNumberHostObject := if int < 2 ^ 63 then .longLong int else .unsignedLongLong int.toNat

mutual

def deserializePlist : Value → Graph → Except Panic (ℕ × Graph)
  | .array items, s => do
    let (array, s) ← deserializeItems items s
    pure (s.create (.array array))
  | .dictionary entries, s => do
    let (pairs, s) ← deserializeEntries entries s
    let d ← dictFromKeysAndObjects host s pairs
    pure (s.create (.dictionary d))
  | .boolean b, s => pure (s.create (.number (.bool b)))
  | .data d, s => s.createData d
  | .date t, s => do
    let nanos ← durationSince t appleEpoch
    pure (s.create (.date (asSecsF64 nanos)))
  | .integer int, s => pure (s.create (.number (numberFor int)))
  | .real bits, s => pure (s.create (.number (.double bits)))
  | .string text, s => pure (s.create (.string text))
  | .uid _, _ => throw .unimplemented

def deserializeItems : List Value → Graph → Except Panic (List ℕ × Graph)
  | [], s => pure ([], s)
  | value :: items, s => do
    let (object, s) ← deserializePlist value s
    let (array, s) ← deserializeItems items s
    pure (object :: array, s)

def deserializeEntries : List (String × Value) → Graph → Except Panic (List (ℕ × ℕ) × Graph)
  | [], s => pure ([], s)
  | (key, value) :: entries, s => do
    let (keyObject, s) := s.create (.string key)
    let (object, s) ← deserializePlist value s
    let (pairs, s) ← deserializeEntries entries s
    pure ((keyObject, object) :: pairs, s)

end

def serializeNumber : NSNumberHostObject → Except Panic Value
  | .bool b => pure (.boolean b)
  | .int x => pure (.integer x)
  | .float bits => pure (.real (host.widen bits))
  | .double bits => pure (.real bits)
  | .longLong x => pure (.integer x)
  | .short x => pure (.integer x)
  | .char x => pure (.integer x)
  | _ => throw .todo

def serializePlist : ℕ → Graph → ℕ → Except Panic Value
  | 0, _, _ => throw .tooDeep
  | n + 1, s, plist => do
    let o ← unwrap (s.hostObject plist) .hostObject
    match o with
    | .dictionary d =>
      let keyVals := pairs (host.order d.map)
      let dict ← keyVals.foldlM (fun dict e => do
        let keyString ← unwrap (s.text e.1) .hostObject
        let valPlist ← serializePlist n s e.2
        pure (Assoc.insert keyString valPlist dict)) []
      pure (.dictionary dict)
    | .array items => do
      let arr ← items.mapM (serializePlist n (s.takeArray plist))
      pure (.array arr)
    | .string text => pure (.string text)
    | .number num => serializeNumber host num
    | .data bytes length => do
      let d ← s.heap.toMem.readBytes bytes length
      pure (.data d)
    | .date timeInterval => do
      let nanos ← fromSecsF64 timeInterval
      let time ← timeAdd appleEpoch nanos
      pure (.date time)

end TouchHLE
