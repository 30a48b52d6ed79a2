/-
Keyed archives are decoded (`ns_keyed_unarchiver.rs`). An object is unarchived by the `initWithCoder:` of its class, which
goes on to ask the unarchiver for its fields: what such a method does is a `Coder`, a tree of the questions it asks.

- `Unarchiver`: the state. `Coder`, `Classes`: what the classes do.
- `valueForKey`, `keysForKey`: access to the object that is being unarchived.
- `unarchiveKey`: the recursion, to a depth. `runCoder`: one method.
- `decodeCurrentArray`, `decodeCurrentDict`: collections.
-/
import TouchHLE.Foundation.NibArchive

namespace TouchHLE

open Machine

inductive Id where
  | nil
  | known (className : String)
  | object (n : ℕ)
deriving DecidableEq

inductive GuestObject where
  | instance (className : String)
  | string (s : String)
  | number (i : ℤ)
  | data (bytes : List UInt8)
deriving DecidableEq

/-- what an `initWithCoder:` method does: the object it returns, or what it asks for and how it goes on -/
inductive Coder where
  | done (object : Id)
  | decodeObject (key : String) (next : Id → Coder)
  /-- `decode_current_array` -/
  | decodeArray (next : List Id → Coder)
  /-- `decode_current_dict` -/
  | decodeDict (next : List (Id × Id) → Coder)
  /-- the methods for other values, and `containsValueForKey:` -/
  | decodeValue (key : String) (next : Option Value → Coder)
  | create (o : GuestObject) (next : Id → Coder)

structure Classes where
  known : String → Bool
  initWithCoder : String → Id → Coder

/-- `NSKeyedUnarchiverHostObject`, with `$objects` and `$top` of its property list, and the objects that there are -/
structure Unarchiver where
  objects : List Value
  top : Value
  currentKey : Option ℕ
  alreadyUnarchived : List (Option Id)
  heap : List GuestObject

namespace Unarchiver

/-- `initForReadingWithData:` after the property list is there -/
def init (plist : List (String × Value)) : Except Panic Unarchiver := do
  let version ← unwrap (plist.lookup "$version") .missing
  assert (match version with | .integer i => i == 100000 | _ => false) .badArchive
  let archiver ← unwrap (plist.lookup "$archiver") .missing
  assert (archiver.asString == some "NSKeyedArchiver") .badArchive
  let objects ← unwrap ((plist.lookup "$objects").bind Value.asArray) .missing
  let top ← unwrap (plist.lookup "$top") .missing
  pure ⟨objects, top, none, List.replicate objects.length none, []⟩

def create (s : Unarchiver) (o : GuestObject) : Id × Unarchiver := (.object s.heap.length, { s with heap := s.heap ++ [o] })

/-- the object that an `id` is -/
def objectAt (s : Unarchiver) : Id → Option GuestObject
  | .object n => s.heap[n]?
  | _ => none

def remember (s : Unarchiver) (key : ℕ) (object : Id) : Unarchiver :=
  { s with alreadyUnarchived := s.alreadyUnarchived.set key (some object) }

def scope (s : Unarchiver) : Except Panic Value :=
  match s.currentKey with
  | some currentUid => unwrap s.objects[currentUid]? .index
  | none => pure s.top

/-- `get_value_to_decode_for_key` -/
def valueForKey (s : Unarchiver) (key : String) : Except Panic (Option Value) := do
  let scope ← s.scope
  pure (scope.asDictionary.bind (·.lookup key))

def keysForKey (s : Unarchiver) (key : String) : Except Panic (List ℕ) := do
  let currentKey ← unwrap s.currentKey .missing
  let item ← unwrap s.objects[currentKey]? .index
  let dict ← unwrap item.asDictionary .missing
  let keys ← unwrap ((dict.lookup key).bind Value.asArray) .missing
  keys.mapM fun value => unwrap value.asUid .missing

section
variable (unarchive : Unarchiver → ℕ → Except Panic (Id × Unarchiver))

def unarchiveAll : List ℕ → Unarchiver → Except Panic (List Id × Unarchiver)
  | [], s => pure ([], s)
  | key :: keys, s => do
    let (object, s) ← unarchive s key
    let (objects, s) ← unarchiveAll keys s
    pure (object :: objects, s)

def decodeCurrentArray (s : Unarchiver) : Except Panic (List Id × Unarchiver) := do
  let keys ← s.keysForKey "NS.objects"
  unarchiveAll unarchive keys s

def decodeCurrentDict (s : Unarchiver) : Except Panic (List (Id × Id) × Unarchiver) := do
  let keys ← s.keysForKey "NS.keys"
  let vals ← s.keysForKey "NS.objects"
  let (keys, s) ← unarchiveAll unarchive keys s
  let (vals, s) ← unarchiveAll unarchive vals s
  pure (keys.zip vals, s)

/-- `decodeObjectForKey:`; a value that is no reference is no object -/
def decodeObjectForKey (s : Unarchiver) (key : String) : Except Panic (Id × Unarchiver) := do
  let value ← s.valueForKey key
  match value.bind Value.asUid with
  | none => pure (.nil, s)
  | some uid => unarchive s uid

def runCoder : Coder → Unarchiver → Except Panic (Id × Unarchiver)
  | .done object, s => pure (object, s)
  | .decodeObject key next, s => do
    let (object, s) ← s.decodeObjectForKey unarchive key
    runCoder (next object) s
  | .decodeArray next, s => do
    let (objects, s) ← s.decodeCurrentArray unarchive
    runCoder (next objects) s
  | .decodeDict next, s => do
    let (pairs, s) ← s.decodeCurrentDict unarchive
    runCoder (next pairs) s
  | .decodeValue key next, s => do
    let value ← s.valueForKey key
    runCoder (next value) s
  | .create o next, s =>
    let (object, s) := s.create o
    runCoder (next object) s

variable (c : Classes)

/-- the class of an item: what has been unarchived under its key, or the known class of its name -/
def classFor (s : Unarchiver) (classKey : ℕ) : Except Panic (Id × Unarchiver) := do
  let existing ← unwrap s.alreadyUnarchived[classKey]? .index
  match existing with
  | some existing => pure (existing, s)
  | none =>
    let item ← unwrap s.objects[classKey]? .index
    let classDict ← unwrap item.asDictionary .missing
    let className ← unwrap ((classDict.lookup "$classname").bind Value.asString) .missing
    assert (c.known className) .unknownClass
    pure (.known className, s.remember classKey (.known className))

/-- the messages `alloc` and `initWithCoder:`, in the scope of the item -/
def initObject (s : Unarchiver) (key : ℕ) : Id → Except Panic (Id × Unarchiver)
  | .known className => do
    let (new, s') := { s with currentKey := some key }.create (.instance className)
    let (new, s') ← runCoder unarchive (c.initWithCoder className new) s'
    pure (new, { s' with currentKey := s.currentKey })
  | _ => throw .doesNotRespond

/-- the object for an item -/
def unarchiveItem (s : Unarchiver) (key : ℕ) : Value → Except Panic (Id × Unarchiver)
  | .dictionary dict => do
    let classKey ← unwrap ((dict.lookup "$class").bind Value.asUid) .missing
    let (cls, s) ← s.classFor c classKey
    s.initObject unarchive c key cls
  | .string text => pure (s.create (.string text))
  | .integer int => pure (s.create (.number int))
  | _ => throw .unimplemented

end

/-- `unarchive_key`, where methods call methods to a depth at most -/
def unarchiveKey (c : Classes) : ℕ → Unarchiver → ℕ → Except Panic (Id × Unarchiver)
  | 0, _, _ => throw .tooDeep
  | n + 1, s, key => do
    let existing ← unwrap s.alreadyUnarchived[key]? .index
    match existing with
    | some existing => pure (existing, s)
    | none =>
      let item ← unwrap s.objects[key]? .index
      let (new, s) ← s.unarchiveItem (unarchiveKey c n) c key item
      pure (new, s.remember key new)

end Unarchiver

end TouchHLE
