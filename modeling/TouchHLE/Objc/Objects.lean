/-
The Objective-C runtime's objects (`objc.rs`, `objects.rs`, `selectors.rs`): host objects by guest address with their
reference counts, the classes by name, and the selectors. What a host method is does not matter here: it has some type
`F`. Host objects of other types than those of classes have some type `A`.

- `ClassHostObject`, `HostObject`, `ObjC`: the state of the runtime.
- `readIsa`, `registerStaticObject`, `borrowClass`: access to it.
- `incrementRefcount`, `decrementRefcount`, `deallocObject`: reference counts.
-/
import TouchHLE.Lib.Assoc
import TouchHLE.Lib.Utf8
import TouchHLE.Mem.Heap

namespace TouchHLE

open Machine Words Utf8

/-- the implementation of a method: a host function, or a guest function at an address -/
inductive IMP (F : Type) where
  | host (f : F)
  | guest (addr : UInt32)
deriving DecidableEq

structure ClassHostObject (F : Type) where
  name : String
  isMetaclass : Bool
  superclass : ℕ
  methods : List (ℕ × IMP F)
  /-- for each instance variable the address of its offset, and its alignment -/
  ivars : List (String × ℕ × ℕ)
  instanceStart : ℕ
  instanceSize : ℕ
deriving DecidableEq

inductive HostObject (F A : Type) where
  | realClass (c : ClassHostObject F)
  | unimplementedClass (name : String) (isMetaclass : Bool)
  | fakeClass (name : String) (isMetaclass : Bool)
  | other (a : A)

structure HostObjectEntry (F A : Type) where
  hostObject : HostObject F A
  refcount : Option ℕ

structure ObjC (F A : Type) where
  selectors : List (String × ℕ)
  objects : ℕ → Option (HostObjectEntry F A)
  classes : List (String × ℕ)
  /-- the type of the message that is sent, if the host sends it -/
  messageTypeInfo : Option ℕ

/-- the null pointer -/
def nil : ℕ := 0

namespace Mem

/-- a word of a struct of `size` bytes at `ptr`, which is read as a whole -/
def readField (m : Mem) (ptr size offset : ℕ) : Except Panic ℕ := do
  m.checkRange ptr size
  pure (loadWord m.bytes (ptr + offset)).toNat

/-- `cstr_at_utf8().unwrap()` -/
def cstrAtUtf8 (m : Mem) (ptr : ℕ) : Except Panic String := do
  let bytes ← m.cstrAt (2 ^ 32 - ptr) ptr
  let chars ← unwrap (fromUtf8 bytes) .utf8
  pure (String.ofList chars)

end Mem

namespace ObjC

variable {F A : Type}

def new : ObjC F A := ⟨[], fun _ => none, [], none⟩

def readIsa (m : Mem) (object : ℕ) : Except Panic ℕ := m.readField object 4 0

def getHostObject (s : ObjC F A) (object : ℕ) : Option (HostObject F A) := (s.objects object).map HostObjectEntry.hostObject

/-- a host object that is a class -/
def getClass (s : ObjC F A) (object : ℕ) : Option (ClassHostObject F) :=
  match s.getHostObject object with
  | some (.realClass c) => some c
  | _ => none

/-- `borrow::<ClassHostObject>` -/
def borrowClass (s : ObjC F A) (object : ℕ) : Except Panic (ClassHostObject F) := do
  let _ ← unwrap (s.objects object) .missing
  unwrap (s.getClass object) .hostObject

section

variable {s : ObjC F A} {a : ℕ} {c : ClassHostObject F}

theorem getHostObject_of_class (h : s.getClass a = some c) : s.getHostObject a = some (.realClass c) := by
  unfold getClass at h
  cases ho : s.getHostObject a with
  | none =>
    rw [ho] at h
    cases h
  | some o =>
    rw [ho] at h
    cases o <;> cases h
    rfl

theorem borrowClass_of_class (h : s.getClass a = some c) : s.borrowClass a = .ok c := by
  have ho := getHostObject_of_class h
  unfold getHostObject at ho
  cases hentry : s.objects a with
  | none =>
    rw [hentry] at ho
    cases ho
  | some entry => rw [borrowClass, hentry, unwrap, ok_bind, h, unwrap]

end

def registerStaticObject (s : ObjC F A) (object : ℕ) (hostObject : HostObject F A) : Except Panic (ObjC F A) := do
  assert (s.objects object).isNone .duplicateKey
  pure { s with objects := Function.update s.objects object (some ⟨hostObject, none⟩) }

/-- a class gets another host object -/
def setClass (s : ObjC F A) (object : ℕ) (c : ClassHostObject F) : ObjC F A :=
  let entry := (s.objects object).map fun entry => { entry with hostObject := .realClass c }
  { s with objects := Function.update s.objects object entry }

/-! ## Selectors -/

def registerBinSelector (s : ObjC F A) (selCstr : ℕ) (m : Mem) : Except Panic (ℕ × ObjC F A) := do
  let selStr ← m.cstrAtUtf8 selCstr
  match s.selectors.lookup selStr with
  | some existingSel => pure (existingSel, s)
  | none => pure (selCstr, { s with selectors := Assoc.insert selStr selCstr s.selectors })

/-! ## Reference counts -/

/-- the entry and the reference count of an object that has one -/
def countedEntry (s : ObjC F A) (object : ℕ) : Except Panic (HostObjectEntry F A × ℕ) := do
  let entry ← unwrap (s.objects object) .missing
  let refcount ← unwrap entry.refcount .refcount
  pure (entry, refcount)

def incrementRefcount (s : ObjC F A) (object : ℕ) : Except Panic (ObjC F A) := do
  let (entry, refcount) ← s.countedEntry object
  let refcount ← add32 refcount 1
  pure { s with objects := Function.update s.objects object (some { entry with refcount := some refcount }) }

/-- whether the object must be deallocated -/
def decrementRefcount (s : ObjC F A) (object : ℕ) : Except Panic (Bool × ObjC F A) := do
  let (entry, refcount) ← s.countedEntry object
  let rest := if refcount = 1 then none else some (refcount - 1)
  pure (refcount = 1, { s with objects := Function.update s.objects object (some { entry with refcount := rest }) })

/-- `dealloc_object`, except that the memory is given back -/
def removeObject (s : ObjC F A) (object : ℕ) : Except Panic (ObjC F A) := do
  let _ ← unwrap (s.objects object) .missing
  pure { s with objects := Function.update s.objects object none }

theorem removeObject_none {s : ObjC F A} {a : ℕ} (h : s.objects a = none) : s.removeObject a = .error .missing := by
  rw [removeObject, h]
  rfl

theorem removeObject_some {s : ObjC F A} {a : ℕ} {entry : HostObjectEntry F A} (h : s.objects a = some entry) :
    s.removeObject a = .ok { s with objects := Function.update s.objects a none } := by
  rw [removeObject, h]
  rfl

def deallocObject (s : ObjC F A) (object : ℕ) (h : Heap) : Except Panic (ObjC F A × Heap) := do
  let s ← s.removeObject object
  let h ← h.free object
  pure (s, h)

end ObjC

end TouchHLE
