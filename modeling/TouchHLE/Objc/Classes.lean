/-
The classes of a binary (`classes.rs`, `properties.rs`, `methods.rs`): how they are read and registered, and how the
instance variables of a class are moved behind those of a superclass that has grown.

- `fromBin`, `addMethodsFromBin`, `addIvarsFromBin`: a class as the binary has it.
- `registerClasses`: the first pass of `register_bin_classes`. `invertInheritance`: the second pass.
- `reconcileClass`, `reconcile`: the third pass, in breadth-first order. `registerBinClasses`: all passes.
- `ivarOffset`, `objectLookupIvar`: what is read of an instance variable later.
-/
import TouchHLE.Lib.BreadthFirst
import TouchHLE.Objc.Objects
import TouchHLE.Dyld.Linker

namespace TouchHLE.ObjC

open Machine Mem BreadthFirst

variable {F A : Type}

/-! ## Classes in a binary -/

/-- the loop of `add_methods_from_bin`, for the methods from `i` on -/
def addMethods (m : Mem) (base entsize : ℕ) : ℕ → ℕ → List (ℕ × IMP F) → ObjC F A →
    Except Panic (List (ℕ × IMP F) × ObjC F A)
  | 0, _, methods, s => pure (methods, s)
  | n + 1, i, methods, s => do
    let offset ← mul32 i entsize
    let methodPtr ← add32 base offset
    let name ← m.readField methodPtr 12 0
    let imp ← m.readField methodPtr 12 8
    let (sel, s) ← s.registerBinSelector name m
    addMethods m base entsize n (i + 1) (Assoc.insert sel (.guest (UInt32.ofNat imp)) methods) s

def addMethodsFromBin (methodListPtr : ℕ) (m : Mem) (s : ObjC F A) : Except Panic (List (ℕ × IMP F) × ObjC F A) :=
  if methodListPtr = nil then pure ([], s)
  else do
    let entsize ← m.readField methodListPtr 8 0
    let count ← m.readField methodListPtr 8 4
    assert (12 ≤ entsize) .classList
    let base ← ptrAdd methodListPtr 1 8
    addMethods m base entsize count 0 [] s

/-- the loop of `add_ivars_from_bin`, for the instance variables from `i` on -/
def addIvars (m : Mem) (base entsize : ℕ) : ℕ → ℕ → List (String × ℕ × ℕ) → Except Panic (List (String × ℕ × ℕ))
  | 0, _, ivars => pure ivars
  | n + 1, i, ivars => do
    let offset ← mul32 i entsize
    let ivarPtr ← add32 base offset
    let offset ← m.readField ivarPtr 20 0
    let name ← m.readField ivarPtr 20 4
    let alignment ← m.readField ivarPtr 20 12
    let nameString ← m.cstrAtUtf8 name
    addIvars m base entsize n (i + 1) (Assoc.insert nameString (offset, alignment) ivars)

def addIvarsFromBin (ivarListPtr : ℕ) (m : Mem) : Except Panic (List (String × ℕ × ℕ)) :=
  if ivarListPtr = nil then pure []
  else do
    let entsize ← m.readField ivarListPtr 8 0
    let count ← m.readField ivarListPtr 8 4
    assert (20 ≤ entsize) .classList
    let base ← ptrAdd ivarListPtr 1 8
    addIvars m base entsize count 0 []

/-- the name of a `class_t` -/
def className (m : Mem) (cls : ℕ) : Except Panic String := do
  let data ← m.readField cls 20 16
  let name ← m.readField data 40 16
  m.cstrAtUtf8 name

def fromBin (cls : ℕ) (isMetaclass : Bool) (m : Mem) (s : ObjC F A) : Except Panic (ClassHostObject F × ObjC F A) := do
  let superclass ← m.readField cls 20 4
  let data ← m.readField cls 20 16
  let instanceStart ← m.readField data 40 4
  let instanceSize ← m.readField data 40 8
  let baseMethods ← m.readField data 40 20
  let ivars ← m.readField data 40 28
  let name ← className m cls
  let (methods, s) ← addMethodsFromBin baseMethods m s
  let ivars ← addIvarsFromBin ivars m
  pure ({ name, isMetaclass, superclass, methods, ivars, instanceStart, instanceSize }, s)

/-- the classes of libraries that are not supported -/
def substitutedPrefixes : List String := ["AdMob", "AltAds", "Mobclix", "FB", "Flurry", "OpenFeint"]

/-- the name of the two fake classes, if there are any for a class -/
def substituteClasses (m : Mem) (cls metaclass : ℕ) : Except Panic (Option String) := do
  let name ← className m cls
  if !substitutedPrefixes.any fun pre => pre.toList.isPrefixOf name.toList then pure none
  else do
    let metaclassName ← className m metaclass
    assert (name == metaclassName) .classList
    pure (some name)

/-! ## The first pass -/

/-- the name of a class and the host objects of it and its metaclass -/
def hostObjects (cls metaclass : ℕ) (m : Mem) (s : ObjC F A) :
    Except Panic (String × HostObject F A × HostObject F A × ObjC F A) := do
  let fake ← substituteClasses m cls metaclass
  match fake with
  | some name => pure (name, .fakeClass name false, .fakeClass name true, s)
  | none => do
    let (c, s) ← fromBin cls false m s
    let (mc, s) ← fromBin metaclass true m s
    assert (c.name == mc.name) .classList
    pure (c.name, .realClass c, .realClass mc, s)

def registerClass (m : Mem) (cls : ℕ) (s : ObjC F A) : Except Panic (ObjC F A) := do
  let metaclass ← readIsa m cls
  let (name, hostObject, metaclassHostObject, s) ← hostObjects cls metaclass m s
  let s ← s.registerStaticObject cls hostObject
  let s ← s.registerStaticObject metaclass metaclassHostObject
  pure { s with classes := Assoc.insert name cls s.classes }

/-- the classes of a list at `base`, from `i` on -/
def registerClasses (m : Mem) (base : ℕ) : ℕ → ℕ → ObjC F A → Except Panic (ObjC F A)
  | 0, _, s => pure s
  | n + 1, i, s => do
    let ptr ← ptrAdd base i 4
    let cls ← m.readField ptr 4 0
    let s ← registerClass m cls s
    registerClasses m base n (i + 1) s

/-! ## The second pass -/

structure Inheritance where
  invertedInheritance : ℕ → List ℕ
  queue : List ℕ
  foundNSObject : Bool

def Inheritance.empty : Inheritance := ⟨fun _ => [], [], false⟩

/-- "NSObject" is found once at most -/
def Inheritance.note (g : Inheritance) (name : String) : Except Panic Inheritance :=
  if name = "NSObject" then do
    assert (!g.foundNSObject) .classList
    pure { g with foundNSObject := true }
  else pure g

/-- a class below another, or a root -/
def Inheritance.add (g : Inheritance) (cls superclass : ℕ) : Except Panic Inheritance :=
  if superclass ≠ nil then
    let subclasses := g.invertedInheritance superclass ++ [cls]
    pure { g with invertedInheritance := Function.update g.invertedInheritance superclass subclasses }
  else do
    assert (!g.queue.contains cls) .classList
    pure { g with queue := g.queue ++ [cls] }

def invertClass (s : ObjC F A) (g : Inheritance) (entry : String × ℕ) : Except Panic Inheritance := do
  let g ← g.note entry.1
  let hostObject ← unwrap (s.getHostObject entry.2) .missing
  match hostObject with
  | .realClass c => g.add entry.2 c.superclass
  | _ => pure g

/-- the classes in the order in which the hash map has them -/
def invertInheritance (s : ObjC F A) (entries : List (String × ℕ)) : Except Panic Inheritance := do
  let g ← entries.foldlM (invertClass s) .empty
  assert g.foundNSObject .classList
  pure g

/-! ## The third pass -/

def needIvarReconciliation (s : ObjC F A) (cls : ℕ) : Except Panic (Bool × ℕ) := do
  let hostObject ← unwrap (s.getHostObject cls) .missing
  match hostObject with
  | .realClass c =>
    if c.superclass = nil then pure (false, 0)
    else do
      let superclassHostObject ← unwrap (s.getHostObject c.superclass) .missing
      match superclassHostObject with
      | .realClass sup =>
        if c.instanceStart < sup.instanceSize then pure (true, sup.instanceSize - c.instanceStart) else pure (false, 0)
      | _ => pure (false, 0)
  | _ => pure (false, 0)

def maxAlignment (ivars : List (String × ℕ × ℕ)) : ℕ :=
  ivars.foldl (fun a ivar => if ivar.2.1 = nil then a else max a ivar.2.2) 1

/-- `(diff + mask) & !mask` -/
def alignUp (diff mask : ℕ) : Except Panic ℕ := do
  let sum ← add32 diff mask
  pure (sum &&& (2 ^ 32 - 1 - mask))

/-- the address of the offset is moved, unless the instance variable is an anonymous bitfield -/
def moveIvar (diff : ℕ) (ivar : String × ℕ × ℕ) : Except Panic (String × ℕ × ℕ) :=
  if ivar.2.1 = nil then pure ivar
  else do
    let offset ← add32 ivar.2.1 diff
    pure (ivar.1, offset, ivar.2.2)

/-- by how much the class is moved, and its instance variables then -/
def moveIvars (ivars : List (String × ℕ × ℕ)) (diff : ℕ) : Except Panic (ℕ × List (String × ℕ × ℕ)) :=
  if ivars.isEmpty then pure (diff, ivars)
  else do
    let diff ← alignUp diff (maxAlignment ivars - 1)
    let ivars ← ivars.mapM (moveIvar diff)
    pure (diff, ivars)

/-- the class is moved -/
def moveClass (s : ObjC F A) (cls diff : ℕ) : Except Panic (ObjC F A) := do
  let c ← s.borrowClass cls
  let (diff, ivars) ← moveIvars c.ivars diff
  let instanceStart ← add32 c.instanceStart diff
  let instanceSize ← add32 c.instanceSize diff
  pure (s.setClass cls { c with ivars, instanceStart, instanceSize })

/-- the body of the loop of the third pass, without the queue -/
def reconcileClass (s : ObjC F A) (next : ℕ) : Except Panic (ObjC F A) := do
  let (need, diff) ← s.needIvarReconciliation next
  if need then s.moveClass next diff else pure s

/-- the second and the third pass -/
def reconcile (entries : List (String × ℕ)) (s : ObjC F A) : Except Panic (ObjC F A) := do
  let g ← s.invertInheritance entries
  bfs g.invertedInheritance reconcileClass .notEnabled entries.length g.queue s

/-- `register_bin_classes`. The hash map of classes is traversed in the order `entries` of it. -/
def registerBinClasses (entries : List (String × ℕ) → List (String × ℕ)) (list : Option Section) (m : Mem)
    (s : ObjC F A) : Except Panic (ObjC F A) :=
  match list with
  | none => pure s
  | some list => do
    assert (list.size % 4 == 0) .classList
    let s ← registerClasses m list.addr (list.size / 4) 0 s
    reconcile (entries s.classes) s

/-! ## Instance variables of objects -/

/-- the loop of `object_lookup_ivar`, for at most so many classes: the offset of the instance variable -/
def ivarOffset (s : ObjC F A) (m : Mem) (name : String) : ℕ → ℕ → Except Panic (Option ℕ)
  | 0, _ => throw .notEnabled
  | n + 1, cls => do
    let c ← s.borrowClass cls
    match c.ivars.lookup name with
    | some (offsetPtr, _) => do
      let offset ← m.readField offsetPtr 4 0
      pure (some offset)
    | none => if c.superclass = nil then pure none else ivarOffset s m name n c.superclass

/-- `object_lookup_ivar` -/
def objectLookupIvar (s : ObjC F A) (m : Mem) (n obj : ℕ) (name : String) : Except Panic (Option ℕ) := do
  let cls ← readIsa m obj
  let offset ← s.ivarOffset m name n cls
  match offset with
  | some offset => do
    let ptr ← add32 obj offset
    pure (some ptr)
  | none => pure none

end TouchHLE.ObjC
