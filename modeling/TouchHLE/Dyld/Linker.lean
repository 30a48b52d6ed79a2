/-
The dynamic linker (`dyld.rs`): how stubs, external relocations and symbol pointers of the loaded binaries are linked to
host functions and to what other binaries export. What a host function is does not matter here: it has some type `F`, as
the constants that are linked later have some type `K`.

- `HostDylib`, `MachO`, `Dyld`: the two sides that symbols come from, and the linker's tables.
- `createGuestFunction`, `createProcAddressNoInval`: guest functions that call host functions, made once for each symbol.
- `linkRelocation`, `linkPointer`, `doNonLazyLinking`: what is linked up front.
- `setupLazyLinking`, `linkByRestoringStub`, `linkStub`, `doLazyLink`: stubs, which are linked when they are called first.
- `linkedFunction`: the host function of an SVC.
-/
import TouchHLE.Mem.Heap

namespace TouchHLE

open Machine Mem

/-! ## Host and guest libraries -/

structure HostDylib (F K : Type) where
  functionExports : List (List (String × F))
  constantExports : List (List (String × K))

/-- `search_host_dylibs`: the first export of that name -/
def searchHostDylibs {F K T : Type} (dylibs : List (HostDylib F K)) (getExports : HostDylib F K → List (List (String × T)))
    (symbol : String) : Option (String × T) :=
  dylibs.findSome? fun dylib => (getExports dylib).flatten.find? fun e => e.1 == symbol

structure DyldIndirectSymbolInfo where
  entrySize : ℕ
  indirectUndefSymbols : List (Option String)

structure Section where
  addr : ℕ
  size : ℕ
  dyldIndirectSymbolInfo : Option DyldIndirectSymbolInfo

/-- a loaded binary; the sections are those of `get_section` -/
structure MachO where
  exportedSymbols : String → Option UInt32
  symbolStubs : Option Section
  lazySymbolPointers : Option Section
  nonLazySymbolPointers : Option Section
  externalRelocations : List (ℕ × String)

/-- the first binary in order that exports the symbol -/
def searchBins (bins : List MachO) (symbol : String) : Option UInt32 := bins.findSome? fun bin => bin.exportedSymbols symbol

structure Dyld (F K : Type) where
  linkedHostFunctions : List (String × F)
  constantsToLinkLater : List (ℕ × K)
  /-- the guest functions that call a host function already, by symbol -/
  nonLazyHostFunctions : String → Option UInt32

namespace Dyld

def svcLazyLink : ℕ := 0

def svcThreadExit : ℕ := 1

def svcReturnToHost : ℕ := 2

def svcLinkedFunctionsBase : ℕ := 3

def svcLazyLinkRetFlag : ℕ := 0x800000

def encodeA32Svc (imm : ℕ) : Except Panic UInt32 := do
  assert (imm &&& 0xff000000 == 0) .svcRange
  pure (UInt32.ofNat (imm ||| 0xef000000))

def encodeA32Ret : UInt32 := 0xe12fff1e

def encodeA32Trap : UInt32 := 0xe7ffdefe

def new {F K : Type} : Dyld F K := ⟨[], [], fun _ => none⟩

variable {F K : Type}

/-- `mem.write(ptr + n, value)` -/
def writeAt (h : Heap) (ptr n : ℕ) (value : UInt32) : Except Panic Heap := do
  let p ← ptrAdd ptr n 4
  let m ← h.toMem.writeU32 p value
  pure { h with toMem := m }

/-- `mem.read(ptr + n)` -/
def readAt (h : Heap) (ptr n : ℕ) : Except Panic UInt32 := do
  let p ← ptrAdd ptr n 4
  h.toMem.readU32 p

/-! ## Guest functions that call host functions -/

/-- the SVC number that the next linked function has -/
def nextSvc (d : Dyld F K) : Except Panic ℕ :=
  if d.linkedHostFunctions.length < 2 ^ 32 then add32 d.linkedHostFunctions.length svcLinkedFunctionsBase
  else .error .conversion

def createGuestFunction (symbol : String) (f : F) (d : Dyld F K) (h : Heap) : Except Panic (UInt32 × Dyld F K × Heap) := do
  let svc ← d.nextSvc
  let d := { d with linkedHostFunctions := d.linkedHostFunctions ++ [(symbol, f)] }
  let (functionPtr, h) ← h.alloc 8
  let instr ← encodeA32Svc svc
  let h ← writeAt h functionPtr 0 instr
  let h ← writeAt h functionPtr 1 encodeA32Ret
  pure (UInt32.ofNat functionPtr, d, h)

/-- `create_proc_address_no_inval`, if there is such a function -/
def createProcAddressNoInval (dylibs : List (HostDylib F K)) (symbol : String) (d : Dyld F K) (h : Heap) :
    Except Panic (Option UInt32 × Dyld F K × Heap) :=
  match searchHostDylibs dylibs HostDylib.functionExports symbol with
  | none => pure (none, d, h)
  | some (symbol, f) =>
    match d.nonLazyHostFunctions symbol with
    | some cachedFn => pure (some cachedFn, d, h)
    | none => do
      let (functionPtr, d, h) ← createGuestFunction symbol f d h
      pure (some functionPtr,
        { d with nonLazyHostFunctions := Function.update d.nonLazyHostFunctions symbol (some functionPtr) }, h)

/-! ## Linking up front -/

def stripPrefix (pre s : String) : Option String :=
  if pre.toList.isPrefixOf s.toList then some (String.ofList (s.toList.drop pre.toList.length)) else none

/-- the Objective-C runtime's `link_class`, for a name and whether the metaclass is meant -/
abbrev LinkClass := String → Bool → Heap → Except Panic (UInt32 × Heap)

/-- the address that a name stands for, if it is to be filled in now -/
def findTarget (dylibs : List (HostDylib F K)) (bins : List MachO) (symbol : String) (d : Dyld F K) (h : Heap) :
    Except Panic (Option UInt32 × Dyld F K × Heap) :=
  match searchBins bins symbol with
  | some addr => pure (some addr, d, h)
  | none =>
    match searchHostDylibs dylibs HostDylib.functionExports symbol with
    | some (symbol, _) => do
      let (functionPtr, d, h) ← createProcAddressNoInval dylibs symbol d h
      let functionPtr ← unwrap functionPtr .missing
      pure (some functionPtr, d, h)
    | none => pure (none, d, h)

/-- the target of an external relocation -/
def relocationTarget (dylibs : List (HostDylib F K)) (bins : List MachO) (linkClass : LinkClass) (name : String)
    (d : Dyld F K) (h : Heap) : Except Panic (Option UInt32 × Dyld F K × Heap) :=
  match stripPrefix "_OBJC_CLASS_$_" name with
  | some name => do
    let (cls, h) ← linkClass name false h
    pure (some cls, d, h)
  | none =>
    match stripPrefix "_OBJC_METACLASS_$_" name with
    | some name => do
      let (cls, h) ← linkClass name true h
      pure (some cls, d, h)
    | none =>
      if name = "___CFConstantStringClassReference" then pure (some 0, d, h)
      else findTarget dylibs bins name d h

/-- the body of the first loop of `do_non_lazy_linking`, and the target that was found -/
def linkRelocation (dylibs : List (HostDylib F K)) (bins : List MachO) (linkClass : LinkClass) (ptrPtr : ℕ) (name : String)
    (d : Dyld F K) (h : Heap) : Except Panic (Option UInt32 × Dyld F K × Heap) := do
  let offset ← readAt h ptrPtr 0
  let (target, d, h) ← relocationTarget dylibs bins linkClass name d h
  match target with
  | none => pure (none, d, h)
  | some target => do
    let h ← writeAt h ptrPtr 0 (target + offset)
    pure (some target, d, h)

/-- the body of the second loop of `do_non_lazy_linking`, and the target that was found -/
def linkPointer (dylibs : List (HostDylib F K)) (bins : List MachO) (ptrPtr : ℕ) (symbol : String) (d : Dyld F K) (h : Heap) :
    Except Panic (Option UInt32 × Dyld F K × Heap) := do
  let (target, d, h) ← findTarget dylibs bins symbol d h
  match target with
  | some target => do
    let h ← writeAt h ptrPtr 0 target
    pure (some target, d, h)
  | none =>
    match searchHostDylibs dylibs HostDylib.constantExports symbol with
    | some (_, template) => pure (none, { d with constantsToLinkLater := d.constantsToLinkLater ++ [(ptrPtr, template)] }, h)
    | none => pure (none, d, h)

/-- the second loop of `do_non_lazy_linking`, for the entries from `i` on -/
def linkPointers (dylibs : List (HostDylib F K)) (bins : List MachO) (addr entrySize : ℕ) (symbols : List (Option String)) :
    ℕ → ℕ → Dyld F K → Heap → Except Panic (Dyld F K × Heap)
  | 0, _, d, h => pure (d, h)
  | n + 1, i, d, h => do
    match symbols[i]? with
    | none => throw .index
    | some none => linkPointers dylibs bins addr entrySize symbols n (i + 1) d h
    | some (some symbol) => do
      let offset ← mul32 i entrySize
      let ptrPtr ← add32 addr offset
      let (_, d, h) ← linkPointer dylibs bins ptrPtr symbol d h
      linkPointers dylibs bins addr entrySize symbols n (i + 1) d h

def doNonLazyLinking (dylibs : List (HostDylib F K)) (bins : List MachO) (linkClass : LinkClass) (bin : MachO) (d : Dyld F K)
    (h : Heap) : Except Panic (Dyld F K × Heap) := do
  let (d, h) ← bin.externalRelocations.foldlM (fun (d, h) (ptrPtr, name) => do
    let (_, d, h) ← linkRelocation dylibs bins linkClass ptrPtr name d h
    pure (d, h)) (d, h)
  match bin.nonLazySymbolPointers with
  | none => pure (d, h)
  | some ptrs => do
    let info ← unwrap ptrs.dyldIndirectSymbolInfo .missing
    assert (info.entrySize == 4) .stub
    assert (ptrs.size % info.entrySize == 0) .stub
    linkPointers dylibs bins ptrs.addr info.entrySize info.indirectUndefSymbols (ptrs.size / info.entrySize) 0 d h

/-! ## Stubs -/

def symbolStub1Instructions : List UInt32 := [0xe59ff000]

def symbolStubInstructions : List UInt32 := [0xe59fc000, 0xe59cf000]

def picSymbolStubInstructions : List UInt32 := [0xe59fc004, 0xe08fc00c, 0xe59cf000]

/-- what a stub must be before the linker changes it -/
def expectedInstructions (entrySize : ℕ) : Except Panic (List UInt32) :=
  if entrySize = 4 then .ok []
  else if entrySize = 12 then .ok symbolStubInstructions
  else if entrySize = 16 then .ok picSymbolStubInstructions
  else .error .unimplemented

/-- what a stub is restored to -/
def originalInstructions (entrySize : ℕ) : Except Panic (List UInt32) :=
  if entrySize = 4 then .ok symbolStub1Instructions
  else if entrySize = 12 then .ok symbolStubInstructions
  else if entrySize = 16 then .ok picSymbolStubInstructions
  else .error .stub

/-- the assertions of `setup_lazy_linking` about the instructions from `n` on -/
def checkInstructions (h : Heap) (ptr : ℕ) : ℕ → List UInt32 → Except Panic Unit
  | _, [] => pure ()
  | n, instr :: instrs => do
    let word ← readAt h ptr n
    assert (word == instr) .stub
    checkInstructions h ptr (n + 1) instrs

/-- a stub that calls the linker and returns when the call is done -/
def callLinker (entrySize ptr : ℕ) (h : Heap) : Except Panic Heap :=
  if entrySize = 4 then do
    let svc ← encodeA32Svc svcLazyLinkRetFlag
    writeAt h ptr 0 svc
  else do
    let svc ← encodeA32Svc svcLazyLink
    let h ← writeAt h ptr 0 svc
    writeAt h ptr 1 encodeA32Ret

/-- the stub at `ptr` is made to call the linker -/
def setupStub (entrySize ptr : ℕ) (h : Heap) : Except Panic Heap := do
  let instrs ← expectedInstructions entrySize
  checkInstructions h ptr 0 instrs
  let h ← callLinker entrySize ptr h
  if entrySize = 16 then writeAt h ptr 2 encodeA32Trap else pure h

/-- the loop of `setup_lazy_linking`, for the stubs from `i` on -/
def setupStubs (addr entrySize : ℕ) : ℕ → ℕ → Heap → Except Panic Heap
  | 0, _, h => pure h
  | n + 1, i, h => do
    let offset ← mul32 i entrySize
    let ptr ← add32 addr offset
    let h ← setupStub entrySize ptr h
    setupStubs addr entrySize n (i + 1) h

def setupLazyLinking (bin : MachO) (h : Heap) : Except Panic Heap :=
  match bin.symbolStubs with
  | none => pure h
  | some stubs => do
    let info ← unwrap stubs.dyldIndirectSymbolInfo .missing
    let _ ← expectedInstructions info.entrySize
    assert (stubs.size % info.entrySize == 0) .stub
    setupStubs stubs.addr info.entrySize (stubs.size / info.entrySize) 0 h

/-- `mem.write(ptr + i, instr)` for the instructions in order, the first at `n` -/
def writeInstructions (ptr : ℕ) : ℕ → List UInt32 → Heap → Except Panic Heap
  | _, [], h => pure h
  | n, instr :: instrs, h => do
    let h ← writeAt h ptr n instr
    writeInstructions ptr (n + 1) instrs h

/-- the original stub, whose only instruction has the distance to the pointer in it if the stub is one word -/
def restoreInstructions (svcPc entrySize picOffset : ℕ) (instrs : List UInt32) (h : Heap) : Except Panic Heap :=
  if entrySize = 4 then writeAt h svcPc 0 (instrs.headD 0 ||| UInt32.ofNat picOffset)
  else writeInstructions svcPc 0 instrs h

/-- the address of the pointer of a restored stub -/
def laSymbolPtr (stubFunctionPtr entrySize instructionCount : ℕ) (h : Heap) : Except Panic ℕ :=
  if entrySize = 12 then do
    let addr ← readAt h stubFunctionPtr instructionCount
    pure addr.toNat
  else if entrySize = 4 then do
    let instr ← readAt h stubFunctionPtr 0
    let p ← add32 stubFunctionPtr (instr &&& 0xFFF).toNat
    add32 p 8
  else do
    let offset ← readAt h stubFunctionPtr instructionCount
    let p ← add32 stubFunctionPtr offset.toNat
    add32 p 12

def linkByRestoringStub (h : Heap) (linkedFunction : UInt32) (svcPc entrySize picOffset : ℕ) : Except Panic Heap := do
  let instrs ← originalInstructions entrySize
  let h ← restoreInstructions svcPc entrySize picOffset instrs h
  let ptr ← laSymbolPtr svcPc entrySize instrs.length h
  writeAt h ptr 0 linkedFunction

/-- how far the lazy symbol pointers are above the stubs -/
def lazyDistance (bin : MachO) (stubs : Section) : Except Panic ℕ :=
  match bin.lazySymbolPointers with
  | none => pure 0
  | some lazyPtrs => sub32 lazyPtrs.addr stubs.addr

/-- the stubs that an address is among, and the distance to the lazy symbol pointers -/
def findStubs : List MachO → ℕ → Except Panic (Option (Section × ℕ))
  | [], _ => pure none
  | bin :: bins, svcPc =>
    match bin.symbolStubs with
    | none => findStubs bins svcPc
    | some stubs => do
      let stop ← add32 stubs.addr stubs.size
      if stubs.addr ≤ svcPc ∧ svcPc < stop then do
        let picOffset ← lazyDistance bin stubs
        pure (some (stubs, picOffset))
      else findStubs bins svcPc

/-- a stub: its symbol and size, and the distance of its section to the lazy symbol pointers -/
structure Stub where
  symbol : String
  entrySize : ℕ
  picOffset : ℕ

/-- the stub at an address -/
def findStub (bins : List MachO) (svcPc : ℕ) : Except Panic Stub := do
  let found ← findStubs bins svcPc
  let (stubs, picOffset) ← unwrap found .missing
  let info ← unwrap stubs.dyldIndirectSymbolInfo .missing
  let offset := svcPc - stubs.addr
  assert (if info.entrySize = 0 then offset = 0 else offset % info.entrySize = 0) .stub
  assert (info.entrySize ≠ 0) .stub
  match info.indirectUndefSymbols[offset / info.entrySize]? with
  | none => throw .index
  | some symbol => do
    let symbol ← unwrap symbol .missing
    pure ⟨symbol, info.entrySize, picOffset⟩

/-- what a linked stub does -/
inductive Linked (F : Type) where
  /-- it makes a supervisor call -/
  | svc (number : ℕ) (f : F)
  /-- it jumps to an address -/
  | jump (target : UInt32)
deriving DecidableEq

/-- the SVC of a stub: one of a single word has no room to return -/
def stubSvc (entrySize svc : ℕ) : Except Panic ℕ :=
  if entrySize = 4 then do
    assert (svc < svcLazyLinkRetFlag) .svcRange
    pure (svc ||| svcLazyLinkRetFlag)
  else pure svc

/-- the second word of a stub that is longer returns -/
def checkReturn (h : Heap) (svcPc entrySize : ℕ) : Except Panic Unit :=
  if entrySize ≠ 4 then do
    let ret ← readAt h svcPc 1
    assert (ret == encodeA32Ret) .stub
  else pure ()

/-- the rest of `do_lazy_link`, from the symbol on -/
def linkStub (dylibs : List (HostDylib F K)) (bins : List MachO) (svcPc : ℕ) (stub : Stub) (d : Dyld F K) (h : Heap) :
    Except Panic (Linked F × Dyld F K × Heap) :=
  match d.nonLazyHostFunctions stub.symbol with
  | some addr => do
    let h ← linkByRestoringStub h addr svcPc stub.entrySize stub.picOffset
    pure (.jump addr, d, h)
  | none =>
    match searchHostDylibs dylibs HostDylib.functionExports stub.symbol with
    | some (symbol, f) => do
      let svc ← d.nextSvc
      let svc ← stubSvc stub.entrySize svc
      let d := { d with linkedHostFunctions := d.linkedHostFunctions ++ [(symbol, f)] }
      let instr ← encodeA32Svc svc
      let h ← writeAt h svcPc 0 instr
      checkReturn h svcPc stub.entrySize
      pure (.svc svc f, d, h)
    | none =>
      match searchBins bins stub.symbol with
      | some addr => do
        let h ← linkByRestoringStub h addr svcPc stub.entrySize stub.picOffset
        pure (.jump addr, d, h)
      | none => throw .unimplementedFunction

/-- the host function to call, or none if the stub is to be executed again -/
def doLazyLink (dylibs : List (HostDylib F K)) (bins : List MachO) (svcPc : ℕ) (d : Dyld F K) (h : Heap) :
    Except Panic (Option F × Dyld F K × Heap) := do
  let stub ← findStub bins svcPc
  let (linked, d, h) ← linkStub dylibs bins svcPc stub d h
  match linked with
  | .svc _ f => pure (some f, d, h)
  | .jump _ => pure (none, d, h)

/-- the host function of an SVC number from `SVC_LINKED_FUNCTIONS_BASE` on (`get_svc_handler`) -/
def linkedFunction (d : Dyld F K) (svc : ℕ) : Except Panic F := do
  let i ← sub32 (svc &&& 0xff7fffff) svcLinkedFunctionsBase
  match d.linkedHostFunctions[i]? with
  | some (_, f) => pure f
  | none => throw .index

/-- `get_svc_handler`; the numbers 1 and 2 do not get here -/
def getSvcHandler (dylibs : List (HostDylib F K)) (bins : List MachO) (svcPc svc : ℕ) (d : Dyld F K) (h : Heap) :
    Except Panic (Option F × Dyld F K × Heap) :=
  if svc = svcLazyLink ∨ svc = svcLazyLinkRetFlag then doLazyLink dylibs bins svcPc d h
  else do
    let f ← d.linkedFunction svc
    pure (some f, d, h)

end Dyld

end TouchHLE
