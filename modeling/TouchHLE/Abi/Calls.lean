/-
Calls of host functions through the guest's calling convention (`impl_CallFromHost`, `impl_CallFromGuest`) for
functions that return a struct in memory. The caller reserves a buffer for the struct on the stack and passes its
address as a hidden first argument.

- `enterStret`: the caller's side up to the call. The hidden pointer takes the first register, but the stack is
  extended for the declared arguments only.
- `callFromGuestStret`, `callFromHostStret`: the callee's side, and the whole call.
- `stretCall_sound_iff`: the stack words of the arguments stay clear of the buffer exactly when there are none, that is
  when the declared arguments take at most three words. From four words on, the last one lies in the buffer.
-/
import TouchHLE.Abi.Args

namespace TouchHLE.Abi

open Machine Mem

/-! ## The two sides of a call -/

/-- the body of a host function: it sees its arguments and gives the bytes of the struct -/
abbrev HostFn := List Arg → Regs → Mem → Except Panic (List UInt8 × Regs × Mem)

/-- the hidden pointer and the arguments, as the callee reads them -/
def readStretArgs (types : List ArgType) (regs : Regs) (mem : Mem) : Except Panic (Ptr × List Arg) :=
  match readNextArg Ptr 0 regs regs.sp mem with
  | .error e => .error e
  | .ok (retvalPtr, regOffset) => do
    let args ← readArgs types regOffset regs regs.sp mem
    pure (retvalPtr, args)

/-- `call_from_guest` of a function whose struct is returned in memory -/
def callFromGuestStret (types : List ArgType) (self : HostFn) (regs : Regs) (mem : Mem) : Except Panic (Regs × Mem) :=
  match readStretArgs types regs mem with
  | .error e => .error e
  | .ok (retvalPtr, args) => do
    let (retval, regs, mem) ← self args regs mem
    let mem ← mem.writeBytes retvalPtr.bits.toNat retval
    pure (regs, mem)

/-- `call_from_host` up to the call: the hidden pointer, the stack pointer to return to, and the callee's state -/
def enterStret (size : ℕ) (args : List Arg) (regs : Regs) (mem : Mem) : Except Panic (Ptr × UInt32 × Regs × Mem) := do
  let sp ← sub32 regs.sp size
  let regs := regs.set SP (UInt32.ofNat sp) SP_lt
  let ptr : Ptr := ⟨getElem regs SP SP_lt⟩
  let (regOffset, regs, mem) ← writeNextArg 0 regs mem ptr
  let (oldSp, regs) ← extendStackForArgs (regCountSum args) regs
  let (regs, mem) ← writeArgs args regOffset regs mem
  pure (ptr, oldSp, regs, mem)

/-- `call_from_host` of a function that returns `size` bytes in memory -/
def callFromHostStret (size : ℕ) (args : List Arg) (callee : Regs → Mem → Except Panic (Regs × Mem)) (regs : Regs)
    (mem : Mem) : Except Panic (List UInt8 × Regs × Mem) := do
  let (retvalPtr, oldSp, regs, mem) ← enterStret size args regs mem
  let (regs, mem) ← callee regs mem
  let regs : Regs := regs.set SP oldSp SP_lt
  let sp ← add32 regs.sp size
  let regs := regs.set SP (UInt32.ofNat sp) SP_lt
  let retval ← mem.readBytes retvalPtr.bits.toNat size
  pure (retval, regs, mem)

/-! ## Calls of guest functions -/

/-- `FRAME_POINTER` -/
def FP : ℕ := 7

theorem FP_lt : FP < 16 := by decide

/-- `Cpu::LR` -/
def LR : ℕ := 14

theorem LR_lt : LR < 16 := by decide

/-- `Cpu::PC` -/
def PC : ℕ := 15

theorem PC_lt : PC < 16 := by decide

/-- `GuestFunction::call_from_host`, where `code` is what the guest does from the branch to the function until it
returns to the host -/
def callFromHost (args : List Arg) (code : Regs → Mem → Except Panic (Regs × Mem)) (regs : Regs) (mem : Mem) :
    Except Panic (Regs × Mem) := do
  let oldPc := getElem regs PC PC_lt
  let oldLr := getElem regs LR LR_lt
  let oldSp := getElem regs SP SP_lt
  let oldFp := getElem regs FP FP_lt
  let sp ← sub32 regs.sp 8
  let regs := (regs.set SP (UInt32.ofNat sp) SP_lt).set FP (UInt32.ofNat sp) FP_lt
  let mem ← mem.writeU32 sp oldFp
  let mem ← mem.writeU32 (sp + 4) oldLr
  let (_, regs) ← extendStackForArgs (regCountSum args) regs
  let (regs, mem) ← writeArgs args 0 regs mem
  let (regs, mem) ← code regs mem
  pure ((((regs.set PC oldPc PC_lt).set LR oldLr LR_lt).set SP oldSp SP_lt).set FP oldFp FP_lt, mem)

/-! ## What such a call promises -/

/-- the callee is entered with the arguments that were passed, and every stack word that holds one of them (the hidden
pointer has offset 0, the arguments start at offset 1) lies below the buffer and below the caller's stack pointer -/
def EntersWell (size : ℕ) (args : List Arg) (regs : Regs) (mem : Mem) : Prop :=
  ∃ ptr oldSp regs' mem', enterStret size args regs mem = .ok (ptr, oldSp, regs', mem') ∧
    readStretArgs (args.map Arg.type) regs' mem' = .ok (ptr, args) ∧ ptr.bits.toNat + size = regs.sp ∧
    ∀ k, 4 ≤ k → k < 1 + regCountSum args → ∀ x, slot regs'.sp k ≤ x → x < slot regs'.sp k + 4 →
      ¬ (ptr.bits.toNat ≤ x ∧ x < ptr.bits.toNat + size) ∧ x < regs.sp

/-- whatever the body of the callee does, the stack pointer is back afterwards -/
def RestoresSp (size : ℕ) (args : List Arg) (regs : Regs) (mem : Mem) : Prop :=
  ∀ self out, callFromHostStret size args (callFromGuestStret (args.map Arg.type) self) regs mem = .ok out →
    getElem out.2.1 SP SP_lt = getElem regs SP SP_lt

def StretCallSound (size : ℕ) (args : List Arg) (regs : Regs) (mem : Mem) : Prop :=
  EntersWell size args regs mem ∧ RestoresSp size args regs mem

variable {size : ℕ} {args : List Arg} {regs regs' : Regs} {mem mem' : Mem} {oldSp : UInt32} {ptr : Ptr}

/-! ## Entering the callee -/

theorem writeNextArg_ptr (p : Ptr) : writeNextArg 0 regs mem p = .ok (1, regs.set 0 p.bits, mem) := rfl

/-- the registers with the buffer reserved and the hidden pointer in place -/
def withBuffer (regs : Regs) (size : ℕ) : Regs :=
  (regs.set SP (UInt32.ofNat (regs.sp - size)) SP_lt).set 0 (UInt32.ofNat (regs.sp - size)) r0_lt

theorem withBuffer_sp (h : size ≤ regs.sp) : (withBuffer regs size).sp = regs.sp - size := by
  have hlt : regs.sp < 2 ^ 32 := regs[SP].toNat_lt
  have hget : (withBuffer regs size)[SP] = UInt32.ofNat (regs.sp - size) := by
    unfold withBuffer
    rw [Vector.getElem_set_ne _ _ (by decide), Vector.getElem_set_self]
  unfold Regs.sp at *
  rw [hget, UInt32.toNat_ofNat']
  omega

/-- entering takes apart into its steps -/
theorem enterStret_iff :
    enterStret size args regs mem = .ok (ptr, oldSp, regs', mem') ↔
      size ≤ regs.sp ∧ ptr = ⟨UInt32.ofNat (regs.sp - size)⟩ ∧
        ∃ regs₁, extendStackForArgs (regCountSum args) (withBuffer regs size) = .ok (oldSp, regs₁) ∧
          writeArgs args 1 regs₁ mem = .ok (regs', mem') := by
  have hget : (regs.set SP (UInt32.ofNat (regs.sp - size)))[SP] = UInt32.ofNat (regs.sp - size) :=
    Vector.getElem_set_self _
  constructor
  · intro h
    obtain ⟨sp, h1, h⟩ := bind_eq_ok.1 h
    have hle : size ≤ regs.sp := by
      by_contra hlt
      rw [sub32, if_neg hlt] at h1
      cases h1
    rw [sub32_ok hle] at h1
    cases h1
    simp only [hget, writeNextArg_ptr, ok_bind] at h
    obtain ⟨p, h2, h⟩ := bind_eq_ok.1 h
    obtain ⟨q, h3, h⟩ := bind_eq_ok.1 h
    cases h
    exact ⟨hle, rfl, p.2, h2, h3⟩
  · rintro ⟨hle, rfl, regs₁, h1, h2⟩
    simp only [withBuffer] at h1
    simp only [enterStret, sub32_ok hle, ok_bind, hget, writeNextArg_ptr, h1, h2, pure_eq_ok]

/-- **The stack pointer at the call**: below the buffer by the words that room was made for -/
theorem sp_of_enterStret (hw : ∀ a ∈ args, a.Writable)
    (h16 : ∀ a ∈ args, a.type.regCount ≤ 16) (h : enterStret size args regs mem = .ok (ptr, oldSp, regs', mem')) :
    ptr.bits.toNat + size = regs.sp ∧ oldSp.toNat + size = regs.sp ∧
      regs'.sp + 4 * (regCountSum args - 4) = ptr.bits.toNat := by
  obtain ⟨hle, rfl, regs₁, h1, h2⟩ := enterStret_iff.1 h
  have hlt : regs.sp < 2 ^ 32 := regs[SP].toNat_lt
  have hbits : (UInt32.ofNat (regs.sp - size)).toNat = regs.sp - size := by
    rw [UInt32.toNat_ofNat']; omega
  have hbuf := withBuffer_sp hle
  have hroom := extendStackForArgs_cases h1
  obtain ⟨regs₂, h3, h4, -⟩ := extendStackForArgs_ok hroom
  rw [h3] at h1
  cases h1
  rw [writeArgs_eq hw h16] at h2
  obtain ⟨_, _, h5, h6⟩ := writeWords_ok (slotsIn_of_writeWords h2)
  rw [h2] at h5
  cases h5
  have hsp := h6.sp_eq
  have hold : ((withBuffer regs size)[SP]).toNat = regs.sp - size := hbuf
  simp only [hbits, hold]
  omega

/-! ## The slip -/

/-- **Four words or more**: the last argument word lies where the buffer starts. -/
theorem not_entersWell (hsize : 0 < size) (hw : ∀ a ∈ args, a.Writable) (h16 : ∀ a ∈ args, a.type.regCount ≤ 16)
    (h4 : 4 ≤ regCountSum args) : ¬ EntersWell size args regs mem := by
  rintro ⟨ptr, oldSp, regs', mem', h1, -, -, h2⟩
  obtain ⟨h3, -, h5⟩ := sp_of_enterStret hw h16 h1
  have hslot : slot regs'.sp (regCountSum args) = ptr.bits.toNat := by unfold slot; omega
  exact (h2 (regCountSum args) h4 (by omega) ptr.bits.toNat (by omega) (by omega)).1 ⟨le_rfl, by omega⟩

/-- **Three words or fewer**: everything is passed in registers. -/
theorem entersWell (hw : ∀ a ∈ args, a.Writable) (h16 : ∀ a ∈ args, a.type.regCount ≤ 16) (hfit : size ≤ regs.sp)
    (h3 : regCountSum args ≤ 3) : EntersWell size args regs mem := by
  have hslots : SlotsIn mem (withBuffer regs size).sp 1 (1 + regCountSum args) := fun k _ h1 h2 => by omega
  have hwords : SlotsIn mem (withBuffer regs size).sp 1 (1 + (argWords args).length) := by
    rw [argWords_length hw]
    exact hslots
  obtain ⟨regs', mem', h1, h2⟩ := writeWords_ok hwords
  have henter : enterStret size args regs mem =
      .ok (⟨UInt32.ofNat (regs.sp - size)⟩, (withBuffer regs size)[SP], regs', mem') := by
    refine enterStret_iff.2 ⟨hfit, rfl, withBuffer regs size, ?_, by rw [writeArgs_eq hw h16, h1]⟩
    unfold extendStackForArgs
    rw [if_neg (by omega)]
    rfl
  refine ⟨_, _, regs', mem', henter, ?_, (sp_of_enterStret hw h16 henter).1, fun k h4 h5 => by omega⟩
  -- the hidden pointer is still in the first register
  have hptr : regs'[0] = UInt32.ofNat (regs.sp - size) := by
    have h0 := h2.below 0 (by decide)
    simp only [area, Nat.reduceLT, dite_true] at h0
    rw [h0]
    exact Vector.getElem_set_self _
  have hread : readNextArg Ptr 0 regs' regs'.sp mem' = .ok (⟨UInt32.ofNat (regs.sp - size)⟩, 1) := by
    rw [← hptr]; rfl
  have hargs : readArgs (args.map Arg.type) 1 regs' regs'.sp mem' = .ok args := by
    rw [h2.sp_eq]
    exact readArgs_ok hw h16 (hslots.congr h2.null) fun i hi => h2.words i hi
  simp only [readStretArgs, hread, hargs, ok_bind, pure_eq_ok]

theorem restoresSp (hw : ∀ a ∈ args, a.Writable) (h16 : ∀ a ∈ args, a.type.regCount ≤ 16) :
    RestoresSp size args regs mem := by
  intro self out h
  obtain ⟨⟨ptr, oldSp, regs', mem'⟩, h1, h⟩ := bind_eq_ok.1 h
  obtain ⟨-, hold, -⟩ := sp_of_enterStret hw h16 h1
  obtain ⟨q, h2, h⟩ := bind_eq_ok.1 h
  obtain ⟨sp, h3, h⟩ := bind_eq_ok.1 h
  obtain ⟨retval, h4, h⟩ := bind_eq_ok.1 h
  cases h
  have hlt : regs.sp < 2 ^ 32 := regs[SP].toNat_lt
  have hset : Regs.sp (q.1.set SP oldSp) = oldSp.toNat := by
    unfold Regs.sp; rw [Vector.getElem_set_self]
  rw [hset, add32_ok (by omega)] at h3
  cases h3
  apply UInt32.toNat_inj.1
  simp only [Vector.getElem_set_self, UInt32.toNat_ofNat']
  unfold Regs.sp at *
  omega

/-- **Exactly when a struct-returning call keeps its promises.** The arguments are read back, the stack words stay
clear of the buffer and of the caller's stack, and the stack pointer is restored, if and only if the declared arguments
take at most three words. -/
theorem stretCall_sound_iff (size : ℕ) (hsize : 0 < size) (args : List Arg) (hw : ∀ a ∈ args, a.Writable)
    (h16 : ∀ a ∈ args, a.type.regCount ≤ 16) (regs : Regs) (hfit : size ≤ regs.sp) (mem : Mem) :
    StretCallSound size args regs mem ↔ regCountSum args ≤ 3 := by
  constructor
  · intro h
    by_contra h4
    exact not_entersWell hsize hw h16 (by omega) h.1
  · intro h3
    exact ⟨entersWell hw h16 hfit h3, restoresSp hw h16⟩

/-- `[window convertPoint:location fromWindow:nil]`: five words, the last one on the stack -/
def convertPointArgs : List Arg :=
  [⟨⟨Ptr⟩, ⟨0x3000⟩⟩, ⟨⟨SEL⟩, ⟨⟨0x4000⟩⟩⟩, ⟨⟨CGPoint⟩, ⟨⟨1⟩, ⟨2⟩⟩⟩, ⟨⟨Ptr⟩, ⟨0⟩⟩]

theorem convertPointArgs_writable : ∀ a ∈ convertPointArgs, a.Writable := by
  intro a ha
  simp only [convertPointArgs, List.mem_cons, List.not_mem_nil, or_false] at ha
  rcases ha with rfl | rfl | rfl | rfl <;> exact ⟨_, rfl⟩

/-- a message without further arguments, such as `[view center]` -/
theorem stretCall_sound_iff_center :
    StretCallSound 8 (convertPointArgs.take 2) sampleRegs sampleMem ↔ regCountSum (convertPointArgs.take 2) ≤ 3 :=
  stretCall_sound_iff 8 (by decide) _ (fun a ha => convertPointArgs_writable a (List.mem_of_mem_take ha)) (by decide)
    sampleRegs (by decide) sampleMem

/-- the last argument of `convertPoint:fromWindow:` is written to the first word of the returned point's buffer -/
theorem convertPoint_not_sound : ¬ StretCallSound 8 convertPointArgs sampleRegs sampleMem := fun h =>
  not_entersWell (by decide) convertPointArgs_writable (by decide) (by decide) h.1

end TouchHLE.Abi
