/-
Argument marshalling (`abi.rs`): values of guest argument types are turned into 32-bit words; the first four words of
an argument list are passed in registers, the others on the stack.

- `GuestArg`: how a type becomes words and back. The laws of an implementation are fields of the class, so a type that
  does not come back as it was has no instance. `VaList` cannot be written at all (`todo!()`).
- `readNextArg`, `extendStackForArgs`, `writeNextArg`: the three functions of the source.
- `area`: the words of an argument list as one sequence, in registers or on the stack. `readWords_ok`: the loop that
  reads, in terms of it.
- `args_round_trip`: what is written is read back, the stack words lie between the new and the old stack pointer, and
  nothing else changes.
-/
import TouchHLE.Mem.Memory

namespace TouchHLE.Abi

open Machine Mem Words

/-! ## Registers and argument types -/

abbrev Regs := Vector UInt32 16

/-- `Cpu::SP` -/
def SP : ℕ := 13

theorem SP_lt : SP < 16 := by decide

theorem r0_lt : 0 < 16 := by decide

theorem r1_lt : 1 < 16 := by decide

theorem r2_lt : 2 < 16 := by decide

theorem r3_lt : 3 < 16 := by decide

theorem r14_lt : 14 < 16 := by decide

def Regs.sp (regs : Regs) : ℕ := regs[SP].toNat

/-- calling convention of an argument type: `REG_COUNT`, `from_regs` and `to_regs` with slices of that length -/
class GuestArg (α : Type) where
  regCount : ℕ
  fromRegs : List UInt32 → α
  toRegs : α → Except Panic (List UInt32)
  toRegs_length : ∀ x ws, toRegs x = .ok ws → ws.length = regCount
  fromRegs_toRegs : ∀ x ws, toRegs x = .ok ws → fromRegs ws = x

open GuestArg

/-- an implementation that takes one register, through a conversion that can be undone -/
@[reducible] def GuestArg.one {α : Type} (ofWord : UInt32 → α) (toWord : α → UInt32) (h : ∀ x, ofWord (toWord x) = x) :
    GuestArg α where
  regCount := 1
  fromRegs ws := ofWord (ws.getD 0 0)
  toRegs x := .ok [toWord x]
  toRegs_length x ws h := by cases h; rfl
  fromRegs_toRegs x ws hw := by cases hw; exact h x

/-- `impl_GuestArg_with!`: the implementation of another type, through a conversion that can be undone -/
@[reducible] def GuestArg.with {α β : Type} [GuestArg β] (ofBase : β → α) (toBase : α → β) (h : ∀ x, ofBase (toBase x) = x) :
    GuestArg α where
  regCount := regCount β
  fromRegs ws := ofBase (fromRegs ws)
  toRegs x := toRegs (toBase x)
  toRegs_length x ws hw := toRegs_length (toBase x) ws hw
  fromRegs_toRegs x ws hw := by rw [fromRegs_toRegs (toBase x) ws hw, h]

/-- a struct of two fields: the registers of the first one, then those of the second one -/
@[reducible] def GuestArg.pair {α β γ : Type} [GuestArg α] [GuestArg β] (mk : α → β → γ) (fst : γ → α) (snd : γ → β)
    (h : ∀ x, mk (fst x) (snd x) = x) : GuestArg γ where
  regCount := regCount α + regCount β
  fromRegs ws := mk (fromRegs (ws.take (regCount α))) (fromRegs (ws.drop (regCount α)))
  toRegs x := do
    let a ← toRegs (fst x)
    let b ← toRegs (snd x)
    pure (a ++ b)
  toRegs_length x ws hw := by
    obtain ⟨a, ha, hw⟩ := bind_eq_ok.1 hw
    obtain ⟨b, hb, hw⟩ := bind_eq_ok.1 hw
    cases hw
    rw [List.length_append, toRegs_length _ _ ha, toRegs_length _ _ hb]
  fromRegs_toRegs x ws hw := by
    obtain ⟨a, ha, hw⟩ := bind_eq_ok.1 hw
    obtain ⟨b, hb, hw⟩ := bind_eq_ok.1 hw
    cases hw
    have hlen := toRegs_length _ _ ha
    rw [← hlen, List.take_left, List.drop_left, fromRegs_toRegs _ _ ha, fromRegs_toRegs _ _ hb, h]

/-- a sign-extended value comes back when it is truncated -/
theorem setWidth_signExtend {n m : ℕ} (x : BitVec n) (h : n ≤ m) : (x.signExtend m).setWidth n = x := by
  apply BitVec.eq_of_getLsbD_eq
  intro i hi
  have hm : i < m := Nat.lt_of_lt_of_le hi h
  simp only [BitVec.getLsbD_setWidth, BitVec.getLsbD_signExtend, hi, hm, decide_true, Bool.true_and, if_true]

instance : GuestArg UInt32 := .one id id fun _ => rfl

instance : GuestArg Int32 := .with UInt32.toInt32 Int32.toUInt32 fun _ => rfl

instance : GuestArg UInt16 := .with UInt32.toUInt16 UInt16.toUInt32 fun _ => by simp

instance : GuestArg Int16 := .with (fun w : UInt32 => w.toUInt16.toInt16) (fun x => x.toInt32.toUInt32) fun x => by
  apply Int16.toBitVec_inj.1
  simp [setWidth_signExtend]

instance : GuestArg UInt8 := .with UInt32.toUInt8 UInt8.toUInt32 fun _ => by simp

instance : GuestArg Int8 := .with (fun w : UInt32 => w.toUInt8.toInt8) (fun x => x.toInt32.toUInt32) fun x => by
  apply Int8.toBitVec_inj.1
  simp [setWidth_signExtend]

instance : GuestArg Bool := .with (fun w : UInt32 => w != 0) Bool.toUInt32 fun b => by cases b <;> rfl

/-- `f32`, by its bits -/
structure F32 where
  bits : UInt32
deriving DecidableEq, Repr

instance : GuestArg F32 := .with F32.mk F32.bits fun _ => rfl

/-- `Ptr`: an address -/
structure Ptr where
  bits : UInt32
deriving DecidableEq, Repr

instance : GuestArg Ptr := .with Ptr.mk Ptr.bits fun _ => rfl

structure SEL where
  ptr : Ptr
deriving DecidableEq, Repr

instance : GuestArg SEL := .with SEL.mk SEL.ptr fun _ => rfl

structure GuestFunction where
  ptr : Ptr
deriving DecidableEq, Repr

instance : GuestArg GuestFunction := .with GuestFunction.mk GuestFunction.ptr fun _ => rfl

structure VaList where
  regOffset : ℕ
  stackPointer : Ptr
deriving DecidableEq, Repr

/-- reading makes a list that starts on the stack; writing is not implemented -/
instance : GuestArg VaList where
  regCount := 1
  fromRegs ws := ⟨4, fromRegs ws⟩
  toRegs _ := .error .todo
  toRegs_length _ _ h := nomatch h
  fromRegs_toRegs _ _ h := nomatch h

/-- the low word first -/
instance : GuestArg UInt64 where
  regCount := 2
  fromRegs ws := UInt64.ofNat ((ws.getD 0 0).toNat + 2 ^ 32 * (ws.getD 1 0).toNat)
  toRegs x := .ok [UInt32.ofNat x.toNat, UInt32.ofNat (x.toNat / 2 ^ 32)]
  toRegs_length x ws h := by cases h; rfl
  fromRegs_toRegs x ws h := by
    cases h
    have hx := x.toNat_lt
    apply UInt64.toNat_inj.1
    simp only [List.getD_cons_zero, List.getD_cons_succ, UInt32.toNat_ofNat', UInt64.toNat_ofNat']
    omega

instance : GuestArg Int64 := .with UInt64.toInt64 Int64.toUInt64 fun _ => rfl

structure F64 where
  bits : UInt64
deriving DecidableEq, Repr

instance : GuestArg F64 := .with F64.mk F64.bits fun _ => rfl

structure CGPoint where
  x : F32
  y : F32
deriving DecidableEq, Repr

instance : GuestArg CGPoint := .pair CGPoint.mk CGPoint.x CGPoint.y fun _ => rfl

structure CGSize where
  width : F32
  height : F32
deriving DecidableEq, Repr

instance : GuestArg CGSize := .pair CGSize.mk CGSize.width CGSize.height fun _ => rfl

structure CGRect where
  origin : CGPoint
  size : CGSize
deriving DecidableEq, Repr

instance : GuestArg CGRect := .pair CGRect.mk CGRect.origin CGRect.size fun _ => rfl

structure CFRange where
  location : Int32
  length : Int32
deriving DecidableEq, Repr

instance : GuestArg CFRange := .pair CFRange.mk CFRange.location CFRange.length fun _ => rfl

structure CGAffineTransform where
  a : F32
  b : F32
  c : F32
  d : F32
  tx : F32
  ty : F32
deriving DecidableEq, Repr

instance {α β : Type} [GuestArg α] [GuestArg β] : GuestArg (α × β) := .pair Prod.mk Prod.fst Prod.snd fun _ => rfl

instance : GuestArg CGAffineTransform :=
  .with (fun (a, b, c, d, tx, ty) => ⟨a, b, c, d, tx, ty⟩) (fun t => (t.a, t.b, t.c, t.d, t.tx, t.ty)) fun _ => rfl

/-! ## The three functions -/

/-- the word at offset `regOffset` of an argument list: a register, or a word of the stack -/
def readWord (regOffset : ℕ) (regs : Regs) (stackPtr : ℕ) (mem : Mem) : Except Panic UInt32 :=
  if h : regOffset < 4 then pure regs[regOffset]
  else do
    let ptr ← ptrAdd stackPtr (regOffset - 4) 4
    mem.readU32 ptr

/-- the loop of `read_next_arg` over its fake registers -/
def readWords : ℕ → ℕ → Regs → ℕ → Mem → Except Panic (List UInt32)
  | 0, _, _, _, _ => pure []
  | n + 1, regOffset, regs, stackPtr, mem => do
    let w ← readWord regOffset regs stackPtr mem
    let ws ← readWords n (regOffset + 1) regs stackPtr mem
    pure (w :: ws)

/-- the argument and the next offset -/
def readNextArg (α : Type) [GuestArg α] (regOffset : ℕ) (regs : Regs) (stackPtr : ℕ) (mem : Mem) :
    Except Panic (α × ℕ) := do
  assert (regCount α ≤ 16) .fakeRegs
  let fakeRegs ← readWords (regCount α) regOffset regs stackPtr mem
  pure (fromRegs fakeRegs, regOffset + regCount α)

/-- the original stack pointer, and the registers with the stack pointer decremented -/
def extendStackForArgs (regCountSum : ℕ) (regs : Regs) : Except Panic (UInt32 × Regs) := do
  let old := regs[SP]
  if regCountSum > 4 then
    let ptr ← ptrSub old.toNat (regCountSum - 4) 4
    pure (old, regs.set SP (UInt32.ofNat ptr))
  else pure (old, regs)

/-- the loop of `write_next_arg` over its fake registers -/
def writeWords : List UInt32 → ℕ → Regs → Mem → Except Panic (Regs × Mem)
  | [], _, regs, mem => pure (regs, mem)
  | w :: ws, regOffset, regs, mem =>
    if h : regOffset < 4 then writeWords ws (regOffset + 1) (regs.set regOffset w) mem
    else do
      let ptr ← ptrAdd regs.sp (regOffset - 4) 4
      let mem ← mem.writeU32 ptr w
      writeWords ws (regOffset + 1) regs mem

def writeNextArg {α : Type} [GuestArg α] (regOffset : ℕ) (regs : Regs) (mem : Mem) (arg : α) :
    Except Panic (ℕ × Regs × Mem) := do
  assert (regCount α ≤ 16) .fakeRegs
  let fakeRegs ← toRegs arg
  let (regs, mem) ← writeWords fakeRegs regOffset regs mem
  pure (regOffset + regCount α, regs, mem)

/-! ## Argument lists -/

structure ArgType where
  α : Type
  [inst : GuestArg α]

/-- an argument together with its type -/
structure Arg where
  type : ArgType
  val : type.α

def ArgType.regCount (t : ArgType) : ℕ := t.inst.regCount

def Arg.toRegs (a : Arg) : Except Panic (List UInt32) := a.type.inst.toRegs a.val

def regCountSum (args : List Arg) : ℕ := (args.map fun a => a.type.regCount).sum

/-- `write_next_arg` for each argument in order -/
def writeArgs : List Arg → ℕ → Regs → Mem → Except Panic (Regs × Mem)
  | [], _, regs, mem => pure (regs, mem)
  | a :: args, regOffset, regs, mem => do
    have := a.type.inst
    let (regOffset, regs, mem) ← writeNextArg regOffset regs mem a.val
    writeArgs args regOffset regs mem

/-- `read_next_arg` for each argument type in order -/
def readArgs : List ArgType → ℕ → Regs → ℕ → Mem → Except Panic (List Arg)
  | [], _, _, _, _ => pure []
  | t :: types, regOffset, regs, stackPtr, mem =>
    have := t.inst
    match readNextArg t.α regOffset regs stackPtr mem with
    | .error e => .error e
    | .ok (val, regOffset) => do
      let args ← readArgs types regOffset regs stackPtr mem
      pure (⟨t, val⟩ :: args)

/-- what a caller does to pass arguments: the original stack pointer, the registers and the memory at the call -/
def passArgs (args : List Arg) (regs : Regs) (mem : Mem) : Except Panic (UInt32 × Regs × Mem) := do
  let (oldSp, regs) ← extendStackForArgs (regCountSum args) regs
  let (regs, mem) ← writeArgs args 0 regs mem
  pure (oldSp, regs, mem)

/-! ## The argument area -/

/-- where the word at offset `k ≥ 4` is on the stack -/
def slot (sp k : ℕ) : ℕ := sp + 4 * (k - 4)

/-- the words of an argument list as one sequence -/
def area (regs : Regs) (sp : ℕ) (mem : Mem) (k : ℕ) : UInt32 :=
  if h : k < 4 then regs[k] else loadWord mem.bytes (slot sp k)

/-- the stack words at the offsets `lo ≤ k < hi` can be accessed -/
def SlotsIn (mem : Mem) (sp lo hi : ℕ) : Prop := ∀ k, lo ≤ k → k < hi → 4 ≤ k → mem.InRange (slot sp k) 4

variable {regs regs' : Regs} {mem mem' : Mem} {sp off n k : ℕ} {ws vs : List UInt32} {args : List Arg} {old : UInt32}
  {a : Arg} {w : UInt32}

theorem ptrAdd_slot (h : mem.InRange (slot sp k) 4) : ptrAdd sp (k - 4) 4 = .ok (slot sp k) := by
  have h2 := h.2
  unfold ptrAdd slot at *
  rw [if_pos (by omega), Nat.mul_comm]

theorem readWord_ok (h : SlotsIn mem sp off (off + 1)) : readWord off regs sp mem = .ok (area regs sp mem off) := by
  unfold readWord area
  split_ifs with hoff
  · rfl
  · have hslot := h off le_rfl (Nat.lt_succ_self off) (Nat.le_of_not_lt hoff)
    rw [ptrAdd_slot hslot, ok_bind, Mem.readU32_ok hslot]

/-- the read loop gives the words of the area from its offset on -/
theorem readWords_ok (h : SlotsIn mem sp off (off + n)) :
    readWords n off regs sp mem = .ok ((List.range n).map fun i => area regs sp mem (off + i)) := by
  induction n generalizing off with
  | zero => rfl
  | succ n ih =>
    have hhead : SlotsIn mem sp off (off + 1) := fun k h1 h2 h3 => h k h1 (by omega) h3
    have htail : SlotsIn mem sp (off + 1) (off + 1 + n) := fun k h1 h2 h3 => h k (by omega) (by omega) h3
    simp only [readWords, readWord_ok hhead, ih htail, ok_bind, pure_eq_ok]
    rw [List.range_succ_eq_map, List.map_cons, List.map_map]
    simp only [Nat.add_zero, Except.ok.injEq, List.cons.injEq, true_and]
    apply List.map_congr_left
    intro i _
    simp only [Function.comp, Nat.succ_eq_add_one]
    congr 1; omega

/-- what the write loop leaves behind -/
structure Written (ws : List UInt32) (off : ℕ) (regs : Regs) (mem : Mem) (regs' : Regs) (mem' : Mem) : Prop where
  /-- the words are in the area at their offsets -/
  words : ∀ i (h : i < ws.length), area regs' regs.sp mem' (off + i) = ws[i]
  /-- the words at lower offsets stay -/
  below : ∀ k < off, area regs' regs.sp mem' k = area regs regs.sp mem k
  /-- other registers stay -/
  high : ∀ k (h : k < 16), 4 ≤ k → regs'[k] = regs[k]
  null : mem'.nullSegmentSize = mem.nullSegmentSize
  /-- memory outside the stack words stays -/
  frame : ∀ x, (x < slot regs.sp off ∨ slot regs.sp (off + ws.length) ≤ x) → mem'.bytes x = mem.bytes x

theorem Written.sp_eq (h : Written ws off regs mem regs' mem') : regs'.sp = regs.sp :=
  congrArg UInt32.toNat (h.high SP (by decide) (by decide))

theorem Written.refl : Written [] off regs mem regs mem where
  words i h := absurd h (Nat.not_lt_zero i)
  below _ _ := rfl
  high _ _ _ := rfl
  null := rfl
  frame _ _ := rfl

theorem Written.append (h1 : Written ws off regs mem regs' mem') {regs'' : Regs} {mem'' : Mem}
    (h2 : Written vs (off + ws.length) regs' mem' regs'' mem'') :
    Written (ws ++ vs) off regs mem regs'' mem'' where
  words i h := by
    have hsp := h1.sp_eq
    by_cases hi : i < ws.length
    · rw [List.getElem_append_left hi, ← h1.words i hi, ← hsp, h2.below _ (by omega)]
    · have h3 := h2.words (i - ws.length) (by rw [List.length_append] at h; omega)
      rw [List.getElem_append_right (Nat.le_of_not_lt hi), ← h3, hsp]
      congr 1; omega
  below k hk := by
    have hsp := h1.sp_eq
    rw [← h1.below k hk, ← hsp, h2.below k (by omega)]
  high k h hk := by rw [h2.high k h hk, h1.high k h hk]
  null := h2.null.trans h1.null
  frame x hx := by
    have hsp := h1.sp_eq
    have hle : slot regs.sp off ≤ slot regs.sp (off + ws.length) := by unfold slot; omega
    have hle2 : slot regs.sp (off + ws.length) ≤ slot regs.sp (off + (ws ++ vs).length) := by
      rw [List.length_append]; unfold slot; omega
    rw [h2.frame x ?_, h1.frame x ?_]
    · omega
    · rw [hsp, Nat.add_assoc, ← List.length_append]
      omega

theorem written_reg (h : off < 4) : Written [w] off regs mem (regs.set off w) mem where
  words i hi := by
    obtain rfl : i = 0 := by simpa using hi
    simp only [area, Nat.add_zero, dif_pos h, List.getElem_cons_zero]
    exact Vector.getElem_set_self _
  below k hk := by
    have hk4 : k < 4 := by omega
    simp only [area, dif_pos hk4]
    exact Vector.getElem_set_ne _ _ (by omega)
  high k hk h4 := Vector.getElem_set_ne _ _ (by omega)
  null := rfl
  frame _ _ := rfl

theorem written_stack (h : 4 ≤ off) :
    Written [w] off regs mem regs { mem with bytes := storeWord mem.bytes (slot regs.sp off) w } where
  words i hi := by
    obtain rfl : i = 0 := by simpa using hi
    simp only [area, Nat.add_zero, dif_neg (Nat.not_lt.2 h), List.getElem_cons_zero]
    exact loadWord_storeWord
  below k hk := by
    unfold area
    split_ifs with hk4
    · rfl
    · exact loadWord_storeWord_of_disjoint (Or.inl (by unfold slot; omega))
  high _ _ _ := rfl
  null := rfl
  frame x hx := storeWord_outside (by simp only [slot, List.length_singleton] at hx ⊢; omega)

theorem SlotsIn.mono {lo hi lo' hi' : ℕ} (h : SlotsIn mem sp lo hi) (h1 : lo ≤ lo') (h2 : hi' ≤ hi) :
    SlotsIn mem sp lo' hi' := fun k hk1 hk2 => h k (h1.trans hk1) (hk2.trans_le h2)

/-- accessibility only depends on the null segment -/
theorem SlotsIn.congr {lo hi : ℕ} (h : SlotsIn mem sp lo hi) (hn : mem'.nullSegmentSize = mem.nullSegmentSize) :
    SlotsIn mem' sp lo hi := fun k h1 h2 h3 => ⟨hn ▸ (h k h1 h2 h3).1, (h k h1 h2 h3).2⟩

/-- **The write loop**, when its stack words can be accessed -/
theorem writeWords_ok (h : SlotsIn mem regs.sp off (off + ws.length)) :
    ∃ regs' mem', writeWords ws off regs mem = .ok (regs', mem') ∧ Written ws off regs mem regs' mem' := by
  induction ws generalizing off regs mem with
  | nil => exact ⟨regs, mem, rfl, Written.refl⟩
  | cons w ws ih =>
    rw [List.length_cons] at h
    simp only [writeWords]
    split_ifs with hoff
    · have hw : Written [w] off regs mem (regs.set off w) mem := written_reg hoff
      have hrest : SlotsIn mem (Regs.sp (regs.set off w)) (off + 1) (off + 1 + ws.length) := by
        rw [hw.sp_eq]
        exact h.mono (Nat.le_succ off) (by omega)
      obtain ⟨regs', mem', h1, h2⟩ := ih hrest
      exact ⟨regs', mem', h1, hw.append h2⟩
    · have h4 : 4 ≤ off := Nat.le_of_not_lt hoff
      have hslot := h off le_rfl (by omega) h4
      have hw : Written [w] off regs mem regs _ := written_stack h4
      obtain ⟨regs', mem', h1, h2⟩ := ih ((h.mono (Nat.le_succ off) (by omega)).congr hw.null)
      refine ⟨regs', mem', ?_, hw.append h2⟩
      rw [ptrAdd_slot hslot, ok_bind, Mem.writeU32_ok hslot, ok_bind, h1]

/-- the write loop panics when one of its stack words cannot be accessed -/
theorem slotsIn_of_writeWords (h : writeWords ws off regs mem = .ok (regs', mem')) :
    SlotsIn mem regs.sp off (off + ws.length) := by
  induction ws generalizing off regs mem with
  | nil => exact fun k h1 h2 _ => absurd h2 (by simpa using h1)
  | cons w ws ih =>
    rw [List.length_cons]
    intro k h1 h2 h3
    simp only [writeWords] at h
    split_ifs at h with hoff
    · have hw : Written [w] off regs mem (regs.set off w) mem := written_reg hoff
      have hsp : Regs.sp (regs.set off w) = regs.sp := hw.sp_eq
      have htail := ih h
      rw [hsp] at htail
      exact htail k (by omega) (by omega) h3
    · obtain ⟨ptr, h4, h⟩ := bind_eq_ok.1 h
      obtain ⟨mem1, h5, h⟩ := bind_eq_ok.1 h
      obtain ⟨h6, rfl⟩ := Mem.writeU32_cases h5
      have hptr : ptr = slot regs.sp off := by
        unfold ptrAdd at h4
        split_ifs at h4
        cases h4
        unfold slot; omega
      rcases Nat.lt_or_ge off k with hk | hk
      · have hrest : SlotsIn mem regs.sp (off + 1) (off + 1 + ws.length) := (ih h).congr rfl
        exact hrest k hk (by omega) h3
      · obtain rfl : k = off := by omega
        exact hptr ▸ h6

/-! ## The round trip -/

/-- an argument whose `to_regs` is implemented -/
def Arg.Writable (a : Arg) : Prop := ∃ ws, a.toRegs = .ok ws

/-- the words of one argument -/
def Arg.words (a : Arg) : List UInt32 :=
  match a.toRegs with
  | .ok ws => ws
  | .error _ => []

def argWords (args : List Arg) : List UInt32 := (args.map Arg.words).flatten

@[simp] theorem argWords_cons (a : Arg) : argWords (a :: args) = a.words ++ argWords args := rfl

@[simp] theorem regCountSum_cons (a : Arg) : regCountSum (a :: args) = a.type.regCount + regCountSum args := rfl

theorem Arg.Writable.toRegs_eq (h : a.Writable) : a.toRegs = .ok a.words := by
  obtain ⟨ws, hws⟩ := h
  simp only [Arg.words, hws]

theorem Arg.Writable.length (h : a.Writable) : a.words.length = a.type.regCount :=
  a.type.inst.toRegs_length a.val _ h.toRegs_eq

theorem Arg.Writable.fromRegs (h : a.Writable) : a.type.inst.fromRegs a.words = a.val :=
  a.type.inst.fromRegs_toRegs a.val _ h.toRegs_eq

theorem argWords_length (hw : ∀ a ∈ args, a.Writable) : (argWords args).length = regCountSum args := by
  induction args with
  | nil => rfl
  | cons a args ih =>
    rw [argWords_cons, List.length_append, (hw a List.mem_cons_self).length,
      ih fun b hb => hw b (List.mem_cons_of_mem a hb), regCountSum_cons]

theorem writeWords_append :
    writeWords (ws ++ vs) off regs mem =
      writeWords ws off regs mem >>= fun p => writeWords vs (off + ws.length) p.1 p.2 := by
  induction ws generalizing off regs mem with
  | nil => rfl
  | cons w ws ih =>
    have hlen : off + (w :: ws).length = off + 1 + ws.length := by rw [List.length_cons]; omega
    rw [hlen]
    simp only [List.cons_append, writeWords]
    split_ifs with hoff
    · exact ih
    · cases ptrAdd regs.sp (off - 4) 4 with
      | error e => rfl
      | ok ptr =>
        simp only [ok_bind]
        cases mem.writeU32 ptr w with
        | error e => rfl
        | ok mem1 => exact ih

/-- writing arguments one by one writes their words -/
theorem writeArgs_eq (hw : ∀ a ∈ args, a.Writable) (h16 : ∀ a ∈ args, a.type.regCount ≤ 16) :
    writeArgs args off regs mem = writeWords (argWords args) off regs mem := by
  induction args generalizing off regs mem with
  | nil => rfl
  | cons a args ih =>
    have ha := hw a List.mem_cons_self
    have hcount : assert (decide (a.type.inst.regCount ≤ 16)) Panic.fakeRegs = .ok () :=
      assert_ok (decide_eq_true (h16 a List.mem_cons_self))
    have hregs : a.type.inst.toRegs a.val = .ok a.words := ha.toRegs_eq
    rw [argWords_cons, writeWords_append]
    simp only [writeArgs, writeNextArg, hcount, hregs, ok_bind]
    cases writeWords a.words off regs mem with
    | error e => rfl
    | ok p =>
      simp only [ok_bind, pure_eq_ok]
      rw [ih (fun b hb => hw b (List.mem_cons_of_mem a hb)) fun b hb => h16 b (List.mem_cons_of_mem a hb)]
      rw [ha.length]
      rfl

/-- a list that could be written consists of arguments that can be -/
theorem writable_of_writeArgs (h : writeArgs args off regs mem = .ok (regs', mem')) : ∀ a ∈ args, a.Writable := by
  induction args generalizing off regs mem with
  | nil => exact fun a ha => absurd ha List.not_mem_nil
  | cons a args ih =>
    obtain ⟨p, h1, h2⟩ := bind_eq_ok.1 h
    obtain ⟨-, -, h1⟩ := bind_eq_ok.1 h1
    obtain ⟨ws, h3, -⟩ := bind_eq_ok.1 h1
    intro b hb
    rcases List.mem_cons.1 hb with rfl | hb
    · exact ⟨ws, h3⟩
    · exact ih h2 b hb

/-- arguments whose words are in the area are read back -/
theorem readArgs_ok (hw : ∀ a ∈ args, a.Writable) (h16 : ∀ a ∈ args, a.type.regCount ≤ 16)
    (hs : SlotsIn mem sp off (off + regCountSum args))
    (ha : ∀ i (h : i < (argWords args).length), area regs sp mem (off + i) = (argWords args)[i]) :
    readArgs (args.map Arg.type) off regs sp mem = .ok args := by
  induction args generalizing off with
  | nil => rfl
  | cons a args ih =>
    have hwa := hw a List.mem_cons_self
    have hlen := hwa.length
    have hcount : assert (decide (a.type.inst.regCount ≤ 16)) Panic.fakeRegs = .ok () :=
      assert_ok (decide_eq_true (h16 a List.mem_cons_self))
    rw [regCountSum_cons] at hs
    have hread : readWords a.type.inst.regCount off regs sp mem = .ok a.words := by
      rw [readWords_ok (hs.mono le_rfl (by simp only [ArgType.regCount]; omega)), Except.ok.injEq]
      apply List.ext_getElem
      · rw [List.length_map, List.length_range, hlen]; rfl
      · intro i h1 h2
        have hi := ha i (by rw [argWords_cons, List.length_append]; omega)
        simp only [List.getElem_map, List.getElem_range, hi, argWords_cons, List.getElem_append_left h2]
    have hrest : SlotsIn mem sp (off + a.type.inst.regCount) (off + a.type.inst.regCount + regCountSum args) :=
      hs.mono (Nat.le_add_right _ _) (by simp only [ArgType.regCount]; omega)
    have htail := ih (fun b hb => hw b (List.mem_cons_of_mem a hb)) (fun b hb => h16 b (List.mem_cons_of_mem a hb)) hrest
      fun i hi => by
        have hoff : off + a.type.inst.regCount + i = off + (a.words.length + i) := by
          rw [hlen, Nat.add_assoc]; rfl
        rw [hoff, ha _ (by rw [argWords_cons, List.length_append]; omega)]
        simp only [argWords_cons, List.getElem_append_right (Nat.le_add_right _ _), Nat.add_sub_cancel_left]
    simp only [List.map_cons, readArgs, readNextArg, hcount, hread, ok_bind, pure_eq_ok, htail]
    rw [show (a.type.inst.fromRegs a.words) = a.val from hwa.fromRegs]

/-- the stack has room for `n` argument words -/
def StackRoom (regs : Regs) (mem : Mem) (n : ℕ) : Prop :=
  n ≤ 4 ∨ 4 * (n - 4) ≤ regs.sp ∧ mem.nullSegmentSize ≤ regs.sp - 4 * (n - 4)

theorem extendStackForArgs_ok (h : n ≤ 4 ∨ 4 * (n - 4) ≤ regs.sp) :
    ∃ regs', extendStackForArgs n regs = .ok (regs[SP], regs') ∧ regs'.sp = regs.sp - 4 * (n - 4) ∧
      ∀ k (hk : k < 16), k ≠ SP → regs'[k] = regs[k] := by
  unfold extendStackForArgs
  split_ifs with hn
  · have hlt : regs.sp < 2 ^ 32 := regs[SP].toNat_lt
    have hsub : ptrSub regs.sp (n - 4) 4 = .ok (regs.sp - 4 * (n - 4)) := by
      unfold ptrSub
      rw [if_pos (by omega), Nat.mul_comm]
    refine ⟨regs.set SP (UInt32.ofNat (regs.sp - 4 * (n - 4))), ?_, ?_, fun k hk hne => ?_⟩
    · simp only [show (regs[SP] : UInt32).toNat = regs.sp from rfl, hsub, ok_bind, pure_eq_ok]
    · unfold Regs.sp at *
      rw [Vector.getElem_set_self, UInt32.toNat_ofNat']
      omega
    · exact Vector.getElem_set_ne _ _ (Ne.symm hne)
  · exact ⟨regs, rfl, by omega, fun _ _ _ => rfl⟩

theorem extendStackForArgs_cases (h : extendStackForArgs n regs = .ok (old, regs')) :
    n ≤ 4 ∨ 4 * (n - 4) ≤ regs.sp := by
  unfold extendStackForArgs at h
  split_ifs at h with hn
  · obtain ⟨ptr, h1, -⟩ := bind_eq_ok.1 h
    unfold ptrSub at h1
    split_ifs at h1 with h2
    exact Or.inr (by unfold Regs.sp; omega)
  · exact Or.inl (Nat.le_of_not_lt hn)

theorem slotsIn_of_room (h : StackRoom regs mem n) (hsp : regs'.sp = regs.sp - 4 * (n - 4)) :
    SlotsIn mem regs'.sp 0 (0 + n) := by
  intro k _ h2 h3
  have hlt : regs.sp < 2 ^ 32 := regs[SP].toNat_lt
  obtain ⟨h4, h5⟩ := h.resolve_left (by omega)
  exact ⟨by unfold slot; omega, by unfold slot; omega⟩

/-- **Passing arguments** succeeds exactly when every argument can be written and the stack has room. -/
theorem passArgs_ok (h16 : ∀ a ∈ args, a.type.regCount ≤ 16) (hw : ∀ a ∈ args, a.Writable)
    (hroom : StackRoom regs mem (regCountSum args)) :
    ∃ regs₁ regs' mem', passArgs args regs mem = .ok (regs[SP], regs', mem') ∧
      regs₁.sp = regs.sp - 4 * (regCountSum args - 4) ∧ (∀ k (hk : k < 16), k ≠ SP → regs₁[k] = regs[k]) ∧
      Written (argWords args) 0 regs₁ mem regs' mem' ∧ SlotsIn mem regs₁.sp 0 (0 + regCountSum args) := by
  obtain ⟨regs₁, h1, h2, h3⟩ := extendStackForArgs_ok (hroom.imp_right And.left)
  have hs : SlotsIn mem regs₁.sp 0 (0 + regCountSum args) := slotsIn_of_room hroom h2
  have hwords : SlotsIn mem regs₁.sp 0 (0 + (argWords args).length) := by
    rw [argWords_length hw]
    exact hs
  obtain ⟨regs', mem', h4, h5⟩ := writeWords_ok hwords
  refine ⟨regs₁, regs', mem', ?_, h2, h3, h5, hs⟩
  simp only [passArgs, h1, writeArgs_eq hw h16, h4, ok_bind, pure_eq_ok]

theorem room_of_passArgs (h16 : ∀ a ∈ args, a.type.regCount ≤ 16)
    (h : passArgs args regs mem = .ok (old, regs', mem')) :
    (∀ a ∈ args, a.Writable) ∧ StackRoom regs mem (regCountSum args) := by
  obtain ⟨p, h1, h⟩ := bind_eq_ok.1 h
  obtain ⟨q, h2, -⟩ := bind_eq_ok.1 h
  have hw := writable_of_writeArgs h2
  refine ⟨hw, ?_⟩
  have h3 := extendStackForArgs_cases h1
  obtain ⟨regs₁, h4, h5, -⟩ := extendStackForArgs_ok h3
  obtain rfl : p = (regs[SP], regs₁) := Except.ok.inj (h1.symm.trans h4)
  rw [writeArgs_eq hw h16] at h2
  have hs := slotsIn_of_writeWords h2
  rw [argWords_length hw] at hs
  rcases h3 with h3 | h3
  · exact Or.inl h3
  · by_cases hn : regCountSum args ≤ 4
    · exact Or.inl hn
    · -- the lowest stack word is where the new stack pointer points
      have hlow := (hs 4 (by omega) (by omega) le_rfl).1
      exact Or.inr ⟨h3, by unfold slot at hlow; simp only at hlow; omega⟩

/-- what passing arguments promises: reading them in order gives the same arguments, the returned stack pointer is the
original one, every stack word lies in the extension, and neither memory outside the extension nor another register
changes -/
def RoundTrip (args : List Arg) (regs : Regs) (mem : Mem) : UInt32 × Regs × Mem → Prop
  | (oldSp, regs', mem') =>
    readArgs (args.map Arg.type) 0 regs' regs'.sp mem' = .ok args ∧ oldSp = regs[SP] ∧
    regs'.sp + 4 * (regCountSum args - 4) = regs.sp ∧
    (∀ k, 4 ≤ k → k < regCountSum args → regs'.sp ≤ slot regs'.sp k ∧ slot regs'.sp k + 4 ≤ regs.sp) ∧
    (∀ x, x < regs'.sp ∨ regs.sp ≤ x → mem'.bytes x = mem.bytes x) ∧
    ∀ k (hk : k < 16), 4 ≤ k → k ≠ SP → regs'[k] = regs[k]

/-- **Round trip.** Whatever arguments are passed comes back, and only the extension of the stack is written. Passing
fails only when an argument has no `to_regs` or the stack has no room. -/
theorem args_round_trip (args : List Arg) (h16 : ∀ a ∈ args, a.type.regCount ≤ 16) (regs : Regs) (mem : Mem) :
    match passArgs args regs mem with
    | .ok out => RoundTrip args regs mem out
    | .error _ => ¬ ((∀ a ∈ args, a.Writable) ∧ StackRoom regs mem (regCountSum args)) := by
  cases hp : passArgs args regs mem with
  | error e =>
    rintro ⟨hw, hroom⟩
    obtain ⟨_, _, _, h1, -⟩ := passArgs_ok h16 hw hroom
    rw [hp] at h1
    cases h1
  | ok out =>
    obtain ⟨hw, hroom⟩ := room_of_passArgs h16 hp
    obtain ⟨regs₁, regs', mem', h1, h2, h3, h4, h5⟩ := passArgs_ok h16 hw hroom
    obtain rfl : out = (regs[SP], regs', mem') := Except.ok.inj (hp.symm.trans h1)
    have hsp := h4.sp_eq
    have hadd : regs'.sp + 4 * (regCountSum args - 4) = regs.sp := by
      rcases hroom with h | h <;> omega
    refine ⟨?_, rfl, hadd, fun k hk1 hk2 => ?_, fun x hx => h4.frame x ?_, fun k hk h6 h7 => ?_⟩
    · refine readArgs_ok hw h16 (by rw [hsp]; exact h5.congr h4.null) fun i hi => ?_
      rw [hsp]
      exact h4.words i hi
    · unfold slot; omega
    · rw [argWords_length hw]
      unfold slot; omega
    · exact (h4.high k hk h6).trans (h3 k hk h7)

/-- seven words: a rectangle over the last two registers and two stack words, and a negative number -/
def sampleArgs : List Arg :=
  [⟨⟨Ptr⟩, ⟨0x3000⟩⟩, ⟨⟨SEL⟩, ⟨⟨0x4000⟩⟩⟩, ⟨⟨CGRect⟩, ⟨⟨⟨1⟩, ⟨2⟩⟩, ⟨⟨3⟩, ⟨4⟩⟩⟩⟩, ⟨⟨Int16⟩, -5⟩]

def sampleRegs : Regs := Vector.replicate 16 0x8000

def sampleMem : Mem := ⟨fun _ => 0, 0x1000⟩

theorem args_round_trip_sample :
    match passArgs sampleArgs sampleRegs sampleMem with
    | .ok out => RoundTrip sampleArgs sampleRegs sampleMem out
    | .error _ => ¬ ((∀ a ∈ sampleArgs, a.Writable) ∧ StackRoom sampleRegs sampleMem (regCountSum sampleArgs)) :=
  args_round_trip sampleArgs (by decide) sampleRegs sampleMem

end TouchHLE.Abi
