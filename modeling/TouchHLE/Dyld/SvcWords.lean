/-
The SVC instructions that the linker writes (`dyld.rs`): the word of a stub or of a guest function has the number of an
entry of the table of host functions in it, and the number is what the call of the host function goes by.

- `decodeA32Svc`: the number in an instruction.
- `Machine`, `step`: lazy links and new guest functions in any order, with every SVC word that was written.
- `Decodes`: the word calls the host function that it was written for.
- `Numbered`: the invariant. A word has the number of an entry of the table, and the flag if its stub cannot return.
- `words_decode_iff`: runs. Only the stubs of a single word check that the number is below the flag.
- `number_of_the_flag`: the function whose number is the flag itself.
-/
import TouchHLE.Dyld.Definitions
import TouchHLE.Dyld.Stubs

namespace TouchHLE.Dyld.SvcWords

open Machine Mem Words

/-! ## Words that are written -/

/-- the number of an SVC instruction that is executed always -/
def decodeA32Svc (word : UInt32) : Option ℕ := if word.toNat / 2 ^ 24 = 0xef then some (word.toNat % 2 ^ 24) else none

/-- an SVC word, the host function that it was written for, and whether the handler is to return in place of the stub -/
structure Written (F : Type) where
  word : UInt32
  symbol : String
  f : F
  manualReturn : Bool

structure State (F K : Type) where
  dyld : Dyld F K
  heap : Heap
  written : List (Written F)

def start {F K : Type} (h : Heap) : State F K := ⟨Dyld.new, h, []⟩

inductive Op (F : Type) where
  /-- a stub calls the linker -/
  | lazyLink (svcPc : ℕ)
  | guestFunction (symbol : String) (f : F)
  | procAddress (symbol : String)
  /-- whatever else the emulator and the guest do to memory -/
  | other (h : Heap)

section

variable {F K : Type} (dylibs : List (HostDylib F K)) (bins : List MachO)

/-- the state after a word was written at `ptr`, if one was -/
def State.wrote (s : State F K) (d : Dyld F K) (h : Heap) (ptr : ℕ) (manualReturn : Bool) :
    Option (String × F) → Except Panic (State F K)
  | none => pure { s with dyld := d, heap := h }
  | some (symbol, f) => do
    let word ← readAt h ptr 0
    pure ⟨d, h, s.written ++ [⟨word, symbol, f, manualReturn⟩]⟩

/-- the host function of a guest function that there is not yet -/
def newProc (d : Dyld F K) (symbol : String) : Option (String × F) :=
  if (d.nonLazyHostFunctions symbol).isSome then none else hostFunction dylibs symbol

def step (s : State F K) : Op F → Except Panic (State F K)
  | .lazyLink svcPc => do
    let stub ← findStub bins svcPc
    let (_, d, h) ← doLazyLink dylibs bins svcPc s.dyld s.heap
    s.wrote d h svcPc (stub.entrySize == 4) (newProc dylibs s.dyld stub.symbol)
  | .guestFunction symbol f => do
    let (functionPtr, d, h) ← createGuestFunction symbol f s.dyld s.heap
    s.wrote d h functionPtr.toNat false (some (symbol, f))
  | .procAddress symbol => do
    let (functionPtr, d, h) ← createProcAddressNoInval dylibs symbol s.dyld s.heap
    s.wrote d h (functionPtr.getD 0).toNat false (newProc dylibs s.dyld symbol)
  | .other h => pure { s with heap := h }

/-- the numbers that do not stand for linked functions -/
def special : List ℕ := [svcLazyLink, svcThreadExit, svcReturnToHost, svcLazyLinkRetFlag]

/-- The word calls its host function, whatever is at its address; its number is none of the special ones, and has the flag
exactly if the handler is to return. -/
def Decodes (d : Dyld F K) (w : Written F) : Prop :=
  ∃ n, decodeA32Svc w.word = some n ∧ n ∉ special ∧ (n.testBit 23 = w.manualReturn) ∧
    ∀ svcPc h, getSvcHandler dylibs bins svcPc n d h = .ok (some w.f, d, h)

/-- **Every SVC word decodes to its own symbol.** -/
def WordsDecode (s : State F K) : Prop := ∀ w ∈ s.written, Decodes dylibs bins s.dyld w

/-! ## The condition -/

/-- the number of the next function is below the flag -/
def Room (d : Dyld F K) : Prop := d.linkedHostFunctions.length + svcLinkedFunctionsBase < svcLazyLinkRetFlag

/-- a function that gets a number without a check gets one below the flag -/
def HasRoom (s : State F K) : Op F → Prop
  | .lazyLink svcPc => ∀ stub, findStub bins svcPc = .ok stub → stub.entrySize ≠ 4 →
      (newProc dylibs s.dyld stub.symbol).isSome → Room s.dyld
  | .guestFunction _ _ => Room s.dyld
  | .procAddress symbol => (newProc dylibs s.dyld symbol).isSome → Room s.dyld
  | .other _ => True

end

/-! ## Numbers and entries -/

section

variable {F K : Type} {dylibs : List (HostDylib F K)} {bins : List MachO} {d d' : Dyld F K} {h h' : Heap} {s s' : State F K}
  {w : Written F} {x name : String} {f : F} {i n : ℕ} {address : Option UInt32} {l : List (String × F)} {word : UInt32}
  {linked : Linked F} {o : Op F} {stub : Stub} {svcPc : ℕ}

theorem decodeA32Svc_encode (hn : n < 2 ^ 24) (he : encodeA32Svc n = .ok word) :
    decodeA32Svc word = some n := by
  obtain ⟨u, -, he⟩ := bind_eq_ok.1 he
  cases he
  have hor : n ||| 0xef000000 = 2 ^ 24 * 0xef + n := by
    rw [Nat.or_comm]
    exact (Nat.two_pow_add_eq_or_of_lt hn 0xef).symm
  have hword : (UInt32.ofNat (n ||| 0xef000000)).toNat = 2 ^ 24 * 0xef + n := by
    rw [UInt32.toNat_ofNat', hor]
    exact Nat.mod_eq_of_lt (by omega)
  rw [decodeA32Svc, hword, if_pos (by omega)]
  congr 1
  omega

/-- the number that a word for the entry `i` has -/
def number (i : ℕ) (manualReturn : Bool) : ℕ :=
  if manualReturn then svcLazyLinkRetFlag + (i + svcLinkedFunctionsBase) else i + svcLinkedFunctionsBase

/-- the word is one for the entry `i` -/
structure EntryWord (d : Dyld F K) (w : Written F) (i : ℕ) : Prop where
  entry : d.linkedHostFunctions[i]? = some (w.symbol, w.f)
  small : i + svcLinkedFunctionsBase < 2 ^ 24
  number : decodeA32Svc w.word = some (number i w.manualReturn)
  checked : w.manualReturn = true → i + svcLinkedFunctionsBase < svcLazyLinkRetFlag

theorem flag_bit (hi : i + svcLinkedFunctionsBase < svcLazyLinkRetFlag) (b : Bool) : (number i b).testBit 23 = b := by
  have hlow : (i + svcLinkedFunctionsBase).testBit 23 = false := Nat.testBit_lt_two_pow hi
  cases b with
  | false => exact hlow
  | true =>
    have hflag : (2 ^ 23 + (i + svcLinkedFunctionsBase)).testBit 23 = true := by
      rw [Nat.testBit_two_pow_add_eq, hlow, Bool.not_false]
    exact hflag

/-- a number below the flag calls its entry, with the flag or without -/
theorem linkedFunction_number (hentry : d.linkedHostFunctions[i]? = some (x, f))
    (hi : i + svcLinkedFunctionsBase < svcLazyLinkRetFlag) (b : Bool) : d.linkedFunction (number i b) = .ok f := by
  have hi' : i + 3 < 2 ^ 23 := hi
  have hclear : number i b &&& 0xff7fffff = i + 3 := by
    cases b with
    | false =>
      have hfalse : number i false = i + 3 := rfl
      rw [hfalse, clear_flag (by omega)]
      exact Nat.mod_eq_of_lt hi'
    | true =>
      have htrue : number i true = 2 ^ 23 + (i + 3) := rfl
      rw [htrue, clear_flag (by omega), Nat.add_mod_left]
      exact Nat.mod_eq_of_lt hi'
  have hsub : sub32 (i + 3) svcLinkedFunctionsBase = .ok i := by
    unfold sub32 svcLinkedFunctionsBase
    rw [if_pos (Nat.le_add_left 3 i), Nat.add_sub_cancel]
  rw [linkedFunction, hclear, hsub, ok_bind, hentry]
  rfl

theorem number_not_special (hi : i + svcLinkedFunctionsBase < svcLazyLinkRetFlag) (b : Bool) : number i b ∉ special := by
  intro hmem
  simp only [special, svcLazyLink, svcThreadExit, svcReturnToHost, svcLazyLinkRetFlag, List.mem_cons, List.not_mem_nil,
    or_false] at hmem
  simp only [svcLinkedFunctionsBase, svcLazyLinkRetFlag] at hi
  cases b <;> simp only [number, svcLinkedFunctionsBase, svcLazyLinkRetFlag, if_true, Bool.false_eq_true, if_false] at hmem <;>
    omega

/-- **A word decodes** exactly if the number of its entry is below the flag. -/
theorem word_decodes_iff (hw : EntryWord d w i) :
    Decodes dylibs bins d w ↔ i + svcLinkedFunctionsBase < svcLazyLinkRetFlag := by
  constructor
  · rintro ⟨n, hn, -, hbit, -⟩
    cases hw.number.symm.trans hn
    cases hm : w.manualReturn with
    | true => exact hw.checked hm
    | false =>
      rw [hm] at hbit
      by_contra hge
      obtain ⟨j, hj⟩ := Nat.exists_eq_add_of_le (Nat.le_of_not_lt hge)
      have hsmall : 2 ^ 23 + j < 2 ^ 24 := by
        have hle := hw.small
        rw [hj] at hle
        exact hle
      have hlow : j.testBit 23 = false := Nat.testBit_lt_two_pow (by omega)
      have hset : (2 ^ 23 + j).testBit 23 = true := by rw [Nat.testBit_two_pow_add_eq, hlow, Bool.not_false]
      have hclear : (svcLazyLinkRetFlag + j).testBit 23 = false := hj ▸ hbit
      cases hset.symm.trans hclear
  · intro hi
    have hspecial := number_not_special hi w.manualReturn
    refine ⟨_, hw.number, hspecial, flag_bit hi _, fun svcPc h => ?_⟩
    have hlinker : ¬(number i w.manualReturn = svcLazyLink ∨ number i w.manualReturn = svcLazyLinkRetFlag) := by
      rintro (h0 | h0) <;> exact hspecial (by simp [special, h0])
    rw [getSvcHandler, if_neg hlinker, linkedFunction_number hw.entry hi]
    rfl

/-! ## What a step writes -/

theorem readAt_cases {a : ℕ} {v : UInt32} (hr : readAt h a n = .ok v) : v = loadWord h.bytes (a + n * 4) := by
  obtain ⟨p, hp, hr⟩ := bind_eq_ok.1 hr
  obtain ⟨u, -, hr⟩ := bind_eq_ok.1 hr
  unfold ptrAdd at hp
  split_ifs at hp
  cases hp
  exact (Except.ok.inj hr).symm

/-- a word that was written is read back -/
theorem readAt_writeAt {h₁ : Heap} {a : ℕ} {v v' : UInt32} (hw : writeAt h a 0 v = .ok h₁) (hr : readAt h₁ a 0 = .ok v') :
    v' = v := by
  rw [readAt_cases hr, writeAt_cases hw, Nat.zero_mul]
  exact loadWord_storeWord

theorem createGuestFunction_word {a word : UInt32} (hc : createGuestFunction x f d h = .ok (a, d', h'))
    (hr : readAt h' a.toNat 0 = .ok word) :
    d'.linkedHostFunctions = d.linkedHostFunctions ++ [(x, f)] ∧
      d.linkedHostFunctions.length + svcLinkedFunctionsBase < 2 ^ 24 ∧
      decodeA32Svc word = some (d.linkedHostFunctions.length + svcLinkedFunctionsBase) := by
  obtain ⟨svc, hsvc, hc⟩ := bind_eq_ok.1 hc
  obtain ⟨⟨p, h₁⟩, -, hc⟩ := bind_eq_ok.1 hc
  obtain ⟨instr, henc, hc⟩ := bind_eq_ok.1 hc
  obtain ⟨h₂, hw1, hc⟩ := bind_eq_ok.1 hc
  obtain ⟨h₃, hw2, hc⟩ := bind_eq_ok.1 hc
  cases hc
  have hp : (UInt32.ofNat p).toNat = p := by
    obtain ⟨q, hq, -⟩ := bind_eq_ok.1 hw1
    unfold ptrAdd at hq
    split_ifs at hq with hlt
    rw [UInt32.toNat_ofNat']
    exact Nat.mod_eq_of_lt (by omega)
  obtain ⟨rfl, hlt⟩ := nextSvc_ok hsvc
  have hsmall := encodeA32Svc_ok hlt henc
  rw [hp] at hr
  have hword : word = instr := by
    rw [readAt_cases hr, writeAt_cases hw2, writeAt_cases hw1, Nat.zero_mul,
      loadWord_storeWord_of_disjoint (.inl (by omega)), Nat.add_zero]
    exact loadWord_storeWord
  exact ⟨rfl, hsmall, hword ▸ decodeA32Svc_encode hsmall henc⟩

theorem createProcAddress_keeps (hnew : newProc dylibs d x = none)
    (hc : createProcAddressNoInval dylibs x d h = .ok (address, d', h')) : d' = d := by
  unfold newProc hostFunction at hnew
  unfold createProcAddressNoInval at hc
  cases hfun : searchHostDylibs dylibs HostDylib.functionExports x with
  | none =>
    rw [hfun] at hc
    cases hc
    rfl
  | some e =>
    obtain ⟨name, f⟩ := e
    obtain rfl : name = x := hostFunction_name hfun
    rw [hfun] at hc hnew
    cases hcache : d.nonLazyHostFunctions name with
    | some a =>
      simp only [hcache] at hc
      cases hc
      rfl
    | none =>
      rw [hcache] at hnew
      cases hnew

theorem createProcAddress_word (hnew : newProc dylibs d x = some (name, f))
    (hc : createProcAddressNoInval dylibs x d h = .ok (address, d', h'))
    (hr : readAt h' (address.getD 0).toNat 0 = .ok word) :
    d'.linkedHostFunctions = d.linkedHostFunctions ++ [(name, f)] ∧
      d.linkedHostFunctions.length + svcLinkedFunctionsBase < 2 ^ 24 ∧
      decodeA32Svc word = some (d.linkedHostFunctions.length + svcLinkedFunctionsBase) := by
  unfold newProc at hnew
  split_ifs at hnew with hcache
  obtain rfl : name = x := hostFunction_name hnew
  rw [hostFunction] at hnew
  unfold createProcAddressNoInval at hc
  simp only [hnew, Option.not_isSome_iff_eq_none.1 hcache] at hc
  obtain ⟨⟨a, d₁, h₁⟩, hcreate, hc⟩ := bind_eq_ok.1 hc
  cases hc
  have hword := createGuestFunction_word hcreate hr
  exact hword

/-- the next function was linked, and its word was written -/
structure Links (s s' : State F K) (w : Written F) : Prop where
  linked : s'.dyld.linkedHostFunctions = s.dyld.linkedHostFunctions ++ [(w.symbol, w.f)]
  written : s'.written = s.written ++ [w]
  small : s.dyld.linkedHostFunctions.length + svcLinkedFunctionsBase < 2 ^ 24
  number : decodeA32Svc w.word = some (number s.dyld.linkedHostFunctions.length w.manualReturn)
  checked : w.manualReturn = true → Room s.dyld

/-- no function was linked -/
def Keeps (s s' : State F K) : Prop :=
  s'.dyld.linkedHostFunctions = s.dyld.linkedHostFunctions ∧ s'.written = s.written

theorem stubSvc_ok {entrySize : ℕ} (hs : stubSvc entrySize (d.linkedHostFunctions.length + svcLinkedFunctionsBase) = .ok n) :
    n = number d.linkedHostFunctions.length (entrySize == 4) ∧ ((entrySize == 4) = true → Room d) := by
  unfold stubSvc at hs
  split_ifs at hs with h4
  · obtain ⟨u, hassert, hs⟩ := bind_eq_ok.1 hs
    unfold assert at hassert
    split_ifs at hassert with hlt
    have hroom : Room d := by
      unfold Room
      exact of_decide_eq_true hlt
    refine ⟨?_, fun _ => hroom⟩
    rw [← Except.ok.inj hs, Nat.or_comm, beq_iff_eq.2 h4]
    exact (Nat.two_pow_add_eq_or_of_lt (i := 23) hroom 1).symm
  · have hne : (entrySize == 4) = false := beq_eq_false_iff_ne.2 h4
    rw [hne]
    exact ⟨(Except.ok.inj hs).symm, fun h => nomatch h⟩

theorem linkStub_keeps (hnew : newProc dylibs d stub.symbol = none)
    (hl : linkStub dylibs bins svcPc stub d h = .ok (linked, d', h')) : d' = d := by
  unfold newProc at hnew
  unfold linkStub at hl
  cases hcache : d.nonLazyHostFunctions stub.symbol with
  | some addr =>
    rw [hcache] at hl
    obtain ⟨h₁, -, hl⟩ := bind_eq_ok.1 hl
    cases hl
    rfl
  | none =>
    rw [hcache, Option.isSome_none, if_neg Bool.false_ne_true, hostFunction] at hnew
    rw [hcache, hnew] at hl
    cases hbin : searchBins bins stub.symbol with
    | some addr =>
      simp only [hbin] at hl
      obtain ⟨h₁, -, hl⟩ := bind_eq_ok.1 hl
      cases hl
      rfl
    | none =>
      simp only [hbin] at hl
      cases hl

theorem linkStub_word
    (hnew : newProc dylibs d stub.symbol = some (x, f)) (hl : linkStub dylibs bins svcPc stub d h = .ok (linked, d', h'))
    (hr : readAt h' svcPc 0 = .ok word) :
    d'.linkedHostFunctions = d.linkedHostFunctions ++ [(x, f)] ∧
      d.linkedHostFunctions.length + svcLinkedFunctionsBase < 2 ^ 24 ∧
      decodeA32Svc word = some (number d.linkedHostFunctions.length (stub.entrySize == 4)) ∧
      ((stub.entrySize == 4) = true → Room d) := by
  unfold newProc at hnew
  split_ifs at hnew with hcache
  rw [hostFunction] at hnew
  unfold linkStub at hl
  rw [Option.not_isSome_iff_eq_none.1 hcache, hnew] at hl
  obtain ⟨svc, hsvc, hl⟩ := bind_eq_ok.1 hl
  obtain ⟨svc', hstub, hl⟩ := bind_eq_ok.1 hl
  obtain ⟨instr, henc, hl⟩ := bind_eq_ok.1 hl
  obtain ⟨h₁, hw, hl⟩ := bind_eq_ok.1 hl
  obtain ⟨u, -, hl⟩ := bind_eq_ok.1 hl
  cases hl
  obtain ⟨rfl, hlt⟩ := nextSvc_ok hsvc
  obtain ⟨rfl, hroom⟩ := stubSvc_ok hstub
  have hsmall : number d.linkedHostFunctions.length (stub.entrySize == 4) < 2 ^ 24 := by
    refine encodeA32Svc_ok ?_ henc
    cases hb : (stub.entrySize == 4) with
    | false => exact hlt
    | true =>
      have hlow : d.linkedHostFunctions.length + svcLinkedFunctionsBase < 2 ^ 23 := hroom hb
      have htrue : number d.linkedHostFunctions.length true = 2 ^ 23 + (d.linkedHostFunctions.length + svcLinkedFunctionsBase) :=
        rfl
      omega
  refine ⟨rfl, lt_of_le_of_lt ?_ hsmall, ?_, hroom⟩
  · unfold number
    split_ifs
    · exact Nat.le_add_left _ _
    · exact le_refl _
  · rw [readAt_writeAt hw hr]
    exact decodeA32Svc_encode hsmall henc

/-- **A step** links nothing and meets the condition, or links the next function and writes its word. -/
theorem step_cases (hs : step dylibs bins s o = .ok s') :
    Keeps s s' ∧ HasRoom dylibs bins s o ∨
      ∃ w, Links s s' w ∧ (HasRoom dylibs bins s o ↔ (w.manualReturn = false → Room s.dyld)) := by
  cases o with
  | other h =>
    cases hs
    exact .inl ⟨⟨rfl, rfl⟩, trivial⟩
  | guestFunction symbol f =>
    obtain ⟨⟨a, d, h⟩, hc, hs⟩ := bind_eq_ok.1 hs
    obtain ⟨word, hr, hs⟩ := bind_eq_ok.1 hs
    cases hs
    obtain ⟨hlinked, hsmall, hword⟩ := createGuestFunction_word hc hr
    exact .inr ⟨_, ⟨hlinked, rfl, hsmall, hword, fun h => nomatch h⟩, ⟨fun h _ => h, fun h => h rfl⟩⟩
  | procAddress symbol =>
    obtain ⟨⟨address, d, h⟩, hc, hs⟩ := bind_eq_ok.1 hs
    cases hnew : newProc dylibs s.dyld symbol with
    | none =>
      rw [hnew] at hs
      cases hs
      refine .inl ⟨⟨by rw [createProcAddress_keeps hnew hc], rfl⟩, fun hsome => ?_⟩
      rw [hnew] at hsome
      cases hsome
    | some e =>
      obtain ⟨x, f⟩ := e
      rw [hnew] at hs
      obtain ⟨word, hr, hs⟩ := bind_eq_ok.1 hs
      cases hs
      obtain ⟨hlinked, hsmall, hword⟩ := createProcAddress_word hnew hc hr
      refine .inr ⟨_, ⟨hlinked, rfl, hsmall, hword, fun h => nomatch h⟩, fun h _ => h (by rw [hnew]; rfl), fun h _ => h rfl⟩
  | lazyLink svcPc =>
    obtain ⟨stub, hstub, hs⟩ := bind_eq_ok.1 hs
    obtain ⟨⟨handler, d, h⟩, hlink, hs⟩ := bind_eq_ok.1 hs
    obtain ⟨stub', hstub', hlink⟩ := bind_eq_ok.1 hlink
    cases hstub.symm.trans hstub'
    obtain ⟨⟨linked, d', h'⟩, hstubLink, hrest⟩ := bind_eq_ok.1 hlink
    obtain ⟨rfl, rfl⟩ : d' = d ∧ h' = h := by cases linked <;> cases hrest <;> exact ⟨rfl, rfl⟩
    cases hnew : newProc dylibs s.dyld stub.symbol with
    | none =>
      rw [hnew] at hs
      cases hs
      refine .inl ⟨⟨by rw [linkStub_keeps hnew hstubLink], rfl⟩, fun stub' hstub' _ hsome => ?_⟩
      cases hstub.symm.trans hstub'
      rw [hnew] at hsome
      cases hsome
    | some e =>
      obtain ⟨x, f⟩ := e
      rw [hnew] at hs
      obtain ⟨word, hr, hs⟩ := bind_eq_ok.1 hs
      cases hs
      obtain ⟨hlinked, hsmall, hword, hroom⟩ := linkStub_word hnew hstubLink hr
      refine .inr ⟨_, ⟨hlinked, rfl, hsmall, hword, hroom⟩, fun h hne => ?_, fun h stub' hstub' hne _ => ?_⟩
      · exact h stub hstub (beq_eq_false_iff_ne.1 hne) (by rw [hnew]; rfl)
      · cases hstub.symm.trans hstub'
        exact h (beq_eq_false_iff_ne.2 hne)

/-! ## Runs -/

/-- every word that was written is one for an entry of the table -/
def Numbered (s : State F K) : Prop := ∀ w ∈ s.written, ∃ i, EntryWord s.dyld w i

theorem EntryWord.append (hw : EntryWord d w i)
    (hd : d'.linkedHostFunctions = d.linkedHostFunctions ++ l) : EntryWord d' w i :=
  ⟨by rw [hd]; exact List.getElem?_append_left (List.getElem?_eq_some_iff.1 hw.entry).1 ▸ hw.entry, hw.small, hw.number,
    hw.checked⟩

theorem Links.entryWord (hl : Links s s' w) : EntryWord s'.dyld w s.dyld.linkedHostFunctions.length :=
  ⟨by rw [hl.linked]; exact List.getElem?_concat_length, hl.small, hl.number, hl.checked⟩

theorem step_numbered (hn : Numbered s) (hs : step dylibs bins s o = .ok s') : Numbered s' := by
  intro v hv
  rcases step_cases hs with ⟨⟨hlinked, hwritten⟩, -⟩ | ⟨w, hl, -⟩
  · rw [hwritten] at hv
    obtain ⟨i, hi⟩ := hn v hv
    exact ⟨i, hi.append (l := []) (by rw [hlinked, List.append_nil])⟩
  · rw [hl.written, List.mem_append, List.mem_singleton] at hv
    rcases hv with hv | rfl
    · obtain ⟨i, hi⟩ := hn v hv
      exact ⟨i, hi.append hl.linked⟩
    · exact ⟨_, hl.entryWord⟩

/-- a word decodes as before when the table has grown -/
theorem EntryWord.decodes_append (hw : EntryWord d w i)
    (hd : d'.linkedHostFunctions = d.linkedHostFunctions ++ l) : Decodes dylibs bins d' w ↔ Decodes dylibs bins d w := by
  rw [word_decodes_iff (hw.append hd), word_decodes_iff hw]

theorem step_words_iff (hn : Numbered s) (hP : WordsDecode dylibs bins s) (hs : step dylibs bins s o = .ok s') :
    WordsDecode dylibs bins s' ↔ HasRoom dylibs bins s o := by
  rcases step_cases hs with ⟨⟨hlinked, hwritten⟩, hroom⟩ | ⟨w, hl, hroom⟩
  · refine iff_of_true (fun v hv => ?_) hroom
    rw [hwritten] at hv
    obtain ⟨i, hi⟩ := hn v hv
    exact (hi.decodes_append (l := []) (by rw [hlinked, List.append_nil])).2 (hP v hv)
  · have hnew : Decodes dylibs bins s'.dyld w ↔ Room s.dyld := word_decodes_iff hl.entryWord
    rw [hroom]
    constructor
    · intro hall _
      exact hnew.1 (hall w (by rw [hl.written]; exact List.mem_append_right _ List.mem_cons_self))
    · intro hcond v hv
      rw [hl.written, List.mem_append, List.mem_singleton] at hv
      rcases hv with hv | rfl
      · obtain ⟨i, hi⟩ := hn v hv
        exact (hi.decodes_append hl.linked).2 (hP v hv)
      · cases hm : v.manualReturn with
        | true => exact hnew.2 (hl.checked hm)
        | false => exact hnew.2 (hcond hm)

/-- **SVC words decode to their symbols** after every step of a run exactly if a function that gets its number without a
check gets one below the flag, for every function that is linked. -/
theorem words_decode_iff (dylibs : List (HostDylib F K)) (bins : List MachO) (h : Heap) (ops : List (Op F)) :
    Throughout (step dylibs bins) (WordsDecode dylibs bins) (start h) ops ↔
      Along (step dylibs bins) (fun s o _ => HasRoom dylibs bins s o) (start h) ops := by
  have hlegal : LegalRun (step dylibs bins) (fun _ _ => True) (start h) ops :=
    legalRun_of_inv (I := fun _ => True) (fun _ _ _ _ _ => trivial) (fun _ _ _ => trivial) trivial
  refine throughout_iff_along (I := Numbered) ?_ ?_ hlegal ?_ ?_
  · intro s o s' _ hn hs
    exact step_numbered hn hs
  · intro s o s' _ hn hP hs
    exact step_words_iff hn hP hs
  · intro w hw
    exact nomatch hw
  · intro w hw
    exact nomatch hw

end

/-! ## A binary with as many stubs as there are numbers below the flag -/

/-- stubs of three words from 0x1000 on, all of "_foo" -/
def manyStubs : MachO :=
  ⟨fun _ => none, some ⟨0x1000, 12 * 2 ^ 23, some ⟨12, List.replicate (2 ^ 23) (some "_foo")⟩⟩, none, none, []⟩

/-- the stubs call the linker and return -/
def manyHeap : Heap where
  bytes x := (leBytes 0 ++ leBytes 0xef000000 ++ leBytes encodeA32Ret).getD (x % 12) 0
  nullSegmentSize := 0
  allocator := imageAllocator
  zeroMemoryOnFree := true

/-- as many stubs were linked as `n` says, one after the other -/
structure LinkedMany (n : ℕ) (s : State Unit Unit) : Prop where
  linked : s.dyld.linkedHostFunctions.length = n
  cached : s.dyld.nonLazyHostFunctions = fun _ => none
  null : s.heap.nullSegmentSize = 0
  returns : ∀ i < 2 ^ 23, loadWord s.heap.bytes (0x1000 + 12 * i + 4) = encodeA32Ret

theorem findStub_many {i : ℕ} (hi : i < 2 ^ 23) : findStub [manyStubs] (0x1000 + 12 * i) = .ok ⟨"_foo", 12, 0⟩ := by
  have hstop : add32 0x1000 (12 * 2 ^ 23) = .ok (0x1000 + 12 * 2 ^ 23) := if_pos (by decide)
  have hfound : findStubs [manyStubs] (0x1000 + 12 * i) =
      .ok (some (⟨0x1000, 12 * 2 ^ 23, some ⟨12, List.replicate (2 ^ 23) (some "_foo")⟩⟩, 0)) := by
    simp only [findStubs, manyStubs, hstop, ok_bind]
    rw [if_pos ⟨Nat.le_add_right _ _, by omega⟩]
    rfl
  have hoffset : 0x1000 + 12 * i - 0x1000 = 12 * i := Nat.add_sub_cancel_left _ _
  have hindex : 12 * i / 12 = i := Nat.mul_div_cancel_left i (by decide)
  have haligned : 12 * i % 12 = 0 := Nat.mul_mod_right 12 i
  have hsymbol : (List.replicate (2 ^ 23) (some "_foo"))[i]? = some (some "_foo") := by
    rw [List.getElem?_replicate, if_pos hi]
  rw [findStub, hfound]
  simp only [ok_bind, unwrap, assert, hoffset, hindex, haligned, hsymbol]
  rfl

theorem manyHeap_returns (i : ℕ) : loadWord manyHeap.bytes (0x1000 + 12 * i + 4) = encodeA32Ret := by
  have hbyte (k : ℕ) (hk : k < 4) : manyHeap.bytes (0x1000 + 12 * i + 4 + k) = (leBytes encodeA32Ret).getD k 0 := by
    have hmod : (0x1000 + 12 * i + 4 + k) % 12 = 8 + k := by omega
    simp only [manyHeap, hmod]
    interval_cases k <;> rfl
  have hload : load manyHeap.bytes (0x1000 + 12 * i + 4) 4 = leBytes encodeA32Ret := by
    apply List.ext_getElem (load_length.trans leBytes_length.symm)
    intro k h1 h2
    rw [leBytes_length] at h2
    simp only [load, List.getElem_map, List.getElem_range, hbyte k h2]
    exact List.getElem_eq_getD 0 |>.symm
  rw [loadWord, hload, leWord_leBytes]

theorem encodeA32Svc_of_lt {n : ℕ} (hn : n < 2 ^ 24) : ∃ word, encodeA32Svc n = .ok word := by
  have hmask : n &&& 0xff000000 = 0 := by
    apply Nat.eq_of_testBit_eq
    intro j
    rw [Nat.testBit_and, Nat.zero_testBit]
    by_cases hj : j < 24
    · have hbits : ∀ j < 24, Nat.testBit 0xff000000 j = false := by decide
      rw [hbits j hj, Bool.and_false]
    · rw [Nat.testBit_lt_two_pow (hn.trans_le (Nat.pow_le_pow_right (by decide) (Nat.le_of_not_lt hj))), Bool.false_and]
  rw [encodeA32Svc, hmask]
  exact ⟨_, rfl⟩

theorem step_many {n : ℕ} {s : State Unit Unit} (hn : n < 2 ^ 23) (hs : LinkedMany n s) :
    ∃ s', step fooDylibs [manyStubs] s (.lazyLink (0x1000 + 12 * n)) = .ok s' ∧ LinkedMany (n + 1) s' := by
  have hnew : newProc fooDylibs s.dyld "_foo" = some ("_foo", ()) := by
    rw [newProc, hs.cached]
    rfl
  have hfoo : searchHostDylibs fooDylibs HostDylib.functionExports "_foo" = some ("_foo", ()) := rfl
  have hnext : s.dyld.nextSvc = .ok (n + 3) := by
    unfold nextSvc add32 svcLinkedFunctionsBase
    rw [hs.linked, if_pos (by omega), if_pos (by omega)]
  have hrange (k : ℕ) (hk : k < 3) : 0x1000 + 12 * n + k * 4 + 4 ≤ 2 ^ 32 := by omega
  have hnull (h : Heap) (h0 : h.nullSegmentSize = 0) (k : ℕ) : h.nullSegmentSize ≤ 0x1000 + 12 * n + k * 4 := by
    rw [h0]
    exact Nat.zero_le _
  obtain ⟨word, hword⟩ := encodeA32Svc_of_lt (n := n + 3) (by omega)
  obtain ⟨h', hwrite, hbytes, h0⟩ : ∃ h', writeAt s.heap (0x1000 + 12 * n) 0 word = .ok h' ∧
      h'.bytes = storeWord s.heap.bytes (0x1000 + 12 * n) word ∧ h'.nullSegmentSize = 0 :=
    ⟨_, writeAt_ok (hnull _ hs.null 0) (hrange 0 (by decide)), by rw [Nat.zero_mul, Nat.add_zero], hs.null⟩
  have hret (i : ℕ) (hi : i < 2 ^ 23) : loadWord h'.bytes (0x1000 + 12 * i + 4) = encodeA32Ret := by
    rw [hbytes, loadWord_storeWord_of_disjoint (by omega), hs.returns i hi]
  have hreturn : checkReturn h' (0x1000 + 12 * n) 12 = .ok () := by
    rw [checkReturn, if_pos (by decide), readAt_ok (hnull h' h0 1) (hrange 1 (by decide)), ok_bind, Nat.one_mul, hret n hn]
    rfl
  have hread : readAt h' (0x1000 + 12 * n) 0 = .ok word := by
    rw [readAt_ok (hnull h' h0 0) (hrange 0 (by decide)), Nat.zero_mul, Nat.add_zero, hbytes, loadWord_storeWord]
  have hstub : stubSvc 12 (n + 3) = .ok (n + 3) := rfl
  have hlink : doLazyLink fooDylibs [manyStubs] (0x1000 + 12 * n) s.dyld s.heap =
      .ok (some (), { s.dyld with linkedHostFunctions := s.dyld.linkedHostFunctions ++ [("_foo", ())] }, h') := by
    rw [doLazyLink, findStub_many hn, ok_bind, linkStub]
    simp only [hs.cached, hfoo, hnext, hstub, hword, hwrite, hreturn, ok_bind, pure_eq_ok]
  refine ⟨⟨{ s.dyld with linkedHostFunctions := s.dyld.linkedHostFunctions ++ [("_foo", ())] }, h',
    s.written ++ [⟨word, "_foo", (), false⟩]⟩, ?_, ?_⟩
  · rw [step, findStub_many hn, ok_bind, hlink, ok_bind, hnew]
    simp only [State.wrote, hread, ok_bind, pure_eq_ok]
    rfl
  · exact ⟨by rw [List.length_append, List.length_singleton, hs.linked], hs.cached, h0, hret⟩

/-- the stubs below `n` are linked -/
theorem run_many {n : ℕ} (hn : n ≤ 2 ^ 23) : ∃ s, run (step fooDylibs [manyStubs]) (start manyHeap)
    ((List.range n).map fun i => .lazyLink (0x1000 + 12 * i)) = .ok s ∧ LinkedMany n s := by
  induction n with
  | zero => exact ⟨_, rfl, rfl, rfl, rfl, fun i _ => manyHeap_returns i⟩
  | succ n ih =>
    obtain ⟨s, hrun, hs⟩ := ih (Nat.le_of_succ_le hn)
    obtain ⟨s', hstep, hs'⟩ := step_many hn hs
    refine ⟨s', ?_, hs'⟩
    rw [List.range_succ, List.map_append, run_append_ok]
    exact ⟨s, hrun, run_cons_ok.2 ⟨s', hstep, rfl⟩⟩

/-- **The number of the flag.** The stub that is linked after 2²³ − 3 others gets the number of the flag, with which the linker
is called again. -/
theorem number_of_the_flag : ¬∀ (dylibs : List (HostDylib Unit Unit)) (bins : List MachO) (h : Heap) (ops : List (Op Unit)),
    Throughout (step dylibs bins) (WordsDecode dylibs bins) (start h) ops := by
  intro hall
  obtain ⟨s, hrun, hs⟩ := run_many (n := 2 ^ 23 - 3) (Nat.sub_le _ _)
  obtain ⟨s', hstep, hs'⟩ := step_many (Nat.sub_lt (by decide) (by decide)) hs
  have hrun' : run (step fooDylibs [manyStubs]) (start manyHeap)
      (((List.range (2 ^ 23 - 3)).map fun i => .lazyLink (0x1000 + 12 * i)) ++ [.lazyLink (0x1000 + 12 * (2 ^ 23 - 3))]) =
      .ok s' := run_append_ok.2 ⟨s, hrun, run_cons_ok.2 ⟨s', hstep, rfl⟩⟩
  obtain ⟨hwords, -⟩ := (hall fooDylibs [manyStubs] manyHeap _).inv (I := fun _ => True) (fun _ _ _ _ _ _ _ => trivial)
    trivial hrun'
  rcases step_cases hstep with ⟨⟨hlinked, -⟩, -⟩ | ⟨w, hl, -⟩
  · have hlen := hs'.linked
    rw [hlinked, hs.linked] at hlen
    omega
  · have hdecodes := hwords w (by rw [hl.written]; exact List.mem_append_right _ List.mem_cons_self)
    have hlow := (word_decodes_iff hl.entryWord).1 hdecodes
    rw [hs.linked] at hlow
    exact absurd hlow (by decide)

end TouchHLE.Dyld.SvcWords
