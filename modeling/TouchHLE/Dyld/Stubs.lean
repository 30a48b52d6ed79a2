/-
Where a linked stub jumps (`link_by_restoring_stub` in `dyld.rs`). A stub of 12 bytes has the address of its lazy symbol
pointer in its last word, one of 16 bytes the distance to it, and one of 4 bytes is a single load relative to the PC, which
is 8 bytes ahead of the instruction.

- `StubImage`: the stubs and lazy symbol pointers of a binary.
- `jumpsThrough`: the address from which the code of a stub loads the address that it jumps to.
- `Compiled`: stubs as a compiler makes them. `Literals`: what is left of them when they are set up for lazy linking.
- `OwnSlot`: a link restores a stub that jumps through its own pointer, fills that pointer in and writes nothing else.
- `link_long`, `link_word`: a longer stub does, a stub of 4 bytes never does.
- `own_slot_iff`: the stubs that are called first in any order, and which of them are linked as they must be.
-/
import TouchHLE.Dyld.Linker

namespace TouchHLE.Dyld

open Machine Mem Words

/-! ## Stubs in memory -/

/-- the stubs of a binary, and as many lazy symbol pointers -/
structure StubImage where
  bin : MachO
  stubs : Section
  info : DyldIndirectSymbolInfo
  lazyPtrs : Section
  count : ℕ
  hstubs : bin.symbolStubs = some stubs
  hinfo : stubs.dyldIndirectSymbolInfo = some info
  hlazy : bin.lazySymbolPointers = some lazyPtrs
  entry : info.entrySize = 4 ∨ info.entrySize = 12 ∨ info.entrySize = 16
  size : stubs.size = count * info.entrySize
  ptrsSize : lazyPtrs.size = count * 4
  inside : stubs.addr + stubs.size < 2 ^ 32 ∧ lazyPtrs.addr + lazyPtrs.size < 2 ^ 32
  apart : stubs.addr + stubs.size ≤ lazyPtrs.addr ∨ lazyPtrs.addr + lazyPtrs.size ≤ stubs.addr

namespace StubImage

variable (m : StubImage)

/-- the address of a stub -/
def stub (i : ℕ) : ℕ := m.stubs.addr + i * m.info.entrySize

/-- the address of its pointer -/
def slot (i : ℕ) : ℕ := m.lazyPtrs.addr + i * 4

/-- the address belongs to the stubs or to the pointers -/
def Has (x : ℕ) : Prop :=
  m.stubs.addr ≤ x ∧ x < m.stubs.addr + m.stubs.size ∨ m.lazyPtrs.addr ≤ x ∧ x < m.lazyPtrs.addr + m.lazyPtrs.size

end StubImage

/-- two binaries do not overlap -/
def Apart (m m' : StubImage) : Prop := ∀ x, m.Has x → ¬m'.Has x

/-- The code at `pc`, where the register IP has the value `ip`: the address from which it loads the PC, if it is a load of
the PC, perhaps after loads of IP and additions of the PC to it. The PC reads as 8 more than the address of the
instruction. -/
def jumpsThrough (b : Bytes) : ℕ → ℕ → ℕ → Option ℕ
  | 0, _, _ => none
  | n + 1, pc, ip =>
    let instr := loadWord b pc
    let imm := (instr &&& 0xfff).toNat
    if instr &&& 0xfffff000 = 0xe59ff000 then some ((pc + 8 + imm) % 2 ^ 32)
    else if instr &&& 0xfffff000 = 0xe59cf000 then some ((ip + imm) % 2 ^ 32)
    else if instr &&& 0xfffff000 = 0xe59fc000 then jumpsThrough b n (pc + 4) (loadWord b ((pc + 8 + imm) % 2 ^ 32)).toNat
    else if instr = 0xe08fc00c then jumpsThrough b n (pc + 4) ((pc + 8 + ip) % 2 ^ 32)
    else none

/-- what stands in the last word of a stub of 12 or 16 bytes -/
def literal (m : StubImage) (i : ℕ) : UInt32 :=
  if m.info.entrySize = 12 then UInt32.ofNat (m.slot i)
  else UInt32.ofNat (m.slot i) - UInt32.ofNat (m.stub i + 12)

/-- the last word of every stub of 12 or 16 bytes leads to its pointer -/
structure Literals (m : StubImage) (h : Heap) : Prop where
  stubsMapped : h.nullSegmentSize ≤ m.stubs.addr
  ptrsMapped : h.nullSegmentSize ≤ m.lazyPtrs.addr
  last : m.info.entrySize ≠ 4 → ∀ i < m.count, loadWord h.bytes (m.stub i + (m.info.entrySize - 4)) = literal m i

/-- the stubs that a compiler makes: they jump through their own pointers -/
structure Compiled (m : StubImage) (h : Heap) : Prop extends Literals m h where
  jumps : ∀ i < m.count, jumpsThrough h.bytes 3 (m.stub i) 0 = some (m.slot i)

/-! ## Linking -/

section

variable {F K : Type} {images : List StubImage}

/-- the stub `index` of a binary is called before it is linked -/
structure StubCall (images : List StubImage) where
  image : StubImage
  mem : image ∈ images
  index : Fin image.count

/-- `do_lazy_link` for the stub -/
def lazyStep (dylibs : List (HostDylib F K)) (images : List StubImage) (s : Dyld F K × Heap) (o : StubCall images) :
    Except Panic (Dyld F K × Heap) := do
  let (_, d, h) ← doLazyLink dylibs (images.map StubImage.bin) (o.image.stub o.index) s.1 s.2
  pure (d, h)

/-- the address that a stub is restored for, if its function is not linked to the host with an SVC -/
def jumpTarget (dylibs : List (HostDylib F K)) (bins : List MachO) (d : Dyld F K) (symbol : String) : Option UInt32 :=
  match d.nonLazyHostFunctions symbol with
  | some addr => some addr
  | none =>
    match searchHostDylibs dylibs HostDylib.functionExports symbol with
    | some _ => none
    | none => searchBins bins symbol

/-- the stub that is called has a symbol that makes it jump to `target` -/
def Restored (dylibs : List (HostDylib F K)) (s : Dyld F K × Heap) (o : StubCall images) (target : UInt32) : Prop :=
  ∃ symbol, o.image.info.indirectUndefSymbols[o.index.val]? = some (some symbol) ∧
    jumpTarget dylibs (images.map StubImage.bin) s.1 symbol = some target

/-- the link of a stub and of nothing else -/
structure OwnSlot (m : StubImage) (i : ℕ) (target : UInt32) (h h' : Heap) : Prop where
  jumps : jumpsThrough h'.bytes 3 (m.stub i) 0 = some (m.slot i)
  filled : loadWord h'.bytes (m.slot i) = target
  only : ∀ x, x < m.stub i ∨ m.stub i + m.info.entrySize ≤ x → x < m.slot i ∨ m.slot i + 4 ≤ x → h'.bytes x = h.bytes x

/-- **A link is as it must be**: if the stub is restored, it is linked through its own pointer. -/
def LinksOwnSlot (dylibs : List (HostDylib F K)) (s : Dyld F K × Heap) (o : StubCall images) : Prop :=
  ∀ target, Restored dylibs s o target →
    ∃ s', lazyStep dylibs images s o = .ok s' ∧ OwnSlot o.image o.index target s.2 s'.2

/-- stubs that are longer than one word and below the pointers -/
def LongStub (m : StubImage) : Prop := m.info.entrySize ≠ 4 ∧ m.stubs.addr ≤ m.lazyPtrs.addr

/-- if the stub is restored, it is a long one -/
def RestoresLong (dylibs : List (HostDylib F K)) (s : Dyld F K × Heap) (o : StubCall images) : Prop :=
  ∀ target, Restored dylibs s o target → LongStub o.image

end

/-! ## Addresses -/

namespace StubImage

variable {m : StubImage} {i : ℕ}

theorem stub_range (hi : i < m.count) : m.stubs.addr ≤ m.stub i ∧ m.stub i + m.info.entrySize ≤ m.stubs.addr + m.stubs.size := by
  have hmul : i * m.info.entrySize + m.info.entrySize ≤ m.count * m.info.entrySize := by
    rw [← Nat.succ_mul]
    exact Nat.mul_le_mul_right _ hi
  rw [m.size]
  unfold stub
  omega

theorem slot_range (hi : i < m.count) : m.lazyPtrs.addr ≤ m.slot i ∧ m.slot i + 4 ≤ m.lazyPtrs.addr + m.lazyPtrs.size := by
  rw [m.ptrsSize]
  unfold slot
  omega

end StubImage

theorem StubImage.has_of_stub {m : StubImage} {i x : ℕ} (hi : i < m.count) (h : m.stub i ≤ x)
    (h' : x < m.stub i + m.info.entrySize) : m.Has x := by
  have hrange := StubImage.stub_range hi
  exact .inl ⟨by omega, by omega⟩

theorem StubImage.has_of_slot {m : StubImage} {i x : ℕ} (hi : i < m.count) (h : m.slot i ≤ x) (h' : x < m.slot i + 4) :
    m.Has x := by
  have hrange := StubImage.slot_range hi
  exact .inr ⟨by omega, by omega⟩

instance : Std.Symm Apart := ⟨fun _ _ h x hx hx' => h x hx' hx⟩

/-- ranges of two binaries that do not overlap -/
theorem Apart.ranges {m m' : StubImage} {a b n k : ℕ} (h : Apart m m') (hn : 0 < n) (hk : 0 < k)
    (hb : ∀ x, b ≤ x → x < b + k → m.Has x) (ha : ∀ x, a ≤ x → x < a + n → m'.Has x) : a + n ≤ b ∨ b + k ≤ a := by
  by_contra hover
  have hmax := h (max a b) (hb _ (by omega) (by omega))
  exact hmax (ha _ (by omega) (by omega))

section

variable {m : StubImage} {images : List StubImage} {i : ℕ} {h : Heap} {a n : ℕ} {v : UInt32}

theorem writeAt_ok (hnull : h.nullSegmentSize ≤ a + n * 4) (hlt : a + n * 4 + 4 ≤ 2 ^ 32) :
    writeAt h a n v = .ok { h with bytes := storeWord h.bytes (a + n * 4) v } := by
  have hptr : ptrAdd a n 4 = .ok (a + n * 4) := if_pos (by omega)
  rw [writeAt, hptr, ok_bind, Mem.writeU32_ok ⟨hnull, hlt⟩, ok_bind, pure_eq_ok]

theorem writeAt_cases {h' : Heap} (hw : writeAt h a n v = .ok h') :
    h' = { h with bytes := storeWord h.bytes (a + n * 4) v } := by
  obtain ⟨p, hp, hw⟩ := bind_eq_ok.1 hw
  obtain ⟨mem, hmem, hw⟩ := bind_eq_ok.1 hw
  cases hw
  obtain ⟨-, rfl⟩ := Mem.writeU32_cases hmem
  unfold ptrAdd at hp
  split_ifs at hp
  cases hp
  rfl

theorem readAt_ok (hnull : h.nullSegmentSize ≤ a + n * 4) (hlt : a + n * 4 + 4 ≤ 2 ^ 32) :
    readAt h a n = .ok (loadWord h.bytes (a + n * 4)) := by
  have hptr : ptrAdd a n 4 = .ok (a + n * 4) := if_pos (by omega)
  rw [readAt, hptr, ok_bind, Mem.readU32_ok ⟨hnull, hlt⟩]

end

/-! ## What a stub jumps through -/

section

variable {b : Bytes} {p q n ip : ℕ}

/-- a load of the register IP from `imm` bytes after the PC -/
theorem jumpsThrough_load {instr : UInt32} (imm : ℕ) (hinstr : loadWord b p = instr)
    (hload : instr &&& 0xfffff000 = 0xe59fc000) (himm : (instr &&& 0xfff).toNat = imm) (hp : p + 8 + imm < 2 ^ 32) :
    jumpsThrough b (n + 1) p ip = jumpsThrough b n (p + 4) (loadWord b (p + 8 + imm)).toNat := by
  rw [jumpsThrough, hinstr]
  simp only [hload, himm]
  rw [if_neg (by decide), if_neg (by decide), if_pos trivial, Nat.mod_eq_of_lt hp]

/-- an addition of the PC to IP -/
theorem jumpsThrough_add (hinstr : loadWord b p = 0xe08fc00c) (hp : p + 8 + ip < 2 ^ 32) :
    jumpsThrough b (n + 1) p ip = jumpsThrough b n (p + 4) (p + 8 + ip) := by
  rw [jumpsThrough, hinstr]
  rw [if_neg (by decide), if_neg (by decide), if_neg (by decide), if_pos rfl, Nat.mod_eq_of_lt hp]

/-- a jump through the address in IP -/
theorem jumpsThrough_jump (hinstr : loadWord b p = 0xe59cf000) (hip : ip < 2 ^ 32) :
    jumpsThrough b (n + 1) p ip = some ip := by
  rw [jumpsThrough, hinstr]
  rw [if_neg (by decide), if_pos (by decide), show ((0xe59cf000 : UInt32) &&& 0xfff).toNat = 0 by decide, Nat.add_zero,
    Nat.mod_eq_of_lt hip]

theorem jumps12 (h0 : loadWord b p = 0xe59fc000) (h1 : loadWord b (p + 4) = 0xe59cf000)
    (h2 : loadWord b (p + 8) = UInt32.ofNat q) (hp : p + 12 ≤ 2 ^ 32) (hq : q < 2 ^ 32) :
    jumpsThrough b 3 p 0 = some q := by
  have hliteral : (loadWord b (p + 8)).toNat = q := by rw [h2, UInt32.toNat_ofNat', Nat.mod_eq_of_lt hq]
  rw [jumpsThrough_load 0 h0 (by decide) (by decide) (by omega), Nat.add_zero, hliteral, jumpsThrough_jump h1 hq]

theorem jumps16 {v : UInt32} (h0 : loadWord b p = 0xe59fc004) (h1 : loadWord b (p + 4) = 0xe08fc00c)
    (h2 : loadWord b (p + 8) = 0xe59cf000) (h3 : loadWord b (p + 12) = v) (hq : p + 12 + v.toNat < 2 ^ 32) :
    jumpsThrough b 3 p 0 = some (p + 12 + v.toNat) := by
  rw [jumpsThrough_load 4 h0 (by decide) (by decide) (by omega), h3, jumpsThrough_add h1 (by omega), jumpsThrough_jump h2 hq]

end

/-! ## Restoring a stub -/

section

variable {m : StubImage} {i : ℕ} {h : Heap} {b : Bytes} {instrs : List UInt32} {target : UInt32} {pic : ℕ}

/-- the slot of a stub is apart from it -/
theorem slot_apart (m : StubImage) (hi : i < m.count) :
    m.stub i + m.info.entrySize ≤ m.slot i ∨ m.slot i + 4 ≤ m.stub i := by
  have hstub := StubImage.stub_range hi
  have hslot := StubImage.slot_range hi
  have hapart := m.apart
  omega

/-- what a link leaves alone: everything but a stub and its pointer, and the last word of a longer stub -/
structure LinkFrame (m : StubImage) (i : ℕ) (h h' : Heap) : Prop where
  null : h'.nullSegmentSize = h.nullSegmentSize
  only : ∀ x, x < m.stub i ∨ m.stub i + m.info.entrySize ≤ x → x < m.slot i ∨ m.slot i + 4 ≤ x → h'.bytes x = h.bytes x
  last : m.info.entrySize ≠ 4 →
    loadWord h'.bytes (m.stub i + (m.info.entrySize - 4)) = loadWord h.bytes (m.stub i + (m.info.entrySize - 4))

/-- a stub that is restored, and whose code finds the pointer, is linked as it must be -/
theorem restore_own (hi : i < m.count) (hl : Literals m h)
    (horig : originalInstructions m.info.entrySize = .ok instrs)
    (hrestore : restoreInstructions (m.stub i) m.info.entrySize pic instrs h = .ok { h with bytes := b })
    (hptr : laSymbolPtr (m.stub i) m.info.entrySize instrs.length { h with bytes := b } = .ok (m.slot i))
    (hout : ∀ x, x < m.stub i ∨ m.stub i + (m.info.entrySize - 4) ≤ x → b x = h.bytes x)
    (hjumps : ∀ b', (∀ k, k + 4 ≤ m.info.entrySize → loadWord b' (m.stub i + k) = loadWord b (m.stub i + k)) →
      jumpsThrough b' 3 (m.stub i) 0 = some (m.slot i)) :
    ∃ h', linkByRestoringStub h target (m.stub i) m.info.entrySize pic = .ok h' ∧ OwnSlot m i target h h' ∧
      LinkFrame m i h h' := by
  have hslot := StubImage.slot_range hi
  have hapart := slot_apart m hi
  have hentry := m.entry
  have hinside := m.inside
  have hptrs := hl.ptrsMapped
  have hkeep : ∀ k, k + 4 ≤ m.info.entrySize →
      loadWord (storeWord b (m.slot i) target) (m.stub i + k) = loadWord b (m.stub i + k) := by
    intro k hk
    exact loadWord_storeWord_of_disjoint (by omega)
  have honly : ∀ x, x < m.stub i ∨ m.stub i + m.info.entrySize ≤ x → x < m.slot i ∨ m.slot i + 4 ≤ x →
      storeWord b (m.slot i) target x = h.bytes x := by
    intro x h1 h2
    rw [storeWord_outside h2]
    exact hout x (by omega)
  refine ⟨{ h with bytes := storeWord b (m.slot i) target }, ?_, ⟨hjumps _ hkeep, loadWord_storeWord, honly⟩, rfl, honly, ?_⟩
  · rw [linkByRestoringStub, horig, ok_bind, hrestore, ok_bind, hptr, ok_bind, writeAt_ok (by simpa using by omega) (by omega)]
    rfl
  · intro _
    show loadWord (storeWord b (m.slot i) target) _ = _
    rw [hkeep _ (by omega)]
    exact congrArg leWord (load_congr fun x h1 _ => hout x (.inr h1))

theorem restore12 (hi : i < m.count) (hl : Literals m h) (h12 : m.info.entrySize = 12) :
    ∃ h', linkByRestoringStub h target (m.stub i) m.info.entrySize pic = .ok h' ∧ OwnSlot m i target h h' ∧
      LinkFrame m i h h' := by
  have hstub := StubImage.stub_range hi
  have hslot := StubImage.slot_range hi
  have hinside := m.inside
  have hmapped := hl.stubsMapped
  have hlast := hl.last (by omega) i hi
  rw [literal, if_pos h12, h12] at hlast
  -- the two instructions, and the literal after them
  let b := storeWord (storeWord h.bytes (m.stub i) 0xe59fc000) (m.stub i + 4) 0xe59cf000
  have hfirst : loadWord b (m.stub i) = 0xe59fc000 := by
    rw [loadWord_storeWord_of_disjoint (by omega), loadWord_storeWord]
  have hsecond : loadWord b (m.stub i + 4) = 0xe59cf000 := loadWord_storeWord
  have hliteral : loadWord b (m.stub i + 8) = UInt32.ofNat (m.slot i) := by
    rw [← hlast, loadWord_storeWord_of_disjoint (by omega), loadWord_storeWord_of_disjoint (by omega)]
  have htoNat : (UInt32.ofNat (m.slot i)).toNat = m.slot i := by
    rw [UInt32.toNat_ofNat']
    exact Nat.mod_eq_of_lt (by omega)
  have horig : originalInstructions m.info.entrySize = .ok symbolStubInstructions := by
    rw [h12]
    rfl
  refine restore_own (b := b) hi hl horig ?_ ?_ ?_ ?_
  · rw [h12] at hstub ⊢
    simp only [restoreInstructions, symbolStubInstructions, writeInstructions]
    rw [if_neg (by decide), writeAt_ok (by omega) (by omega), ok_bind, writeAt_ok (by simpa using by omega) (by omega)]
    rfl
  · rw [h12] at hstub ⊢
    rw [laSymbolPtr, if_pos rfl, show symbolStubInstructions.length = 2 from rfl,
      readAt_ok (by simpa using by omega) (by omega), ok_bind, hliteral, htoNat, pure_eq_ok]
  · intro x hx
    rw [h12] at hx
    change storeWord (storeWord h.bytes _ _) _ _ x = h.bytes x
    rw [storeWord_outside (by omega), storeWord_outside (by omega)]
  · intro b' hb
    rw [h12] at hb
    exact jumps12 ((hb 0 (by decide)).trans hfirst) ((hb 4 (by decide)).trans hsecond) ((hb 8 (by decide)).trans hliteral)
      (by omega) (by omega)

theorem restore16 (hi : i < m.count) (hl : Literals m h) (h16 : m.info.entrySize = 16)
    (hle : m.stubs.addr ≤ m.lazyPtrs.addr) :
    ∃ h', linkByRestoringStub h target (m.stub i) m.info.entrySize pic = .ok h' ∧ OwnSlot m i target h h' ∧
      LinkFrame m i h h' := by
  have hstub := StubImage.stub_range hi
  have hslot := StubImage.slot_range hi
  have happ := m.apart
  have hinside := m.inside
  have hmapped := hl.stubsMapped
  have hlast := hl.last (by omega) i hi
  have hnot : m.info.entrySize ≠ 12 := by omega
  rw [literal, if_neg hnot, h16] at hlast
  -- the three instructions, and the distance after them
  let b := storeWord (storeWord (storeWord h.bytes (m.stub i) 0xe59fc004) (m.stub i + 4) 0xe08fc00c) (m.stub i + 8) 0xe59cf000
  have hfirst : loadWord b (m.stub i) = 0xe59fc004 := by
    rw [loadWord_storeWord_of_disjoint (by omega), loadWord_storeWord_of_disjoint (by omega), loadWord_storeWord]
  have hsecond : loadWord b (m.stub i + 4) = 0xe08fc00c := by
    rw [loadWord_storeWord_of_disjoint (by omega), loadWord_storeWord]
  have hthird : loadWord b (m.stub i + 8) = 0xe59cf000 := loadWord_storeWord
  have hliteral : loadWord b (m.stub i + 12) = UInt32.ofNat (m.slot i) - UInt32.ofNat (m.stub i + 12) := by
    rw [← hlast, loadWord_storeWord_of_disjoint (by omega), loadWord_storeWord_of_disjoint (by omega),
      loadWord_storeWord_of_disjoint (by omega)]
  have hdistance : (UInt32.ofNat (m.slot i) - UInt32.ofNat (m.stub i + 12)).toNat = m.slot i - (m.stub i + 12) := by
    rw [UInt32.toNat_sub_of_le, UInt32.toNat_ofNat', UInt32.toNat_ofNat', Nat.mod_eq_of_lt (by omega),
      Nat.mod_eq_of_lt (by omega)]
    rw [UInt32.le_iff_toNat_le, UInt32.toNat_ofNat', UInt32.toNat_ofNat', Nat.mod_eq_of_lt (by omega),
      Nat.mod_eq_of_lt (by omega)]
    omega
  have horig : originalInstructions m.info.entrySize = .ok picSymbolStubInstructions := by
    rw [h16]
    rfl
  refine restore_own (b := b) hi hl horig ?_ ?_ ?_ ?_
  · rw [h16] at hstub ⊢
    simp only [restoreInstructions, picSymbolStubInstructions, writeInstructions]
    rw [if_neg (by decide), writeAt_ok (by omega) (by omega), ok_bind, writeAt_ok (by simpa using by omega) (by omega),
      ok_bind, writeAt_ok (by simpa using by omega) (by omega)]
    rfl
  · rw [h16] at hstub ⊢
    rw [laSymbolPtr, if_neg (by decide), if_neg (by decide), show picSymbolStubInstructions.length = 3 from rfl,
      readAt_ok (by simpa using by omega) (by omega), ok_bind, hliteral, hdistance, add32_ok (by omega), ok_bind,
      add32_ok (by omega)]
    congr 1
    omega
  · intro x hx
    rw [h16] at hx
    change storeWord (storeWord (storeWord h.bytes _ _) _ _) _ _ x = h.bytes x
    rw [storeWord_outside (by omega), storeWord_outside (by omega), storeWord_outside (by omega)]
  · intro b' hb
    rw [h16] at hb
    rw [jumps16 (p := m.stub i) ((hb 0 (by decide)).trans hfirst) ((hb 4 (by decide)).trans hsecond) ((hb 8 (by decide)).trans hthird)
      ((hb 12 (by decide)).trans hliteral) (by rw [hdistance]; omega), hdistance]
    congr 1
    omega

/-- **A long stub is linked as it must be.** -/
theorem restore_long (hi : i < m.count) (hl : Literals m h) (hlong : LongStub m) :
    ∃ h', linkByRestoringStub h target (m.stub i) m.info.entrySize pic = .ok h' ∧ OwnSlot m i target h h' ∧
      LinkFrame m i h h' := by
  rcases m.entry with h4 | h12 | h16
  · exact absurd h4 hlong.1
  · exact restore12 hi hl h12
  · exact restore16 hi hl h16 hlong.2

/-! ## Stubs of one word -/

theorem or_and_testBit {a x c mask : UInt32} (k : ℕ) (h : (a ||| x) &&& mask = c) (ha : a.toNat.testBit k = true)
    (hmask : mask.toNat.testBit k = true) : c.toNat.testBit k = true := by
  rw [← h, UInt32.toNat_and, UInt32.toNat_or, Nat.testBit_and, Nat.testBit_or, ha, hmask]
  rfl

theorem word_imm (x : ℕ) : ((0xe59ff000 ||| UInt32.ofNat x) &&& 0xfff).toNat = x % 4096 := by
  have h12 : x % 2 ^ 32 % 4096 = x % 4096 := by omega
  calc ((0xe59ff000 ||| UInt32.ofNat x) &&& 0xfff).toNat = (0xe59ff000 ||| x % 2 ^ 32) &&& (2 ^ 12 - 1) := by
        rw [UInt32.toNat_and, UInt32.toNat_or, UInt32.toNat_ofNat']
        rfl
    _ = (0xe59ff000 ||| x % 2 ^ 32) % 2 ^ 12 := Nat.and_two_pow_sub_one_eq_mod _ _
    _ = 0xe59ff000 % 2 ^ 12 ||| x % 2 ^ 32 % 2 ^ 12 := Nat.or_mod_two_pow
    _ = 0 ||| x % 4096 := by rw [show 2 ^ 12 = 4096 from rfl, h12]
    _ = x % 4096 := Nat.zero_or _

/-- a single load of the PC, with any distance in it: the low bits of the address that it jumps through -/
theorem jumpsThrough_word {p x n slot : ℕ} {b : Bytes} (hinstr : loadWord b p = 0xe59ff000 ||| UInt32.ofNat x)
    (hjump : jumpsThrough b (n + 1) p 0 = some slot) : slot % 4096 = (p + 8 + x) % 4096 := by
  rw [jumpsThrough, hinstr] at hjump
  simp only [word_imm] at hjump
  split_ifs at hjump with h1 h2 h3 h4
  · have hslot := Option.some.inj hjump
    omega
  -- the bits of the single load exclude the other instructions
  · exact absurd (or_and_testBit 16 h2 (by decide) (by decide)) (by decide)
  · exact absurd (or_and_testBit 12 h3 (by decide) (by decide)) (by decide)
  · have hand : (0xe59ff000 ||| UInt32.ofNat x) &&& 0xffffffff = 0xe08fc00c := by
      rw [h4]
      decide
    exact absurd (or_and_testBit 12 hand (by decide) (by decide)) (by decide)

/-- **A stub of one word** does not jump through its own pointer after a link: the distance between the sections is
relative to its address, and not to the PC. -/
theorem restore_word {h' : Heap} (h4 : m.info.entrySize = 4) (hle : m.stubs.addr ≤ m.lazyPtrs.addr)
    (hlink : linkByRestoringStub h target (m.stub i) m.info.entrySize (m.lazyPtrs.addr - m.stubs.addr) = .ok h') :
    ¬OwnSlot m i target h h' := by
  intro hown
  rw [h4, linkByRestoringStub, show originalInstructions 4 = .ok symbolStub1Instructions from rfl, ok_bind] at hlink
  obtain ⟨h1, hrestore, hlink⟩ := bind_eq_ok.1 hlink
  obtain ⟨ptr, hptr, hlink⟩ := bind_eq_ok.1 hlink
  rw [restoreInstructions, if_pos rfl] at hrestore
  obtain rfl := writeAt_cases hrestore
  obtain rfl := writeAt_cases hlink
  rw [laSymbolPtr, if_neg (by decide), if_pos rfl] at hptr
  obtain ⟨instr, -, hptr⟩ := bind_eq_ok.1 hptr
  obtain ⟨q, hq, hptr⟩ := bind_eq_ok.1 hptr
  have hq' := (add32_cases hq).1
  have hptr' := (add32_cases hptr).1
  -- the pointer is above the stub, so the restored instruction stays
  have hinstr : loadWord (storeWord (storeWord h.bytes (m.stub i + 0 * 4) (0xe59ff000 |||
      UInt32.ofNat (m.lazyPtrs.addr - m.stubs.addr))) (ptr + 0 * 4) target) (m.stub i) =
      0xe59ff000 ||| UInt32.ofNat (m.lazyPtrs.addr - m.stubs.addr) := by
    rw [loadWord_storeWord_of_disjoint (by omega), Nat.zero_mul, Nat.add_zero, loadWord_storeWord]
  have hmod := jumpsThrough_word hinstr hown.jumps
  unfold StubImage.slot StubImage.stub at hmod
  rw [h4] at hmod
  omega

end

/-! ## Calls of stubs -/

section

variable {F K : Type} {dylibs : List (HostDylib F K)} {images : List StubImage} {m : StubImage} {i : ℕ} {h h' : Heap}
  {m' : StubImage}

/-- the stub of an image is found in it -/
theorem findStubs_own (hpair : images.Pairwise Apart) (hm : m ∈ images) (hi : i < m.count) :
    findStubs (images.map StubImage.bin) (m.stub i) =
      sub32 m.lazyPtrs.addr m.stubs.addr >>= fun picOffset => .ok (some (m.stubs, picOffset)) := by
  induction images with
  | nil => cases hm
  | cons m' images ih =>
    obtain ⟨hhead, hpair⟩ := List.pairwise_cons.1 hpair
    have hrange := StubImage.stub_range hi
    have hentry := m.entry
    have hadd : add32 m'.stubs.addr m'.stubs.size = .ok (m'.stubs.addr + m'.stubs.size) := add32_ok m'.inside.1
    simp only [List.map_cons, findStubs, m'.hstubs, hadd, ok_bind]
    rcases List.mem_cons.1 hm with rfl | hm
    · rw [if_pos ⟨hrange.1, by omega⟩, lazyDistance, m.hlazy]
      rfl
    · have hnot : ¬(m'.stubs.addr ≤ m.stub i ∧ m.stub i < m'.stubs.addr + m'.stubs.size) := fun hin =>
        hhead m hm (m.stub i) (.inl hin) (StubImage.has_of_stub hi (le_refl _) (by omega))
      rw [if_neg hnot]
      exact ih hpair hm

/-- the stub that the linker finds for a stub of an image -/
theorem findStub_own (hpair : images.Pairwise Apart) (hm : m ∈ images) (hi : i < m.count) :
    findStub (images.map StubImage.bin) (m.stub i) = sub32 m.lazyPtrs.addr m.stubs.addr >>= fun picOffset =>
      match m.info.indirectUndefSymbols[i]? with
      | none => throw .index
      | some symbol => unwrap symbol .missing >>= fun symbol => .ok ⟨symbol, m.info.entrySize, picOffset⟩ := by
  have hentry := m.entry
  have hoffset : m.stub i - m.stubs.addr = i * m.info.entrySize := Nat.add_sub_cancel_left _ _
  have hindex : i * m.info.entrySize / m.info.entrySize = i := Nat.mul_div_cancel _ (by omega)
  have haligned : i * m.info.entrySize % m.info.entrySize = 0 := Nat.mul_mod_left _ _
  have hpos : m.info.entrySize ≠ 0 := by omega
  rw [findStub, findStubs_own hpair hm hi]
  cases sub32 m.lazyPtrs.addr m.stubs.addr with
  | error e => rfl
  | ok picOffset =>
    simp only [ok_bind, unwrap, m.hinfo, hoffset, hindex, haligned, decide_true, ne_eq, hpos, not_false_eq_true,
      assert, if_pos]
    cases m.info.indirectUndefSymbols[i]? with
    | none => rfl
    | some symbol => cases symbol <;> rfl

/-- a stub that is restored: the distance to the pointers must not be negative -/
theorem lazyStep_restored {s : Dyld F K × Heap} {o : StubCall images} {target : UInt32} (hpair : images.Pairwise Apart)
    (hr : Restored dylibs s o target) : lazyStep dylibs images s o =
      sub32 o.image.lazyPtrs.addr o.image.stubs.addr >>= fun picOffset =>
        linkByRestoringStub s.2 target (o.image.stub o.index) o.image.info.entrySize picOffset >>= fun h => .ok (s.1, h) := by
  obtain ⟨symbol, hsymbol, hjump⟩ := hr
  rw [lazyStep, doLazyLink, findStub_own hpair o.mem o.index.isLt]
  cases sub32 o.image.lazyPtrs.addr o.image.stubs.addr with
  | error e => rfl
  | ok picOffset =>
    simp only [ok_bind, hsymbol, unwrap]
    have hlink : linkStub dylibs (images.map StubImage.bin) (o.image.stub o.index)
        ⟨symbol, o.image.info.entrySize, picOffset⟩ s.1 s.2 =
        linkByRestoringStub s.2 target (o.image.stub o.index) o.image.info.entrySize picOffset >>= fun h =>
          .ok (.jump target, s.1, h) := by
      unfold jumpTarget at hjump
      unfold linkStub
      cases hlocal : s.1.nonLazyHostFunctions symbol with
      | some addr =>
        rw [hlocal] at hjump
        cases hjump
        rfl
      | none =>
        rw [hlocal] at hjump
        simp only at hjump ⊢
        cases hhost : searchHostDylibs dylibs HostDylib.functionExports symbol with
        | some e =>
          rw [hhost] at hjump
          cases hjump
        | none =>
          rw [hhost] at hjump
          simp only at hjump ⊢
          rw [hjump]
          rfl
    rw [hlink]
    cases linkByRestoringStub s.2 target (o.image.stub o.index) o.image.info.entrySize picOffset <;> rfl

/-- a write to the code of a stub -/
theorem LinkFrame.of_write {n : ℕ} {v : UInt32} (hn : n * 4 + 4 ≤ if m.info.entrySize = 4 then 4 else m.info.entrySize - 4)
    (hw : writeAt h (m.stub i) n v = .ok h') : LinkFrame m i h h' := by
  obtain rfl := writeAt_cases hw
  refine ⟨rfl, fun x h1 _ => storeWord_outside (by split_ifs at hn <;> omega), fun hlong => ?_⟩
  rw [if_neg hlong] at hn
  exact loadWord_storeWord_of_disjoint (by omega)

theorem LinkFrame.trans {h'' : Heap} (h1 : LinkFrame m i h h') (h2 : LinkFrame m i h' h'') : LinkFrame m i h h'' :=
  ⟨h2.null.trans h1.null, fun x hx hx' => (h2.only x hx hx').trans (h1.only x hx hx'),
    fun hlong => (h2.last hlong).trans (h1.last hlong)⟩

/-- a stub that is linked to the host is only changed in its first word -/
theorem lazyStep_host {s s' : Dyld F K × Heap} {o : StubCall images} (hpair : images.Pairwise Apart)
    (hr : ∀ target, ¬Restored dylibs s o target) (hs : lazyStep dylibs images s o = .ok s') :
    LinkFrame o.image o.index s.2 s'.2 := by
  rw [lazyStep, doLazyLink, findStub_own hpair o.mem o.index.isLt] at hs
  obtain ⟨⟨f, d, h⟩, hlink, hs⟩ := bind_eq_ok.1 hs
  obtain ⟨stub, hfind, hlink⟩ := bind_eq_ok.1 hlink
  obtain ⟨picOffset, -, hfind⟩ := bind_eq_ok.1 hfind
  obtain ⟨⟨linked, d', h'⟩, hstub, hlink⟩ := bind_eq_ok.1 hlink
  have hh : h = s'.2 := by
    cases hs
    rfl
  have hh' : h' = h := by
    cases linked <;> cases hlink <;> rfl
  subst hh'
  rw [← hh]
  have hsymbol : o.image.info.indirectUndefSymbols[o.index.val]? = some (some stub.symbol) := by
    rcases hget : o.image.info.indirectUndefSymbols[o.index.val]? with _ | _ | symbol <;> rw [hget] at hfind <;> cases hfind
    rfl
  have hno (target : UInt32) : jumpTarget dylibs (images.map StubImage.bin) s.1 stub.symbol ≠ some target :=
    fun hjump => hr target ⟨stub.symbol, hsymbol, hjump⟩
  unfold jumpTarget at hno
  unfold linkStub at hstub
  cases hlocal : s.1.nonLazyHostFunctions stub.symbol with
  | some addr =>
    rw [hlocal] at hno
    exact absurd rfl (hno addr)
  | none =>
    rw [hlocal] at hno hstub
    cases hhost : searchHostDylibs dylibs HostDylib.functionExports stub.symbol with
    | some e =>
      rw [hhost] at hstub
      obtain ⟨svc, -, hstub⟩ := bind_eq_ok.1 hstub
      obtain ⟨svc', -, hstub⟩ := bind_eq_ok.1 hstub
      obtain ⟨instr, -, hstub⟩ := bind_eq_ok.1 hstub
      obtain ⟨h₁, hw, hstub⟩ := bind_eq_ok.1 hstub
      obtain ⟨u, -, hstub⟩ := bind_eq_ok.1 hstub
      cases hstub
      have hentry := o.image.entry
      exact LinkFrame.of_write (by split_ifs <;> omega) hw
    | none =>
      rw [hhost] at hno hstub
      simp only at hno hstub
      cases hbins : searchBins (images.map StubImage.bin) stub.symbol with
      | some addr => exact absurd hbins (hno addr)
      | none =>
        rw [hbins] at hstub
        cases hstub

/-! ## What links keep -/

/-- **A link of one stub** keeps the last words of all stubs. -/
theorem Literals.link (hpair : images.Pairwise Apart) (hm : m ∈ images) (hm' : m' ∈ images)
    (hi : i < m.count) (hf : LinkFrame m i h h') (hl : Literals m' h) : Literals m' h' := by
  refine ⟨hf.null ▸ hl.stubsMapped, hf.null ▸ hl.ptrsMapped, fun hlong j hj => ?_⟩
  rw [← hl.last hlong j hj]
  have hentry := m'.entry
  have hrange := StubImage.stub_range hj
  have hslot := StubImage.slot_range hi
  -- the word is changed neither as a part of the stub nor as its pointer
  have hout (hstubs : m'.stub j + m'.info.entrySize ≤ m.stub i ∨ m.stub i + m.info.entrySize ≤ m'.stub j)
      (hslots : m'.stub j + m'.info.entrySize ≤ m.slot i ∨ m.slot i + 4 ≤ m'.stub j) :
      loadWord h'.bytes (m'.stub j + (m'.info.entrySize - 4)) = loadWord h.bytes (m'.stub j + (m'.info.entrySize - 4)) :=
    congrArg leWord (load_congr fun x h1 h2 => hf.only x (by omega) (by omega))
  by_cases heq : m' = m
  · subst heq
    rcases Nat.lt_trichotomy j i with hlt | rfl | hlt
    · have hmul : j * m'.info.entrySize + m'.info.entrySize ≤ i * m'.info.entrySize := by
        rw [← Nat.succ_mul]
        exact Nat.mul_le_mul_right _ hlt
      have hapart := m'.apart
      exact hout (.inl (by unfold StubImage.stub; omega)) (by omega)
    · exact hf.last hlong
    · have hmul : i * m'.info.entrySize + m'.info.entrySize ≤ j * m'.info.entrySize := by
        rw [← Nat.succ_mul]
        exact Nat.mul_le_mul_right _ hlt
      have hapart := m'.apart
      exact hout (.inr (by unfold StubImage.stub; omega)) (by omega)
  · have hapart : Apart m m' := hpair.forall hm hm' (Ne.symm heq)
    have hhas : ∀ x, m'.stub j ≤ x → x < m'.stub j + m'.info.entrySize → m'.Has x := fun x => StubImage.has_of_stub hj
    have hmentry := m.entry
    exact hout (hapart.ranges (by omega) (by omega) (fun x => StubImage.has_of_stub hi) hhas)
      (hapart.ranges (by omega) (by omega) (fun x => StubImage.has_of_slot hi) hhas)

/-! ## Setting the stubs up -/

/-- a stub that is set up is only changed before its last word -/
theorem setupStub_frame (hs : setupStub m.info.entrySize (m.stub i) h = .ok h') : LinkFrame m i h h' := by
  obtain ⟨instrs, -, hs⟩ := bind_eq_ok.1 hs
  obtain ⟨u, -, hs⟩ := bind_eq_ok.1 hs
  obtain ⟨h₁, hcall, hs⟩ := bind_eq_ok.1 hs
  have hentry := m.entry
  have hfirst : LinkFrame m i h h₁ := by
    unfold callLinker at hcall
    split_ifs at hcall with h4
    · obtain ⟨svc, -, hw⟩ := bind_eq_ok.1 hcall
      exact LinkFrame.of_write (by rw [if_pos h4]) hw
    · obtain ⟨svc, -, hcall⟩ := bind_eq_ok.1 hcall
      obtain ⟨h₂, hw, hw'⟩ := bind_eq_ok.1 hcall
      exact (LinkFrame.of_write (by rw [if_neg h4]; omega) hw).trans (LinkFrame.of_write (by rw [if_neg h4]; omega) hw')
  split_ifs at hs with h16
  · exact hfirst.trans (LinkFrame.of_write (by rw [if_neg (by omega), h16]) hs)
  · cases hs
    exact hfirst

theorem setupStubs_literals (hpair : images.Pairwise Apart) (hm : m ∈ images) (hm' : m' ∈ images) {n : ℕ}
    (hn : i + n ≤ m.count) (hs : setupStubs m.stubs.addr m.info.entrySize n i h = .ok h') (hl : Literals m' h) :
    Literals m' h' := by
  induction n generalizing i h with
  | zero =>
    cases hs
    exact hl
  | succ n ih =>
    obtain ⟨offset, hmul, hs⟩ := bind_eq_ok.1 hs
    obtain ⟨ptr, hadd, hs⟩ := bind_eq_ok.1 hs
    obtain ⟨h₁, hstub, hrest⟩ := bind_eq_ok.1 hs
    obtain ⟨rfl, -⟩ := mul32_cases hmul
    obtain ⟨rfl, -⟩ := add32_cases hadd
    exact ih (by omega) hrest (hl.link hpair hm hm' (i := i) (by omega) (setupStub_frame hstub))

/-- stubs that are set up keep the last words of all stubs -/
theorem setupLazyLinking_literals (hpair : images.Pairwise Apart) (hm : m ∈ images) (hm' : m' ∈ images)
    (hs : setupLazyLinking m.bin h = .ok h') (hl : Literals m' h) : Literals m' h' := by
  rw [setupLazyLinking, m.hstubs] at hs
  simp only [m.hinfo, unwrap, ok_bind] at hs
  obtain ⟨instrs, -, hs⟩ := bind_eq_ok.1 hs
  obtain ⟨u, -, hs⟩ := bind_eq_ok.1 hs
  have hentry := m.entry
  have hcount : m.stubs.size / m.info.entrySize = m.count := by
    rw [m.size]
    exact Nat.mul_div_cancel _ (by omega)
  rw [hcount] at hs
  exact setupStubs_literals hpair hm hm' (by omega) hs hl

/-- all binaries are set up in order -/
def setupAll (bins : List MachO) (h : Heap) : Except Panic Heap := bins.foldlM (fun h bin => setupLazyLinking bin h) h

theorem setupAll_literals {images' : List StubImage} (hpair : images.Pairwise Apart)
    (hsub : ∀ m ∈ images', m ∈ images) (hm' : m' ∈ images) (hs : setupAll (images'.map StubImage.bin) h = .ok h')
    (hl : Literals m' h) : Literals m' h' := by
  induction images' generalizing h with
  | nil =>
    cases hs
    exact hl
  | cons m images' ih =>
    obtain ⟨h₁, h1, hs⟩ := bind_eq_ok.1 hs
    have hfirst := setupLazyLinking_literals hpair (hsub m List.mem_cons_self) hm' h1 hl
    exact ih (fun m hm => hsub m (List.mem_cons_of_mem _ hm)) hs hfirst

/-! ## Runs -/

/-- a call of a stub from a state in which the last words are as they were: when it is linked as it must be -/
theorem links_own_slot_iff {s : Dyld F K × Heap} {o : StubCall images} (hpair : images.Pairwise Apart)
    (hl : Literals o.image s.2) : LinksOwnSlot dylibs s o ↔ RestoresLong dylibs s o := by
  refine forall_congr' fun target => forall_congr' fun hr => ?_
  rw [lazyStep_restored hpair hr]
  constructor
  · rintro ⟨s', hs, hown⟩
    obtain ⟨pic, hpic, hs⟩ := bind_eq_ok.1 hs
    obtain ⟨h', hlink, hs⟩ := bind_eq_ok.1 hs
    cases hs
    unfold sub32 at hpic
    split_ifs at hpic with hle
    cases hpic
    exact ⟨fun h4 => restore_word h4 hle hlink hown, hle⟩
  · intro hlong
    obtain ⟨h', hlink, hown, -⟩ := restore_long o.index.isLt hl hlong
    refine ⟨(s.1, h'), ?_, hown⟩
    rw [sub32_ok hlong.2, ok_bind, hlink, ok_bind]

theorem lazyStep_literals {s s' : Dyld F K × Heap} {o : StubCall images} (hpair : images.Pairwise Apart)
    (hl : ∀ m ∈ images, Literals m s.2) (hown : LinksOwnSlot dylibs s o) (hs : lazyStep dylibs images s o = .ok s') :
    ∀ m ∈ images, Literals m s'.2 := by
  intro m' hm'
  have hlong := (links_own_slot_iff hpair (hl _ o.mem)).1 hown
  have hframe : LinkFrame o.image o.index s.2 s'.2 := by
    by_cases hr : ∃ target, Restored dylibs s o target
    · obtain ⟨target, hr⟩ := hr
      rw [lazyStep_restored hpair hr] at hs
      obtain ⟨pic, -, hs⟩ := bind_eq_ok.1 hs
      obtain ⟨h', hlink, hs⟩ := bind_eq_ok.1 hs
      obtain ⟨h'', hlink', -, hframe⟩ := restore_long o.index.isLt (hl _ o.mem) (hlong target hr)
      cases hs
      rw [hlink] at hlink'
      cases hlink'
      exact hframe
    · exact lazyStep_host hpair (not_exists.1 hr) hs
  exact (hl m' hm').link hpair o.mem hm' o.index.isLt hframe

/-- **Links write their own slots.** For binaries with the stubs that a compiler makes, set up for lazy linking, and for
every order in which stubs are called first: all that are restored are linked through their own pointers, and nothing else
is written, exactly if they are long stubs. -/
theorem own_slot_iff {d : Dyld F K} {h₀ : Heap} {ops : List (StubCall images)} (hpair : images.Pairwise Apart)
    (hcompiled : ∀ m ∈ images, Compiled m h₀) (hsetup : setupAll (images.map StubImage.bin) h₀ = .ok h) :
    LegalRun (lazyStep dylibs images) (LinksOwnSlot dylibs) (d, h) ops ↔
      LegalRun (lazyStep dylibs images) (RestoresLong dylibs) (d, h) ops := by
  have hfirst : ∀ m ∈ images, Literals m h := fun m hm =>
    setupAll_literals hpair (fun _ hm => hm) hm hsetup (hcompiled m hm).toLiterals
  exact legalRun_congr_of_kept (I := fun s => ∀ m ∈ images, Literals m s.2)
    (fun s o s' hl hown hs => lazyStep_literals hpair hl hown hs)
    (fun s o hl => links_own_slot_iff hpair (hl _ o.mem)) hfirst

end

/-! ## A binary with one stub -/

/-- one stub at 0x1000 for "_foo", which the binary exports at 0x3000 itself, and its pointer at 0x2000 -/
def oneStub (entrySize : ℕ) (hentry : entrySize = 4 ∨ entrySize = 12) : StubImage where
  bin := ⟨fun name => if name = "_foo" then some 0x3000 else none, some ⟨0x1000, entrySize, some ⟨entrySize, [some "_foo"]⟩⟩,
    some ⟨0x2000, 4, none⟩, none, []⟩
  stubs := ⟨0x1000, entrySize, some ⟨entrySize, [some "_foo"]⟩⟩
  info := ⟨entrySize, [some "_foo"]⟩
  lazyPtrs := ⟨0x2000, 4, none⟩
  count := 1
  hstubs := rfl
  hinfo := rfl
  hlazy := rfl
  entry := hentry.imp_right .inl
  size := (Nat.one_mul _).symm
  ptrsSize := rfl
  inside := by rcases hentry with rfl | rfl <;> decide
  apart := by rcases hentry with rfl | rfl <;> decide

def wordImage : StubImage := oneStub 4 (.inl rfl)

def longImage : StubImage := oneStub 12 (.inr rfl)

/-- "ldr pc, [pc, #0xff8]" -/
def wordHeap : Heap where
  bytes := storeWord (fun _ => 0) 0x1000 0xe59ffff8
  nullSegmentSize := 0x1000
  allocator := Allocator.sampleStart
  zeroMemoryOnFree := true

/-- "ldr ip, [pc]", "ldr pc, [ip]" and the address of the pointer -/
def longHeap : Heap :=
  { wordHeap with bytes := storeWord (storeWord (storeWord (fun _ => 0) 0x1000 0xe59fc000) 0x1004 0xe59cf000) 0x1008 0x2000 }

theorem wordHeap_compiled : Compiled wordImage wordHeap where
  stubsMapped := by decide
  ptrsMapped := by decide
  last h := absurd rfl h
  jumps i hi := by
    obtain rfl : i = 0 := Nat.lt_one_iff.1 hi
    decide +kernel

theorem longHeap_compiled : Compiled longImage longHeap where
  stubsMapped := by decide
  ptrsMapped := by decide
  last _ i hi := by
    obtain rfl : i = 0 := Nat.lt_one_iff.1 hi
    decide +kernel
  jumps i hi := by
    obtain rfl : i = 0 := Nat.lt_one_iff.1 hi
    decide +kernel

/-- the stub set up for lazy linking -/
def longStart : Heap :=
  { longHeap with bytes := storeWord (storeWord longHeap.bytes 0x1000 0xef000000) 0x1004 encodeA32Ret }

theorem own_slot_iff_long :
    LegalRun (lazyStep [] [longImage]) (LinksOwnSlot []) ((new : Dyld Unit Unit), longStart)
        [⟨longImage, List.mem_cons_self, ⟨0, Nat.one_pos⟩⟩] ↔
      LegalRun (lazyStep [] [longImage]) (RestoresLong []) ((new : Dyld Unit Unit), longStart)
        [⟨longImage, List.mem_cons_self, ⟨0, Nat.one_pos⟩⟩] :=
  own_slot_iff (List.pairwise_singleton _ _) (fun _ hm => List.mem_singleton.1 hm ▸ longHeap_compiled) rfl

/-- **A stub of one word is linked through the wrong pointer.** -/
theorem one_word_stub : ¬∀ (images : List StubImage) (dylibs : List (HostDylib Unit Unit)) (d : Dyld Unit Unit) (h₀ h : Heap)
    (ops : List (StubCall images)), images.Pairwise Apart → (∀ m ∈ images, Compiled m h₀) →
    setupAll (images.map StubImage.bin) h₀ = .ok h →
    LegalRun (lazyStep dylibs images) (LinksOwnSlot dylibs) (d, h) ops := by
  intro hall
  have hpair : [wordImage].Pairwise Apart := List.pairwise_singleton _ _
  have hcompiled : ∀ m ∈ [wordImage], Compiled m wordHeap := fun m hm => List.mem_singleton.1 hm ▸ wordHeap_compiled
  have hsetup : setupAll [wordImage.bin] wordHeap =
      .ok { wordHeap with bytes := storeWord wordHeap.bytes 0x1000 0xef800000 } := rfl
  have hrun := hall [wordImage] [] new wordHeap _ [⟨wordImage, List.mem_cons_self, ⟨0, Nat.one_pos⟩⟩] hpair hcompiled hsetup
  have hrestored : Restored ([] : List (HostDylib Unit Unit))
      (new, { wordHeap with bytes := storeWord wordHeap.bytes 0x1000 0xef800000 })
      (⟨wordImage, List.mem_cons_self, ⟨0, Nat.one_pos⟩⟩ : StubCall [wordImage]) 0x3000 := ⟨"_foo", rfl, rfl⟩
  obtain ⟨s', hs, hown⟩ := hrun.1 0x3000 hrestored
  rw [lazyStep_restored hpair hrestored, sub32_ok (by decide), ok_bind] at hs
  obtain ⟨h', hlink, hs⟩ := bind_eq_ok.1 hs
  cases hs
  exact restore_word (i := 0) rfl (by decide) hlink hown

end TouchHLE.Dyld
