/-
Selectors (`selectors.rs`). A selector is the address of a C string, and there is to be one for each name: the table
maps names to the strings that were met first, in the binary or on the host.

- `registerHostSelector`, `registerHostSelectors`, `registerBinSelectors`, `selRegisterName`: the functions, beside
  `ObjC.registerBinSelector`.
- `Stored`: the bytes of a name and a NUL are at an address. `Kept`: they are so for all selectors, and nothing writes
  to them.
- `Interned`: different names have different selectors, whose strings are their names. `Stable`: a name keeps its selector.
- `interned_iff`: runs. The string of a selector ends at the first NUL, which a name of the host may have in its middle.
-/
import TouchHLE.Objc.Objects
import TouchHLE.Libc.Strdup
import TouchHLE.Foundation.StringEncodings

namespace TouchHLE.Selectors

open Machine Words Utf8

/-! ## The functions -/

structure Runtime (F A : Type) where
  objc : ObjC F A
  heap : Heap

variable {F A : Type}

def utf8 (name : String) : List UInt8 := name.toList.flatMap String.utf8EncodeChar

def lookupSelector (r : Runtime F A) (name : String) : Option ℕ := r.objc.selectors.lookup name

/-- `SEL::as_str` -/
def asStr (r : Runtime F A) (sel : ℕ) : Except Panic String := r.heap.toMem.cstrAtUtf8 sel

def registerHostSelector (r : Runtime F A) (name : String) : Except Panic (ℕ × Runtime F A) :=
  match lookupSelector r name with
  | some existing => pure (existing, r)
  | none => do
    let (sel, heap) ← NSString.allocAndWriteCstr r.heap (utf8 name)
    pure (sel, ⟨{ r.objc with selectors := Assoc.insert name sel r.objc.selectors }, heap⟩)

/-- for the names of all methods of the host classes -/
def registerHostSelectors (r : Runtime F A) : List String → Except Panic (Runtime F A)
  | [] => pure r
  | name :: names => do
    let (_, r) ← registerHostSelector r name
    registerHostSelectors r names

/-- the loop of `register_bin_selectors`, for so many selector references from one on -/
def registerSelrefs (base : ℕ) : ℕ → ℕ → Runtime F A → Except Panic (Runtime F A)
  | 0, _, r => pure r
  | n + 1, i, r => do
    let selref ← Mem.ptrAdd base i 4
    let selCstr ← r.heap.toMem.readU32 selref
    let (sel, objc) ← r.objc.registerBinSelector selCstr.toNat r.heap.toMem
    let m ← r.heap.toMem.writeU32 selref (UInt32.ofNat sel)
    registerSelrefs base n (i + 1) ⟨objc, { r.heap with toMem := m }⟩

/-- with the address and the size of the section `__objc_selrefs`, if there is one -/
def registerBinSelectors (r : Runtime F A) : Option (ℕ × ℕ) → Except Panic (Runtime F A)
  | none => pure r
  | some (addr, size) => do
    assert (size % 4 == 0) .stub
    registerSelrefs addr (size / 4) 0 r

/-- `sel_registerName` -/
def selRegisterName (r : Runtime F A) (name : ℕ) : Except Panic (ℕ × Runtime F A) := do
  let name ← r.heap.toMem.cstrAtUtf8 name
  match lookupSelector r name with
  | some existing => pure (existing, r)
  | none => registerHostSelector r name

/-! ## Runs -/

inductive Op where
  | registerHost (name : String)
  | registerHostAll (names : List String)
  | registerBin (selCstr : ℕ)
  | registerBinAll (selrefs : Option (ℕ × ℕ))
  | registerName (name : ℕ)
  /-- what else happens to memory -/
  | other (heap : Heap)

def step (r : Runtime F A) : Op → Except Panic (Runtime F A)
  | .registerHost name => do
    let (_, r) ← registerHostSelector r name
    pure r
  | .registerHostAll names => registerHostSelectors r names
  | .registerBin selCstr => do
    let (_, objc) ← r.objc.registerBinSelector selCstr r.heap.toMem
    pure { r with objc := objc }
  | .registerBinAll selrefs => registerBinSelectors r selrefs
  | .registerName name => do
    let (_, r) ← selRegisterName r name
    pure r
  | .other heap => pure { r with heap := heap }

/-- **The purpose**: two names have the same selector exactly if they are equal, and the string of a selector is its
name. -/
structure Interned (r : Runtime F A) : Prop where
  injective : ∀ name name' sel sel', lookupSelector r name = some sel → lookupSelector r name' = some sel' →
    (sel = sel' ↔ name = name')
  readBack : ∀ name sel, lookupSelector r name = some sel → asStr r sel = .ok name

/-- A name that was registered keeps its selector. -/
def Stable (r : Runtime F A) (_ : Op) (r' : Runtime F A) : Prop :=
  ∀ name sel, lookupSelector r name = some sel → lookupSelector r' name = some sel

/-- no name that the host registers has a NUL in it -/
def NoNul (_ : Runtime F A) (o : Op) (_ : Runtime F A) : Prop :=
  match o with
  | .registerHost name => '\x00' ∉ name.toList
  | .registerHostAll names => ∀ name ∈ names, '\x00' ∉ name.toList
  | _ => True

/-- a string of the binary that is never written to -/
def ConstantString (constant : ℕ → Prop) (r : Runtime F A) (ptr : ℕ) : Prop :=
  ∃ s, HoldsString r.heap.toMem ptr s ∧ ∀ i ≤ s.length, constant (ptr + i)

/-- the bytes that have to stay as they are: the constant strings, and those that were allocated for selectors -/
def Protected (constant : ℕ → Prop) (r : Runtime F A) (x : ℕ) : Prop :=
  constant x ∨ ∃ name sel, lookupSelector r name = some sel ∧ sel ≤ x ∧ x ≤ sel + (utf8 name).length

/-- **What the callers promise**: the selectors of the binary are constant strings, the section with the references to
them is not among these strings, and nothing else writes to them or to the strings of selectors, or frees them. -/
def Legal (constant : ℕ → Prop) (r : Runtime F A) : Op → Prop
  | .registerBin selCstr => ConstantString constant r selCstr
  | .registerBinAll (some (addr, size)) =>
    (∀ i < size / 4, ConstantString constant r (loadWord r.heap.bytes (addr + i * 4)).toNat) ∧
      ∀ x, addr ≤ x → x < addr + size → ¬Protected constant r x
  | .other heap => heap.Valid ∧ heap.nullSegmentSize = r.heap.nullSegmentSize ∧
      ∀ x, Protected constant r x → heap.bytes x = r.heap.bytes x ∧ heap.Owned x
  | _ => True

/-! ## Names in memory -/

section

variable {r r' : Runtime F A} {h h' : Heap} {m : Mem} {name : String} {sel ptr : ℕ} {constant : ℕ → Prop} {s : List UInt8}

/-- the bytes of a name are at an address, with a NUL behind them -/
structure Stored (h : Heap) (name : String) (sel : ℕ) : Prop where
  inRange : h.toMem.InRange sel ((utf8 name).length + 1)
  bytes : load h.bytes sel ((utf8 name).length + 1) = utf8 name ++ [0]
  owned : ∀ i ≤ (utf8 name).length, h.Owned (sel + i)

theorem Stored.of_bytes (hs : Stored h name sel) (hnull : h'.nullSegmentSize = h.nullSegmentSize)
    (hsame : ∀ x, sel ≤ x → x ≤ sel + (utf8 name).length → h'.bytes x = h.bytes x ∧ h'.Owned x) : Stored h' name sel := by
  refine ⟨⟨hnull ▸ hs.inRange.1, hs.inRange.2⟩, ?_, fun i hi => (hsame _ (Nat.le_add_right _ _) (by omega)).2⟩
  rw [← hs.bytes]
  exact load_congr fun x hlow hhigh => (hsame x hlow (by omega)).1

theorem zero_mem_utf8 : (0 : UInt8) ∈ utf8 name ↔ '\x00' ∈ name.toList := by
  constructor
  · intro h
    obtain ⟨c, hc, hzero⟩ := List.mem_flatMap.1 h
    rwa [← zero_mem_encode hzero]
  · intro h
    exact List.mem_flatMap.2 ⟨'\x00', h, by decide⟩

theorem Stored.holdsString (hs : Stored h name sel) (hnul : '\x00' ∉ name.toList) :
    HoldsString h.toMem sel (utf8 name) := by
  have hhigh := hs.inRange.2
  refine ⟨hs.inRange.1, by omega, fun i hi => ?_, fun c hc hzero => hnul (zero_mem_utf8.1 (hzero ▸ hc))⟩
  have hget : (load h.bytes sel ((utf8 name).length + 1))[i]? = some (h.bytes (sel + i)) := by
    rw [load, List.getElem?_map, List.getElem?_range (by omega)]
    rfl
  rw [hs.bytes] at hget
  rcases Nat.lt_or_eq_of_le hi with hlt | rfl
  · rw [List.getElem?_append_left hlt] at hget
    rw [List.getD_eq_getElem?_getD, hget, Option.getD_some]
  · rw [List.getElem?_append_right (le_refl _), Nat.sub_self, List.getElem?_cons_zero] at hget
    rw [List.getD_eq_getElem?_getD, List.getElem?_eq_none (le_refl _), Option.getD_none, ← Option.some.inj hget]

/-- a string is a name in memory that is owned -/
theorem Stored.of_holdsString (hs : HoldsString h.toMem ptr (utf8 name))
    (howned : ∀ i ≤ (utf8 name).length, h.Owned (ptr + i)) :
    Stored h name ptr := by
  refine ⟨⟨hs.inRange, hs.size⟩, ?_, howned⟩
  refine List.ext_getElem (by simp) fun i hi _ => ?_
  rw [load_length] at hi
  simp only [load, List.getElem_map, List.getElem_range]
  rw [hs.bytes i (by omega), List.getD_eq_getElem?_getD]
  rcases Nat.lt_or_eq_of_le (Nat.le_of_lt_succ hi) with hlt | rfl
  · rw [List.getElem_append_left hlt, List.getElem?_eq_getElem hlt, Option.getD_some]
  · rw [List.getElem?_eq_none le_rfl, List.getElem_append_right le_rfl]
    simp

theorem cstrAtUtf8_ok (hs : HoldsString m ptr (utf8 name)) : m.cstrAtUtf8 ptr = .ok name := by
  rw [Mem.cstrAtUtf8, hs.cstrAt_all, ok_bind, utf8, fromUtf8_encode]
  simp only [unwrap, ok_bind, String.ofList_toList]
  rfl

/-- **A name that was read** is there, and it has no NUL. -/
theorem cstrAtUtf8_cases (hs : m.cstrAtUtf8 ptr = .ok name) : ptr ≤ 2 ^ 32 → HoldsString m ptr (utf8 name) ∧
    '\x00' ∉ name.toList := by
  intro hptr
  obtain ⟨bytes, hbytes, hs⟩ := bind_eq_ok.1 hs
  obtain ⟨chars, hchars, hs⟩ := bind_eq_ok.1 hs
  cases hs
  have hholds := holdsString_of_cstrAt (by omega) hbytes
  have hutf8 : utf8 (String.ofList chars) = bytes := by
    rw [utf8, String.toList_ofList]
    exact encode_fromUtf8 (unwrap_eq_ok.1 hchars)
  refine ⟨by rwa [hutf8], fun hnul => ?_⟩
  have hzero := zero_mem_utf8.2 hnul
  rw [hutf8] at hzero
  exact hholds.noNul 0 hzero rfl

/-- no name is read at an address past the end of memory -/
theorem ptr_le_of_cstrAtUtf8 (hs : m.cstrAtUtf8 ptr = .ok name) : ptr ≤ 2 ^ 32 := by
  by_contra hgt
  have hzero : 2 ^ 32 - ptr = 0 := by omega
  rw [Mem.cstrAtUtf8, hzero, Mem.cstrAt] at hs
  cases hs

/-- the string at an address of a name is read as the name, unless there is a NUL in it -/
theorem readBack_iff (hs : Stored r.heap name sel) : asStr r sel = .ok name ↔ '\x00' ∉ name.toList :=
  ⟨fun h => (cstrAtUtf8_cases h (ptr_le_of_cstrAtUtf8 h)).2, fun h => cstrAtUtf8_ok (hs.holdsString h)⟩

/-! ## What a new name does -/

/-- **A new string** is in memory of its own, and what belongs to someone stays. -/
theorem allocAndWriteCstr_frame (hv : h.Valid) (hw : NSString.allocAndWriteCstr h s = .ok (ptr, h')) :
    h'.Valid ∧ h'.nullSegmentSize = h.nullSegmentSize ∧ (∀ x, h.Owned x → h'.bytes x = h.bytes x ∧ h'.Owned x) ∧
      ∀ i ≤ s.length, h'.Owned (ptr + i) := by
  obtain ⟨-, -, hw⟩ := bind_eq_ok.1 hw
  obtain ⟨size, hsize, hw⟩ := bind_eq_ok.1 hw
  obtain ⟨⟨p, h₁⟩, halloc, hw⟩ := bind_eq_ok.1 hw
  obtain ⟨m₁, hm₁, hw⟩ := bind_eq_ok.1 hw
  obtain ⟨last, hlast, hw⟩ := bind_eq_ok.1 hw
  obtain ⟨m₂, hm₂, hw⟩ := bind_eq_ok.1 hw
  cases hw
  obtain ⟨-, rfl⟩ := Mem.writeBytes_cases hm₁
  obtain ⟨-, rfl⟩ := Mem.writeBytes_cases hm₂
  obtain ⟨rfl, hfits⟩ := add32_cases hsize
  obtain ⟨d, rfl, ha⟩ := Heap.allocated_of_alloc hv hfits halloc
  have hlast' : last = d.base + s.length := by
    unfold Mem.ptrAdd at hlast
    split_ifs at hlast
    rw [← Except.ok.inj hlast, Nat.mul_one]
  subst hlast'
  have hle := ha.size_le
  have hkeep (c : Mem.Chunk) (hc : c ∈ h.allocator.usedChunks.chunks) : c ∈ h₁.allocator.usedChunks.chunks :=
    ha.chunks.mem_iff.2 (List.mem_cons_of_mem d hc)
  refine ⟨⟨ha.valid.inv, ha.valid.null⟩, ha.null, ?_, fun i hi => ⟨d, ha.chunks.mem_iff.2 List.mem_cons_self, ?_⟩⟩
  · rintro x ⟨c, hc, hx⟩
    have hout : x < d.base ∨ d.base + (s.length + 1) ≤ x := by
      by_contra hin
      exact ha.apart x ⟨by simp only [Mem.Chunk.span]; omega, by simp only [Mem.Chunk.span]; omega⟩ c hc hx
    refine ⟨?_, c, hkeep c hc, hx⟩
    calc store (store h₁.bytes d.base s) (d.base + s.length) [0] x
      _ = store h₁.bytes d.base (s ++ [0]) x := by rw [store_append]
      _ = h₁.bytes x := store_outside (by rw [List.length_append, List.length_singleton]; exact hout)
      _ = h.bytes x := ha.outside x hout
  · exact ⟨by simp only [Mem.Chunk.span]; omega, by simp only [Mem.Chunk.span]; omega⟩

/-- **The invariant.** The strings of all selectors are in memory, and the constant strings are not free. -/
structure Kept (constant : ℕ → Prop) (r : Runtime F A) : Prop where
  valid : r.heap.Valid
  constant_owned : ∀ x, constant x → r.heap.Owned x
  stored : ∀ name sel, lookupSelector r name = some sel → Stored r.heap name sel

/-- names of the table stay there, and the new ones are as `N` says -/
structure Adds (N : String → ℕ → Prop) (r r' : Runtime F A) : Prop where
  stable : ∀ name sel, lookupSelector r name = some sel → lookupSelector r' name = some sel
  added : ∀ name sel, lookupSelector r' name = some sel → lookupSelector r name = some sel ∨ N name sel

variable {N N' : String → ℕ → Prop} {r'' : Runtime F A} {objc : ObjC F A}

theorem Adds.of_eq (h : r'.objc.selectors = r.objc.selectors) : Adds N r r' := by
  refine ⟨fun name sel hsel => ?_, fun name sel hsel => .inl ?_⟩
  · rwa [lookupSelector, h]
  · rwa [lookupSelector, h] at hsel

theorem Adds.trans (ha : Adds N r r') (hb : Adds N r' r'') : Adds N r r'' := by
  refine ⟨fun name sel hsel => hb.stable name sel (ha.stable name sel hsel), fun name sel hsel => ?_⟩
  rcases hb.added name sel hsel with hold | hnew
  · exact ha.added name sel hold
  · exact .inr hnew

theorem Adds.mono (ha : Adds N r r') (hN : ∀ name sel, N name sel → N' name sel) : Adds N' r r' :=
  ⟨ha.stable, fun name sel hsel => (ha.added name sel hsel).imp_right (hN name sel)⟩

/-- the table with one more name -/
theorem Adds.insert (hnone : lookupSelector r name = none) (hN : N name sel)
    (h : r'.objc.selectors = Assoc.insert name sel r.objc.selectors) : Adds N r r' := by
  refine ⟨fun n p hsel => ?_, fun n p hsel => ?_⟩
  · have hne : n ≠ name := by
      rintro rfl
      cases hnone.symm.trans hsel
    rw [lookupSelector, h, Assoc.lookup_insert_of_ne hne]
    exact hsel
  · rw [lookupSelector, h] at hsel
    by_cases heq : n = name
    · subst heq
      rw [Assoc.lookup_insert_self] at hsel
      cases hsel
      exact .inr hN
    · rw [Assoc.lookup_insert_of_ne heq] at hsel
      exact .inl hsel

theorem Kept.owned (hk : Kept constant r) {x : ℕ} (hx : Protected constant r x) : r.heap.Owned x := by
  rcases hx with hx | ⟨name, sel, hsel, hlow, hhigh⟩
  · exact hk.constant_owned x hx
  · obtain ⟨i, rfl⟩ := Nat.exists_eq_add_of_le hlow
    exact (hk.stored name sel hsel).owned i (by omega)

/-- the strings in memory that is the same where it has to be -/
theorem Kept.of_bytes (hk : Kept constant r) (hv : h'.Valid) (hnull : h'.nullSegmentSize = r.heap.nullSegmentSize)
    (hsame : ∀ x, Protected constant r x → h'.bytes x = r.heap.bytes x ∧ h'.Owned x) :
    Kept constant { r with heap := h' } := by
  refine ⟨hv, fun x hx => (hsame x (.inl hx)).2, fun name sel hsel => ?_⟩
  exact (hk.stored name sel hsel).of_bytes hnull fun x hlow hhigh => hsame x (.inr ⟨name, sel, hsel, hlow, hhigh⟩)

/-- with the string of a name that is new -/
theorem Kept.adds (hk : Kept constant r) (hadds : Adds N r ⟨objc, r.heap⟩)
    (hN : ∀ name sel, N name sel → Stored r.heap name sel) :
    Kept constant ⟨objc, r.heap⟩ := by
  refine ⟨hk.valid, hk.constant_owned, fun name sel hsel => ?_⟩
  rcases hadds.added name sel hsel with hold | hnew
  · exact hk.stored name sel hold
  · exact hN name sel hnew

/-- **On the host.** A name is added unless it is in the table. -/
theorem registerHostSelector_cases (hk : Kept constant r) (hr : registerHostSelector r name = .ok (sel, r')) :
    Kept constant r' ∧ Adds (fun n _ => n = name) r r' ∧ lookupSelector r' name = some sel := by
  rw [registerHostSelector] at hr
  cases hfound : lookupSelector r name with
  | some existing =>
    rw [hfound] at hr
    cases hr
    exact ⟨hk, .of_eq rfl, hfound⟩
  | none =>
    rw [hfound] at hr
    obtain ⟨⟨p, h⟩, halloc, hr⟩ := bind_eq_ok.1 hr
    obtain ⟨rfl, rfl⟩ := Prod.mk.inj (Except.ok.inj hr)
    obtain ⟨hv, hnull, hsame, howned⟩ := allocAndWriteCstr_frame hk.valid halloc
    obtain ⟨hrange, hbytes⟩ := NSString.allocAndWriteCstr_cases halloc
    have hheap : Kept constant { r with heap := h } := hk.of_bytes hv hnull fun x hx => hsame x (hk.owned hx)
    have hinsert : Adds (fun n q => n = name ∧ q = p) { r with heap := h }
        ⟨{ r.objc with selectors := Assoc.insert name p r.objc.selectors }, h⟩ := .insert hfound ⟨rfl, rfl⟩ rfl
    refine ⟨hheap.adds hinsert ?_, .insert hfound rfl rfl, Assoc.lookup_insert_self⟩
    rintro _ _ ⟨rfl, rfl⟩
    exact ⟨hrange, hbytes, howned⟩

/-- **All names** of the host. -/
theorem registerHostSelectors_cases {names : List String} (hk : Kept constant r) (hr : registerHostSelectors r names =
    .ok r') :
    Kept constant r' ∧ Adds (fun n _ => n ∈ names) r r' ∧ ∀ n ∈ names, ∃ sel, lookupSelector r' n = some sel := by
  induction names generalizing r with
  | nil =>
    cases hr
    exact ⟨hk, .of_eq rfl, fun n hn => absurd hn List.not_mem_nil⟩
  | cons name names ih =>
    obtain ⟨⟨sel, r₁⟩, hfirst, hr⟩ := bind_eq_ok.1 hr
    obtain ⟨hk₁, hadds₁, hsel⟩ := registerHostSelector_cases hk hfirst
    obtain ⟨hk', hadds', hall⟩ := ih hk₁ hr
    refine ⟨hk', .trans (hadds₁.mono ?_) (hadds'.mono fun n _ => List.mem_cons_of_mem name), fun n hn => ?_⟩
    · rintro n - rfl
      exact List.mem_cons_self
    · rcases List.mem_cons.1 hn with rfl | hn
      · exact ⟨sel, hadds'.stable n sel hsel⟩
      · exact hall n hn

/-- a name without NUL whose selector is a constant string -/
def FromBinary (constant : ℕ → Prop) (name : String) (sel : ℕ) : Prop :=
  '\x00' ∉ name.toList ∧ ∀ i ≤ (utf8 name).length, constant (sel + i)

/-- **In the binary.** A name is added, whose string is already there. -/
theorem registerBinSelector_cases (hk : Kept constant r) (hc : ConstantString constant r ptr)
    (hr : r.objc.registerBinSelector ptr r.heap.toMem = .ok (sel, objc)) :
    Kept constant ⟨objc, r.heap⟩ ∧ Adds (FromBinary constant) r ⟨objc, r.heap⟩ := by
  obtain ⟨selStr, hstr, hr⟩ := bind_eq_ok.1 hr
  obtain ⟨hholds, hnul⟩ := cstrAtUtf8_cases hstr (ptr_le_of_cstrAtUtf8 hstr)
  obtain ⟨s, hs, hconstant⟩ := hc
  obtain rfl := hs.unique hholds
  cases hfound : lookupSelector r selStr with
  | some existing =>
    rw [lookupSelector] at hfound
    rw [hfound] at hr
    cases hr
    exact ⟨hk, .of_eq rfl⟩
  | none =>
    have hnone := hfound
    rw [lookupSelector] at hfound
    rw [hfound] at hr
    obtain ⟨rfl, rfl⟩ := Prod.mk.inj (Except.ok.inj hr)
    have hinsert : Adds (fun n q => n = selStr ∧ q = ptr) r
        ⟨{ r.objc with selectors := Assoc.insert selStr ptr r.objc.selectors }, r.heap⟩ := .insert hnone ⟨rfl, rfl⟩ rfl
    refine ⟨hk.adds hinsert ?_, .insert hnone ⟨hnul, hconstant⟩ rfl⟩
    rintro _ _ ⟨rfl, rfl⟩
    exact .of_holdsString hholds fun i hi => hk.constant_owned _ (hconstant i hi)

/-- where names are added whose strings are constant, no more bytes have to stay as they are -/
theorem Adds.protected_of (ha : Adds (FromBinary constant) r r') {x : ℕ} (hx : Protected constant r' x) :
    Protected constant r x := by
  rcases hx with hx | ⟨name, sel, hsel, hlow, hhigh⟩
  · exact .inl hx
  rcases ha.added name sel hsel with hold | hnew
  · exact .inr ⟨name, sel, hold, hlow, hhigh⟩
  · obtain ⟨i, rfl⟩ := Nat.exists_eq_add_of_le hlow
    exact .inl (hnew.2 i (by omega))

/-- a constant string after a write somewhere else -/
theorem ConstantString.write {a : ℕ} {w : UInt32} (hc : ConstantString constant r ptr)
    (hout : ∀ x, constant x → x < a ∨ a + 4 ≤ x) :
    ConstantString constant ⟨objc, { r.heap with bytes := storeWord r.heap.bytes a w }⟩ ptr := by
  obtain ⟨s, hs, hconstant⟩ := hc
  exact ⟨s, hs.of_bytes rfl fun i hi => storeWord_outside (hout _ (hconstant i hi)), hconstant⟩

/-- **All selectors of the binary.** The induction is on the references that are left, which still are to constant
strings. -/
theorem registerSelrefs_cases {base n i : ℕ} (hk : Kept constant r)
    (hc : ∀ j, i ≤ j → j < i + n → ConstantString constant r (loadWord r.heap.bytes (base + j * 4)).toNat)
    (hapart : ∀ x, base ≤ x → x < base + (i + n) * 4 → ¬Protected constant r x) (hr : registerSelrefs base n i r = .ok r') :
    Kept constant r' ∧ Adds (FromBinary constant) r r' := by
  induction n generalizing i r with
  | zero =>
    cases hr
    exact ⟨hk, .of_eq rfl⟩
  | succ n ih =>
    obtain ⟨selref, hselref, hr⟩ := bind_eq_ok.1 hr
    obtain ⟨selCstr, hread, hr⟩ := bind_eq_ok.1 hr
    obtain ⟨⟨sel, objc⟩, hregister, hr⟩ := bind_eq_ok.1 hr
    obtain ⟨m, hwrite, hr⟩ := bind_eq_ok.1 hr
    have hselref' : selref = base + i * 4 := by
      unfold Mem.ptrAdd at hselref
      split_ifs at hselref
      exact (Except.ok.inj hselref).symm
    subst hselref'
    obtain ⟨-, -, hread⟩ := bind_eq_ok.1 hread
    cases hread
    obtain ⟨-, rfl⟩ := Mem.writeU32_cases hwrite
    obtain ⟨hk₁, hadds₁⟩ := registerBinSelector_cases hk (hc i le_rfl (by omega)) hregister
    have hout (x : ℕ) (hx : Protected constant r x) : x < base + i * 4 ∨ base + i * 4 + 4 ≤ x := by
      by_contra hin
      exact hapart x (by omega) (by omega) hx
    have hk₂ : Kept constant ⟨objc, { r.heap with bytes := storeWord r.heap.bytes (base + i * 4) (UInt32.ofNat sel) }⟩ := by
      refine hk₁.of_bytes ⟨hk.valid.inv, hk.valid.null⟩ rfl fun x hx =>
        ⟨storeWord_outside (hout x (hadds₁.protected_of hx)), ?_⟩
      exact hk₁.owned hx
    have hadds₂ : Adds (FromBinary constant) r
        ⟨objc, { r.heap with bytes := storeWord r.heap.bytes (base + i * 4) (UInt32.ofNat sel) }⟩ :=
          ⟨hadds₁.stable, hadds₁.added⟩
    have hnext (j : ℕ) (hj : i + 1 ≤ j) (hlt : j < i + 1 + n) : ConstantString constant
        ⟨objc, { r.heap with bytes := storeWord r.heap.bytes (base + i * 4) (UInt32.ofNat sel) }⟩
        (loadWord (storeWord r.heap.bytes (base + i * 4) (UInt32.ofNat sel)) (base + j * 4)).toNat := by
      rw [loadWord_storeWord_of_disjoint (.inr (by omega))]
      exact (hc j (by omega) (by omega)).write fun x hx => hout x (.inl hx)
    have hrest (x : ℕ) (hlow : base ≤ x) (hhigh : x < base + (i + 1 + n) * 4) : ¬Protected constant
        ⟨objc, { r.heap with bytes := storeWord r.heap.bytes (base + i * 4) (UInt32.ofNat sel) }⟩ x :=
      fun hx => hapart x hlow (by omega) (hadds₂.protected_of hx)
    obtain ⟨hk', hadds'⟩ := ih hk₂ hnext hrest hr
    exact ⟨hk', hadds₂.trans hadds'⟩

/-! ## Runs -/

/-- **Names and their selectors** are as they should be if no name has a NUL in it. -/
theorem Kept.interned_iff_lookup (hk : Kept constant r) : Interned r ↔ ∀ name sel, lookupSelector r name = some sel →
    '\x00' ∉ name.toList := by
  constructor
  · intro hi name sel hsel
    exact (readBack_iff (hk.stored name sel hsel)).1 (hi.readBack name sel hsel)
  · intro hnul
    have hread (name : String) (sel : ℕ) (hsel : lookupSelector r name = some sel) : asStr r sel = .ok name :=
      (readBack_iff (hk.stored name sel hsel)).2 (hnul name sel hsel)
    refine ⟨fun name name' sel sel' hsel hsel' => ⟨?_, ?_⟩, hread⟩
    · rintro rfl
      exact Except.ok.inj ((hread name sel hsel).symm.trans (hread name' sel hsel'))
    · rintro rfl
      exact Option.some.inj (hsel.symm.trans hsel')

/-- where names without NUL are added -/
theorem Kept.interned_of_adds (hk' : Kept constant r') (hk : Kept constant r) (hi : Interned r) (ha : Adds N r r')
    (hN : ∀ n sel, N n sel → '\x00' ∉ n.toList) : Interned r' := by
  refine hk'.interned_iff_lookup.2 fun n sel hsel => ?_
  rcases ha.added n sel hsel with hold | hnew
  · exact hk.interned_iff_lookup.1 hi n sel hold
  · exact hN n sel hnew

/-- **Step rule.** -/
theorem step_interned (hk : Kept constant r) {o : Op} (hl : Legal constant r o) (hr : step r o = .ok r') :
    Kept constant r' ∧ Stable r o r' ∧ (Interned r → (Interned r' ↔ NoNul r o r')) := by
  cases o with
  | registerHost name =>
    obtain ⟨⟨sel, r₁⟩, hregister, hr⟩ := bind_eq_ok.1 hr
    cases hr
    obtain ⟨hk', hadds, hsel⟩ := registerHostSelector_cases hk hregister
    refine ⟨hk', hadds.stable, fun hi => ⟨fun hi' => hk'.interned_iff_lookup.1 hi' name sel hsel, fun hnul => ?_⟩⟩
    refine hk'.interned_of_adds hk hi hadds ?_
    rintro n - rfl
    exact hnul
  | registerHostAll names =>
    obtain ⟨hk', hadds, hall⟩ := registerHostSelectors_cases hk hr
    refine ⟨hk', hadds.stable, fun hi => ⟨fun hi' n hn => ?_, fun hnul => ?_⟩⟩
    · obtain ⟨sel, hsel⟩ := hall n hn
      exact hk'.interned_iff_lookup.1 hi' n sel hsel
    · exact hk'.interned_of_adds hk hi hadds fun n _ hn => hnul n hn
  | registerBin selCstr =>
    obtain ⟨⟨sel, objc⟩, hregister, hr⟩ := bind_eq_ok.1 hr
    cases hr
    obtain ⟨hk', hadds⟩ := registerBinSelector_cases hk hl hregister
    exact ⟨hk', hadds.stable, fun hi => iff_of_true (hk'.interned_of_adds hk hi hadds fun n sel hn => hn.1) trivial⟩
  | registerBinAll selrefs =>
    cases selrefs with
    | none =>
      cases hr
      exact ⟨hk, fun name sel hsel => hsel, fun hi => iff_of_true hi trivial⟩
    | some section_ =>
      obtain ⟨addr, size⟩ := section_
      obtain ⟨-, -, hr⟩ := bind_eq_ok.1 hr
      obtain ⟨hk', hadds⟩ :=
          registerSelrefs_cases hk (fun j _ hj => hl.1 j (by omega)) (fun x hlow hhigh => hl.2 x hlow (by omega)) hr
      exact ⟨hk', hadds.stable, fun hi => iff_of_true (hk'.interned_of_adds hk hi hadds fun n sel hn => hn.1) trivial⟩
  | registerName ptr =>
    obtain ⟨⟨sel, r₁⟩, hregister, hr⟩ := bind_eq_ok.1 hr
    obtain rfl := Except.ok.inj hr
    obtain ⟨name, hread, hregister⟩ := bind_eq_ok.1 hregister
    have hnul := (cstrAtUtf8_cases hread (ptr_le_of_cstrAtUtf8 hread)).2
    -- the table is looked into twice
    have hhost : registerHostSelector r name = .ok (sel, r₁) := by
      cases hfound : lookupSelector r name with
      | some existing =>
        rw [hfound] at hregister
        rw [registerHostSelector, hfound]
        exact hregister
      | none =>
        rw [hfound] at hregister
        exact hregister
    obtain ⟨hk', hadds, -⟩ := registerHostSelector_cases hk hhost
    refine ⟨hk', hadds.stable, fun hi => iff_of_true (hk'.interned_of_adds hk hi hadds ?_) trivial⟩
    rintro n - rfl
    exact hnul
  | other heap =>
    cases hr
    obtain ⟨hv, hnull, hsame⟩ := hl
    have hk' : Kept constant { r with heap := heap } := hk.of_bytes hv hnull hsame
    refine ⟨hk', fun name sel hsel => hsel, fun hi => iff_of_true ?_ trivial⟩
    exact hk'.interned_of_adds (N := fun _ _ => False) hk hi (.of_eq rfl) fun n sel h => h.elim

end

/-- the state before any selector is registered -/
def initial (F A : Type) (h : Heap) : Runtime F A := ⟨.new, h⟩

theorem kept_initial {h : Heap} {constant : ℕ → Prop} (hv : h.Valid) (hconstant : ∀ x, constant x → h.Owned x) :
    Kept constant (initial F A h) :=
  ⟨hv, hconstant, fun name sel hsel => by cases hsel⟩

/-- **Selectors in any run** of registrations, in any order and with anything else that happens to memory in between:
there is one for each name, it is the same each time and its string is the name, exactly if the host registers no name
with a NUL in it. -/
theorem interned_iff (constant : ℕ → Prop) (h : Heap) (hv : h.Valid) (hconstant : ∀ x, constant x → h.Owned x) (ops :
    List Op)
    (hl : LegalRun step (Legal constant) (initial F A h) ops) :
    Throughout step Interned (initial F A h) ops ∧ Along step Stable (initial F A h) ops ↔
      Along step NoNul (initial F A h) ops := by
  have hk : Kept constant (initial F A h) := kept_initial hv hconstant
  have hi : Interned (initial F A h) := hk.interned_iff_lookup.2 fun name sel hsel => by cases hsel
  have hinv (r : Runtime F A) (o : Op) (r' : Runtime F A) (hl : Legal constant r o) (hk : Kept constant r) (hr :
      step r o = .ok r') :
      Kept constant r' := (step_interned hk hl hr).1
  have hiff := throughout_iff_along (P := Interned) (R := NoNul) hinv
    (fun r o r' hl hk hi hr => (step_interned hk hl hr).2.2 hi) hl hk hi
  have hstable : Along step Stable (initial F A h) ops := hl.along
    (fun r o r' hk hl hr => ⟨hinv r o r' hl hk hr, (step_interned hk hl hr).2.1⟩) hk
  exact ⟨fun hboth => hiff.1 hboth.1, fun hnul => ⟨hiff.2 hnul, hstable⟩⟩


/-- "init" twice in a binary, at 4 and at 10, and a reference to each -/
def sampleHeap : Heap :=
  { Heap.twoAllocations with
    bytes := store (store (fun _ => 0) 4 [105, 110, 105, 116, 0, 0, 105, 110, 105, 116, 0]) 16 [4, 0, 0, 0, 10, 0, 0, 0] }

def sampleOps : List Op :=
  [.registerBinAll (some (16, 8)), .registerHostAll ["init", "dealloc"], .registerName 10, .registerHost "count"]

theorem interned_sample : Throughout step Interned (initial Unit Unit sampleHeap) sampleOps ∧
    Along step Stable (initial Unit Unit sampleHeap) sampleOps := by
  have hv : sampleHeap.Valid := ⟨Heap.twoAllocations_valid.inv, Heap.twoAllocations_valid.null⟩
  have howned : ∀ x < 15, sampleHeap.Owned x := by decide +kernel
  have hconstant (i : ℕ) (hi : i < 8 / 4) : ConstantString (fun x => 4 ≤ x ∧ x < 15) (initial Unit Unit sampleHeap)
      (loadWord sampleHeap.bytes (16 + i * 4)).toNat := by
    have hholds : ∀ i < 2, sampleHeap.nullSegmentSize ≤ (loadWord sampleHeap.bytes (16 + i * 4)).toNat ∧
        (loadWord sampleHeap.bytes (16 + i * 4)).toNat + 4 < 2 ^ 32 ∧ (∀ k ≤ 4,
          sampleHeap.bytes ((loadWord sampleHeap.bytes (16 + i * 4)).toNat + k) = [105, 110, 105, 116].getD k 0 ∧
          4 ≤ (loadWord sampleHeap.bytes (16 + i * 4)).toNat + k ∧ (loadWord sampleHeap.bytes (16 + i * 4)).toNat + k <
            15) := by
      decide +kernel
    obtain ⟨hnull, hsize, hbytes⟩ := hholds i hi
    exact ⟨[105, 110, 105, 116], ⟨hnull, hsize, fun k hk => (hbytes k hk).1, by decide +kernel⟩, fun k hk => (hbytes k hk).2⟩
  have hapart (x : ℕ) (hlow : 16 ≤ x) : ¬Protected (fun x => 4 ≤ x ∧ x < 15) (initial Unit Unit sampleHeap) x := by
    rintro (⟨-, hx⟩ | ⟨name, sel, hsel, -⟩)
    · omega
    · cases hsel
  refine (interned_iff (F := Unit) (A := Unit) (fun x => 4 ≤ x ∧ x < 15) sampleHeap hv (fun x hx =>
    howned x hx.2) sampleOps ?_).2 ?_
  · exact ⟨⟨hconstant, fun x hlow _ => hapart x hlow⟩, fun _ _ =>
      ⟨trivial, fun _ _ => ⟨trivial, fun _ _ => ⟨trivial, fun _ _ => trivial⟩⟩⟩⟩
  · exact fun _ _ =>
      ⟨trivial, fun _ _ => ⟨by unfold NoNul; decide, fun _ _ => ⟨trivial, fun _ _ => ⟨by unfold NoNul; decide, trivial⟩⟩⟩⟩

/-- **The string of a selector** that the host registers ends at the first NUL of its name. -/
theorem nul_in_name : ∃ r sel, step (initial Unit Unit Heap.twoAllocations) (.registerHost "a\x00b") = .ok r ∧
    lookupSelector r "a\x00b" = some sel ∧ asStr r sel = .ok "a" ∧
    LegalRun step (Legal fun _ => False) (initial Unit Unit Heap.twoAllocations) [.registerHost "a\x00b"] ∧
    ¬(Throughout step Interned (initial Unit Unit Heap.twoAllocations) [.registerHost "a\x00b"] ∧
      Along step Stable (initial Unit Unit Heap.twoAllocations) [.registerHost "a\x00b"]) := by
  have hstep := eq_ok_of_toOption (x := step (initial Unit Unit Heap.twoAllocations) (.registerHost "a\x00b"))
    (d := initial Unit Unit Heap.twoAllocations) (by decide +kernel)
  have hread : asStr ((step (initial Unit Unit Heap.twoAllocations) (.registerHost "a\x00b")).toOption.getD
      (initial Unit Unit Heap.twoAllocations)) 32 = .ok "a" := by
    refine cstrAtUtf8_ok ⟨?_, ?_, ?_, ?_⟩ <;> decide +kernel
  have hlookup : lookupSelector ((step (initial Unit Unit Heap.twoAllocations) (.registerHost "a\x00b")).toOption.getD
      (initial Unit Unit Heap.twoAllocations)) "a\x00b" = some 32 := by decide +kernel
  refine ⟨_, 32, hstep, hlookup, hread, ⟨trivial, fun _ _ => trivial⟩, fun hboth => ?_⟩
  have hname := ((hboth.1.2 _ hstep).first.readBack _ _ hlookup).symm.trans hread
  exact absurd (Except.ok.inj hname) (by decide)

end TouchHLE.Selectors
