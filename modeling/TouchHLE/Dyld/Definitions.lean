/-
What a symbol means to the linker (`dyld.rs`): stubs, symbol pointers and external relocations that name the same symbol
are linked at different times, in any order, and each kind looks for the symbol in its own order.

- `Linker`, `step`: the linker between links, with the links that were made and the guest functions it has created.
- `reach`: the definition that a link leads to. `SameDefinition`: all links of a symbol lead to one and the same.
- `Consistent`: the invariant. Every link leads to an entry of the table of host functions or to an exported address.
- `SideIsKept`: when a link leads to the definition of the earlier ones.
- `same_definition_iff`: runs. A stub looks for a host function first, a pointer for a guest function; a symbol that both
  have must not be linked both ways.
- `symbol_on_both_sides`: what happens when it is.
-/
import TouchHLE.Dyld.Linker

namespace TouchHLE.Dyld

open Machine Mem

/-! ## The linker between links -/

/-- a link that was made; `first` says whether the host functions were searched first -/
structure Link (F : Type) where
  symbol : String
  hostFirst : Bool
  linked : Linked F

structure Linker (F K : Type) where
  dyld : Dyld F K
  heap : Heap
  /-- the guest functions that were created, with the SVC that each consists of -/
  created : List (UInt32 × ℕ)
  links : List (Link F)

inductive LinkOp (F : Type) where
  /-- a stub that is not linked yet is called -/
  | stub (svcPc : ℕ)
  | relocation (ptrPtr : ℕ) (name : String)
  | pointer (ptrPtr : ℕ) (symbol : String)
  | procAddress (symbol : String)
  | guestFunction (symbol : String) (f : F)
  /-- whatever else the emulator and the guest do to memory -/
  | other (h : Heap)

/-- names that are not those of classes, which relocations treat in their own way -/
def IsFunctionSymbol (name : String) : Prop :=
  stripPrefix "_OBJC_CLASS_$_" name = none ∧ stripPrefix "_OBJC_METACLASS_$_" name = none ∧
    name ≠ "___CFConstantStringClassReference"

/-- memory that is in use stays in use -/
structure Grows (h h' : Heap) : Prop where
  inv : h'.allocator.Inv
  owned : ∀ x, h.Owned x → h'.Owned x

section

variable {F K : Type} (dylibs : List (HostDylib F K)) (bins : List MachO) (linkClass : LinkClass)

/-- the host function of that name -/
def hostFunction (x : String) : Option (String × F) := searchHostDylibs dylibs HostDylib.functionExports x

/-- the guest function that is new between two states of the linker -/
def newFunction (d d' : Dyld F K) (a : UInt32) : List (UInt32 × ℕ) :=
  if d'.linkedHostFunctions.length = d.linkedHostFunctions.length then []
  else [(a, d.linkedHostFunctions.length + svcLinkedFunctionsBase)]

/-- the state after a pointer was filled in or left alone -/
def Linker.filled (s : Linker F K) (x : String) (target : Option UInt32) (d : Dyld F K) (h : Heap) : Linker F K :=
  match target with
  | none => { s with dyld := d, heap := h }
  | some a => ⟨d, h, s.created ++ newFunction s.dyld d a, s.links ++ [⟨x, false, .jump a⟩]⟩

def step (s : Linker F K) : LinkOp F → Except Panic (Linker F K)
  | .stub svcPc => do
    let stub ← findStub bins svcPc
    let (linked, d, h) ← linkStub dylibs bins svcPc stub s.dyld s.heap
    pure { s with dyld := d, heap := h, links := s.links ++ [⟨stub.symbol, true, linked⟩] }
  | .relocation ptrPtr name => do
    let (target, d, h) ← linkRelocation dylibs bins linkClass ptrPtr name s.dyld s.heap
    pure (s.filled name target d h)
  | .pointer ptrPtr symbol => do
    let (target, d, h) ← linkPointer dylibs bins ptrPtr symbol s.dyld s.heap
    pure (s.filled symbol target d h)
  | .procAddress symbol => do
    let (address, d, h) ← createProcAddressNoInval dylibs symbol s.dyld s.heap
    match address with
    | none => pure { s with dyld := d, heap := h }
    | some a => pure { s with dyld := d, heap := h, created := s.created ++ newFunction s.dyld d a }
  | .guestFunction symbol f => do
    let (a, d, h) ← createGuestFunction symbol f s.dyld s.heap
    pure { s with dyld := d, heap := h, created := s.created ++ newFunction s.dyld d a }
  | .other h => pure { s with heap := h }

/-- relocations are of functions; nothing frees the memory of a binary or of a created function -/
def Legal (s : Linker F K) : LinkOp F → Prop
  | .relocation _ name => IsFunctionSymbol name
  | .other h => Grows s.heap h
  | _ => True

/-! ## Definitions -/

inductive Definition (F : Type) where
  | host (f : F)
  | guest (addr : UInt32)

/-- a definition of the symbol -/
def Defines (x : String) : Definition F → Prop
  | .host f => ∃ name, hostFunction dylibs x = some (name, f)
  | .guest addr => searchBins bins x = some addr

/-- the host function that an SVC calls; the numbers of the linker itself are not for guest functions -/
def handler (d : Dyld F K) (svc : ℕ) : Option (Definition F) :=
  if svc = svcLazyLink ∨ svc = svcLazyLinkRetFlag then none
  else (d.linkedFunction svc).toOption.map .host

/-- the definition that a link leads to -/
def reach (s : Linker F K) : Linked F → Option (Definition F)
  | .svc n _ => handler s.dyld n
  | .jump a =>
    match s.created.lookup a with
    | some n => handler s.dyld n
    | none => some (.guest a)

/-- **The same symbol always means the same**: all its links lead to one definition of it. -/
def SameDefinition (s : Linker F K) : Prop :=
  ∀ x, (∃ l ∈ s.links, l.symbol = x) → ∃ def_, Defines dylibs bins x def_ ∧
    ∀ l ∈ s.links, l.symbol = x → reach s l.linked = some def_

/-! ## The condition -/

/-- the symbol of a link, and whether the host functions are searched first -/
def LinkOp.target : LinkOp F → Option (String × Bool)
  | .stub svcPc => (findStub bins svcPc).toOption.map fun stub => (stub.symbol, true)
  | .relocation _ name => some (name, false)
  | .pointer _ symbol => some (symbol, false)
  | _ => none

/-- the SVC that a link to a host function leads to -/
def svcNumber (s : Linker F K) (x : String) : ℕ :=
  match s.dyld.nonLazyHostFunctions x with
  | some a => (s.created.lookup a).getD 0
  | none => s.dyld.linkedHostFunctions.length + svcLinkedFunctionsBase

/-- The number of the SVC is below the flag of the stubs that return right after; or else, without the flag, it happens to be
the number of the same function. -/
def Fits (d : Dyld F K) (n : ℕ) (f : F) : Prop :=
  n < svcLazyLinkRetFlag ∨ svcLazyLinkRetFlag + svcLinkedFunctionsBase ≤ n ∧
    (d.linkedHostFunctions[n - svcLazyLinkRetFlag - svcLinkedFunctionsBase]?).map Prod.snd = some f

/-- a symbol that a host library and a binary both have was only linked in the same way before; the number of the SVC fits -/
def SideIsKept (s : Linker F K) (o : LinkOp F) : Prop :=
  ∀ x hostFirst, o.target bins = some (x, hostFirst) →
    (((hostFunction dylibs x).isSome ∧ (searchBins bins x).isSome) → ∀ l ∈ s.links, l.symbol = x → l.hostFirst = hostFirst) ∧
    ∀ name f, hostFunction dylibs x = some (name, f) → hostFirst = true ∨ searchBins bins x = none →
      Fits s.dyld (svcNumber s x) f

/-! ## The invariant -/

/-- the link makes the supervisor call `n` -/
def Calls (s : Linker F K) (n : ℕ) : Linked F → Prop
  | .svc m _ => m = n ∨ m = n ||| svcLazyLinkRetFlag ∧ n < svcLazyLinkRetFlag
  | .jump a => s.created.lookup a = some n

/-- a link to a host function: the SVC is that of an entry of the table, and the search has come to the host -/
def MeansHost (s : Linker F K) (l : Link F) : Prop :=
  ∃ f i, hostFunction dylibs l.symbol = some (l.symbol, f) ∧ s.dyld.linkedHostFunctions[i]? = some (l.symbol, f) ∧
    (l.hostFirst = true ∨ searchBins bins l.symbol = none) ∧ Calls s (i + svcLinkedFunctionsBase) l.linked

/-- a link to a guest function, and the search has come to the binaries -/
def MeansGuest (s : Linker F K) (l : Link F) : Prop :=
  ∃ a, searchBins bins l.symbol = some a ∧ (l.hostFirst = false ∨ hostFunction dylibs l.symbol = none) ∧ l.linked = .jump a ∧
    s.created.lookup a = none

structure Consistent (s : Linker F K) : Prop where
  inv : s.heap.allocator.Inv
  numbers : s.dyld.linkedHostFunctions.length + svcLinkedFunctionsBase ≤ 2 ^ 24
  exports : ∀ x a, searchBins bins x = some a → s.heap.Owned a.toNat ∧ s.created.lookup a = none
  created : ∀ p ∈ s.created, s.heap.Owned p.1.toNat
  cached : ∀ x a, s.dyld.nonLazyHostFunctions x = some a → ∃ f i, hostFunction dylibs x = some (x, f) ∧
    s.dyld.linkedHostFunctions[i]? = some (x, f) ∧ s.created.lookup a = some (i + svcLinkedFunctionsBase)
  links : ∀ l ∈ s.links, MeansHost dylibs bins s l ∨ MeansGuest dylibs bins s l

end

/-! ## Supervisor calls -/

section

variable {F K : Type} {dylibs : List (HostDylib F K)} {bins : List MachO} {linkClass : LinkClass} {s s' : Linker F K}
  {d d' : Dyld F K} {h h' : Heap} {x : String} {f : F} {a : UInt32} {i n : ℕ} {l : Link F} {links : List (Link F)}
  {def_ : Definition F} {e : Linked F} {p : ℕ} {o : LinkOp F} {name : String} {h'' : Heap}

/-- clearing the flag -/
theorem clear_flag (hn : n < 2 ^ 24) : n &&& 0xff7fffff = n % 2 ^ 23 := by
  rw [← Nat.and_two_pow_sub_one_eq_mod]
  apply Nat.eq_of_testBit_eq
  intro j
  rw [Nat.testBit_and, Nat.testBit_and]
  by_cases hj : j < 24
  · have hbits : ∀ j < 24, Nat.testBit 0xff7fffff j = Nat.testBit (2 ^ 23 - 1) j := by decide
    rw [hbits j hj]
  · have hhigh : n.testBit j = false :=
      Nat.testBit_lt_two_pow (hn.trans_le (Nat.pow_le_pow_right (by decide) (Nat.le_of_not_lt hj)))
    rw [hhigh, Bool.false_and, Bool.false_and]

/-- the function of an SVC number, with the flag or without -/
theorem handler_eq (hn : n < 2 ^ 24) : handler d n =
    if 3 ≤ n % 2 ^ 23 then (d.linkedHostFunctions[n % 2 ^ 23 - 3]?).map fun e => .host e.2 else none := by
  unfold handler linkedFunction svcLazyLink svcLazyLinkRetFlag svcLinkedFunctionsBase sub32
  rw [clear_flag hn]
  split_ifs with h0 h3 h3
  · omega
  · rfl
  · rw [ok_bind]
    cases d.linkedHostFunctions[n % 2 ^ 23 - 3]? <;> rfl
  · rfl

theorem map_host_iff {e : Option (String × F)} :
    e.map (fun e => Definition.host e.2) = some (.host f) ↔ e.map Prod.snd = some f := by
  cases e <;> simp

/-- a call of the entry `i` reaches the function of that entry if its number fits -/
theorem handler_iff (hi : d.linkedHostFunctions[i]? = some (x, f)) (hn : i + 3 < 2 ^ 24) :
    handler d (i + 3) = some (.host f) ↔ Fits d (i + 3) f := by
  unfold Fits svcLazyLinkRetFlag svcLinkedFunctionsBase
  rw [handler_eq hn]
  by_cases hlt : i + 3 < 2 ^ 23
  · rw [Nat.mod_eq_of_lt hlt, if_pos (Nat.le_add_left 3 i), Nat.add_sub_cancel, hi]
    exact iff_of_true rfl (.inl hlt)
  · obtain ⟨j, hj⟩ := Nat.exists_eq_add_of_le (Nat.le_of_not_lt hlt)
    have hmod : (2 ^ 23 + j) % 2 ^ 23 = j := by omega
    rw [hj, hmod, show 2 ^ 23 + j - 0x800000 - 3 = j - 3 by omega]
    split_ifs with h3
    · rw [map_host_iff]
      exact ⟨fun h => .inr ⟨by omega, h⟩, fun h => (h.resolve_left (by omega)).2⟩
    · exact iff_of_false (fun h => nomatch h) (by omega)

/-- an SVC reaches no guest function -/
theorem handler_host (h : handler d n = some def_) : ∃ f, def_ = .host f := by
  unfold handler at h
  split_ifs at h
  obtain ⟨f, -, rfl⟩ := Option.map_eq_some_iff.1 h
  exact ⟨f, rfl⟩

/-- a call of an entry of the table does the same when the table has grown -/
theorem handler_append {l : List (String × F)} (hd : d'.linkedHostFunctions = d.linkedHostFunctions ++ l)
    (hi : i < d.linkedHostFunctions.length) (hn : i + 3 < 2 ^ 24) : handler d' (i + 3) = handler d (i + 3) := by
  rw [handler_eq hn, handler_eq hn, hd]
  split_ifs with h3
  · rw [List.getElem?_append_left]
    omega
  · rfl

/-- what a call of an entry leads to -/
theorem reach_calls (hc : Calls s n e) (hn : n < 2 ^ 24) : reach s e = handler s.dyld n := by
  cases e with
  | jump a =>
    have hlook : s.created.lookup a = some n := hc
    rw [reach, hlook]
  | svc m f =>
    rcases hc with rfl | ⟨rfl, hlt⟩
    · rfl
    · have hor : n ||| svcLazyLinkRetFlag = 2 ^ 23 + n := by
        rw [Nat.or_comm]
        exact (Nat.two_pow_add_eq_or_of_lt (i := 23) hlt 1).symm
      have hlt' : n < 2 ^ 23 := hlt
      rw [reach, hor, handler_eq (by omega), handler_eq hn, Nat.add_mod_left]

/-! ## What the linker does to its tables and to memory -/

theorem hostFunction_name {e : String × F} (he : hostFunction dylibs x = some e) : e.1 = x := by
  obtain ⟨dylib, -, hfind⟩ := List.exists_of_findSome?_eq_some he
  exact beq_iff_eq.1 (List.find?_some hfind :)

theorem Grows.refl (hi : h.allocator.Inv) : Grows h h := ⟨hi, fun _ hx => hx⟩

theorem Grows.trans (h1 : Grows h h') (h2 : Grows h' h'') : Grows h h'' :=
  ⟨h2.inv, fun x hx => h2.owned x (h1.owned x hx)⟩

theorem writeAt_grows {v : UInt32} (hi : h.allocator.Inv) (hw : writeAt h p n v = .ok h') : Grows h h' := by
  obtain ⟨q, -, hw⟩ := bind_eq_ok.1 hw
  obtain ⟨m, -, hw⟩ := bind_eq_ok.1 hw
  cases hw
  exact ⟨hi, fun _ hx => hx⟩

theorem writeInstructions_grows {instrs : List UInt32} (hi : h.allocator.Inv)
    (hw : writeInstructions p n instrs h = .ok h') : Grows h h' := by
  induction instrs generalizing n h with
  | nil =>
    cases hw
    exact .refl hi
  | cons instr instrs ih =>
    obtain ⟨h₁, h1, hw⟩ := bind_eq_ok.1 hw
    have hfirst := writeAt_grows hi h1
    exact hfirst.trans (ih hfirst.inv hw)

theorem linkByRestoringStub_grows {svcPc es pic : ℕ} (hi : h.allocator.Inv)
    (hl : linkByRestoringStub h a svcPc es pic = .ok h') : Grows h h' := by
  obtain ⟨instrs, -, hl⟩ := bind_eq_ok.1 hl
  obtain ⟨h₁, h1, hl⟩ := bind_eq_ok.1 hl
  obtain ⟨ptr, -, hl⟩ := bind_eq_ok.1 hl
  have hfirst : Grows h h₁ := by
    unfold restoreInstructions at h1
    split_ifs at h1
    · exact writeAt_grows hi h1
    · exact writeInstructions_grows hi h1
  exact hfirst.trans (writeAt_grows hfirst.inv hl)

/-- memory for a new function: it was not in use -/
theorem alloc_new {p size : ℕ} (hi : h.allocator.Inv) (hsize : size < 2 ^ 32) (ha : h.alloc size = .ok (p, h')) :
    Grows h h' ∧ h'.Owned p ∧ ¬h.Owned p := by
  obtain ⟨⟨q, al⟩, h1, h2⟩ := bind_eq_ok.1 ha
  obtain ⟨c, hb, hmin, hinv, hperm, hapart⟩ := Allocator.allocated hi hsize h1
  have halloc : p = q ∧ h'.allocator = al := by
    dsimp only at h2
    split_ifs at h2
    · obtain ⟨h₁, hz, h2⟩ := bind_eq_ok.1 h2
      cases h2
      obtain ⟨-, rfl⟩ := Heap.zero_cases hz
      exact ⟨rfl, rfl⟩
    · cases h2
      exact ⟨rfl, rfl⟩
  obtain ⟨rfl, rfl⟩ := halloc
  have hpos : 0 < c.size := lt_of_lt_of_le (by decide) (le_max_right size minChunkSize |>.trans hmin)
  have hspan : c.span.Has p := by
    rw [← hb]
    exact ⟨le_refl _, Nat.lt_add_of_pos_right hpos⟩
  refine ⟨⟨hinv, ?_⟩, ⟨c, hperm.mem_iff.2 List.mem_cons_self, hspan⟩, ?_⟩
  · rintro x ⟨c', hc', hx⟩
    exact ⟨c', hperm.mem_iff.2 (List.mem_cons_of_mem _ hc'), hx⟩
  · rintro ⟨c', hc', hx⟩
    exact hapart p hspan c' hc' hx

theorem nextSvc_ok (hn : d.nextSvc = .ok n) : n = d.linkedHostFunctions.length + 3 ∧ n < 2 ^ 32 := by
  unfold nextSvc add32 at hn
  split_ifs at hn with hlen hsum
  cases hn
  exact ⟨rfl, hsum⟩

theorem encodeA32Svc_ok {w : UInt32} (hn : n < 2 ^ 32) (he : encodeA32Svc n = .ok w) : n < 2 ^ 24 := by
  obtain ⟨u, hassert, -⟩ := bind_eq_ok.1 he
  unfold assert at hassert
  split_ifs at hassert with hmask
  have hbits : n &&& 0xff000000 = 0 := beq_iff_eq.1 hmask
  by_contra hle
  obtain ⟨j, hj⟩ := Nat.exists_testBit_of_ne_zero (show n / 2 ^ 24 ≠ 0 by omega)
  have hj8 : j < 8 := by
    by_contra h8
    have hsmall : n / 2 ^ 24 < 2 ^ j :=
      lt_of_lt_of_le (show n / 2 ^ 24 < 2 ^ 8 by omega) (Nat.pow_le_pow_right (by decide) (Nat.le_of_not_lt h8))
    rw [Nat.testBit_lt_two_pow hsmall] at hj
    cases hj
  have hset : ∀ j < 8, Nat.testBit 0xff000000 (24 + j) = true := by decide
  have hclear : (n &&& 0xff000000).testBit (24 + j) = false := by rw [hbits, Nat.zero_testBit]
  rw [Nat.testBit_and, hset j hj8, Bool.and_true, Nat.add_comm, ← Nat.testBit_div_two_pow, hj] at hclear
  cases hclear

/-- the tables that links depend on are the same -/
def SameTables (d d' : Dyld F K) : Prop :=
  d'.linkedHostFunctions = d.linkedHostFunctions ∧ d'.nonLazyHostFunctions = d.nonLazyHostFunctions

/-- a new function of the guest that calls the host function `f` -/
structure Creates (x : String) (f : F) (d d' : Dyld F K) (h h' : Heap) (a : UInt32) : Prop where
  linked : d'.linkedHostFunctions = d.linkedHostFunctions ++ [(x, f)]
  small : d'.linkedHostFunctions.length + svcLinkedFunctionsBase ≤ 2 ^ 24
  grows : Grows h h'
  owned : h'.Owned a.toNat
  fresh : ¬h.Owned a.toNat

theorem createGuestFunction_spec (hi : h.allocator.Inv) (hc : createGuestFunction x f d h = .ok (a, d', h')) :
    Creates x f d d' h h' a ∧ d'.nonLazyHostFunctions = d.nonLazyHostFunctions := by
  obtain ⟨svc, hsvc, hc⟩ := bind_eq_ok.1 hc
  obtain ⟨⟨p, h₁⟩, halloc, hc⟩ := bind_eq_ok.1 hc
  obtain ⟨instr, henc, hc⟩ := bind_eq_ok.1 hc
  obtain ⟨h₂, hw1, hc⟩ := bind_eq_ok.1 hc
  obtain ⟨h₃, hw2, hc⟩ := bind_eq_ok.1 hc
  cases hc
  obtain ⟨hgrow, hown, hnot⟩ := alloc_new hi (by decide) halloc
  have hrest := (writeAt_grows hgrow.inv hw1).trans (writeAt_grows (writeAt_grows hgrow.inv hw1).inv hw2)
  have hp : (UInt32.ofNat p).toNat = p := by
    obtain ⟨q, hq, -⟩ := bind_eq_ok.1 hw1
    unfold ptrAdd at hq
    split_ifs at hq with hlt
    rw [UInt32.toNat_ofNat']
    exact Nat.mod_eq_of_lt (by omega)
  obtain ⟨hlen, hlt⟩ := nextSvc_ok hsvc
  have hsmall := encodeA32Svc_ok hlt henc
  refine ⟨⟨rfl, ?_, hgrow.trans hrest, ?_, ?_⟩, rfl⟩
  · rw [List.length_append, List.length_singleton]
    unfold svcLinkedFunctionsBase
    omega
  · rw [hp]
    exact hrest.owned p hown
  · rwa [hp]

/-- a guest function for a host function: the one that there is already, or a new one -/
theorem createProcAddress_spec (hi : h.allocator.Inv) (hc : createProcAddressNoInval dylibs x d h = .ok (some a, d', h')) :
    ∃ f, hostFunction dylibs x = some (x, f) ∧
      (d.nonLazyHostFunctions x = some a ∧ d' = d ∧ h' = h ∨
        d.nonLazyHostFunctions x = none ∧ Creates x f d d' h h' a ∧
          d'.nonLazyHostFunctions = Function.update d.nonLazyHostFunctions x (some a)) := by
  unfold createProcAddressNoInval at hc
  cases hf : hostFunction dylibs x with
  | none =>
    rw [hostFunction] at hf
    rw [hf] at hc
    cases hc
  | some e =>
    obtain ⟨name, f⟩ := e
    obtain rfl : name = x := hostFunction_name hf
    refine ⟨f, rfl, ?_⟩
    rw [hostFunction] at hf
    rw [hf] at hc
    cases hcache : d.nonLazyHostFunctions name with
    | some b =>
      simp only [hcache, pure_eq_ok] at hc
      cases hc
      exact .inl ⟨rfl, rfl, rfl⟩
    | none =>
      simp only [hcache] at hc
      obtain ⟨⟨b, d₁, h₁⟩, hcreate, hc⟩ := bind_eq_ok.1 hc
      obtain ⟨hcreates, hkeep⟩ := createGuestFunction_spec hi hcreate
      cases hc
      exact .inr ⟨rfl, ⟨hcreates.linked, hcreates.small, hcreates.grows, hcreates.owned, hcreates.fresh⟩, by rw [hkeep]⟩

theorem createProcAddress_none (hc : createProcAddressNoInval dylibs x d h = .ok (none, d', h')) : d' = d ∧ h' = h := by
  unfold createProcAddressNoInval at hc
  split at hc
  · cases hc
    exact ⟨rfl, rfl⟩
  · split at hc
    · cases hc
    · obtain ⟨p, -, hc⟩ := bind_eq_ok.1 hc
      cases hc

/-- what a link leads to and what was made for it, when the binaries are searched first -/
def Finds (dylibs : List (HostDylib F K)) (bins : List MachO) (x : String) (d d' : Dyld F K) (h h' : Heap) (a : UInt32) :
    Prop :=
  searchBins bins x = some a ∧ SameTables d d' ∧ Grows h h' ∨
  searchBins bins x = none ∧ ∃ f, hostFunction dylibs x = some (x, f) ∧
    (d.nonLazyHostFunctions x = some a ∧ SameTables d d' ∧ Grows h h' ∨
      d.nonLazyHostFunctions x = none ∧ Creates x f d d' h h' a ∧
        d'.nonLazyHostFunctions = Function.update d.nonLazyHostFunctions x (some a))

theorem findTarget_some (hi : h.allocator.Inv) (hf : findTarget dylibs bins x d h = .ok (some a, d', h')) :
    Finds dylibs bins x d d' h h' a := by
  unfold findTarget at hf
  cases hg : searchBins bins x with
  | some b =>
    rw [hg] at hf
    cases hf
    exact .inl ⟨hg, ⟨rfl, rfl⟩, .refl hi⟩
  | none =>
    rw [hg] at hf
    refine .inr ⟨hg, ?_⟩
    cases hhost : hostFunction dylibs x with
    | none =>
      rw [hostFunction] at hhost
      rw [hhost] at hf
      cases hf
    | some e =>
      obtain ⟨name, f⟩ := e
      obtain rfl : name = x := hostFunction_name hhost
      have hhost' := hhost
      rw [hostFunction] at hhost
      simp only [hhost] at hf
      obtain ⟨⟨fn, d₁, h₁⟩, hproc, hf⟩ := bind_eq_ok.1 hf
      obtain ⟨b, hb, hf⟩ := bind_eq_ok.1 hf
      cases hf
      cases fn with
      | none => cases hb
      | some c =>
        cases hb
        obtain ⟨f', hf', hcases⟩ := createProcAddress_spec hi hproc
        refine ⟨f', hf'.symm.trans hhost' ▸ rfl, ?_⟩
        rcases hcases with ⟨hcache, rfl, rfl⟩ | hnew
        · exact .inl ⟨hcache, ⟨rfl, rfl⟩, .refl hi⟩
        · exact .inr hnew

/-- nothing has that name -/
def Unknown (dylibs : List (HostDylib F K)) (bins : List MachO) (x : String) : Prop :=
  hostFunction dylibs x = none ∧ searchBins bins x = none

theorem findTarget_none (hf : findTarget dylibs bins x d h = .ok (none, d', h')) :
    Unknown dylibs bins x ∧ d' = d ∧ h' = h := by
  unfold findTarget at hf
  split at hf
  · cases hf
  · next hg =>
    split at hf
    · obtain ⟨p, -, hf⟩ := bind_eq_ok.1 hf
      obtain ⟨b, -, hf⟩ := bind_eq_ok.1 hf
      cases hf
    · next hhost =>
      cases hf
      exact ⟨⟨hhost, hg⟩, rfl, rfl⟩

theorem Finds.grow (hf : Finds dylibs bins x d d' h h' a) (hg : Grows h' h'') :
    Finds dylibs bins x d d' h h'' a := by
  rcases hf with ⟨h1, h2, h3⟩ | ⟨h1, f, h2, ⟨h3, h4, h5⟩ | ⟨h3, h4, h5⟩⟩
  · exact .inl ⟨h1, h2, h3.trans hg⟩
  · exact .inr ⟨h1, f, h2, .inl ⟨h3, h4, h5.trans hg⟩⟩
  · exact .inr ⟨h1, f, h2, .inr ⟨h3, ⟨h4.linked, h4.small, h4.grows.trans hg, hg.owned _ h4.owned, h4.fresh⟩, h5⟩⟩

theorem Finds.inv (hf : Finds dylibs bins x d d' h h' a) : h'.allocator.Inv := by
  rcases hf with ⟨-, -, h3⟩ | ⟨-, f, -, ⟨-, -, h5⟩ | ⟨-, h4, -⟩⟩
  · exact h3.inv
  · exact h5.inv
  · exact h4.grows.inv

theorem relocationTarget_function (hx : IsFunctionSymbol x) :
    relocationTarget dylibs bins linkClass x d h = findTarget dylibs bins x d h := by
  unfold relocationTarget
  rw [hx.1]
  simp only [hx.2.1, if_neg hx.2.2]

/-- what is found for a name, if anything is -/
def Found (dylibs : List (HostDylib F K)) (bins : List MachO) (x : String) (d d' : Dyld F K) (h h' : Heap) :
    Option UInt32 → Prop
  | some a => Finds dylibs bins x d d' h h' a
  | none => Unknown dylibs bins x ∧ SameTables d d' ∧ h' = h

theorem linkRelocation_spec {r : Option UInt32} (hi : h.allocator.Inv) (hx : IsFunctionSymbol x)
    (hl : linkRelocation dylibs bins linkClass p x d h = .ok (r, d', h')) : Found dylibs bins x d d' h h' r := by
  obtain ⟨offset, -, hl⟩ := bind_eq_ok.1 hl
  obtain ⟨⟨target, d₁, h₁⟩, htarget, hl⟩ := bind_eq_ok.1 hl
  rw [relocationTarget_function hx] at htarget
  cases target with
  | none =>
    cases hl
    obtain ⟨hno, rfl, rfl⟩ := findTarget_none htarget
    exact ⟨hno, ⟨rfl, rfl⟩, rfl⟩
  | some b =>
    obtain ⟨h₂, hw, hl⟩ := bind_eq_ok.1 hl
    cases hl
    have hfinds := findTarget_some hi htarget
    exact hfinds.grow (writeAt_grows hfinds.inv hw)

theorem linkPointer_spec {r : Option UInt32} (hi : h.allocator.Inv)
    (hl : linkPointer dylibs bins p x d h = .ok (r, d', h')) : Found dylibs bins x d d' h h' r := by
  obtain ⟨⟨target, d₁, h₁⟩, htarget, hl⟩ := bind_eq_ok.1 hl
  cases target with
  | none =>
    have hsame := findTarget_none htarget
    dsimp only at hl
    split at hl
    · cases hl
      obtain ⟨hno, rfl, rfl⟩ := hsame
      exact ⟨hno, ⟨rfl, rfl⟩, rfl⟩
    · cases hl
      obtain ⟨hno, rfl, rfl⟩ := hsame
      exact ⟨hno, ⟨rfl, rfl⟩, rfl⟩
  | some b =>
    obtain ⟨h₂, hw, hl⟩ := bind_eq_ok.1 hl
    cases hl
    have hfinds := findTarget_some hi htarget
    exact hfinds.grow (writeAt_grows hfinds.inv hw)

/-- a linked stub: it jumps to the guest function that there is already for a host function, or calls a host function, or,
if there is none, jumps to the guest function of that name -/
theorem linkStub_spec {pc : ℕ} {stub : Stub} (hi : h.allocator.Inv)
    (hl : linkStub dylibs bins pc stub d h = .ok (e, d', h')) : Grows h h' ∧
    (∃ a, d.nonLazyHostFunctions stub.symbol = some a ∧ e = .jump a ∧ d' = d ∨
      d.nonLazyHostFunctions stub.symbol = none ∧
        ((∃ f n, hostFunction dylibs stub.symbol = some (stub.symbol, f) ∧ e = .svc n f ∧
          (n = d.linkedHostFunctions.length + 3 ∨
            n = (d.linkedHostFunctions.length + 3) ||| svcLazyLinkRetFlag ∧
              d.linkedHostFunctions.length + 3 < svcLazyLinkRetFlag) ∧
          d.linkedHostFunctions.length + 3 < 2 ^ 24 ∧
          d' = { d with linkedHostFunctions := d.linkedHostFunctions ++ [(stub.symbol, f)] }) ∨
        hostFunction dylibs stub.symbol = none ∧ searchBins bins stub.symbol = some a ∧ e = .jump a ∧ d' = d)) := by
  unfold linkStub at hl
  cases hcache : d.nonLazyHostFunctions stub.symbol with
  | some b =>
    rw [hcache] at hl
    obtain ⟨h₁, hrestore, hl⟩ := bind_eq_ok.1 hl
    cases hl
    exact ⟨linkByRestoringStub_grows hi hrestore, b, .inl ⟨rfl, rfl, rfl⟩⟩
  | none =>
    rw [hcache] at hl
    cases hhost : hostFunction dylibs stub.symbol with
    | some e' =>
      obtain ⟨name, f⟩ := e'
      obtain rfl : name = stub.symbol := hostFunction_name hhost
      rw [hostFunction] at hhost
      simp only [hhost] at hl
      obtain ⟨svc, hsvc, hl⟩ := bind_eq_ok.1 hl
      obtain ⟨n, hn, hl⟩ := bind_eq_ok.1 hl
      obtain ⟨instr, henc, hl⟩ := bind_eq_ok.1 hl
      obtain ⟨h₁, hw, hl⟩ := bind_eq_ok.1 hl
      obtain ⟨u, -, hl⟩ := bind_eq_ok.1 hl
      cases hl
      obtain ⟨rfl, hlt⟩ := nextSvc_ok hsvc
      refine ⟨writeAt_grows hi hw, 0, .inr ⟨rfl, .inl ⟨f, n, rfl, rfl, ?_⟩⟩⟩
      unfold stubSvc at hn
      split_ifs at hn with h4
      · obtain ⟨u, hassert, hn⟩ := bind_eq_ok.1 hn
        cases hn
        unfold assert at hassert
        split_ifs at hassert with hsmall
        have hflag := of_decide_eq_true hsmall
        exact ⟨.inr ⟨rfl, hflag⟩, lt_trans hflag (by decide), rfl⟩
      · cases hn
        exact ⟨.inl rfl, encodeA32Svc_ok hlt henc, rfl⟩
    | none =>
      rw [hostFunction] at hhost
      simp only [hhost] at hl
      cases hg : searchBins bins stub.symbol with
      | none =>
        rw [hg] at hl
        cases hl
      | some b =>
        rw [hg] at hl
        obtain ⟨h₁, hrestore, hl⟩ := bind_eq_ok.1 hl
        cases hl
        exact ⟨linkByRestoringStub_grows hi hrestore, b, .inr ⟨rfl, .inr ⟨rfl, rfl, rfl, rfl⟩⟩⟩

/-! ## A step -/

/-- what every step does: the tables grow, and so does the memory in use -/
structure Extends (dylibs : List (HostDylib F K)) (s s' : Linker F K) : Prop where
  linked : ∃ l, s'.dyld.linkedHostFunctions = s.dyld.linkedHostFunctions ++ l
  numbers : s'.dyld.linkedHostFunctions.length + svcLinkedFunctionsBase ≤ 2 ^ 24
  grows : Grows s.heap s'.heap
  created : ∃ c, s'.created = s.created ++ c ∧ ∀ p ∈ c, ¬s.heap.Owned p.1.toNat ∧ s'.heap.Owned p.1.toNat
  cached : ∀ x a, s'.dyld.nonLazyHostFunctions x = some a → s.dyld.nonLazyHostFunctions x = some a ∨
    ∃ f i, hostFunction dylibs x = some (x, f) ∧ s'.dyld.linkedHostFunctions[i]? = some (x, f) ∧
      s'.created.lookup a = some (i + svcLinkedFunctionsBase)

/-- a new link to a host function, and the SVC that it was to have -/
def NewHost (dylibs : List (HostDylib F K)) (bins : List MachO) (s s' : Linker F K) (l : Link F) : Prop :=
  ∃ f i, svcNumber s l.symbol = i + svcLinkedFunctionsBase ∧ hostFunction dylibs l.symbol = some (l.symbol, f) ∧
    s'.dyld.linkedHostFunctions[i]? = some (l.symbol, f) ∧ (l.hostFirst = true ∨ searchBins bins l.symbol = none) ∧
    Calls s' (i + svcLinkedFunctionsBase) l.linked

/-- what a step does to the links -/
def Links (dylibs : List (HostDylib F K)) (bins : List MachO) (s s' : Linker F K) (o : LinkOp F) : Prop :=
  (s'.links = s.links ∧ ∀ x first, o.target bins = some (x, first) → Unknown dylibs bins x) ∨
  ∃ l, s'.links = s.links ++ [l] ∧ o.target bins = some (l.symbol, l.hostFirst) ∧
    (NewHost dylibs bins s s' l ∨ MeansGuest dylibs bins s' l)

theorem extends_of_sameTables (hc : Consistent dylibs bins s) (hd : SameTables s.dyld d)
    (hg : Grows s.heap h) : Extends dylibs s ⟨d, h, s.created, links⟩ where
  linked := ⟨[], by rw [List.append_nil, hd.1]⟩
  numbers := by
    rw [hd.1]
    exact hc.numbers
  grows := hg
  created := ⟨[], (List.append_nil _).symm, fun p hp => nomatch hp⟩
  cached x a ha := by
    rw [hd.2] at ha
    exact .inl ha

theorem newFunction_same (hd : SameTables d d') : newFunction d d' a = [] := by
  unfold newFunction
  rw [hd.1, if_pos rfl]

theorem newFunction_creates (hc : Creates x f d d' h h' a) :
    newFunction d d' a = [(a, d.linkedHostFunctions.length + svcLinkedFunctionsBase)] := by
  unfold newFunction
  rw [hc.linked, List.length_append, if_neg (by simp)]

theorem lookup_fresh (hc : Consistent dylibs bins s) (ha : ¬s.heap.Owned a.toNat) (c : List (UInt32 × ℕ)) :
    (s.created ++ (a, n) :: c).lookup a = some n := by
  have hnone : s.created.lookup a = none := by
    rw [List.lookup_eq_none_iff]
    intro p hp
    refine bne_iff_ne.2 ?_
    rintro rfl
    exact ha (hc.created p hp)
  rw [List.lookup_append, hnone, Option.none_or, List.lookup_cons_self]

theorem extends_of_creates (hc : Consistent dylibs bins s) (hn : Creates x f s.dyld d s.heap h a)
    (hcache : ∀ y b, d.nonLazyHostFunctions y = some b → s.dyld.nonLazyHostFunctions y = some b ∨
      y = x ∧ b = a ∧ hostFunction dylibs x = some (x, f)) :
    Extends dylibs s ⟨d, h, s.created ++ newFunction s.dyld d a, links⟩ where
  linked := ⟨_, hn.linked⟩
  numbers := hn.small
  grows := hn.grows
  created := by
    refine ⟨_, rfl, fun p hp => ?_⟩
    rw [newFunction_creates hn, List.mem_singleton] at hp
    rw [hp]
    exact ⟨hn.fresh, hn.owned⟩
  cached y b hb := by
    rcases hcache y b hb with hold | ⟨rfl, rfl, hf⟩
    · exact .inl hold
    · refine .inr ⟨f, s.dyld.linkedHostFunctions.length, hf, ?_, ?_⟩
      · rw [hn.linked, List.getElem?_concat_length]
      · rw [newFunction_creates hn, lookup_fresh hc hn.fresh]

/-- a pointer that was filled in -/
theorem filled_spec (hc : Consistent dylibs bins s) (hf : Finds dylibs bins x s.dyld d s.heap h a) :
    Extends dylibs s (s.filled x (some a) d h) ∧
      (NewHost dylibs bins s (s.filled x (some a) d h) ⟨x, false, .jump a⟩ ∨
        MeansGuest dylibs bins (s.filled x (some a) d h) ⟨x, false, .jump a⟩) := by
  rcases hf with ⟨hg, hd, hgrow⟩ | ⟨hg, f, hf, ⟨hcache, hd, hgrow⟩ | ⟨hcache, hn, hupd⟩⟩
  · have hnew : newFunction s.dyld d a = [] := newFunction_same hd
    have hlook := (hc.exports x a hg).2
    unfold Linker.filled
    simp only [hnew, List.append_nil]
    exact ⟨extends_of_sameTables hc hd hgrow, .inr ⟨a, hg, .inl rfl, rfl, hlook⟩⟩
  · have hnew : newFunction s.dyld d a = [] := newFunction_same hd
    obtain ⟨f', i, hf', hi, hlook⟩ := hc.cached x a hcache
    unfold Linker.filled
    simp only [hnew, List.append_nil]
    refine ⟨extends_of_sameTables hc hd hgrow, .inl ⟨f', i, ?_, hf', ?_, .inr hg, hlook⟩⟩
    · simp only [svcNumber, hcache, hlook, Option.getD_some]
    · rw [hd.1]
      exact hi
  · have hnew := newFunction_creates hn
    refine ⟨extends_of_creates hc hn fun y b hb => ?_, .inl ⟨f, s.dyld.linkedHostFunctions.length, ?_, hf, ?_, .inr hg, ?_⟩⟩
    · rw [hupd] at hb
      by_cases hy : y = x
      · subst hy
        rw [Function.update_self] at hb
        exact .inr ⟨rfl, (Option.some.inj hb).symm, hf⟩
      · rw [Function.update_of_ne hy] at hb
        exact .inl hb
    · simp only [svcNumber, hcache]
    · simp only [Linker.filled, hn.linked, List.getElem?_concat_length]
    · simp only [Calls, Linker.filled, hnew, lookup_fresh hc hn.fresh]

theorem found_spec {target : Option UInt32} (hc : Consistent dylibs bins s) (ho : o.target bins = some (x, false))
    (hf : Found dylibs bins x s.dyld d s.heap h target) :
    Extends dylibs s (s.filled x target d h) ∧ Links dylibs bins s (s.filled x target d h) o := by
  cases target with
  | none =>
    obtain ⟨hno, hd, rfl⟩ := hf
    refine ⟨extends_of_sameTables hc hd (.refl hc.inv), .inl ⟨rfl, fun y first hy => ?_⟩⟩
    cases ho.symm.trans hy
    exact hno
  | some a =>
    obtain ⟨hext, hnew⟩ := filled_spec hc hf
    exact ⟨hext, .inr ⟨_, rfl, ho, hnew⟩⟩

/-- **A step** extends the tables; it makes no link, or one to an entry of the table, or one to a guest function. -/
theorem step_spec (hl : Legal s o) (hc : Consistent dylibs bins s)
    (hs : step dylibs bins linkClass s o = .ok s') : Extends dylibs s s' ∧ Links dylibs bins s s' o := by
  cases o with
  | stub svcPc =>
    obtain ⟨stub, hstub, hs⟩ := bind_eq_ok.1 hs
    obtain ⟨⟨e, d, h⟩, hlink, hs⟩ := bind_eq_ok.1 hs
    cases hs
    have htarget : LinkOp.target bins (.stub svcPc : LinkOp F) = some (stub.symbol, true) := by
      rw [LinkOp.target, hstub]
      rfl
    obtain ⟨hgrow, a, hcases⟩ := linkStub_spec hc.inv hlink
    rcases hcases with ⟨hcache, rfl, rfl⟩ | ⟨hcache, ⟨f, n, hf, rfl, hn, hsmall, rfl⟩ | ⟨hf, hg, rfl, rfl⟩⟩
    · obtain ⟨f, i, hf, hi, hlook⟩ := hc.cached stub.symbol a hcache
      refine ⟨extends_of_sameTables hc ⟨rfl, rfl⟩ hgrow, .inr ⟨_, rfl, htarget, .inl ⟨f, i, ?_, hf, hi, .inl rfl, hlook⟩⟩⟩
      simp only [svcNumber, hcache, hlook, Option.getD_some]
    · refine ⟨⟨⟨_, rfl⟩, ?_, hgrow, ⟨[], (List.append_nil _).symm, fun p hp => nomatch hp⟩, fun y b hb => .inl hb⟩,
        .inr ⟨_, rfl, htarget, .inl ⟨f, s.dyld.linkedHostFunctions.length, ?_, hf, ?_, .inl rfl, hn⟩⟩⟩
      · rw [List.length_append, List.length_singleton]
        unfold svcLinkedFunctionsBase
        omega
      · simp only [svcNumber, hcache]
      · exact List.getElem?_concat_length
    · exact ⟨extends_of_sameTables hc ⟨rfl, rfl⟩ hgrow,
        .inr ⟨_, rfl, htarget, .inr ⟨a, hg, .inr hf, rfl, (hc.exports _ a hg).2⟩⟩⟩
  | relocation p x =>
    obtain ⟨⟨target, d, h⟩, hlink, hs⟩ := bind_eq_ok.1 hs
    cases hs
    exact found_spec hc rfl (linkRelocation_spec hc.inv hl hlink)
  | pointer p x =>
    obtain ⟨⟨target, d, h⟩, hlink, hs⟩ := bind_eq_ok.1 hs
    cases hs
    exact found_spec hc rfl (linkPointer_spec hc.inv hlink)
  | procAddress x =>
    obtain ⟨⟨address, d, h⟩, hproc, hs⟩ := bind_eq_ok.1 hs
    cases address with
    | none =>
      cases hs
      obtain ⟨rfl, rfl⟩ := createProcAddress_none hproc
      exact ⟨extends_of_sameTables hc ⟨rfl, rfl⟩ (.refl hc.inv), .inl ⟨rfl, fun y first hy => nomatch hy⟩⟩
    | some a =>
      cases hs
      refine ⟨?_, .inl ⟨rfl, fun y first hy => nomatch hy⟩⟩
      obtain ⟨f, hf, ⟨-, rfl, rfl⟩ | ⟨-, hn, hupd⟩⟩ := createProcAddress_spec hc.inv hproc
      · rw [newFunction_same ⟨rfl, rfl⟩, List.append_nil]
        exact extends_of_sameTables hc ⟨rfl, rfl⟩ (.refl hc.inv)
      · refine extends_of_creates hc hn fun y b hb => ?_
        rw [hupd] at hb
        by_cases hy : y = x
        · subst hy
          rw [Function.update_self] at hb
          exact .inr ⟨rfl, (Option.some.inj hb).symm, hf⟩
        · rw [Function.update_of_ne hy] at hb
          exact .inl hb
  | guestFunction x f =>
    obtain ⟨⟨a, d, h⟩, hcreate, hs⟩ := bind_eq_ok.1 hs
    cases hs
    obtain ⟨hn, hkeep⟩ := createGuestFunction_spec hc.inv hcreate
    refine ⟨extends_of_creates hc hn fun y b hb => ?_, .inl ⟨rfl, fun y first hy => nomatch hy⟩⟩
    rw [hkeep] at hb
    exact .inl hb
  | other h =>
    cases hs
    exact ⟨extends_of_sameTables hc ⟨rfl, rfl⟩ hl, .inl ⟨rfl, fun y first hy => nomatch hy⟩⟩

/-! ## Links keep their meaning -/

theorem Extends.getElem (hx : Extends dylibs s s') {e : String × F} (hi : s.dyld.linkedHostFunctions[i]? = some e) :
    s'.dyld.linkedHostFunctions[i]? = some e := by
  obtain ⟨l, hl⟩ := hx.linked
  obtain ⟨hlt, -⟩ := List.getElem?_eq_some_iff.1 hi
  rw [hl, List.getElem?_append_left hlt, hi]

theorem Extends.lookup (hx : Extends dylibs s s') (ha : s.created.lookup a = some n) : s'.created.lookup a = some n := by
  obtain ⟨c, hcr, -⟩ := hx.created
  rw [hcr, List.lookup_append, ha, Option.some_or]

/-- memory that was in use before is not that of a new function -/
theorem Extends.lookup_none (hx : Extends dylibs s s') (hown : s.heap.Owned a.toNat) (ha : s.created.lookup a = none) :
    s'.created.lookup a = none := by
  obtain ⟨c, hcr, hfresh⟩ := hx.created
  rw [hcr, List.lookup_append, ha, Option.none_or, List.lookup_eq_none_iff]
  intro p hp
  refine bne_iff_ne.2 ?_
  rintro rfl
  exact (hfresh p hp).1 hown

theorem Extends.calls (hx : Extends dylibs s s') (he : Calls s n e) : Calls s' n e := by
  cases e with
  | svc m f => exact he
  | jump a => exact hx.lookup he

theorem Extends.meansHost (hx : Extends dylibs s s') (hl : MeansHost dylibs bins s l) :
    MeansHost dylibs bins s' l := by
  obtain ⟨f, i, hf, hi, hfirst, hcalls⟩ := hl
  exact ⟨f, i, hf, hx.getElem hi, hfirst, hx.calls hcalls⟩

theorem Extends.meansGuest (hx : Extends dylibs s s') (hc : Consistent dylibs bins s)
    (hl : MeansGuest dylibs bins s l) : MeansGuest dylibs bins s' l := by
  obtain ⟨a, hg, hfirst, he, hlook⟩ := hl
  exact ⟨a, hg, hfirst, he, hx.lookup_none (hc.exports _ a hg).1 hlook⟩

theorem NewHost.meansHost (h : NewHost dylibs bins s s' l) : MeansHost dylibs bins s' l := by
  obtain ⟨f, i, -, hf, hi, hfirst, hcalls⟩ := h
  exact ⟨f, i, hf, hi, hfirst, hcalls⟩

/-- the invariant is kept -/
theorem step_consistent (hl : Legal s o) (hc : Consistent dylibs bins s)
    (hs : step dylibs bins linkClass s o = .ok s') : Consistent dylibs bins s' := by
  obtain ⟨hx, hlinks⟩ := step_spec hl hc hs
  have hold : ∀ l ∈ s.links, MeansHost dylibs bins s' l ∨ MeansGuest dylibs bins s' l := fun l hmem =>
    (hc.links l hmem).imp hx.meansHost (hx.meansGuest hc)
  refine ⟨hx.grows.inv, hx.numbers, fun x a hg => ?_, fun p hp => ?_, fun x a ha => ?_, fun l hmem => ?_⟩
  · obtain ⟨hown, hlook⟩ := hc.exports x a hg
    exact ⟨hx.grows.owned _ hown, hx.lookup_none hown hlook⟩
  · obtain ⟨c, hcr, hfresh⟩ := hx.created
    rw [hcr] at hp
    rcases List.mem_append.1 hp with hp | hp
    · exact hx.grows.owned _ (hc.created p hp)
    · exact (hfresh p hp).2
  · rcases hx.cached x a ha with ha | hnew
    · obtain ⟨f, i, hf, hi, hlook⟩ := hc.cached x a ha
      exact ⟨f, i, hf, hx.getElem hi, hx.lookup hlook⟩
    · exact hnew
  · rcases hlinks with ⟨hsame, -⟩ | ⟨new, happ, -, hnew⟩
    · exact hold l (hsame ▸ hmem)
    · rw [happ] at hmem
      rcases List.mem_append.1 hmem with hmem | hmem
      · exact hold l hmem
      · rw [List.mem_singleton.1 hmem]
        exact hnew.imp NewHost.meansHost id

theorem reach_host (hc : Consistent dylibs bins s) (hl : MeansHost dylibs bins s l) : ∃ f i,
    hostFunction dylibs l.symbol = some (l.symbol, f) ∧ s.dyld.linkedHostFunctions[i]? = some (l.symbol, f) ∧
    i + 3 < 2 ^ 24 ∧ reach s l.linked = handler s.dyld (i + 3) := by
  obtain ⟨f, i, hf, hi, -, hcalls⟩ := hl
  obtain ⟨hlt, -⟩ := List.getElem?_eq_some_iff.1 hi
  have hsmall : i + 3 < 2 ^ 24 := by
    have hle := hc.numbers
    unfold svcLinkedFunctionsBase at hle
    omega
  exact ⟨f, i, hf, hi, hsmall, reach_calls hcalls hsmall⟩

theorem reach_guest (hl : MeansGuest dylibs bins s l) :
    ∃ a, searchBins bins l.symbol = some a ∧ reach s l.linked = some (.guest a) := by
  obtain ⟨a, hg, -, he, hlook⟩ := hl
  refine ⟨a, hg, ?_⟩
  rw [he, reach, hlook]

/-- a link leads where it led before -/
theorem reach_kept (hx : Extends dylibs s s') (hc : Consistent dylibs bins s) (hmem : l ∈ s.links) :
    reach s' l.linked = reach s l.linked := by
  rcases hc.links l hmem with hhost | hguest
  · obtain ⟨f, i, -, hi, -, hcalls⟩ := hhost
    obtain ⟨hlt, -⟩ := List.getElem?_eq_some_iff.1 hi
    have hsmall : i + svcLinkedFunctionsBase < 2 ^ 24 := by
      have hle := hc.numbers
      omega
    obtain ⟨l', hl'⟩ := hx.linked
    rw [reach_calls hcalls hsmall, reach_calls (hx.calls hcalls) hsmall]
    exact handler_append hl' hlt hsmall
  · obtain ⟨a, hg, hreach⟩ := reach_guest hguest
    obtain ⟨a', hg', hreach'⟩ := reach_guest (hx.meansGuest hc hguest)
    rw [hreach, hreach', Option.some.inj (hg.symm.trans hg')]

/-! ## When a link agrees with the earlier ones -/

/-- two links of one symbol that lead to different sides: the symbol is on both, and they were made in different ways -/
theorem different_sides {l l' : Link F} (hl : MeansHost dylibs bins s l) (hl' : MeansGuest dylibs bins s' l')
    (heq : l.symbol = l'.symbol) : ((hostFunction dylibs l.symbol).isSome ∧ (searchBins bins l.symbol).isSome) ∧
      l.hostFirst = true ∧ l'.hostFirst = false := by
  obtain ⟨f, i, hf, -, hfirst, -⟩ := hl
  obtain ⟨a, hg, hfirst', -, -⟩ := hl'
  rw [← heq] at hg hfirst'
  rw [hf] at hfirst' ⊢
  rw [hg] at hfirst ⊢
  exact ⟨⟨rfl, rfl⟩, hfirst.resolve_right (by simp), hfirst'.resolve_right (by simp)⟩

/-- a link to a host function can only lead to the host function of the symbol -/
theorem definition_of_host (hc : Consistent dylibs bins s) (hl : MeansHost dylibs bins s l)
    (hf : hostFunction dylibs l.symbol = some (name, f)) (hd : Defines dylibs bins l.symbol def_)
    (hr : reach s l.linked = some def_) : def_ = .host f := by
  obtain ⟨f', i, -, -, -, hreach⟩ := reach_host hc hl
  rw [hreach] at hr
  obtain ⟨f'', rfl⟩ := handler_host hr
  obtain ⟨name', hname⟩ := hd
  rw [hf] at hname
  rw [(Prod.mk.inj (Option.some.inj hname)).2]

/-- the number of a link is that of an entry of the table, or the next one -/
theorem svcNumber_le (hc : Consistent dylibs bins s) : svcNumber s x ≤ s.dyld.linkedHostFunctions.length + 3 := by
  unfold svcNumber
  split
  · next a ha =>
    obtain ⟨f, i, -, hi, hlook⟩ := hc.cached x a ha
    obtain ⟨hlt, -⟩ := List.getElem?_eq_some_iff.1 hi
    rw [hlook, Option.getD_some]
    exact Nat.add_le_add_right hlt.le 3
  · exact le_refl _

/-- what a number leads to does not depend on the entry that is being added -/
theorem fits_congr (hx : Extends dylibs s s') (hn : n ≤ s.dyld.linkedHostFunctions.length + 3) :
    Fits s'.dyld n f ↔ Fits s.dyld n f := by
  obtain ⟨l, hl⟩ := hx.linked
  unfold Fits svcLazyLinkRetFlag svcLinkedFunctionsBase
  refine or_congr Iff.rfl (and_congr_right fun hle => ?_)
  rw [hl, List.getElem?_append_left (by omega)]

/-- a new link to a host function leads to it exactly if its number fits -/
theorem newHost_iff (hc : Consistent dylibs bins s) (hc' : Consistent dylibs bins s') (hx : Extends dylibs s s')
    (hl : NewHost dylibs bins s s' l) (hf : hostFunction dylibs l.symbol = some (name, f)) :
    reach s' l.linked = some (.host f) ↔ Fits s.dyld (svcNumber s l.symbol) f := by
  obtain ⟨f', i, hnum, hf', hi, -, hcalls⟩ := hl
  obtain rfl : f' = f := (Prod.mk.inj (Option.some.inj (hf'.symm.trans hf))).2
  obtain ⟨hlt, -⟩ := List.getElem?_eq_some_iff.1 hi
  have hsmall : i + svcLinkedFunctionsBase < 2 ^ 24 := by
    have hle := hc'.numbers
    omega
  have hle := svcNumber_le (x := l.symbol) hc
  rw [reach_calls hcalls hsmall, ← fits_congr hx hle, hnum]
  exact handler_iff hi hsmall

/-- **One step**: all links of a symbol still lead to one definition exactly if the step keeps to the side of the earlier
links of its symbol. -/
theorem step_same_iff (hl : Legal s o) (hc : Consistent dylibs bins s) (hP : SameDefinition dylibs bins s)
    (hs : step dylibs bins linkClass s o = .ok s') : SameDefinition dylibs bins s' ↔ SideIsKept dylibs bins s o := by
  have hc' := step_consistent hl hc hs
  obtain ⟨hx, ⟨hsame, hunknown⟩ | ⟨l, happ, htarget, hnew⟩⟩ := step_spec hl hc hs
  · -- no link
    refine iff_of_true ?_ ?_
    · rintro x ⟨l, hmem, hlx⟩
      rw [hsame] at hmem ⊢
      obtain ⟨def_, hdef, hall⟩ := hP x ⟨l, hmem, hlx⟩
      exact ⟨def_, hdef, fun l' hl' hx' => (reach_kept hx hc hl').trans (hall l' hl' hx')⟩
    · intro x first hx'
      obtain ⟨hno, hno'⟩ := hunknown x first hx'
      rw [hno, hno']
      exact ⟨fun h => absurd h.1 (by simp), fun name f h => nomatch h⟩
  · have hmem : l ∈ s'.links := by
      rw [happ]
      exact List.mem_append_right _ List.mem_cons_self
    have holder : ∀ l' ∈ s.links, l' ∈ s'.links := fun l' hl' => by
      rw [happ]
      exact List.mem_append_left _ hl'
    constructor
    · intro hP' x first hx'
      cases htarget.symm.trans hx'
      obtain ⟨def_, hdef, hall⟩ := hP' l.symbol ⟨l, hmem, rfl⟩
      have hmine := hall l hmem rfl
      -- no two links of the symbol lead to different sides
      have hmixed : ∀ l₁ ∈ s'.links, ∀ l₂ ∈ s'.links, l₁.symbol = l.symbol → l₂.symbol = l.symbol →
          MeansHost dylibs bins s' l₁ → ¬MeansGuest dylibs bins s' l₂ := by
        intro l₁ h₁ l₂ h₂ hx₁ hx₂ hhost hguest
        obtain ⟨f, i, -, -, -, hreach⟩ := reach_host hc' hhost
        obtain ⟨a, -, hreach'⟩ := reach_guest hguest
        rw [hall l₁ h₁ hx₁] at hreach
        rw [hall l₂ h₂ hx₂] at hreach'
        obtain ⟨f', rfl⟩ := handler_host hreach.symm
        exact nomatch hreach'
      refine ⟨fun hboth l' hl' heq => ?_, fun name f hf hfirst => ?_⟩
      · have hmeans := hc'.links l hmem
        rcases hc'.links l' (holder l' hl') with hhost' | hguest'
        · obtain ⟨f, i, -, -, hfirst, -⟩ := hmeans.resolve_right (hmixed l' (holder l' hl') l hmem heq rfl hhost')
          obtain ⟨f', i', -, -, hfirst', -⟩ := hhost'
          rw [heq] at hfirst'
          have hsome : searchBins bins l.symbol ≠ none := Option.isSome_iff_ne_none.1 hboth.2
          rw [hfirst.resolve_right hsome, hfirst'.resolve_right hsome]
        · obtain ⟨a, -, hfirst, -⟩ := hmeans.resolve_left fun hhost => hmixed l hmem l' (holder l' hl') rfl heq hhost hguest'
          obtain ⟨a', -, hfirst', -⟩ := hguest'
          rw [heq] at hfirst'
          have hsome : hostFunction dylibs l.symbol ≠ none := Option.isSome_iff_ne_none.1 hboth.1
          rw [hfirst.resolve_right hsome, hfirst'.resolve_right hsome]
      · rcases hnew with hhost | hguest
        · obtain rfl := definition_of_host hc' hhost.meansHost hf hdef hmine
          exact (newHost_iff hc hc' hx hhost hf).1 hmine
        · obtain ⟨a, hg, hfirst', -⟩ := hguest
          rw [hf] at hfirst'
          rw [hg] at hfirst
          rw [hfirst'.resolve_right (by simp)] at hfirst
          exact absurd hfirst (by simp)
    · intro hkept x hex
      obtain ⟨hside, hfits⟩ := hkept l.symbol l.hostFirst htarget
      have hcases : ∀ l' ∈ s'.links, l' ∈ s.links ∨ l' = l := fun l' hl' => by
        rw [happ] at hl'
        exact (List.mem_append.1 hl').imp id List.mem_singleton.1
      by_cases hxl : x = l.symbol
      · subst hxl
        -- the definition that the new link leads to
        have hmine : ∃ def_, Defines dylibs bins l.symbol def_ ∧ reach s' l.linked = some def_ := by
          rcases hnew with hhost | hguest
          · have hl' := hhost
            obtain ⟨f, i, -, hf, -, hfirst, -⟩ := hl'
            exact ⟨.host f, ⟨_, hf⟩, (newHost_iff hc hc' hx hhost hf).2 (hfits _ f hf hfirst)⟩
          · obtain ⟨a, hg, hreach⟩ := reach_guest hguest
            exact ⟨.guest a, hg, hreach⟩
        obtain ⟨def_, hdef, hmine⟩ := hmine
        refine ⟨def_, hdef, fun l' hl' heq => ?_⟩
        rcases hcases l' hl' with hl' | rfl
        · obtain ⟨def_', hdef', hall⟩ := hP l.symbol ⟨l', hl', heq⟩
          have htheirs := (reach_kept hx hc hl').trans (hall l' hl' heq)
          rw [htheirs]
          have hmeans := hc'.links l' (holder l' hl')
          rcases hnew.imp NewHost.meansHost id with hhost | hguest
          · rcases hmeans with hhost' | hguest'
            · obtain ⟨f, i, hf, -, -⟩ := id hhost
              rw [definition_of_host hc' hhost hf hdef hmine]
              rw [← heq] at hf hdef'
              rw [definition_of_host hc' hhost' hf hdef' htheirs]
            · obtain ⟨hboth, h1, h2⟩ := different_sides hhost hguest' heq.symm
              exact absurd ((hside hboth l' hl' heq).symm.trans h2) (by simp [h1])
          · rcases hmeans with hhost' | hguest'
            · obtain ⟨hboth, h1, h2⟩ := different_sides hhost' hguest heq
              rw [heq] at hboth
              exact absurd (h1.symm.trans (hside hboth l' hl' heq)) (by simp [h2])
            · obtain ⟨a, hg, hreach⟩ := reach_guest hguest
              obtain ⟨a', hg', hreach'⟩ := reach_guest hguest'
              rw [heq] at hg'
              rw [hmine] at hreach
              rw [htheirs] at hreach'
              rw [hreach, hreach', Option.some.inj (hg.symm.trans hg')]
        · exact hmine
      · have hold : ∀ l' ∈ s'.links, l'.symbol = x → l' ∈ s.links := fun l' hl' heq =>
          (hcases l' hl').resolve_right (by rintro rfl; exact hxl heq.symm)
        obtain ⟨l₁, hl₁, hx₁⟩ := hex
        obtain ⟨def_, hdef, hall⟩ := hP x ⟨l₁, hold l₁ hl₁ hx₁, hx₁⟩
        exact ⟨def_, hdef, fun l' hl' heq => (reach_kept hx hc (hold l' hl' heq)).trans (hall l' (hold l' hl' heq) heq)⟩

/-! ## Runs -/

/-- the linker before anything is linked -/
def start (h : Heap) : Linker F K := ⟨Dyld.new, h, [], []⟩

theorem start_consistent (hi : h.allocator.Inv) (hexp : ∀ x a, searchBins bins x = some a → h.Owned a.toNat) :
    Consistent dylibs bins (start h : Linker F K) where
  inv := hi
  numbers := show 0 + 3 ≤ 2 ^ 24 by decide
  exports x a hg := ⟨hexp x a hg, rfl⟩
  created p hp := nomatch hp
  cached x a ha := nomatch ha
  links l hl := nomatch hl

end

/-! ## A symbol on both sides -/

/-- the memory of a binary at 0x1000, with a stub at 0x2000 that is not linked yet -/
def imageAllocator : Allocator :=
  (Allocator.sampleStart.reserve ⟨0x1000, 0x4000, by decide⟩).toOption.getD Allocator.sampleStart

def imageHeap : Heap where
  bytes := Words.storeWord (fun _ => 0) 0x2004 encodeA32Ret
  nullSegmentSize := 0
  allocator := imageAllocator
  zeroMemoryOnFree := true

/-- a host library with the function "_foo" -/
def fooDylibs : List (HostDylib Unit Unit) := [⟨[[("_foo", ())]], []⟩]

/-- a binary that exports "_foo" at 0x3000 and has a stub for it -/
def fooBins : List MachO :=
  [⟨fun name => if name = "_foo" then some 0x3000 else none, some ⟨0x2000, 12, some ⟨12, [some "_foo"]⟩⟩, none, none, []⟩]

theorem imageHeap_inv : imageHeap.allocator.Inv ∧ imageHeap.Owned 0x3000 := by
  obtain ⟨a, hnew, hinv, -⟩ := Allocator.new_ok
  have hstart : Allocator.new = .ok Allocator.sampleStart := by decide +kernel
  cases hnew.symm.trans hstart
  obtain ⟨a', hres, hinv', hperm⟩ := Allocator.reserve_ok (c := ⟨0x1000, 0x4000, by decide⟩) (u := Allocator.belowStack) hinv
    (by decide +kernel) (by decide) (by decide) (by decide) (by decide)
  have himage : imageHeap.allocator = a' := by
    simp only [imageHeap, imageAllocator, hres]
    rfl
  refine ⟨himage ▸ hinv', ⟨0x1000, 0x4000, by decide⟩, ?_, by decide⟩
  rw [himage]
  exact hperm.mem_iff.2 List.mem_cons_self

theorem fooBins_owned : ∀ x a, searchBins fooBins x = some a → imageHeap.Owned a.toNat := by
  intro x a hg
  have hfound : (if x = "_foo" then some (0x3000 : UInt32) else none) = some a := by
    simpa [searchBins, fooBins] using hg
  split_ifs at hfound
  rw [← Option.some.inj hfound]
  exact imageHeap_inv.2

def noClasses : LinkClass := fun _ _ _ => .error .todo

end TouchHLE.Dyld
