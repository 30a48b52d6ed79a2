/-
`NSMutableData` (`ns_data.rs`): objects with a buffer of their own in the guest memory, beside the byte lists that they
stand for.

- `increaseLengthBy`, `appendBytes`, `setLength`, `isEqualToData`: the methods.
- `DataOp`, `DataState.step`: calls on any number of objects. `specify`: what the calls do to byte lists.
- `Stale`, `Lost`: bytes behind the contents that are not zero, and an argument in the buffer that is given back.
- `increase_iff`, `append_iff`, `set_length`: one call on one object.
- `Refines`, `Inv`: the bytes of every object are its list, and every object has a buffer of its own.
- `step_outcome`: a call is right if and only if there are no such bytes. `refines_iff`: runs. `stale_bytes`: runs that
  are wrong.
-/
import TouchHLE.Mem.Growth

namespace TouchHLE

open Machine Words

structure NSDataHostObject where
  bytes : ℕ
  length : ℕ
deriving DecidableEq

namespace NSMutableData

/-! ## The methods -/

def initWithBytes (h : Heap) (bytes length : ℕ) : Except Panic (NSDataHostObject × Heap) := do
  let (alloc, h) ← h.alloc length
  let h ← h.memmove alloc bytes length
  pure (⟨alloc, length⟩, h)

def initWithLength (h : Heap) (length : ℕ) : Except Panic (NSDataHostObject × Heap) := do
  let (alloc, h) ← h.calloc length
  pure (⟨alloc, length⟩, h)

def increaseLengthBy (h : Heap) (this : NSDataHostObject) (addLen : ℕ) : Except Panic (NSDataHostObject × Heap) := do
  let newLen ← add32 this.length addLen
  let (newBytes, h) ← h.realloc this.bytes newLen
  pure (⟨newBytes, newLen⟩, h)

def appendBytes (h : Heap) (this : NSDataHostObject) (bytes length : ℕ) : Except Panic (NSDataHostObject × Heap) := do
  let oldLen := this.length
  let (this, h) ← increaseLengthBy h this length
  let dest ← Mem.ptrAdd this.bytes oldLen 1
  let h ← h.memmove dest bytes length
  pure (this, h)

def appendData (h : Heap) (this otherData : NSDataHostObject) : Except Panic (NSDataHostObject × Heap) :=
  appendBytes h this otherData.bytes otherData.length

def setLength (h : Heap) (this : NSDataHostObject) (newLength : ℕ) : Except Panic (NSDataHostObject × Heap) := do
  let (newBytes, h) ← h.realloc this.bytes newLength
  if newLength > this.length then do
    h.toMem.checkRange newBytes newLength
    let h ← h.zero (newBytes + this.length) (newLength - this.length)
    pure (⟨newBytes, newLength⟩, h)
  else pure (⟨newBytes, newLength⟩, h)

def toRustSlice (h : Heap) (data : NSDataHostObject) : Except Panic (List UInt8) := do
  assert (data.bytes != 0 && data.length != 0) .nilArgument
  h.toMem.readBytes data.bytes data.length

def isEqualToData (h : Heap) (this other : NSDataHostObject) : Except Panic Bool := do
  let a ← toRustSlice h this
  let b ← toRustSlice h other
  pure (a == b)

end NSMutableData

/-! ## Runs -/

/-- data objects have numbers in the order in which they are made -/
inductive DataOp where
  | data
  | dataWithBytes (bytes length : UInt32)
  | dataWithLength (length : UInt32)
  | appendBytes (i : ℕ) (bytes length : UInt32)
  | appendData (i j : ℕ)
  | increaseLengthBy (i : ℕ) (addLen : UInt32)
  | setLength (i : ℕ) (newLength : UInt32)
  | isEqualToData (i j : ℕ)

structure DataState where
  heap : Heap
  objects : List NSDataHostObject
  /-- the byte lists that the objects stand for -/
  contents : List (List UInt8)

namespace DataState

open NSMutableData

variable (s : DataState)

def borrow (i : ℕ) : Except Panic NSDataHostObject := unwrap s.objects[i]? .hostObject

def listOf (i : ℕ) : List UInt8 := s.contents.getD i []

/-- what a call does to the byte lists; arguments that are pointers are read in memory before it -/
def specify : DataOp → List (List UInt8)
  | .data => s.contents ++ [[]]
  | .dataWithBytes bytes length => s.contents ++ [load s.heap.bytes bytes.toNat length.toNat]
  | .dataWithLength length => s.contents ++ [List.replicate length.toNat 0]
  | .appendBytes i bytes length => s.contents.set i (s.listOf i ++ load s.heap.bytes bytes.toNat length.toNat)
  | .appendData i j => s.contents.set i (s.listOf i ++ s.listOf j)
  | .increaseLengthBy i addLen => s.contents.set i (s.listOf i ++ List.replicate addLen.toNat 0)
  | .setLength i newLength =>
    s.contents.set i ((s.listOf i).take newLength.toNat ++ List.replicate (newLength.toNat - (s.listOf i).length) 0)
  | .isEqualToData _ _ => s.contents

/-- an object that is new -/
def create (made : Except Panic (NSDataHostObject × Heap)) : Except Panic (Heap × List NSDataHostObject) := do
  let (d, heap) ← made
  pure (heap, s.objects ++ [d])

/-- a method that changes an object -/
def change (i : ℕ) (f : NSDataHostObject → Except Panic (NSDataHostObject × Heap)) :
    Except Panic (Heap × List NSDataHostObject) := do
  let d ← s.borrow i
  let (d, heap) ← f d
  pure (heap, s.objects.set i d)

def call : DataOp → Except Panic (Heap × List NSDataHostObject)
  | .data => s.create (pure (⟨0, 0⟩, s.heap))
  | .dataWithBytes bytes length => s.create (initWithBytes s.heap bytes.toNat length.toNat)
  | .dataWithLength length => s.create (initWithLength s.heap length.toNat)
  | .appendBytes i bytes length => s.change i fun d => NSMutableData.appendBytes s.heap d bytes.toNat length.toNat
  | .appendData i j => do
    let otherData ← s.borrow j
    s.change i fun d => NSMutableData.appendData s.heap d otherData
  | .increaseLengthBy i addLen => s.change i fun d => NSMutableData.increaseLengthBy s.heap d addLen.toNat
  | .setLength i newLength => s.change i fun d => NSMutableData.setLength s.heap d newLength.toNat
  | .isEqualToData i j => do
    let this ← s.borrow i
    let other ← s.borrow j
    let _ ← NSMutableData.isEqualToData s.heap this other
    pure (s.heap, s.objects)

def step (s : DataState) (o : DataOp) : Except Panic DataState := do
  let (heap, objects) ← s.call o
  pure ⟨heap, objects, s.specify o⟩

end DataState

namespace NSMutableData

open Heap

/-! ## One object -/

variable {h h' h₂ : Heap} {d d' : NSDataHostObject} {n src size : ℕ} {e : NSDataHostObject}

def content (h : Heap) (d : NSDataHostObject) : List UInt8 := load h.bytes d.bytes d.length

/-- the object has a buffer that is long enough -/
def Stored (h : Heap) (d : NSDataHostObject) : Prop := ∃ size, d.length ≤ size ∧ h.Buffer d.bytes size

/-- **What a call leaves**: the object is stored, and the other allocations are as they were. -/
structure Changed (h : Heap) (d : NSDataHostObject) (h' : Heap) (d' : NSDataHostObject) : Prop where
  tidy : h'.Tidy
  stored : Stored h' d'
  others : ∀ r s, h.Live r s → r ≠ d.bytes → h'.Live r s ∧ r ≠ d'.bytes ∧ ∀ k < s, h'.bytes (r + k) = h.bytes (r + k)

theorem changed_of_grown {len : ℕ} (ht : h.Tidy) (hb : h.Buffer d.bytes size) (hlen : len ≤ n)
    (hg : Grown h d.bytes size n d'.bytes h') (hlength : d'.length = len) : Changed h d h' d' := by
  obtain ⟨size', hle, hlive⟩ := hg.live
  refine ⟨hg.tidy, ⟨size', by omega, Or.inr hlive⟩, fun r s hr hne => ?_⟩
  obtain ⟨hr', hne'⟩ := hg.others r s hr hne
  exact ⟨hr', hne', fun k hk => hg.bytes ht.valid hb hr hne hk⟩

/-- the contents that are kept, and what is behind them -/
theorem grown_content (d' : NSDataHostObject) (hlen : d.length ≤ size)
    (hg : Grown h d.bytes size (d.length + n) d'.bytes h')
    (hlength : d'.length = d.length + n) :
    content h' d' = content h d ++ load h'.bytes (d'.bytes + d.length) n := by
  have hkept : load h'.bytes d'.bytes d.length = load h.bytes d.bytes d.length := by
    rw [load_eq_iff]
    intro k hk
    rw [hg.copied k (by omega), if_pos (by omega)]
  rw [content, hlength, load_add, hkept, content]

/-- **Stale bytes**: there is one behind the contents that is not zero, at which the contents are to be extended. -/
def Stale (h : Heap) (d : NSDataHostObject) (newLen : ℕ) : Prop :=
  ∃ size, h.Buffer d.bytes size ∧ ∃ k < size, d.length ≤ k ∧ k < newLen ∧ h.bytes (d.bytes + k) ≠ 0

theorem increase_iff (ht : h.Tidy) (hs : Stored h d) (hcall : increaseLengthBy h d n = .ok (d', h')) :
    Changed h d h' d' ∧ (content h' d' = content h d ++ List.replicate n 0 ↔ ¬Stale h d (d.length + n)) := by
  obtain ⟨size, hlen, hb⟩ := hs
  obtain ⟨newLen, hadd, hcall⟩ := bind_eq_ok.1 hcall
  obtain ⟨⟨q, h₁⟩, hrealloc, hcall⟩ := bind_eq_ok.1 hcall
  cases hcall
  obtain ⟨rfl, hlt⟩ := add32_cases hadd
  have hg := grown_of_buffer ht hb hlt hrealloc
  have hcontent := grown_content ⟨q, d.length + n⟩ hlen hg rfl
  refine ⟨changed_of_grown ht hb le_rfl hg rfl, ?_⟩
  rw [hcontent, List.append_right_inj, load_eq_replicate]
  constructor
  · rintro hzero ⟨size', hb', k, hk, hlo, hhi, hne⟩
    obtain rfl := hb.unique ht hb'
    obtain ⟨j, rfl⟩ := Nat.exists_eq_add_of_le hlo
    have hcopied := hg.copied (d.length + j) hhi
    rw [if_pos hk, ← Nat.add_assoc] at hcopied
    exact hne (hcopied.symm.trans (hzero j (by omega)))
  · intro hstale k hk
    have hcopied := hg.copied (d.length + k) (by omega)
    rw [← Nat.add_assoc] at hcopied
    rw [hcopied]
    split_ifs with hin
    · by_contra hne
      exact hstale ⟨size, hb, d.length + k, hin, by omega, by omega, hne⟩
    · rfl

theorem ptrAdd_cases {ptr k p : ℕ} (h : Mem.ptrAdd ptr k 1 = .ok p) : p = ptr + k := by
  unfold Mem.ptrAdd at h
  split_ifs at h
  rw [← Except.ok.inj h, Nat.mul_one]

theorem memmove_cases {dest : ℕ} (hmove : h.memmove dest src n = .ok h') :
    h' = { h with bytes := store h.bytes dest (load h.bytes src n) } := by
  unfold memmove at hmove
  split_ifs at hmove
  exact (Except.ok.inj hmove).symm

/-- **Lost bytes**: the argument is in the buffer itself, which has to be given back and is zeroed then. -/
def Lost (h : Heap) (d : NSDataHostObject) (src n : ℕ) : Prop :=
  h.zeroMemoryOnFree = true ∧ ∃ size, h.Buffer d.bytes size ∧ size < d.length + n ∧
    ∃ k < n, d.bytes ≤ src + k ∧ src + k < d.bytes + size ∧ h.bytes (src + k) ≠ 0

/-- the bytes at an address are in use -/
def InUse (h : Heap) (src n : ℕ) : Prop := src + n ≤ 2 ^ 32 ∧ ∀ k < n, h.Owned (src + k)

/-- so are those of an object -/
theorem Stored.inUse (ht : h.Tidy) (hs : Stored h d) : InUse h d.bytes d.length := by
  obtain ⟨size, hlen, ⟨hnull, rfl⟩ | hlive⟩ := hs
  · exact ⟨by omega, fun k hk => by omega⟩
  · have hhigh := Live.high ht.valid hlive
    exact ⟨by omega, fun k hk => hlive.owned ⟨by omega, by omega⟩⟩

/-- those of another object are not lost -/
theorem Stored.not_lost (ht : h.Tidy) (he : Stored h e) (hne : e.bytes ≠ 0 → e.bytes ≠ d.bytes) :
    ¬Lost h d e.bytes e.length := by
  rintro ⟨-, size, hb, -, k, hk, hlo, hhi, -⟩
  obtain ⟨size', hlen, ⟨-, rfl⟩ | hlive⟩ := he
  · omega
  · obtain ⟨-, rfl⟩ | hlive' := hb
    · omega
    · exact hlive'.apart ht.valid hlive (hne (ht.live_pos hlive)) ⟨hlo, hhi⟩ ⟨by omega, by omega⟩

/-- **Bytes that are copied** behind the contents, after the buffer has been made longer -/
theorem copied_in {q : ℕ} (ht : h.Tidy) (hb : h.Buffer d.bytes size) (hlen : d.length ≤ size) (huse : InUse h src n)
    (hg : Grown h d.bytes size (d.length + n) q h₂) :
    Changed h d { h₂ with bytes := store h₂.bytes (q + d.length) (load h₂.bytes src n) } ⟨q, d.length + n⟩ ∧
      (content { h₂ with bytes := store h₂.bytes (q + d.length) (load h₂.bytes src n) } ⟨q, d.length + n⟩
        = content h d ++ load h.bytes src n ↔ ¬Lost h d src n) := by
  obtain ⟨size', hle, hlive⟩ := hg.live
  have hloaded : (load h₂.bytes src n).length = n := load_length
  have hlo : q ≤ q + d.length := Nat.le_add_right _ _
  have hhi : q + d.length + (load h₂.bytes src n).length ≤ q + size' := by omega
  refine ⟨⟨hg.tidy.store hlive hlo hhi, ⟨size', hle, Or.inr hlive⟩, fun r s hr hne => ?_⟩, ?_⟩
  · obtain ⟨hr', hne'⟩ := hg.others r s hr hne
    refine ⟨hr', hne', fun k hk => ?_⟩
    calc store h₂.bytes (q + d.length) (load h₂.bytes src n) (r + k)
        = h₂.bytes (r + k) := hlive.stored hg.tidy.valid hr' hne' hlo hhi hk
      _ = h.bytes (r + k) := hg.bytes ht.valid hb hr hne hk
  · have hcontent : content { h₂ with bytes := store h₂.bytes (q + d.length) (load h₂.bytes src n) } ⟨q, d.length + n⟩
        = content h d ++ load h₂.bytes src n := by
      have hfirst : load h₂.bytes q d.length = content h d := by
        rw [content, load_eq_iff]
        intro k hk
        rw [hg.copied k (by omega), if_pos (by omega)]
      have hsecond := load_store (m := h₂.bytes) (a := q + d.length) (l := load h₂.bytes src n)
      rw [hloaded] at hsecond
      rw [content, load_add, load_store_of_disjoint (Or.inl le_rfl), hfirst, hsecond]
    rw [hcontent, List.append_right_inj, load_eq_iff]
    -- only bytes of the old buffer change
    have hbyte (k : ℕ) (hk : k < n) : h₂.bytes (src + k) = h.bytes (src + k) ∨
        (h.zeroMemoryOnFree = true ∧ size < d.length + n ∧ d.bytes ≤ src + k ∧ src + k < d.bytes + size) ∧
          h₂.bytes (src + k) = 0 := by
      by_cases hin : d.bytes ≤ src + k ∧ src + k < d.bytes + size
      · obtain ⟨j, hj⟩ := Nat.exists_eq_add_of_le hin.1
        have hsource := hg.source j (by omega)
        rw [← hj] at hsource
        split_ifs at hsource with hmoved
        · exact Or.inr ⟨⟨hmoved.2, hmoved.1, hin⟩, hsource⟩
        · exact Or.inl hsource
      · exact Or.inl (hg.outside _ (huse.2 k hk) hin)
    constructor
    · rintro hsame ⟨hmode, size₂, hb₂, hshort, k, hk, hlo, hhi, hne⟩
      obtain rfl := hb.unique ht hb₂
      obtain ⟨j, hj⟩ := Nat.exists_eq_add_of_le hlo
      have hsource := hg.source j (by omega)
      rw [← hj, if_pos ⟨hshort, hmode⟩] at hsource
      exact hne ((hsame k hk).symm.trans hsource)
    · intro hlost k hk
      obtain hsame | ⟨⟨hmode, hshort, hlo, hhi⟩, hzero⟩ := hbyte k hk
      · exact hsame
      · by_contra hne
        exact hlost ⟨hmode, size, hb, hshort, k, hk, hlo, hhi, fun h0 => hne (hzero.trans h0.symm)⟩

theorem append_iff (ht : h.Tidy) (hs : Stored h d) (huse : InUse h src n) (hcall : appendBytes h d src n = .ok (d', h')) :
    Changed h d h' d' ∧ (content h' d' = content h d ++ load h.bytes src n ↔ ¬Lost h d src n) := by
  obtain ⟨size, hlen, hb⟩ := hs
  obtain ⟨⟨d₁, h₁⟩, hincrease, hcall⟩ := bind_eq_ok.1 hcall
  obtain ⟨newLen, hadd, hincrease⟩ := bind_eq_ok.1 hincrease
  obtain ⟨⟨q, h₂⟩, hrealloc, hincrease⟩ := bind_eq_ok.1 hincrease
  cases hincrease
  obtain ⟨rfl, hlt⟩ := add32_cases hadd
  obtain ⟨dest, hdest, hcall⟩ := bind_eq_ok.1 hcall
  obtain ⟨h₃, hmove, hcall⟩ := bind_eq_ok.1 hcall
  cases hcall
  obtain rfl := ptrAdd_cases hdest
  obtain rfl := memmove_cases hmove
  exact copied_in ht hb hlen huse (grown_of_buffer ht hb hlt hrealloc)

/-- a new object has no buffer to begin with -/
theorem bytes_content (ht : h.Tidy) (hlt : n < 2 ^ 32) (huse : InUse h src n)
    (hcall : initWithBytes h src n = .ok (d', h')) :
    Changed h ⟨0, 0⟩ h' d' ∧ content h' d' = load h.bytes src n := by
  obtain ⟨⟨q, h₂⟩, halloc, hcall⟩ := bind_eq_ok.1 hcall
  obtain ⟨h₃, hmove, hcall⟩ := bind_eq_ok.1 hcall
  cases hcall
  obtain rfl := memmove_cases hmove
  have hg := grown_of_alloc ht hlt halloc
  rw [← Nat.zero_add n] at hg
  obtain ⟨hchanged, hiff⟩ := copied_in (d := ⟨0, 0⟩) ht (Or.inl ⟨rfl, rfl⟩) le_rfl huse hg
  simp only [Nat.zero_add, Nat.add_zero] at hchanged hiff
  refine ⟨hchanged, hiff.2 ?_⟩
  rintro ⟨-, size, hb, -, k, -, -, hhi, -⟩
  obtain rfl := Buffer.unique ht (Or.inl ⟨rfl, rfl⟩) hb
  exact absurd hhi (Nat.not_lt_zero _)

theorem length_content (ht : h.Tidy) (hlt : n < 2 ^ 32) (hcall : initWithLength h n = .ok (d', h')) :
    Changed h ⟨0, 0⟩ h' d' ∧ content h' d' = List.replicate n 0 := by
  obtain ⟨⟨q, h₁⟩, hcalloc, hcall⟩ := bind_eq_ok.1 hcall
  cases hcall
  obtain ⟨⟨q₂, h₂⟩, halloc, hcalloc⟩ := bind_eq_ok.1 hcalloc
  obtain ⟨h₃, hzero, hcalloc⟩ := bind_eq_ok.1 hcalloc
  obtain ⟨rfl, rfl⟩ := Prod.mk.inj (Except.ok.inj hcalloc)
  obtain ⟨-, rfl⟩ := zero_cases hzero
  have hg := grown_of_alloc ht hlt halloc
  -- the zeros are there already
  have hsame : store h₂.bytes q₂ (List.replicate n 0) = h₂.bytes := by
    have hzeros : load h₂.bytes q₂ n = List.replicate n 0 := by
      rw [load_eq_replicate]
      intro k hk
      rw [hg.copied k hk, if_neg (Nat.not_lt_zero k)]
    rw [← hzeros, store_load_self]
  rw [hsame]
  have hnone : h.Buffer 0 0 := Or.inl ⟨rfl, rfl⟩
  refine ⟨changed_of_grown ht hnone le_rfl hg rfl, ?_⟩
  rw [content, load_eq_replicate]
  intro k hk
  rw [hg.copied k hk, if_neg (Nat.not_lt_zero k)]

theorem set_length (ht : h.Tidy) (hs : Stored h d) (hlt : n < 2 ^ 32) (hcall : setLength h d n = .ok (d', h')) :
    Changed h d h' d' ∧ content h' d' = (content h d).take n ++ List.replicate (n - (content h d).length) 0 := by
  obtain ⟨size, hlen, hb⟩ := hs
  obtain ⟨⟨q, h₁⟩, hrealloc, hcall⟩ := bind_eq_ok.1 hcall
  have hg := grown_of_buffer ht hb hlt hrealloc
  obtain ⟨size', hle, hlive⟩ := hg.live
  have hlength : (content h d).length = d.length := load_length
  dsimp only at hcall
  rw [hlength]
  split_ifs at hcall with hlonger
  · obtain ⟨u, -, hcall⟩ := bind_eq_ok.1 hcall
    obtain ⟨h₂, hzero, hcall⟩ := bind_eq_ok.1 hcall
    cases hcall
    obtain ⟨-, rfl⟩ := zero_cases hzero
    have hzeros : (List.replicate (n - d.length) (0 : UInt8)).length = n - d.length := List.length_replicate
    have hlo : q ≤ q + d.length := Nat.le_add_right _ _
    have hhi : q + d.length + (List.replicate (n - d.length) (0 : UInt8)).length ≤ q + size' := by omega
    refine ⟨⟨hg.tidy.store hlive hlo hhi, ⟨size', hle, Or.inr hlive⟩, fun r s hr hne => ?_⟩, ?_⟩
    · obtain ⟨hr', hne'⟩ := hg.others r s hr hne
      refine ⟨hr', hne', fun k hk => ?_⟩
      calc store h₁.bytes (q + d.length) (List.replicate (n - d.length) 0) (r + k)
          = h₁.bytes (r + k) := hlive.stored hg.tidy.valid hr' hne' hlo hhi hk
        _ = h.bytes (r + k) := hg.bytes ht.valid hb hr hne hk
    · have hfirst : load h₁.bytes q d.length = content h d := by
        rw [content, load_eq_iff]
        intro k hk
        rw [hg.copied k (by omega), if_pos (by omega)]
      have hsecond := load_store (m := h₁.bytes) (a := q + d.length) (l := List.replicate (n - d.length) 0)
      rw [hzeros] at hsecond
      rw [content, show n = d.length + (n - d.length) by omega, load_add, load_store_of_disjoint (Or.inl le_rfl), hfirst,
        List.take_of_length_le (by omega)]
      rw [Nat.add_sub_cancel_left, hsecond]
  · obtain ⟨rfl, rfl⟩ := Prod.mk.inj (Except.ok.inj hcall)
    refine ⟨changed_of_grown ht hb le_rfl hg rfl, ?_⟩
    have hkept : content h₁ ⟨q, n⟩ = load h.bytes d.bytes n := by
      rw [content, load_eq_iff]
      intro k hk
      have hk : k < n := hk
      rw [hg.copied k hk, if_pos (by omega)]
    rw [hkept, content, load_take (by omega), Nat.sub_eq_zero_of_le (by omega), List.replicate_zero, List.append_nil]

/-! ## Failures -/

/-- the memory or the range of lengths is exhausted -/
def Exhausted (e : Panic) : Prop := e = .outOfMemory ∨ e = .overflow

theorem add32_ends (a b : ℕ) : Ends Exhausted (fun c => c = a + b ∧ a + b < 2 ^ 32) (add32 a b) := by
  unfold add32
  split_ifs with hlt
  · exact ⟨rfl, hlt⟩
  · exact Or.inr rfl

theorem realloc_ends (ht : h.Tidy) (hb : h.Buffer d.bytes size) (hlt : n < 2 ^ 32) :
    Ends Exhausted (fun r => Grown h d.bytes size n r.1 r.2) (h.realloc d.bytes n) := by
  cases hrealloc : h.realloc d.bytes n with
  | error e => exact realloc_error ht hb hlt hrealloc
  | ok r => exact grown_of_buffer ht hb hlt hrealloc

theorem alloc_ends (ht : h.Tidy) (hlt : n < 2 ^ 32) : Ends Exhausted (fun r => Grown h 0 0 n r.1 r.2) (h.alloc n) := by
  cases halloc : h.alloc n with
  | error e => exact alloc_error ht.valid hlt halloc
  | ok r => exact grown_of_alloc ht hlt halloc

theorem increase_ends (ht : h.Tidy) (hb : h.Buffer d.bytes size) :
    Ends Exhausted (fun r => Grown h d.bytes size (d.length + n) r.1.bytes r.2) (increaseLengthBy h d n) := by
  apply (add32_ends d.length n).bind
  rintro newLen ⟨rfl, hlt⟩
  apply (realloc_ends ht hb hlt).bind
  intro r hg
  exact hg

/-- the buffer ends before the main thread's stack -/
theorem grown_high {p q : ℕ} (hg : Grown h p size n q h') : q + n < 2 ^ 32 := by
  obtain ⟨size', hle, c, hc, rfl, rfl, hne, -⟩ := hg.live
  have hfits := hg.tidy.valid.inv.fits (Mem.Allocator.Inv.mem_used hc) hne
  omega

theorem append_ends (ht : h.Tidy) (hs : Stored h d) (huse : InUse h src n) :
    Ends Exhausted (fun _ => True) (appendBytes h d src n) := by
  obtain ⟨size, hlen, hb⟩ := hs
  apply (increase_ends ht hb).bind
  rintro ⟨d₁, h₁⟩ hg
  have hhigh := grown_high hg
  have hdest : Mem.ptrAdd d₁.bytes d.length 1 = .ok (d₁.bytes + d.length) := by
    rw [Mem.ptrAdd, Nat.mul_one, if_pos (by dsimp only at hhigh; omega)]
  dsimp only
  rw [hdest, ok_bind, memmove_ok huse.1 (by dsimp only at hhigh; omega)]
  trivial

/-- memory suffices for a buffer that is longer -/
def Room (h : Heap) (d : NSDataHostObject) (n : ℕ) : Prop :=
  d.length + n < 2 ^ 32 ∧ ∃ r, h.realloc d.bytes (d.length + n) = .ok r

theorem increase_room : (∃ r, increaseLengthBy h d n = .ok r) ↔ Room h d n := by
  constructor
  · rintro ⟨r, hcall⟩
    obtain ⟨newLen, hadd, hcall⟩ := bind_eq_ok.1 hcall
    obtain ⟨r₁, hrealloc, -⟩ := bind_eq_ok.1 hcall
    obtain ⟨rfl, hlt⟩ := add32_cases hadd
    exact ⟨hlt, r₁, hrealloc⟩
  · rintro ⟨hlt, ⟨q, h₁⟩, hrealloc⟩
    refine ⟨(⟨q, d.length + n⟩, h₁), ?_⟩
    rw [increaseLengthBy, add32, if_pos hlt, ok_bind, hrealloc]
    rfl

theorem append_room (ht : h.Tidy) (hs : Stored h d) (huse : InUse h src n) :
    (∃ r, appendBytes h d src n = .ok r) ↔ Room h d n := by
  rw [← increase_room]
  constructor
  · rintro ⟨r, hcall⟩
    obtain ⟨r₁, hincrease, -⟩ := bind_eq_ok.1 hcall
    exact ⟨r₁, hincrease⟩
  · rintro ⟨⟨d₁, h₁⟩, hincrease⟩
    obtain ⟨size, hlen, hb⟩ := hs
    have hhigh := grown_high ((increase_ends ht hb).ok hincrease)
    dsimp only at hhigh
    have hdest : Mem.ptrAdd d₁.bytes d.length 1 = .ok (d₁.bytes + d.length) := by
      rw [Mem.ptrAdd, Nat.mul_one, if_pos (by omega)]
    refine ⟨(d₁, { h₁ with bytes := store h₁.bytes (d₁.bytes + d.length) (load h₁.bytes src n) }), ?_⟩
    rw [appendBytes, hincrease, ok_bind]
    dsimp only
    rw [hdest, ok_bind, memmove_ok huse.1 (by omega)]
    rfl

theorem bytes_ends (ht : h.Tidy) (hlt : n < 2 ^ 32) (huse : InUse h src n) :
    Ends Exhausted (fun _ => True) (initWithBytes h src n) := by
  apply (alloc_ends ht hlt).bind
  rintro ⟨q, h₁⟩ hg
  have hhigh := grown_high hg
  dsimp only
  rw [memmove_ok huse.1 (by dsimp only at hhigh; omega)]
  trivial

/-- a range of an allocation can be read and written -/
theorem grown_range {p q k m : ℕ} (hg : Grown h p size n q h') (hkm : k + m ≤ n) : h'.toMem.InRange (q + k) m := by
  have hhigh := grown_high hg
  obtain ⟨size', hle, c, hc, rfl, rfl, hne, hlow⟩ := hg.live
  exact ⟨hlow.trans (Nat.le_add_right _ _), by omega⟩

theorem length_ends (ht : h.Tidy) (hlt : n < 2 ^ 32) : Ends Exhausted (fun _ => True) (initWithLength h n) := by
  have hcalloc : Ends Exhausted (fun _ => True) (h.calloc n) := by
    apply (alloc_ends ht hlt).bind
    rintro ⟨q, h₁⟩ hg
    have hrange : h₁.toMem.InRange q n := grown_range (k := 0) hg (by omega)
    dsimp only
    rw [zero_ok hrange.1 hrange.2]
    trivial
  apply hcalloc.bind
  intro r _
  trivial

theorem setLength_ends (ht : h.Tidy) (hs : Stored h d) (hlt : n < 2 ^ 32) :
    Ends Exhausted (fun _ => True) (setLength h d n) := by
  obtain ⟨size, hlen, hb⟩ := hs
  apply (realloc_ends ht hb hlt).bind
  rintro ⟨q, h₁⟩ hg
  dsimp only
  split_ifs with hlonger
  · have hall : h₁.toMem.InRange q n := grown_range (k := 0) hg (by omega)
    have hrange : h₁.toMem.InRange (q + d.length) (n - d.length) := grown_range hg (by omega)
    rw [Mem.checkRange_ok hall, ok_bind, zero_ok hrange.1 hrange.2]
    trivial
  · trivial

/-! ## Equality -/

theorem slice_of_content (ht : h.Tidy) (hs : Stored h d) :
    toRustSlice h d = if content h d = [] then .error .nilArgument else .ok (content h d) := by
  obtain ⟨size, hlen, hb⟩ := hs
  have hnil : content h d = [] ↔ d.length = 0 := by rw [← List.length_eq_zero_iff, content, load_length]
  unfold toRustSlice
  by_cases hzero : d.length = 0
  · rw [if_pos (hnil.2 hzero), hzero, show (0 != 0) = false from rfl, Bool.and_false]
    rfl
  · obtain ⟨-, rfl⟩ | hlive := hb
    · omega
    · have hpos := ht.live_pos hlive
      have hhigh := Live.high ht.valid hlive
      obtain ⟨c, -, -, -, -, hlow⟩ := hlive
      rw [if_neg (mt hnil.1 hzero), assert_ok (by simp [hpos, hzero]), ok_bind, Mem.readBytes,
        Mem.checkRange_ok ⟨hlow, by omega⟩]
      rfl

/-- **Equality** is that of the contents if there are any in both objects. -/
theorem isEqual_iff (ht : h.Tidy) (hs : Stored h d) (hs' : Stored h e) :
    isEqualToData h d e = .ok (decide (content h d = content h e)) ↔ content h d ≠ [] ∧ content h e ≠ [] := by
  rw [isEqualToData, slice_of_content ht hs, slice_of_content ht hs']
  by_cases hd : content h d = []
  · simp [hd, bind, Except.bind]
  · by_cases he : content h e = []
    · simp [hd, he, bind, Except.bind]
    · rw [if_neg hd, if_neg he, ok_bind, ok_bind]
      refine ⟨fun _ => ⟨hd, he⟩, fun _ => ?_⟩
      exact congrArg Except.ok (Bool.eq_iff_iff.2 (by simp))

end NSMutableData

namespace DataState

open Mem Heap NSMutableData

/-! ## Runs -/

variable {s s' : DataState} {o : DataOp} {ops : List DataOp} {d d' : NSDataHostObject} {h' : Heap} {i j : ℕ}
  {l : List UInt8} {e : NSDataHostObject}

/-- **The refinement**: the bytes of every object are its list. -/
def Refines (s : DataState) : Prop := s.contents = s.objects.map (content s.heap)

/-- **The invariant**: every object has a buffer of its own. -/
structure Inv (s : DataState) : Prop where
  tidy : s.heap.Tidy
  stored : ∀ d ∈ s.objects, Stored s.heap d
  distinct : ∀ (i j : ℕ) (d e : NSDataHostObject), s.objects[i]? = some d → s.objects[j]? = some e → i ≠ j → d.bytes ≠ 0 →
    d.bytes ≠ e.bytes

/-- the objects that there are, and pointers to bytes that are in use -/
def Legal (s : DataState) : DataOp → Prop
  | .data => True
  | .dataWithBytes bytes length => InUse s.heap bytes.toNat length.toNat
  | .dataWithLength _ => True
  | .appendBytes i bytes length => i < s.objects.length ∧ InUse s.heap bytes.toNat length.toNat
  | .appendData i j => i < s.objects.length ∧ j < s.objects.length
  | .increaseLengthBy i _ => i < s.objects.length
  | .setLength i _ => i < s.objects.length
  | .isEqualToData i j => i < s.objects.length ∧ j < s.objects.length

/-- **The condition** of a call that is made -/
def Good (s : DataState) : DataOp → Prop
  | .increaseLengthBy i addLen => ∀ d, s.objects[i]? = some d → Room s.heap d addLen.toNat →
    ¬Stale s.heap d (d.length + addLen.toNat)
  | .appendBytes i bytes length =>
    ∀ d, s.objects[i]? = some d → Room s.heap d length.toNat → ¬Lost s.heap d bytes.toNat length.toNat
  | .appendData i j => i = j → ∀ d, s.objects[i]? = some d → Room s.heap d d.length → ¬Lost s.heap d d.bytes d.length
  | .isEqualToData i j => s.listOf i ≠ [] ∧ s.listOf j ≠ []
  | _ => True

/-- the object whose buffer a call may give back -/
def target (s : DataState) : DataOp → Option NSDataHostObject
  | .appendBytes i _ _ => s.objects[i]?
  | .appendData i _ => s.objects[i]?
  | .increaseLengthBy i _ => s.objects[i]?
  | .setLength i _ => s.objects[i]?
  | _ => none

/-- **What a call should be besides**: it fails only if memory is exhausted, it leaves the other allocations as they
are, and two objects are equal if their lists are. -/
structure Proper (s : DataState) (o : DataOp) : Prop where
  error : ∀ e, s.step o = .error e → Exhausted e
  frame : ∀ s', s.step o = .ok s' → ∀ r size, s.heap.Live r size → (∀ d, s.target o = some d → r ≠ d.bytes) →
    s'.heap.Live r size ∧ ∀ k < size, s'.heap.bytes (r + k) = s.heap.bytes (r + k)
  equal : ∀ (i j : ℕ) (d e : NSDataHostObject), o = .isEqualToData i j → s.objects[i]? = some d → s.objects[j]? = some e →
    NSMutableData.isEqualToData s.heap d e = .ok (decide (s.listOf i = s.listOf j))

theorem Refines.listOf (hP : s.Refines) (hd : s.objects[i]? = some d) : s.listOf i = content s.heap d := by
  rw [DataState.listOf, hP, List.getD_eq_getElem?_getD, List.getElem?_map, hd]
  rfl

/-- an object that the call does not change -/
theorem content_kept (ht : s.heap.Tidy) (hc : Changed s.heap d h' d') (he : Stored s.heap e)
    (hne : e.bytes ≠ 0 → e.bytes ≠ d.bytes) : content h' e = content s.heap e ∧ Stored h' e := by
  obtain ⟨size, hlen, ⟨hnull, rfl⟩ | hlive⟩ := he
  · have hzero : e.length = 0 := by omega
    exact ⟨by rw [content, content, hzero]; rfl, 0, hlen, Or.inl ⟨hnull, rfl⟩⟩
  · obtain ⟨hlive', -, hbytes⟩ := hc.others e.bytes size hlive (hne (ht.live_pos hlive))
    refine ⟨?_, size, hlen, Or.inr hlive'⟩
    rw [content, content, load_eq_iff]
    exact fun k hk => hbytes k (lt_of_lt_of_le hk hlen)

/-- **A call that changes an object** leaves the invariant, and it is right for all objects if it is for this one. -/
theorem changed_state (hI : s.Inv) (hP : s.Refines) (hd : s.objects[i]? = some d) (hc : Changed s.heap d h' d') :
    Inv ⟨h', s.objects.set i d', s.contents.set i l⟩ ∧
      (Refines ⟨h', s.objects.set i d', s.contents.set i l⟩ ↔ content h' d' = l) := by
  obtain ⟨hi, hget⟩ := List.getElem?_eq_some_iff.1 hd
  -- the other objects
  have hother (k : ℕ) (e : NSDataHostObject) (hne : k ≠ i) (he : s.objects[k]? = some e) :
      content h' e = content s.heap e ∧ Stored h' e :=
    content_kept hI.tidy hc (hI.stored e (List.mem_of_getElem? he)) (hI.distinct k i e d he hd hne)
  have hapart (k : ℕ) (e : NSDataHostObject) (hne : k ≠ i) (he : s.objects[k]? = some e) (hpos : e.bytes ≠ 0) :
      e.bytes ≠ d'.bytes := by
    obtain ⟨size, hlen, ⟨hnull, -⟩ | hlive⟩ := hI.stored e (List.mem_of_getElem? he)
    · exact absurd hnull hpos
    · exact (hc.others e.bytes size hlive (hI.distinct k i e d he hd hne hpos)).2.1
  refine ⟨⟨hc.tidy, ?_, ?_⟩, ?_⟩
  · intro e he
    obtain ⟨k, hk⟩ := List.mem_iff_getElem?.1 he
    rw [List.getElem?_set] at hk
    split_ifs at hk with hik
    · cases hk
      exact hc.stored
    · exact (hother k e (Ne.symm hik) hk).2
  · intro a b e e' ha hb hab hpos
    dsimp only at ha hb
    rw [List.getElem?_set] at ha hb
    split_ifs at ha hb with hia hib
    · exact absurd (hia.symm.trans hib) hab
    · cases ha
      intro heq
      exact hapart b e' (fun h => hab (hia.symm.trans h.symm)) hb (heq ▸ hpos) heq.symm
    · cases hb
      exact hapart a e (Ne.symm hia) ha hpos
    · exact hI.distinct a b e e' ha hb hab hpos
  · rw [Refines]
    dsimp only
    rw [List.map_set]
    have hsame : (s.objects.map (content h')).set i (content h' d') = s.contents.set i (content h' d') := by
      apply List.ext_getElem?
      intro k
      rw [hP]
      by_cases hk : i = k
      · subst hk
        rw [List.getElem?_set_self (by simpa using hi), List.getElem?_set_self (by simpa using hi)]
      · rw [List.getElem?_set_ne hk, List.getElem?_set_ne hk, List.getElem?_map, List.getElem?_map]
        cases he : s.objects[k]? with
        | none => rfl
        | some e => exact congrArg some (hother k e (Ne.symm hk) he).1
    rw [hsame]
    constructor
    · intro heq
      have hlength : i < s.contents.length := by rw [hP]; simpa using hi
      have hleft := List.getElem?_set_self (a := l) hlength
      rw [heq, List.getElem?_set_self hlength] at hleft
      exact Option.some.inj hleft
    · intro heq
      rw [heq]

/-- **An object that is made** -/
theorem created_state (hI : s.Inv) (hP : s.Refines) (hc : Changed s.heap ⟨0, 0⟩ h' d') (hl : content h' d' = l) :
    Inv ⟨h', s.objects ++ [d'], s.contents ++ [l]⟩ ∧ Refines ⟨h', s.objects ++ [d'], s.contents ++ [l]⟩ := by
  have hother (e : NSDataHostObject) (he : e ∈ s.objects) : content h' e = content s.heap e ∧ Stored h' e :=
    content_kept hI.tidy hc (hI.stored e he) id
  have hapart (e : NSDataHostObject) (he : e ∈ s.objects) (hpos : e.bytes ≠ 0) : e.bytes ≠ d'.bytes := by
    obtain ⟨size, hlen, ⟨hnull, -⟩ | hlive⟩ := hI.stored e he
    · exact absurd hnull hpos
    · exact (hc.others e.bytes size hlive hpos).2.1
  refine ⟨⟨hc.tidy, ?_, ?_⟩, ?_⟩
  · intro e he
    obtain he | he := List.mem_append.1 he
    · exact (hother e he).2
    · obtain rfl := List.mem_singleton.1 he
      exact hc.stored
  · intro a b e e' ha hb hab hpos
    dsimp only at ha hb
    rw [List.getElem?_append] at ha hb
    split_ifs at ha hb with hla hlb hlb
    · exact hI.distinct a b e e' ha hb hab hpos
    · obtain rfl := List.mem_singleton.1 (List.mem_of_getElem? hb)
      exact hapart e (List.mem_of_getElem? ha) hpos
    · obtain rfl := List.mem_singleton.1 (List.mem_of_getElem? ha)
      intro heq
      exact hapart e' (List.mem_of_getElem? hb) (heq ▸ hpos) heq.symm
    · have hca := (List.getElem?_eq_some_iff.1 ha).1
      have hcb := (List.getElem?_eq_some_iff.1 hb).1
      simp only [List.length_singleton] at hca hcb
      omega
  · rw [Refines]
    dsimp only
    rw [List.map_append, hP, List.map_cons, hl]
    congr 1
    exact List.map_congr_left fun e he => (hother e he).1.symm

/-- what is shown of every call -/
structure Outcome (s : DataState) (o : DataOp) (G : Prop) : Prop where
  inv : ∀ s', s.step o = .ok s' → s'.Inv
  iff : G ↔ s.Proper o ∧ ∀ s', s.step o = .ok s' → s'.Refines

theorem step_ok : s.step o = .ok s' ↔ ∃ h' objects, s.call o = .ok (h', objects) ∧ s' = ⟨h', objects, s.specify o⟩ := by
  constructor
  · intro hstep
    obtain ⟨⟨h', objects⟩, hcall, hstep⟩ := bind_eq_ok.1 hstep
    exact ⟨h', objects, hcall, (Except.ok.inj hstep).symm⟩
  · rintro ⟨h', objects, hcall, rfl⟩
    rw [step, hcall]
    rfl

theorem change_outcome {f : NSDataHostObject → Except Panic (NSDataHostObject × Heap)} {G : Prop} (hI : s.Inv)
    (hP : s.Refines)
    (hd : s.objects[i]? = some d) (hcall : s.call o = s.change i f) (hspec : s.specify o = s.contents.set i l)
    (htarget : s.target o = some d) (hequal : ∀ i j, o ≠ .isEqualToData i j) (hends : Ends Exhausted (fun _ => True) (f d))
    (hf : ∀ d' h', f d = .ok (d', h') → Changed s.heap d h' d' ∧ (content h' d' = l ↔ G)) :
    Outcome s o ((∃ r, f d = .ok r) → G) := by
  have hchange : s.call o = f d >>= fun r => pure (r.2, s.objects.set i r.1) := by
    rw [hcall, change, borrow, hd]
    rfl
  -- the state that a call leaves
  have hstate (s' : DataState) (hstep : s.step o = .ok s') :
      ∃ d' h', f d = .ok (d', h') ∧ s' = ⟨h', s.objects.set i d', s.contents.set i l⟩ := by
    obtain ⟨h', objects, hret, rfl⟩ := step_ok.1 hstep
    rw [hchange] at hret
    obtain ⟨⟨d', h₁⟩, hfd, hret⟩ := bind_eq_ok.1 hret
    cases hret
    exact ⟨d', h₁, hfd, by rw [hspec]⟩
  have hproper : s.Proper o := by
    refine ⟨fun e herror => ?_, fun s' hstep r size hr hne => ?_, fun i j d e heq => absurd heq (hequal i j)⟩
    · refine Ends.error (P := fun _ => True) ?_ herror
      rw [step, hchange]
      apply Ends.bind (P := fun _ => True)
      · apply hends.bind
        intro r _
        trivial
      · intro r _
        trivial
    · obtain ⟨d', h', hfd, rfl⟩ := hstate s' hstep
      obtain ⟨hlive, -, hbytes⟩ := (hf d' h' hfd).1.others r size hr (hne d htarget)
      exact ⟨hlive, hbytes⟩
  constructor
  · intro s' hstep
    obtain ⟨d', h', hfd, rfl⟩ := hstate s' hstep
    exact (changed_state hI hP hd (hf d' h' hfd).1).1
  · constructor
    · intro hG
      refine ⟨hproper, fun s' hstep => ?_⟩
      obtain ⟨d', h', hfd, rfl⟩ := hstate s' hstep
      obtain ⟨hc, hiff⟩ := hf d' h' hfd
      exact (changed_state hI hP hd hc).2.2 (hiff.2 (hG ⟨_, hfd⟩))
    · rintro ⟨-, hnext⟩ ⟨⟨d', h'⟩, hfd⟩
      obtain ⟨hc, hiff⟩ := hf d' h' hfd
      have hstep : s.step o = .ok ⟨h', s.objects.set i d', s.contents.set i l⟩ :=
        step_ok.2 ⟨h', s.objects.set i d', by rw [hchange, hfd]; rfl, by rw [hspec]⟩
      exact hiff.1 ((changed_state hI hP hd hc).2.1 (hnext _ hstep))

theorem create_outcome {made : Except Panic (NSDataHostObject × Heap)} (hI : s.Inv) (hP : s.Refines)
    (hcall : s.call o = s.create made) (hspec : s.specify o = s.contents ++ [l]) (hequal : ∀ i j, o ≠ .isEqualToData i j)
    (hends : Ends Exhausted (fun _ => True) made)
    (hmade : ∀ d' h', made = .ok (d', h') → Changed s.heap ⟨0, 0⟩ h' d' ∧ content h' d' = l) : Outcome s o True := by
  have hstate (s' : DataState) (hstep : s.step o = .ok s') :
      ∃ d' h', made = .ok (d', h') ∧ s' = ⟨h', s.objects ++ [d'], s.contents ++ [l]⟩ := by
    obtain ⟨h', objects, hret, rfl⟩ := step_ok.1 hstep
    rw [hcall] at hret
    obtain ⟨⟨d', h₁⟩, hmade, hret⟩ := bind_eq_ok.1 hret
    obtain ⟨rfl, rfl⟩ := Prod.mk.inj (Except.ok.inj hret)
    exact ⟨d', h₁, hmade, by rw [hspec]⟩
  constructor
  · intro s' hstep
    obtain ⟨d', h', hok, rfl⟩ := hstate s' hstep
    obtain ⟨hc, hl⟩ := hmade d' h' hok
    exact (created_state hI hP hc hl).1
  · refine ⟨fun _ => ⟨⟨fun e herror => ?_, fun s' hstep r size hr _ => ?_, fun i j d e heq => absurd heq (hequal i j)⟩,
      fun s' hstep => ?_⟩, fun _ => trivial⟩
    · refine Ends.error (P := fun _ => True) ?_ herror
      rw [step, hcall]
      apply Ends.bind (P := fun _ => True)
      · apply hends.bind
        intro r _
        trivial
      · intro r _
        trivial
    · obtain ⟨d', h', hok, rfl⟩ := hstate s' hstep
      obtain ⟨hlive, -, hbytes⟩ := (hmade d' h' hok).1.others r size hr (hI.tidy.live_pos hr)
      exact ⟨hlive, hbytes⟩
    · obtain ⟨d', h', hok, rfl⟩ := hstate s' hstep
      obtain ⟨hc, hl⟩ := hmade d' h' hok
      exact (created_state hI hP hc hl).2

theorem equal_outcome (hI : s.Inv) (hP : s.Refines) (hd : s.objects[i]? = some d)
    (he : s.objects[j]? = some e) :
    Outcome s (.isEqualToData i j) (s.listOf i ≠ [] ∧ s.listOf j ≠ []) := by
  have hequal := isEqual_iff hI.tidy (hI.stored d (List.mem_of_getElem? hd)) (hI.stored e (List.mem_of_getElem? he))
  rw [← hP.listOf hd, ← hP.listOf he] at hequal
  have hcall : s.call (.isEqualToData i j) = NSMutableData.isEqualToData s.heap d e >>= fun _ =>
      pure (s.heap, s.objects) := by
    rw [call, borrow, borrow, hd, he]
    rfl
  have hstate (s' : DataState) (hstep : s.step (.isEqualToData i j) = .ok s') : s' = s := by
    obtain ⟨h', objects, hret, rfl⟩ := step_ok.1 hstep
    rw [hcall] at hret
    obtain ⟨b, -, hret⟩ := bind_eq_ok.1 hret
    cases hret
    rfl
  refine ⟨fun s' hstep => hstate s' hstep ▸ hI, fun hne => ⟨⟨fun e' herror => ?_, fun s' hstep r size hr _ => ?_, ?_⟩,
    fun s' hstep => hstate s' hstep ▸ hP⟩, fun hproper => ?_⟩
  · rw [step, hcall, hequal.2 hne] at herror
    exact absurd herror (by simp [bind, Except.bind, pure, Except.pure])
  · rw [hstate s' hstep]
    exact ⟨hr, fun _ _ => rfl⟩
  · intro i' j' d' e' heq hd' he'
    obtain ⟨rfl, rfl⟩ := DataOp.isEqualToData.inj heq
    cases hd.symm.trans hd'
    cases he.symm.trans he'
    exact hequal.2 hne
  · exact hequal.1 (hproper.1.equal i j d e rfl hd he)

/-- **One call** is right if and only if it meets the condition. -/
theorem step_outcome (hI : s.Inv) (hP : s.Refines) (hl : s.Legal o) : Outcome s o (s.Good o) := by
  have hobject (k : ℕ) (hk : k < s.objects.length) :
      ∃ d, s.objects[k]? = some d ∧ Stored s.heap d ∧ s.listOf k = content s.heap d := by
    have hd : s.objects[k]? = some s.objects[k] := List.getElem?_eq_getElem hk
    exact ⟨s.objects[k], hd, hI.stored _ (List.mem_of_getElem? hd), hP.listOf hd⟩
  cases o with
  | data =>
    have hempty (d' : NSDataHostObject) (h' : Heap) (heq : (pure (⟨0, 0⟩, s.heap) : Except Panic _) = .ok (d', h')) :
        Changed s.heap ⟨0, 0⟩ h' d' ∧ content h' d' = [] := by
      cases heq
      exact ⟨⟨hI.tidy, ⟨0, le_rfl, Or.inl ⟨rfl, rfl⟩⟩, fun r size hr hne => ⟨hr, hne, fun _ _ => rfl⟩⟩, rfl⟩
    exact create_outcome hI hP rfl rfl (by simp) trivial hempty
  | dataWithBytes bytes length =>
    exact create_outcome hI hP rfl rfl (by simp) (bytes_ends hI.tidy length.toNat_lt hl)
      fun d' h' => bytes_content hI.tidy length.toNat_lt hl
  | dataWithLength length =>
    exact create_outcome hI hP rfl rfl (by simp) (length_ends hI.tidy length.toNat_lt)
      fun d' h' => length_content hI.tidy length.toNat_lt
  | appendBytes i bytes length =>
    obtain ⟨d, hd, hs, hlist⟩ := hobject i hl.1
    have hout := change_outcome (o := .appendBytes i bytes length)
      (f := fun d => NSMutableData.appendBytes s.heap d bytes.toNat length.toNat) hI hP hd rfl rfl hd (by simp)
      (append_ends hI.tidy hs hl.2) fun d' h' hcall => hlist ▸ append_iff hI.tidy hs hl.2 hcall
    rw [append_room hI.tidy hs hl.2] at hout
    refine ⟨hout.inv, Iff.trans ?_ hout.iff⟩
    simp [Good, hd]
  | appendData i j =>
    obtain ⟨d, hd, hs, hlist⟩ := hobject i hl.1
    obtain ⟨e, he, hs', hlist'⟩ := hobject j hl.2
    have huse := hs'.inUse hI.tidy
    have hcall : s.call (.appendData i j) = s.change i fun d => NSMutableData.appendBytes s.heap d e.bytes e.length := by
      rw [call, borrow, he]
      rfl
    have hspec :
        s.specify (.appendData i j) = s.contents.set i (content s.heap d ++ load s.heap.bytes e.bytes e.length) := by
      rw [specify, hlist, hlist']
      rfl
    have hout := change_outcome hI hP hd hcall hspec hd (by simp) (append_ends hI.tidy hs huse) fun d' h' hcall =>
      append_iff hI.tidy hs huse hcall
    rw [append_room hI.tidy hs huse] at hout
    refine ⟨hout.inv, Iff.trans ?_ hout.iff⟩
    by_cases hij : i = j
    · subst hij
      cases hd.symm.trans he
      simp [Good, hd]
    · have hkeep := hs'.not_lost (d := d) hI.tidy (hI.distinct j i e d he hd (Ne.symm hij))
      simp [Good, hij, hkeep]
  | increaseLengthBy i addLen =>
    obtain ⟨d, hd, hs, hlist⟩ := hobject i hl
    have hout := change_outcome (o := .increaseLengthBy i addLen)
      (f := fun d => NSMutableData.increaseLengthBy s.heap d addLen.toNat) hI hP hd rfl rfl hd (by simp)
      (by
        obtain ⟨size, hlen, hb⟩ := hs
        exact (increase_ends hI.tidy hb).mono fun _ _ => trivial)
      fun d' h' hcall => hlist ▸ increase_iff hI.tidy hs hcall
    rw [increase_room] at hout
    refine ⟨hout.inv, Iff.trans ?_ hout.iff⟩
    simp [Good, hd]
  | setLength i newLength =>
    obtain ⟨d, hd, hs, hlist⟩ := hobject i hl
    have hout := change_outcome (o := .setLength i newLength) (G := True)
      (f := fun d => NSMutableData.setLength s.heap d newLength.toNat) hI hP hd rfl rfl hd (by simp)
      (setLength_ends hI.tidy hs newLength.toNat_lt) fun d' h' hcall => by
        obtain ⟨hc, heq⟩ := set_length hI.tidy hs newLength.toNat_lt hcall
        exact ⟨hc, iff_true_intro (hlist ▸ heq)⟩
    refine ⟨hout.inv, Iff.trans ?_ hout.iff⟩
    simp [Good]
  | isEqualToData i j =>
    obtain ⟨d, hd, -⟩ := hobject i hl.1
    obtain ⟨e, he, -⟩ := hobject j hl.2
    exact equal_outcome hI hP hd he

/-- **Runs.** The objects are their lists in every state, and every call is right, exactly as long as the calls meet
the condition. -/
theorem refines_iff (hI : s.Inv) (hP : s.Refines) (hl : LegalRun step Legal s ops) :
    Throughout step Refines s ops ∧ LegalRun step Proper s ops ↔ LegalRun step Good s ops :=
  legalRun_iff_of_legal (fun _ _ _ hl hI hP h _ => (step_outcome hI hP hl).inv _ h)
    (fun _ _ hl hI hP => (step_outcome hI hP hl).iff) hl hI hP

/-! ## Samples -/

/-- memory with a null segment, and a main thread's stack that is full of ones -/
def sampleHeap : Heap :=
  { (Heap.sampleStart.setNullSegmentSize 0x1000).toOption.getD Heap.sampleStart with
    bytes := fun x => if mainThreadStackLowEnd ≤ x then 1 else 0 }

theorem sampleHeap_tidy : sampleHeap.Tidy := by
  have hnew : Heap.new = .ok Heap.sampleStart := by
    have h : Allocator.new = .ok Allocator.sampleStart := by decide +kernel
    rw [Heap.new, h]
    rfl
  obtain ⟨h', hok, hv⟩ := setNullSegmentSize_valid (u := ⟨0, mainThreadStackLowEnd, by decide⟩) (new_valid hnew) rfl
    (show 0 < 0x1000 by decide) (by decide) (by decide +kernel) rfl (by decide)
  have hstart : (Heap.sampleStart.setNullSegmentSize 0x1000).toOption.getD Heap.sampleStart = h' := by
    rw [hok]
    rfl
  have hnull : sampleHeap.nullSegmentSize = 0x1000 := by decide +kernel
  refine ⟨?_, by rw [hnull]; decide, fun _ x hx hnot => ?_⟩
  · rw [sampleHeap, hstart]
    exact ⟨hv.inv, hv.null⟩
  · have hstack : Allocator.mainThreadStack ∈ sampleHeap.allocator.usedChunks.chunks := by decide +kernel
    have hend : mainThreadStackLowEnd + Allocator.mainThreadStack.size = 2 ^ 32 := by decide
    have hlow : ¬mainThreadStackLowEnd ≤ x := fun hin => hnot ⟨_, hstack, hin, lt_of_lt_of_eq hx hend.symm⟩
    exact if_neg hlow

def sampleStart : DataState := ⟨sampleHeap, [], []⟩

theorem sampleStart_inv : sampleStart.Inv ∧ sampleStart.Refines := by
  refine ⟨⟨sampleHeap_tidy, ?_, ?_⟩, rfl⟩
  · intro d hd
    exact absurd hd List.not_mem_nil
  · intro i j d e hd
    exact absurd hd (by simp [sampleStart])

def next (s : DataState) (o : DataOp) : DataState := (s.step o).toOption.getD s

theorem legal_cons (hl : s.Legal o) (hrest : LegalRun step Legal (s.next o) ops) :
    LegalRun step Legal s (o :: ops) := by
  refine ⟨hl, fun s' hstep => ?_⟩
  rw [next, hstep] at hrest
  exact hrest

/-- sixteen bytes of the stack -/
def ones : DataOp := .dataWithBytes 0xfff00000 16

theorem ones_legal : sampleStart.Legal ones := by
  refine ⟨by decide, ?_⟩
  have howned : ∀ k < 16, sampleHeap.Owned (0xfff00000 + k) := by decide +kernel
  exact howned

/-- a buffer that is made longer again, one that is appended to itself, and an empty one -/
def staleOps : List DataOp := [ones, .setLength 0 1, .increaseLengthBy 0 1]
def selfOps : List DataOp := [ones, .appendData 0 0]
def emptyOps : List DataOp := [.data, .isEqualToData 0 0]

theorem stale_bytes :
    (sampleStart.Inv ∧ sampleStart.Refines) ∧
      (LegalRun step Legal sampleStart staleOps ∧ ∃ t, run step sampleStart staleOps = .ok t ∧ ¬t.Refines) ∧
      (LegalRun step Legal sampleStart selfOps ∧ ∃ t, run step sampleStart selfOps = .ok t ∧ ¬t.Refines) ∧
      LegalRun step Legal sampleStart emptyOps ∧ ¬LegalRun step Proper sampleStart emptyOps := by
  refine ⟨sampleStart_inv, ⟨?_, _, eq_ok_of_toOption (d := sampleStart) (by decide +kernel), ?_⟩,
    ⟨?_, _, eq_ok_of_toOption (d := sampleStart) (by decide +kernel), ?_⟩, ?_, ?_⟩
  · have hfirst : 0 < (sampleStart.next ones).objects.length := by decide +kernel
    have hsecond : 0 < ((sampleStart.next ones).next (.setLength 0 1)).objects.length := by decide +kernel
    exact legal_cons ones_legal (legal_cons hfirst (legal_cons hsecond trivial))
  · rw [Refines]
    decide +kernel
  · exact legal_cons ones_legal (legal_cons ⟨by decide +kernel, by decide +kernel⟩ trivial)
  · rw [Refines]
    decide +kernel
  · exact legal_cons trivial (legal_cons ⟨by decide +kernel, by decide +kernel⟩ trivial)
  · rintro ⟨-, hproper⟩
    have hempty := (hproper (sampleStart.next .data) rfl).1.equal 0 0 ⟨0, 0⟩ ⟨0, 0⟩ rfl rfl rfl
    exact absurd hempty (by decide +kernel)

/-- a buffer that is made longer only once, and an append of another object -/
def goodOps : List DataOp := [ones, .dataWithLength 3, .appendData 0 1, .isEqualToData 0 1]

theorem refines_iff_good : Throughout step Refines sampleStart goodOps ∧ LegalRun step Proper sampleStart goodOps ↔
    LegalRun step Good sampleStart goodOps :=
  refines_iff sampleStart_inv.1 sampleStart_inv.2 (legal_cons ones_legal (legal_cons trivial
    (legal_cons ⟨by decide +kernel, by decide +kernel⟩ (legal_cons ⟨by decide +kernel, by decide +kernel⟩ trivial))))

end DataState

end TouchHLE
