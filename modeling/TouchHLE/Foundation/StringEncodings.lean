/-
Strings made of bytes and bytes made of strings (`ns_string.rs`).

- `StringHostObject.decode`: a string of bytes in an encoding. `initWithBytes`, `initWithData`, `initWithCharacters`:
  the methods that use it.
- `dataUsingEncoding`: the bytes of a string.
- `characters_kept_iff`: `initWithCharacters:length:` keeps the code units, unless the first one is taken for the mark
  of the other byte order.
- `data_never`: what `dataUsingEncoding:` gives always has one byte too many.

The code pages are parameters.
-/
import TouchHLE.Foundation.StringViews
import TouchHLE.Lib.Utf8
import TouchHLE.Mem.Heap

namespace TouchHLE.NSString

open Machine Utf16 Words

/-! ## Encodings -/

def NSASCIIStringEncoding : ℕ := 1
def NSUTF8StringEncoding : ℕ := 4
def NSISOLatin1StringEncoding : ℕ := 5
def NSShiftJISStringEncoding : ℕ := 8
def NSWindowsCP1252StringEncoding : ℕ := 12
def NSMacOSRomanStringEncoding : ℕ := 30
def NSUTF16StringEncoding : ℕ := 10
def NSUTF16BigEndianStringEncoding : ℕ := 0x90000100
def NSUTF16LittleEndianStringEncoding : ℕ := 0x94000100

/-- the decoders of other crates -/
structure CodePages where
  cp1252 : List UInt8 → List Char
  /-- none for bytes that are not in this encoding -/
  shiftJis : List UInt8 → Option (List Char)

def isAscii (byte : UInt8) : Bool := byte < 0x80

/-- `from_utf8_unchecked`, for bytes that are ASCII -/
def asciiText (bytes : List UInt8) : List Char := bytes.map fun byte => Char.ofNat byte.toNat

/-- `u16::from_be_bytes`, for every two bytes -/
def unitsFromBe : List UInt8 → List UInt16
  | a :: b :: bytes => UInt16.ofNat (a.toNat * 256 + b.toNat) :: unitsFromBe bytes
  | _ => []

/-- `u16::from_le_bytes`, for every two bytes -/
def unitsFromLe : List UInt8 → List UInt16
  | a :: b :: bytes => UInt16.ofNat (a.toNat + b.toNat * 256) :: unitsFromLe bytes
  | _ => []

def isBigEndian (bytes : List UInt8) (encoding : ℕ) : Bool :=
  if encoding = NSUTF16BigEndianStringEncoding then true
  else if encoding = NSUTF16LittleEndianStringEncoding then false
  else bytes.take 2 == [0xFE, 0xFF]

def StringHostObject.decode (pages : CodePages) (bytes : List UInt8) (encoding : ℕ) : Except Panic StringHostObject :=
  if bytes.isEmpty then pure (.utf8 [])
  else if encoding = NSASCIIStringEncoding then do
    assert (bytes.all isAscii) .encoding
    pure (.utf8 (asciiText bytes))
  else if encoding = NSMacOSRomanStringEncoding ∨ encoding = NSISOLatin1StringEncoding then do
    assert (bytes.all isAscii) .encoding
    pure (.utf8 (asciiText bytes))
  else if encoding = NSUTF8StringEncoding then do
    let string ← unwrap (Utf8.fromUtf8 bytes) .utf8
    pure (.utf8 string)
  else if encoding = NSWindowsCP1252StringEncoding then pure (.utf8 (pages.cp1252 bytes))
  else if encoding = NSShiftJISStringEncoding then do
    let string ← unwrap (pages.shiftJis bytes) .encoding
    pure (.utf8 string)
  else if encoding = NSUTF16StringEncoding ∨ encoding = NSUTF16BigEndianStringEncoding ∨
      encoding = NSUTF16LittleEndianStringEncoding then do
    assert (bytes.length % 2 = 0) .encoding
    pure (.utf16 (if isBigEndian bytes encoding then unitsFromBe bytes else unitsFromLe bytes))
  else throw .encoding

/-- `initWithBytes:length:encoding:` -/
def initWithBytes (pages : CodePages) (m : Mem) (bytes len encoding : ℕ) : Except Panic StringHostObject := do
  let slice ← m.readBytes bytes len
  StringHostObject.decode pages slice encoding

/-- `initWithCharacters:length:` -/
def initWithCharacters (pages : CodePages) (m : Mem) (characters len : ℕ) : Except Panic StringHostObject := do
  assert (characters ≠ 0) .pointer
  let numBytes ← mul32 len 2
  initWithBytes pages m characters numBytes NSUTF16StringEncoding

structure NSData where
  bytes : ℕ
  length : ℕ

/-- `initWithData:encoding:` -/
def initWithData (pages : CodePages) (m : Mem) (data : NSData) (encoding : ℕ) : Except Panic StringHostObject :=
  initWithBytes pages m data.bytes data.length encoding

def allocAndWriteCstr (h : Heap) (strBytes : List UInt8) : Except Panic (ℕ × Heap) := do
  assert (strBytes.length < 2 ^ 32) .conversion
  let size ← add32 strBytes.length 1
  let (ptr, h) ← h.alloc size
  let m ← h.toMem.writeBytes ptr strBytes
  let last ← Mem.ptrAdd ptr strBytes.length 1
  let m ← m.writeBytes last [0]
  pure (ptr, { h with toMem := m })

def dataUsingEncodingLossyInner (h : Heap) (this : StringHostObject) (encoding : ℕ) (lossy : Bool) :
    Except Panic (NSData × Heap) := do
  -- for a warning
  if lossy then do
    let _ ← unwrap (toUtf8 this) .utf16
  assert (encoding = NSUTF8StringEncoding || encoding = NSASCIIStringEncoding ||
    encoding = NSISOLatin1StringEncoding) .encoding
  let string ← unwrap (toUtf8 this) .utf16
  let bytes := string.flatMap String.utf8EncodeChar
  if encoding = NSASCIIStringEncoding ∨ encoding = NSISOLatin1StringEncoding then
    assert (bytes.all isAscii) .encoding
  let (cString, h) ← allocAndWriteCstr h bytes
  assert (bytes.length + 1 < 2 ^ 32) .conversion
  pure (⟨cString, bytes.length + 1⟩, h)

/-- `dataUsingEncoding:` -/
def dataUsingEncoding (h : Heap) (this : StringHostObject) (encoding : ℕ) : Except Panic (NSData × Heap) :=
  dataUsingEncodingLossyInner h this encoding false

/-! ## Code units -/

/-- a code unit in memory -/
def unitBytes (u : UInt16) : List UInt8 := [UInt8.ofNat (u.toNat % 256), UInt8.ofNat (u.toNat / 256)]

/-- code units that can be read in memory -/
structure HoldsUnits (m : Mem) (ptr : ℕ) (us : List UInt16) : Prop where
  inRange : m.InRange ptr (us.length * 2)
  bytes : load m.bytes ptr (us.length * 2) = us.flatMap unitBytes

/-- **The purpose**: a string of exactly these code units -/
def Keeps (s : StringHostObject) (us : List UInt16) : Prop :=
  (∃ s', length [s] 0 = .ok (us.length, s')) ∧ ∀ i (hi : i < us.length), ∃ s', characterAtIndex [s] 0 i = .ok (us[i], s')

/-- the code unit with its bytes the other way round -/
def swap (u : UInt16) : UInt16 := UInt16.ofNat (u.toNat % 256 * 256 + u.toNat / 256)

variable {pages : CodePages} {m : Mem} {h h' : Heap} {ptr encoding : ℕ} {us : List UInt16} {u : UInt16} {text : List Char}
  {this s : StringHostObject} {data : NSData}

theorem unitBytes_toNat (u : UInt16) :
    (UInt8.ofNat (u.toNat % 256)).toNat = u.toNat % 256 ∧ (UInt8.ofNat (u.toNat / 256)).toNat = u.toNat / 256 := by
  have hu : u.toNat < 65536 := u.toNat_lt
  exact ⟨UInt8.toNat_ofNat_of_lt (by change _ < 256; omega), UInt8.toNat_ofNat_of_lt (by change _ < 256; omega)⟩

theorem unitsFromLe_bytes (us : List UInt16) : unitsFromLe (us.flatMap unitBytes) = us := by
  induction us with
  | nil => rfl
  | cons u us ih =>
    obtain ⟨hlow, hhigh⟩ := unitBytes_toNat u
    rw [List.flatMap_cons, unitBytes, List.cons_append, List.cons_append, List.nil_append, unitsFromLe, ih, hlow, hhigh,
      show u.toNat % 256 + u.toNat / 256 * 256 = u.toNat by omega, UInt16.ofNat_toNat]

theorem unitsFromBe_bytes (us : List UInt16) : unitsFromBe (us.flatMap unitBytes) = us.map swap := by
  induction us with
  | nil => rfl
  | cons u us ih =>
    obtain ⟨hlow, hhigh⟩ := unitBytes_toNat u
    rw [List.flatMap_cons, unitBytes, List.cons_append, List.cons_append, List.nil_append, unitsFromBe, ih, hlow, hhigh]
    rfl

theorem length_unitBytes (us : List UInt16) : (us.flatMap unitBytes).length = us.length * 2 := by
  induction us with
  | nil => rfl
  | cons u us ih =>
    rw [List.flatMap_cons, List.length_append, ih, List.length_cons, unitBytes]
    simp only [List.length_cons, List.length_nil]
    omega

/-- the mark of the other byte order -/
theorem isBigEndian_bytes (us : List UInt16) :
    isBigEndian (us.flatMap unitBytes) NSUTF16StringEncoding = true ↔ us.head? = some 0xFFFE := by
  rw [isBigEndian, if_neg (by decide), if_neg (by decide)]
  cases us with
  | nil => decide
  | cons u us =>
    obtain ⟨hlow, hhigh⟩ := unitBytes_toNat u
    have hbytes : ((u :: us).flatMap unitBytes).take 2 = [UInt8.ofNat (u.toNat % 256), UInt8.ofNat (u.toNat / 256)] := rfl
    rw [hbytes, beq_iff_eq, List.cons.injEq, List.cons.injEq, ← UInt8.toNat_inj, ← UInt8.toNat_inj, hlow, hhigh,
      List.head?_cons,
      Option.some.injEq, ← UInt16.toNat_inj]
    change (_ = 254 ∧ _ = 255 ∧ _) ↔ _ = 65534
    constructor
    · intro hb
      omega
    · intro hu'
      exact ⟨by omega, by omega, rfl⟩

/-- **The string** that is made of code units in memory -/
theorem initWithCharacters_eq (pages : CodePages) (hus : HoldsUnits m ptr us) (hptr : ptr ≠ 0) :
    ∃ s, initWithCharacters pages m ptr us.length = .ok s ∧
      iterCodeUnits s = if us.head? = some 0xFFFE then us.map swap else us := by
  have hlt : us.length * 2 < 2 ^ 32 := by
    have hin := hus.inRange.2
    omega
  rw [initWithCharacters, assert_ok (decide_eq_true hptr), ok_bind, mul32_ok hlt, ok_bind, initWithBytes, Mem.readBytes,
    Mem.checkRange_ok hus.inRange, ok_bind, pure_eq_ok, ok_bind, hus.bytes, StringHostObject.decode]
  cases us with
  | nil => exact ⟨_, rfl, rfl⟩
  | cons u us =>
    have heven : ((u :: us).flatMap unitBytes).length % 2 = 0 := by
      rw [length_unitBytes]
      omega
    have hsome : ((u :: us).flatMap unitBytes).isEmpty = false := rfl
    rw [hsome, if_neg Bool.false_ne_true, if_neg (by decide), if_neg (by decide), if_neg (by decide), if_neg (by decide),
      if_neg (by decide), if_pos (by decide), assert_ok (decide_eq_true heven), ok_bind]
    refine ⟨_, rfl, ?_⟩
    rw [iterCodeUnits, unitsFromBe_bytes, unitsFromLe_bytes]
    simp only [isBigEndian_bytes]

/-- a string keeps its own code units, and no others -/
theorem keeps_iff (hlt : us.length < 2 ^ 32) : Keeps s us ↔ iterCodeUnits s = us := by
  have hs : unitsOf (units [s]) 0 = iterCodeUnits s := rfl
  have hlength := length_eq (s := [s]) (a := 0) Nat.one_pos
  have hcharacter : ∀ index, characterAtIndex [s] 0 index = (unwrap (unitsOf (units [s]) 0)[index]? .index >>= fun unit =>
      pure (unit, [s].set 0 (.utf16 (unitsOf (units [s]) 0)))) := fun index => characterAtIndex_eq Nat.one_pos
  rw [hs] at hlength
  simp only [hs] at hcharacter
  constructor
  · rintro ⟨⟨s', hn⟩, hunits⟩
    rw [hlength] at hn
    obtain ⟨-, -, hn⟩ := bind_eq_ok.1 hn
    have hn' : (iterCodeUnits s).length = us.length := congrArg Prod.fst (Except.ok.inj hn)
    refine List.ext_getElem hn' fun i hi hi' => ?_
    obtain ⟨s', hu⟩ := hunits i hi'
    rw [hcharacter, List.getElem?_eq_getElem hi] at hu
    exact congrArg Prod.fst (Except.ok.inj hu)
  · rintro rfl
    refine ⟨⟨[s].set 0 (.utf16 (iterCodeUnits s)), ?_⟩, fun i hi => ⟨[s].set 0 (.utf16 (iterCodeUnits s)), ?_⟩⟩
    · rw [hlength, assert_ok (decide_eq_true hlt)]
      rfl
    · rw [hcharacter, List.getElem?_eq_getElem hi]
      rfl

theorem swap_mark : swap 0xFFFE ≠ 0xFFFE := by decide

/-- **Code units are kept** by `initWithCharacters:length:` exactly when the first one is not U+FFFE, whose bytes are
the mark of the other byte order. -/
theorem characters_kept_iff (pages : CodePages) (hus : HoldsUnits m ptr us) (hptr : ptr ≠ 0) :
    (∃ s, initWithCharacters pages m ptr us.length = .ok s ∧ Keeps s us) ↔ us.head? ≠ some 0xFFFE := by
  have hlt : us.length < 2 ^ 32 := by
    have hin := hus.inRange.2
    omega
  obtain ⟨s, hs, hunits⟩ := initWithCharacters_eq pages hus hptr
  constructor
  · rintro ⟨s', hs', hkeeps⟩ hmark
    obtain rfl := Except.ok.inj (hs.symm.trans hs')
    rw [keeps_iff hlt, hunits, if_pos hmark] at hkeeps
    have hhead := congrArg List.head? hkeeps
    rw [List.head?_map, hmark] at hhead
    exact swap_mark (Option.some.inj hhead)
  · intro hmark
    refine ⟨s, hs, (keeps_iff hlt).2 ?_⟩
    rw [hunits, if_neg hmark]

/-- decoders that know nothing -/
def noPages : CodePages := ⟨fun _ => [], fun _ => none⟩

/-- memory with code units at 0x1000 -/
def memoryWith (us : List UInt16) : Mem := ⟨store (fun _ => 0) 0x1000 (us.flatMap unitBytes), 0x1000⟩

theorem holdsUnits_memory (hlt : 0x1000 + us.length * 2 ≤ 2 ^ 32) : HoldsUnits (memoryWith us) 0x1000 us := by
  refine ⟨⟨le_rfl, hlt⟩, ?_⟩
  rw [memoryWith, ← length_unitBytes, load_store]

/-- two units -/
theorem characters_kept_hi :
    (∃ s, initWithCharacters noPages (memoryWith [0x48, 0x69]) 0x1000 2 = .ok s ∧ Keeps s [0x48, 0x69]) ↔
    ([0x48, 0x69] : List UInt16).head? ≠ some 0xFFFE :=
  characters_kept_iff noPages (holdsUnits_memory (by decide)) (by decide)

/-- U+FFFE and "a" -/
theorem mark_swapped : initWithCharacters noPages (memoryWith [0xFFFE, 0x61]) 0x1000 2 = .ok (.utf16 [0xFEFF, 0x6100]) ∧
    ¬Keeps (.utf16 [0xFEFF, 0x6100]) [0xFFFE, 0x61] := by
  refine ⟨rfl, ?_⟩
  rw [keeps_iff (by decide)]
  decide

/-! ## Bytes -/

/-- the text in one of the encodings of `dataUsingEncoding:`; all but UTF-8 have a byte for each character -/
def encodedText (encoding : ℕ) (text : List Char) : List UInt8 :=
  if encoding = NSUTF8StringEncoding then text.flatMap String.utf8EncodeChar else text.map fun c => UInt8.ofNat c.toNat

/-- **The purpose**: a string that is made of the data is equal to the one that the data is made of. -/
def Returns (pages : CodePages) (h : Heap) (data : NSData) (encoding : ℕ) (this : StringHostObject) : Prop :=
  ∃ s, initWithData pages h.toMem data encoding = .ok s ∧ iterCodeUnits s = iterCodeUnits this

/-- the data is the encoded text -/
def Exact (h : Heap) (data : NSData) (encoding : ℕ) (this : StringHostObject) : Prop :=
  ∃ text, toUtf8 this = some text ∧ load h.bytes data.bytes data.length = encodedText encoding text

theorem allocAndWriteCstr_cases {strBytes : List UInt8} (hw : allocAndWriteCstr h strBytes = .ok (ptr, h')) :
    h'.toMem.InRange ptr (strBytes.length + 1) ∧ load h'.bytes ptr (strBytes.length + 1) = strBytes ++ [0] := by
  obtain ⟨-, -, hw⟩ := bind_eq_ok.1 hw
  obtain ⟨size, -, hw⟩ := bind_eq_ok.1 hw
  obtain ⟨⟨p, h₁⟩, -, hw⟩ := bind_eq_ok.1 hw
  obtain ⟨m₁, hm₁, hw⟩ := bind_eq_ok.1 hw
  obtain ⟨last, hlast, hw⟩ := bind_eq_ok.1 hw
  obtain ⟨m₂, hm₂, hw⟩ := bind_eq_ok.1 hw
  obtain ⟨rfl, rfl⟩ := Prod.mk.inj (Except.ok.inj hw)
  obtain ⟨hin₁, rfl⟩ := Mem.writeBytes_cases hm₁
  obtain ⟨hin₂, rfl⟩ := Mem.writeBytes_cases hm₂
  have hlast' : last = p + strBytes.length := by
    unfold Mem.ptrAdd at hlast
    split_ifs at hlast
    rw [← Except.ok.inj hlast, Nat.mul_one]
  subst hlast'
  refine ⟨⟨hin₁.1, ?_⟩, ?_⟩
  · have hfit := hin₂.2
    rw [List.length_singleton] at hfit
    exact hfit
  · rw [store_append, show strBytes.length + 1 = (strBytes ++ [0]).length by rw [List.length_append]; rfl, load_store]

/-- **The data** of a string: its bytes and a NUL -/
theorem dataUsingEncoding_cases (hd : dataUsingEncoding h this encoding = .ok (data, h')) :
    ∃ text, toUtf8 this = some text ∧ (encoding = NSUTF8StringEncoding ∨
        (encoding = NSASCIIStringEncoding ∨ encoding = NSISOLatin1StringEncoding) ∧
          (text.flatMap String.utf8EncodeChar).all isAscii = true) ∧
      data.length = (text.flatMap String.utf8EncodeChar).length + 1 ∧ h'.toMem.InRange data.bytes data.length ∧
      load h'.bytes data.bytes data.length = text.flatMap String.utf8EncodeChar ++ [0] := by
  obtain ⟨u, hencoding, hd⟩ := bind_eq_ok.1 hd
  obtain ⟨text, htext, hd⟩ := bind_eq_ok.1 hd
  have hkind := assert_cases hencoding
  rw [Bool.or_eq_true, Bool.or_eq_true, decide_eq_true_iff, decide_eq_true_iff, decide_eq_true_iff] at hkind
  have hwritten : ∀ {x : Except Panic (NSData × Heap)}, x = .ok (data, h') →
      x = (allocAndWriteCstr h (text.flatMap String.utf8EncodeChar) >>= fun cString =>
        assert ((text.flatMap String.utf8EncodeChar).length + 1 < 2 ^ 32) .conversion >>= fun _ =>
          pure (⟨cString.1, (text.flatMap String.utf8EncodeChar).length + 1⟩, cString.2)) →
      data.length = (text.flatMap String.utf8EncodeChar).length + 1 ∧ h'.toMem.InRange data.bytes data.length ∧
        load h'.bytes data.bytes data.length = text.flatMap String.utf8EncodeChar ++ [0] := by
    intro x hx heq
    rw [heq] at hx
    obtain ⟨⟨p, h₁⟩, hw, hx⟩ := bind_eq_ok.1 hx
    obtain ⟨-, -, hx⟩ := bind_eq_ok.1 hx
    cases hx
    exact ⟨rfl, allocAndWriteCstr_cases hw⟩
  refine ⟨text, unwrap_eq_ok.1 htext, ?_⟩
  by_cases hascii : encoding = NSASCIIStringEncoding ∨ encoding = NSISOLatin1StringEncoding
  · rw [if_pos hascii] at hd
    obtain ⟨u', hall, hd⟩ := bind_eq_ok.1 hd
    exact ⟨.inr ⟨hascii, assert_cases hall⟩, hwritten hd rfl⟩
  · rw [if_neg hascii] at hd
    exact ⟨.inl (hkind.elim (fun h => h.elim id fun h => absurd (.inl h) hascii) fun h => absurd (.inr h) hascii),
      hwritten hd rfl⟩

/-- the NUL becomes a character -/
theorem decode_data (pages : CodePages) (h : encoding = NSUTF8StringEncoding ∨
    (encoding = NSASCIIStringEncoding ∨ encoding = NSISOLatin1StringEncoding) ∧
      (text.flatMap String.utf8EncodeChar).all isAscii = true) :
    StringHostObject.decode pages (text.flatMap String.utf8EncodeChar ++ [0]) encoding =
      .ok (.utf8 (text ++ ['\x00'])) := by
  have hne : (text.flatMap String.utf8EncodeChar ++ [0]).isEmpty = false := by simp
  have hback : Utf8.fromUtf8 (text.flatMap String.utf8EncodeChar ++ [0]) = some (text ++ ['\x00']) := by
    have hnul := Utf8.fromUtf8_encode (text ++ ['\x00'])
    rw [List.flatMap_append] at hnul
    exact hnul
  rw [StringHostObject.decode, hne, if_neg Bool.false_ne_true]
  rcases h with rfl | ⟨hascii, hall⟩
  · rw [if_neg (by decide), if_neg (by decide), if_pos rfl, hback]
    rfl
  · have hbytes : ∀ a ∈ text.flatMap String.utf8EncodeChar ++ [0], a < 0x80 := by
      intro a ha
      rcases List.mem_append.1 ha with ha | ha
      · exact of_decide_eq_true (List.all_eq_true.1 hall a ha)
      · rw [List.mem_singleton.1 ha]
        decide
    have hassert : (text.flatMap String.utf8EncodeChar ++ [0]).all isAscii = true :=
      List.all_eq_true.2 fun a ha => decide_eq_true (hbytes a ha)
    have htext : asciiText (text.flatMap String.utf8EncodeChar ++ [0]) = text ++ ['\x00'] :=
      Option.some.inj ((Utf8.fromUtf8_ascii hbytes).symm.trans hback)
    rcases hascii with rfl | rfl
    · rw [if_pos rfl, assert_ok hassert, ok_bind, htext]
      rfl
    · rw [if_neg (by decide), if_pos (by decide), assert_ok hassert, ok_bind, htext]
      rfl

theorem length_encodedText_le (encoding : ℕ) (text : List Char) :
    (encodedText encoding text).length ≤ (text.flatMap String.utf8EncodeChar).length := by
  rw [encodedText]
  split_ifs
  · exact le_rfl
  · rw [List.length_map]
    induction text with
    | nil => exact le_rfl
    | cons c text ih =>
      have hpos := Char.utf8Size_pos c
      rw [List.flatMap_cons, List.length_append, String.length_utf8EncodeChar, List.length_cons]
      omega

/-- **The data of a string is never right**, whatever the string and the encoding are: when there is data at all, it
ends with a NUL that is no part of the text, and the string that is made of it has one character more. -/
theorem data_never (pages : CodePages) (h : Heap) (this : StringHostObject) (encoding : ℕ) :
    ¬∃ data h', dataUsingEncoding h this encoding = .ok (data, h') ∧
      (Returns pages h' data encoding this ∨ Exact h' data encoding this) := by
  rintro ⟨data, h', hd, hright⟩
  obtain ⟨text, htext, hencoding, hlength, hin, hbytes⟩ := dataUsingEncoding_cases hd
  rcases hright with ⟨s, hs, hunits⟩ | ⟨text', htext', hload⟩
  · rw [initWithData, initWithBytes, Mem.readBytes, Mem.checkRange_ok hin, ok_bind, pure_eq_ok, ok_bind, hbytes,
      decode_data pages hencoding] at hs
    obtain rfl := Except.ok.inj hs
    have hthis : encode text = iterCodeUnits this := encode_of_decode ((toUtf8_eq this).symm.trans htext)
    rw [← hthis] at hunits
    have hlonger := congrArg List.length (encode_injective hunits)
    rw [List.length_append, List.length_singleton] at hlonger
    omega
  · obtain rfl := Option.some.inj (htext.symm.trans htext')
    have hle := length_encodedText_le encoding text
    rw [← hload, load_length, hlength] at hle
    omega

/-- "a", whose data is "a" and a NUL -/
theorem data_of_a : ∃ data h', dataUsingEncoding Heap.sampleStart (.utf8 ['a']) NSUTF8StringEncoding = .ok (data, h') ∧
    load h'.bytes data.bytes data.length = [0x61, 0] ∧
    initWithData noPages h'.toMem data NSUTF8StringEncoding = .ok (.utf8 ['a', '\x00']) ∧
    iterCodeUnits (.utf8 ['a', '\x00']) ≠ iterCodeUnits (.utf8 ['a']) ∧
    encodedText NSUTF8StringEncoding ['a'] = [0x61] := by
  have hok : (dataUsingEncoding Heap.sampleStart (.utf8 ['a']) NSUTF8StringEncoding).toOption.isSome = true := by
      decide +kernel
  cases hd : dataUsingEncoding Heap.sampleStart (.utf8 ['a']) NSUTF8StringEncoding with
  | error e => rw [hd] at hok; cases hok
  | ok r =>
    obtain ⟨data, h'⟩ := r
    obtain ⟨text, htext, hencoding, -, hin, hbytes⟩ := dataUsingEncoding_cases hd
    obtain rfl : text = ['a'] := (Option.some.inj htext).symm
    refine ⟨data, h', rfl, hbytes, ?_, by decide, by decide⟩
    rw [initWithData, initWithBytes, Mem.readBytes, Mem.checkRange_ok hin, ok_bind, pure_eq_ok, ok_bind, hbytes]
    exact decode_data noPages hencoding

end TouchHLE.NSString
