/-
`mbstowcs` and `wcstombs` (`libc/stdlib.rs`) in the C locale, which both of them assert: one makes a word of every byte, the
other encodes the words as UTF-8.

- `wcstrAt`: a wide string as characters; `HoldsWide`: a wide string in memory.
- `mbstowcs_ok`, `wcstombs_ok`: what the functions store.
- `RoundTrip`, `Bounded`, `multibyte_iff`: the strings of ASCII come back; and words that are no characters, and an encoding that is
  longer than the buffer, panic.
-/
import TouchHLE.Libc.CStrings

namespace TouchHLE.Multibyte

open Machine Words

/-! ## Model -/

/-- `char::from_u32` -/
def fromU32 (w : UInt32) : Option Char := if h : w.isValidChar then some ⟨w, h⟩ else none

/-- the loop of `wcstr_at`; the pointer leaves memory at the latest behind `2 ^ 30` words -/
def wcstrLoop (m : Mem) (ptr : ℕ) : ℕ → ℕ → Except Panic ℕ
  | 0, _ => .error .pointer
  | fuel + 1, len => do
    let p ← Mem.ptrAdd ptr len 4
    let w ← m.readU32 p
    if w = 0 then pure len else wcstrLoop m ptr fuel (len + 1)

/-- so many words at an address -/
def words (m : Mem) (ptr len : ℕ) : List UInt32 := (List.range len).map fun i => loadWord m.bytes (ptr + i * 4)

def wcstrAt (m : Mem) (ptr : ℕ) : Except Panic (List Char) := do
  let len ← wcstrLoop m ptr (2 ^ 30 + 1) 0
  let size ← mul32 len 4
  m.checkRange ptr size
  (words m ptr len).mapM fun w => unwrap (fromU32 w) .conversion

/-- the loop of `mbstowcs`, with `count` characters left from `i` on -/
def mbstowcsLoop (pwcs s : ℕ) : (count i : ℕ) → Mem → Except Panic Mem
  | 0, _, m => pure m
  | count + 1, i, m => do
    let c ← readChar m s i
    let p ← Mem.ptrAdd pwcs i 4
    let m ← m.writeU32 p c.toUInt32
    mbstowcsLoop pwcs s count (i + 1) m

def mbstowcs (m : Mem) (pwcs s n : ℕ) : Except Panic (ℕ × Mem) := do
  let size ← m.strlen s
  let toWrite := min size n
  let m ← mbstowcsLoop pwcs s toWrite 0 m
  if toWrite < n then do
    let p ← Mem.ptrAdd pwcs toWrite 4
    let m ← m.writeU32 p 0
    pure (toWrite, m)
  else pure (toWrite, m)

/-- the bytes of a `String` -/
def asBytes (l : List Char) : List UInt8 := l.flatMap String.utf8EncodeChar

def wcstombs (m : Mem) (s pwcs n : ℕ) : Except Panic (ℕ × Mem) :=
  if n = 0 then pure (0, m)
  else do
    let wcstr ← wcstrAt m pwcs
    let bytes := asBytes wcstr
    let len := min (bytes.length % 2 ^ 32) n
    m.checkRange s len
    -- the whole encoding is copied, into a slice of that length
    assert (bytes.length == len) .sliceLength
    let m := { m with bytes := store m.bytes s bytes }
    if len < n then do
      let p ← Mem.ptrAdd s len 1
      let m ← m.writeBytes p [0]
      pure (len, m)
    else pure (len, m)

/-! ## Wide strings -/

/-- a wide string at an address, with a word that is zero behind it -/
structure HoldsWide (m : Mem) (ptr : ℕ) (ws : List UInt32) : Prop where
  inRange : m.InRange ptr ((ws.length + 1) * 4)
  words : ∀ i ≤ ws.length, loadWord m.bytes (ptr + i * 4) = ws.getD i 0
  noNul : ∀ w ∈ ws, w ≠ 0

/-- a Unicode scalar value -/
def IsScalar (w : UInt32) : Prop := w.isValidChar

instance : DecidablePred IsScalar := fun w => inferInstanceAs (Decidable w.isValidChar)

/-- the characters of words that are scalar values -/
def chars (ws : List UInt32) : List Char := ws.filterMap fromU32

variable {m m' : Mem} {ptr s pwcs t n : ℕ} {ws : List UInt32} {text : List UInt8} {c : UInt8}

theorem HoldsWide.word (h : HoldsWide m ptr ws) {i : ℕ} (hi : i ≤ ws.length) :
    Mem.ptrAdd ptr i 4 = .ok (ptr + i * 4) ∧ m.readU32 (ptr + i * 4) = .ok (ws.getD i 0) := by
  have hlow := h.inRange.1
  have hhigh := h.inRange.2
  refine ⟨if_pos (by omega), ?_⟩
  rw [Mem.readU32_ok ⟨by omega, by omega⟩, h.words i hi]

theorem HoldsWide.wcstrLoop (h : HoldsWide m ptr ws) {fuel len : ℕ} (hlen : len ≤ ws.length) (hf : ws.length < len + fuel) :
    wcstrLoop m ptr fuel len = .ok ws.length := by
  induction fuel generalizing len with
  | zero => omega
  | succ fuel ih =>
    obtain ⟨hptr, hread⟩ := h.word hlen
    rw [Multibyte.wcstrLoop, hptr, ok_bind, hread, ok_bind]
    rcases Nat.eq_or_lt_of_le hlen with heq | hlt
    · have hzero : ws.getD len 0 = 0 := by rw [List.getD_eq_getElem?_getD, List.getElem?_eq_none (by omega), Option.getD_none]
      rw [if_pos hzero, heq, pure_eq_ok]
    · have hne : ws.getD len 0 ≠ 0 := by
        rw [List.getD_eq_getElem?_getD, List.getElem?_eq_getElem hlt, Option.getD_some]
        exact h.noNul _ (List.getElem_mem hlt)
      rw [if_neg hne]
      exact ih hlt (by omega)

theorem HoldsWide.words_eq (h : HoldsWide m ptr ws) : Multibyte.words m ptr ws.length = ws := by
  apply List.ext_getElem (by rw [Multibyte.words, List.length_map, List.length_range])
  intro i hi hi'
  simp only [Multibyte.words, List.getElem_map, List.getElem_range]
  rw [h.words i hi'.le, List.getD_eq_getElem?_getD, List.getElem?_eq_getElem hi', Option.getD_some]

/-- the words are characters, or there is one that is none -/
theorem mapM_fromU32 (ws : List UInt32) :
    (∀ w ∈ ws, IsScalar w) ∧ ws.mapM (fun w => unwrap (fromU32 w) Panic.conversion) = .ok (chars ws) ∨
      (¬∀ w ∈ ws, IsScalar w) ∧ ws.mapM (fun w => unwrap (fromU32 w) Panic.conversion) = .error .conversion := by
  induction ws with
  | nil => exact .inl ⟨nofun, rfl⟩
  | cons w ws ih =>
    by_cases hw : w.isValidChar
    · have hchar : fromU32 w = some ⟨w, hw⟩ := dif_pos hw
      rcases ih with ⟨hall, hmap⟩ | ⟨hnot, hmap⟩
      · left
        refine ⟨fun x hx => ?_, ?_⟩
        · rcases List.mem_cons.1 hx with rfl | hx
          · exact hw
          · exact hall x hx
        · have hcons : chars (w :: ws) = ⟨w, hw⟩ :: chars ws := List.filterMap_cons_some hchar
          rw [List.mapM_cons, unwrap_eq_ok.2 hchar, ok_bind, hmap, ok_bind, hcons, pure_eq_ok]
      · right
        refine ⟨fun hall => hnot fun x hx => hall x (List.mem_cons_of_mem w hx), ?_⟩
        rw [List.mapM_cons, unwrap_eq_ok.2 hchar, ok_bind, hmap]
        rfl
    · right
      have hnone : fromU32 w = none := dif_neg hw
      refine ⟨fun hall => hw (hall w List.mem_cons_self), ?_⟩
      rw [List.mapM_cons, hnone]
      rfl

theorem HoldsWide.wcstrAt (h : HoldsWide m ptr ws) :
    wcstrAt m ptr = ws.mapM fun w => unwrap (fromU32 w) Panic.conversion := by
  have hlow := h.inRange.1
  have hhigh := h.inRange.2
  have hcheck : m.checkRange ptr (ws.length * 4) = .ok () := Mem.checkRange_ok ⟨hlow, by omega⟩
  rw [Multibyte.wcstrAt, h.wcstrLoop (Nat.zero_le _) (by omega), ok_bind, mul32_ok (by omega), ok_bind, hcheck, ok_bind,
    h.words_eq]

/-! ## The encoding -/

theorem asBytes_cons (c : Char) (l : List Char) : asBytes (c :: l) = String.utf8EncodeChar c ++ asBytes l := List.flatMap_cons

theorem asBytes_length_le (l : List Char) : (asBytes l).length ≤ l.length * 4 := by
  induction l with
  | nil => exact le_rfl
  | cons c l ih =>
    have hc := Char.utf8Size_le_four c
    rw [asBytes_cons, List.length_append, String.length_utf8EncodeChar, List.length_cons]
    omega

theorem le_asBytes_length (l : List Char) : l.length ≤ (asBytes l).length := by
  induction l with
  | nil => exact le_rfl
  | cons c l ih =>
    have hc := Char.utf8Size_pos c
    rw [asBytes_cons, List.length_append, String.length_utf8EncodeChar, List.length_cons]
    omega

theorem ofNat_ne_zero {x : ℕ} (h : x % 256 ≠ 0) : UInt8.ofNat x ≠ 0 := by
  intro hzero
  have hnat := congrArg UInt8.toNat hzero
  rw [UInt8.toNat_ofNat', UInt8.toNat_zero] at hnat
  exact h hnat

/-- only the character NUL has a NUL in its encoding -/
theorem utf8EncodeChar_noNul {c : Char} (hc : c.val ≠ 0) : ∀ b ∈ String.utf8EncodeChar c, b ≠ 0 := by
  have hval : c.val.toNat ≠ 0 := fun h => hc (UInt32.toNat_inj.1 h)
  unfold String.utf8EncodeChar
  simp only
  split_ifs <;> simp only [List.forall_mem_cons]
  · exact ⟨ofNat_ne_zero (by omega), nofun⟩
  · exact ⟨ofNat_ne_zero (by omega), ofNat_ne_zero (by omega), nofun⟩
  · exact ⟨ofNat_ne_zero (by omega), ofNat_ne_zero (by omega), ofNat_ne_zero (by omega), nofun⟩
  · exact ⟨ofNat_ne_zero (by omega), ofNat_ne_zero (by omega), ofNat_ne_zero (by omega), ofNat_ne_zero (by omega), nofun⟩

theorem asBytes_noNul {l : List Char} (h : ∀ c ∈ l, c.val ≠ 0) : ∀ b ∈ asBytes l, b ≠ 0 := by
  intro b hb
  obtain ⟨c, hc, hb⟩ := List.mem_flatMap.1 hb
  exact utf8EncodeChar_noNul (h c hc) b hb

theorem chars_length (h : ∀ w ∈ ws, IsScalar w) : (chars ws).length = ws.length := by
  induction ws with
  | nil => rfl
  | cons w ws ih =>
    have hchar : fromU32 w = some ⟨w, h w List.mem_cons_self⟩ := dif_pos (h w List.mem_cons_self)
    rw [chars, List.filterMap_cons_some hchar, List.length_cons, List.length_cons]
    exact congrArg Nat.succ (ih fun x hx => h x (List.mem_cons_of_mem w hx))

theorem chars_noNul (h : ∀ w ∈ ws, w ≠ 0) : ∀ c ∈ chars ws, c.val ≠ 0 := by
  intro c hc
  obtain ⟨w, hw, hchar⟩ := List.mem_filterMap.1 hc
  unfold fromU32 at hchar
  split_ifs at hchar
  cases hchar
  exact h w hw

/-- what `wcstombs` stores, in a buffer that is large enough -/
def stored (bytes : List UInt8) (n : ℕ) : List UInt8 := if bytes.length < n then bytes ++ [0] else bytes

theorem wcstombs_ok (h : HoldsWide m pwcs ws) (hn : n ≠ 0) (ht : m.InRange t n) (hscalar : ∀ w ∈ ws, IsScalar w)
    (hfits : (asBytes (chars ws)).length ≤ n) : wcstombs m t pwcs n =
      .ok ((asBytes (chars ws)).length, { m with bytes := store m.bytes t (stored (asBytes (chars ws)) n) }) := by
  have hlow := ht.1
  have hhigh := ht.2
  have hwide := h.inRange.2
  have hsize : (asBytes (chars ws)).length < 2 ^ 32 := by
    have hle := asBytes_length_le (chars ws)
    rw [chars_length hscalar] at hle
    omega
  have hmap : ws.mapM (fun w => unwrap (fromU32 w) Panic.conversion) = .ok (chars ws) := by
    rcases mapM_fromU32 ws with ⟨-, hmap⟩ | ⟨hnot, -⟩
    · exact hmap
    · exact absurd hscalar hnot
  have hlen : min ((asBytes (chars ws)).length % 2 ^ 32) n = (asBytes (chars ws)).length := by
    rw [Nat.mod_eq_of_lt hsize, Nat.min_eq_left hfits]
  have hcheck : m.checkRange t (asBytes (chars ws)).length = .ok () := Mem.checkRange_ok ⟨hlow, by omega⟩
  rw [wcstombs, if_neg hn, h.wcstrAt, hmap, ok_bind]
  simp only [hlen, hcheck, ok_bind, assert_ok (BEq.refl _)]
  unfold stored
  split_ifs with hroom
  · have hptr : Mem.ptrAdd t (asBytes (chars ws)).length 1 = .ok (t + (asBytes (chars ws)).length) := by
      rw [Mem.ptrAdd, Nat.mul_one]
      exact if_pos (by omega)
    have hwrite : Mem.writeBytes { m with bytes := store m.bytes t (asBytes (chars ws)) } (t + (asBytes (chars ws)).length) [0] =
        .ok { m with bytes := store m.bytes t (asBytes (chars ws) ++ [0]) } := by
      have hrange : Mem.InRange { m with bytes := store m.bytes t (asBytes (chars ws)) } (t + (asBytes (chars ws)).length) 1 :=
        ⟨Nat.le_add_right_of_le hlow, by omega⟩
      rw [Mem.writeBytes_singleton 0 hrange]
      simp only [store_append]
    rw [hptr, ok_bind, hwrite, ok_bind, pure_eq_ok]
  · rfl

theorem wcstombs_fails (h : HoldsWide m pwcs ws) (hn : n ≠ 0)
    (hnot : ¬((∀ w ∈ ws, IsScalar w) ∧ (asBytes (chars ws)).length ≤ n)) : ∃ e, wcstombs m t pwcs n = .error e := by
  rw [wcstombs, if_neg hn, h.wcstrAt]
  rcases mapM_fromU32 ws with ⟨hall, hmap⟩ | ⟨-, hmap⟩
  · have hlong : n < (asBytes (chars ws)).length := Nat.lt_of_not_le fun hle => hnot ⟨hall, hle⟩
    rw [hmap, ok_bind]
    simp only
    cases hcheck : m.checkRange t (min ((asBytes (chars ws)).length % 2 ^ 32) n) with
    | error e => exact ⟨e, rfl⟩
    | ok u =>
      have hne : ((asBytes (chars ws)).length == min ((asBytes (chars ws)).length % 2 ^ 32) n) = false := by
        rw [beq_eq_false_iff_ne]
        omega
      rw [ok_bind, hne]
      exact ⟨.sliceLength, rfl⟩
  · rw [hmap]
    exact ⟨.conversion, rfl⟩

/-! ## `mbstowcs` -/

/-- the wide string of bytes -/
def widen (text : List UInt8) : List UInt32 := text.map UInt8.toUInt32

theorem toUInt32_ne_zero (h : c ≠ 0) : c.toUInt32 ≠ 0 := by
  intro hzero
  have hnat := congrArg UInt32.toNat hzero
  rw [UInt8.toNat_toUInt32, UInt32.toNat_zero] at hnat
  exact h (UInt8.toNat_inj.1 hnat)

/-- **The loop of `mbstowcs`**, from `i` to the end of the string; it has stored the words before `i` -/
theorem mbstowcsLoop_ok {i : ℕ} (h : HoldsString m s text) (hw : m.InRange pwcs ((text.length + 1) * 4))
    (hapart : s + text.length < pwcs ∨ pwcs + (text.length + 1) * 4 ≤ s) (hi : i ≤ text.length)
    (hstored : ∀ j < i, loadWord m.bytes (pwcs + j * 4) = (widen text).getD j 0) :
    ∃ m', mbstowcsLoop pwcs s (text.length - i) i m = .ok m' ∧ m'.nullSegmentSize = m.nullSegmentSize ∧
      ∀ j < text.length, loadWord m'.bytes (pwcs + j * 4) = (widen text).getD j 0 := by
  have hlow := hw.1
  have hhigh := hw.2
  obtain ⟨count, hcount⟩ := Nat.exists_eq_add_of_le hi
  have hleft : text.length - i = count := by omega
  rw [hleft]
  induction count generalizing i m with
  | zero =>
    rw [Nat.add_zero] at hcount
    exact ⟨m, rfl, rfl, hcount ▸ hstored⟩
  | succ count ih =>
    have hlt : i < text.length := by omega
    have hptr : Mem.ptrAdd pwcs i 4 = .ok (pwcs + i * 4) := if_pos (by omega)
    have hword : (widen text).getD i 0 = (text.getD i 0).toUInt32 := by
      rw [List.getD_eq_getElem?_getD, List.getD_eq_getElem?_getD, widen, List.getElem?_map, List.getElem?_eq_getElem hlt]
      rfl
    rw [mbstowcsLoop, readChar_ok h hi, ok_bind, hptr, ok_bind, Mem.writeU32_ok ⟨by omega, by omega⟩, ok_bind]
    refine ih (m := { m with bytes := storeWord m.bytes (pwcs + i * 4) (text.getD i 0).toUInt32 }) ?_ hw hlt
      (fun j hj => ?_) hlow (by omega) (by omega)
    · exact h.of_bytes rfl fun j hj => storeWord_outside (by omega)
    · rcases Nat.lt_or_eq_of_le (Nat.le_of_lt_succ hj) with hlt' | rfl
      · rw [← hstored j hlt']
        exact loadWord_storeWord_of_disjoint (by omega)
      · rw [hword]
        exact loadWord_storeWord

theorem mbstowcs_ok (h : HoldsString m s text) (hn : text.length < n) (hw : m.InRange pwcs (n * 4))
    (hapart : s + text.length < pwcs ∨ pwcs + n * 4 ≤ s) :
    ∃ m', mbstowcs m pwcs s n = .ok (text.length, m') ∧ m'.nullSegmentSize = m.nullSegmentSize ∧ HoldsWide m' pwcs (widen text) := by
  have hlow := hw.1
  have hhigh := hw.2
  have hlen : (widen text).length = text.length := List.length_map _
  obtain ⟨m', hloop, hnull, hstored⟩ :=
    mbstowcsLoop_ok (i := 0) h ⟨hlow, by omega⟩ (by omega) (Nat.zero_le _) fun j hj => absurd hj (Nat.not_lt_zero j)
  have hptr : Mem.ptrAdd pwcs text.length 4 = .ok (pwcs + text.length * 4) := if_pos (by omega)
  have hrange : m'.InRange (pwcs + text.length * 4) 4 := ⟨by rw [hnull]; omega, by omega⟩
  rw [Nat.sub_zero] at hloop
  refine ⟨{ m' with bytes := storeWord m'.bytes (pwcs + text.length * 4) 0 }, ?_, hnull, ⟨?_, ?_⟩, fun i hi => ?_, ?_⟩
  · rw [mbstowcs, h.strlen, ok_bind]
    simp only [Nat.min_eq_left hn.le, hloop, ok_bind, if_pos hn, hptr, Mem.writeU32_ok hrange, pure_eq_ok]
  · rw [hnull]
    exact hlow
  · rw [hlen]
    omega
  · rw [hlen] at hi
    rcases Nat.lt_or_eq_of_le hi with hlt | rfl
    · rw [← hstored i hlt]
      exact loadWord_storeWord_of_disjoint (by omega)
    · rw [List.getD_eq_getElem?_getD, List.getElem?_eq_none hlen.le, Option.getD_none]
      exact loadWord_storeWord
  · intro w hw
    obtain ⟨c, hc, rfl⟩ := List.mem_map.1 hw
    exact toUInt32_ne_zero (h.noNul c hc)

/-! ## Bytes as characters -/

theorem isScalar_byte (c : UInt8) : IsScalar c.toUInt32 := by
  have hlt := c.toNat_lt
  left
  rw [UInt8.toNat_toUInt32]
  omega

theorem chars_widen_cons (c : UInt8) (text : List UInt8) :
    chars (widen (c :: text)) = ⟨c.toUInt32, isScalar_byte c⟩ :: chars (widen text) := by
  have hchar : fromU32 c.toUInt32 = some ⟨c.toUInt32, isScalar_byte c⟩ := dif_pos (isScalar_byte c)
  rw [widen, List.map_cons, chars, List.filterMap_cons_some hchar]
  rfl

/-- ASCII is encoded as it is -/
theorem encode_ascii (h : ∀ c ∈ text, c < 128) : asBytes (chars (widen text)) = text := by
  induction text with
  | nil => rfl
  | cons c text ih =>
    have hc : c.toNat < 128 := UInt8.lt_iff_toNat_lt.1 (h c List.mem_cons_self)
    have hchar : String.utf8EncodeChar ⟨c.toUInt32, isScalar_byte c⟩ = [c] := by
      rw [String.utf8EncodeChar]
      simp only [UInt8.toNat_toUInt32]
      rw [if_pos (by omega), UInt8.ofNat_toNat]
    rw [chars_widen_cons, asBytes_cons, hchar, ih fun x hx => h x (List.mem_cons_of_mem c hx)]
    rfl

/-- any other byte is encoded as two -/
theorem encode_longer (h : ¬∀ c ∈ text, c < 128) : text.length < (asBytes (chars (widen text))).length := by
  induction text with
  | nil => exact absurd nofun h
  | cons c text ih =>
    rw [chars_widen_cons, asBytes_cons, List.length_append, String.length_utf8EncodeChar, List.length_cons]
    by_cases hc : c < 128
    · have hrest := ih fun hall => h (List.forall_mem_cons.2 ⟨hc, hall⟩)
      have hpos := Char.utf8Size_pos ⟨c.toUInt32, isScalar_byte c⟩
      omega
    · have htwo : 2 ≤ Char.utf8Size ⟨c.toUInt32, isScalar_byte c⟩ := by
        have hbig : 128 ≤ c.toNat := UInt8.le_iff_toNat_le.1 (UInt8.not_lt.1 hc)
        have hlt := c.toNat_lt
        rw [← String.length_utf8EncodeChar, String.utf8EncodeChar]
        simp only [UInt8.toNat_toUInt32]
        rw [if_neg (by omega), if_pos (by omega)]
        rfl
      have hle := le_asBytes_length (chars (widen text))
      have hlen : (chars (widen text)).length = text.length := by
        rw [chars_length fun w hw => ?_, widen, List.length_map]
        obtain ⟨c, -, rfl⟩ := List.mem_map.1 hw
        exact isScalar_byte c
      omega

/-! ## The result -/

/-- `wcstombs` of what `mbstowcs` produces from a string gives it back -/
def RoundTrip (m : Mem) (pwcs s t n : ℕ) (text : List UInt8) : Prop :=
  ∃ r m₁ r' m₂, mbstowcs m pwcs s n = .ok (r, m₁) ∧ wcstombs m₁ t pwcs n = .ok (r', m₂) ∧ HoldsString m₂ t text

/-- at most `n` bytes are written, `r` of them before a NUL, which is there if there is room for it -/
structure Bounded (m m' : Mem) (t n r : ℕ) : Prop where
  written : r ≤ n
  before : ∀ i < r, m'.bytes (t + i) ≠ 0
  terminated : r < n → m'.bytes (t + r) = 0
  outside : ∀ x, x < t ∨ t + n ≤ x → m'.bytes x = m.bytes x

theorem stored_bounded {bytes : List UInt8} (hlen : bytes.length ≤ n) (hnul : ∀ b ∈ bytes, b ≠ 0) :
    Bounded m { m with bytes := store m.bytes t (stored bytes n) } t n bytes.length := by
  have hsize : (stored bytes n).length ≤ n := by
    unfold stored
    split_ifs with hroom
    · rw [List.length_append, List.length_singleton]
      exact hroom
    · exact hlen
  have hbyte {i : ℕ} (hi : i < bytes.length) : store m.bytes t (stored bytes n) (t + i) = bytes[i] := by
    unfold stored
    split_ifs with hroom
    · rw [store_inside (by rw [List.length_append]; omega), List.getElem_append_left hi]
    · rw [store_inside hi]
  refine ⟨hlen, fun i hi => ?_, fun hroom => ?_, fun x hx => store_outside (by omega)⟩
  · show store m.bytes t (stored bytes n) (t + i) ≠ 0
    rw [hbyte hi]
    exact hnul _ (List.getElem_mem hi)
  · have hend : (bytes ++ [0]).length = bytes.length + 1 := by rw [List.length_append, List.length_singleton]
    show store m.bytes t (stored bytes n) (t + bytes.length) = 0
    rw [stored, if_pos hroom, store_inside (by omega), List.getElem_concat_length rfl]

theorem roundTrip_iff (h : HoldsString m s text) (hn : text.length < n) (hw : m.InRange pwcs (n * 4))
    (hapart : s + text.length < pwcs ∨ pwcs + n * 4 ≤ s) (ht : m.InRange t n) :
    RoundTrip m pwcs s t n text ↔ ∀ c ∈ text, c < 128 := by
  obtain ⟨m₁, hmb, hnull, hwide⟩ := mbstowcs_ok h hn hw hapart
  have hscalar : ∀ w ∈ widen text, IsScalar w := by
    intro w hw
    obtain ⟨c, -, rfl⟩ := List.mem_map.1 hw
    exact isScalar_byte c
  have ht₁ : m₁.InRange t n := ⟨hnull ▸ ht.1, ht.2⟩
  have hpos : n ≠ 0 := by omega
  have hnul := asBytes_noNul (chars_noNul hwide.noNul)
  constructor
  · rintro ⟨r, m₁', r', m₂, hmb', hwc, hholds⟩
    cases hmb.symm.trans hmb'
    by_contra hhigh
    have hlonger := encode_longer hhigh
    by_cases hfits : (asBytes (chars (widen text))).length ≤ n
    · rw [wcstombs_ok hwide hpos ht₁ hscalar hfits] at hwc
      cases hwc
      exact (stored_bounded hfits hnul).before _ hlonger hholds.terminator
    · obtain ⟨e, he⟩ := wcstombs_fails (m := m₁) (t := t) hwide hpos fun hall => hfits hall.2
      exact absurd (he.symm.trans hwc) nofun
  · intro hascii
    have hbytes := encode_ascii hascii
    have hwc := wcstombs_ok hwide hpos ht₁ hscalar (by rw [hbytes]; exact hn.le)
    rw [hbytes] at hwc
    rw [stored, if_pos hn] at hwc
    have hhigh := ht.2
    exact ⟨_, _, _, _, hmb, hwc, holdsString_store ⟨ht₁.1, by omega⟩ h.noNul⟩

theorem wcstombs_iff (h : HoldsWide m pwcs ws) (ht : m.InRange t n) :
    (∃ r m', wcstombs m t pwcs n = .ok (r, m') ∧ Bounded m m' t n r) ↔
      n = 0 ∨ (∀ w ∈ ws, IsScalar w) ∧ (asBytes (chars ws)).length ≤ n := by
  by_cases hn : n = 0
  · subst hn
    refine iff_of_true ⟨0, m, if_pos rfl, le_rfl, fun i hi => absurd hi (Nat.not_lt_zero i), nofun, fun _ _ => rfl⟩ (.inl rfl)
  · constructor
    · rintro ⟨r, m', hwc, -⟩
      by_contra hnot
      obtain ⟨e, he⟩ := wcstombs_fails (t := t) h hn fun hall => hnot (.inr hall)
      exact absurd (he.symm.trans hwc) nofun
    · intro hcondition
      obtain ⟨hscalar, hfits⟩ := hcondition.resolve_left hn
      exact ⟨_, _, wcstombs_ok h hn ht hscalar hfits, stored_bounded hfits (asBytes_noNul (chars_noNul h.noNul))⟩

/-- **`mbstowcs` and `wcstombs`** in the C locale: the first string comes back if and only if it is ASCII, and the second call is
right if and only if it is to write nothing, or every word is a Unicode scalar value and the encoding is not longer than the
buffer. -/
theorem multibyte_iff {m : Mem} {pwcs s t n : ℕ} {text : List UInt8} (h : HoldsString m s text) (hn : text.length < n)
    (hw : m.InRange pwcs (n * 4)) (hapart : s + text.length < pwcs ∨ pwcs + n * 4 ≤ s) (ht : m.InRange t n) {m' : Mem}
    {pwcs' t' n' : ℕ} {ws : List UInt32} (h' : HoldsWide m' pwcs' ws) (ht' : m'.InRange t' n') :
    (RoundTrip m pwcs s t n text ↔ ∀ c ∈ text, c < 128) ∧
      ((∃ r m'', wcstombs m' t' pwcs' n' = .ok (r, m'') ∧ Bounded m' m'' t' n' r) ↔
        n' = 0 ∨ (∀ w ∈ ws, IsScalar w) ∧ (asBytes (chars ws)).length ≤ n') :=
  ⟨roundTrip_iff h hn hw hapart ht, wcstombs_iff h' ht'⟩

/-- a byte at 4096, and the wide string "ab" at 8192 -/
def byteAndWide (c : UInt8) : Mem := ⟨store (store (fun _ => 0) 4096 [c]) 8192 (leBytes 97 ++ leBytes 98), 4096⟩

theorem byte_holds (hc : c ≠ 0) : HoldsString (byteAndWide c) 4096 [c] := by
  refine ⟨le_rfl, ?_, fun i hi => ?_, fun x hx => List.mem_singleton.1 hx ▸ hc⟩
  · rw [List.length_singleton]
    decide
  rw [List.length_singleton] at hi
  interval_cases i <;> rfl

theorem wide_holds (c : UInt8) : HoldsWide (byteAndWide c) 8192 [97, 98] := by
  have hlow : (byteAndWide c).nullSegmentSize = 4096 := rfl
  refine ⟨⟨by rw [hlow]; decide, by decide⟩, fun i hi => ?_, by simp⟩
  rw [show [(97 : UInt32), 98].length = 2 from rfl] at hi
  interval_cases i <;> rfl

theorem multibyte_ascii : RoundTrip (byteAndWide 97) 16384 4096 4096 2 [97] ∧
    ∃ r m'', wcstombs (byteAndWide 97) 4096 8192 2 = .ok (r, m'') ∧ Bounded (byteAndWide 97) m'' 4096 2 r := by
  have hiff := @multibyte_iff (byteAndWide 97) 16384 4096 4096 2 [97] (byte_holds (by decide)) (by decide) ⟨by decide, by decide⟩
    (by decide) ⟨by decide, by decide⟩ (byteAndWide 97) 8192 4096 2 [97, 98] (wide_holds 97) ⟨by decide, by decide⟩
  have hscalar : ∀ w ∈ [(97 : UInt32), 98], IsScalar w :=
    List.forall_mem_cons.2 ⟨by decide, List.forall_mem_singleton.2 (by decide)⟩
  exact ⟨hiff.1.2 (by simp), hiff.2.2 (.inr ⟨hscalar, by decide⟩)⟩

/-- a byte that is not ASCII comes back as two, and a wide string that does not fit makes the second function panic -/
theorem multibyte_latin : ¬RoundTrip (byteAndWide 0xe9) 16384 4096 4096 4 [0xe9] ∧
    ¬∃ r m'', wcstombs (byteAndWide 0xe9) 4096 8192 1 = .ok (r, m'') ∧ Bounded (byteAndWide 0xe9) m'' 4096 1 r := by
  refine ⟨fun h => ?_, fun h => ?_⟩
  · have hascii := (roundTrip_iff (byte_holds (by decide)) (by decide) ⟨by decide, by decide⟩ (by decide) ⟨by decide, by decide⟩).1 h
    exact absurd (hascii 0xe9 List.mem_cons_self) (by decide)
  · rcases (wcstombs_iff (wide_holds 0xe9) ⟨by decide, by decide⟩).1 h with hzero | ⟨-, hlen⟩
    · exact absurd hzero one_ne_zero
    · exact absurd hlen (by decide)

end TouchHLE.Multibyte
