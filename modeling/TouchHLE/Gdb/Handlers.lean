/-
What `wait_for_debugger` (`gdb.rs`) does with a packet, and the round trips of the data in packets.

- `Target`: the processor and the memory. `getBytesFallible`: memory that may not be accessible.
- `readRegisters`, `writeRegisters`, `readRegister`, `writeRegister`, `readMemory`, `writeMemory`, `readFeatures`: the
  handlers.
- `handlePacket`: all packets.
- `fetchFeatures`: a debugger that reads the target description piece by piece.
- `Lossless`: what is sent back is what was there. `codings_lossless`: it is.

A packet is taken as the bytes of its body. The cache of translated code is not modelled.
-/
import TouchHLE.Env.State
import TouchHLE.Gdb.Hex
import TouchHLE.Mem.Memory

namespace TouchHLE.Gdb

open Machine Words
open Env (CpuContext)

/-! ## Model -/

structure Target where
  cpu : CpuContext
  mem : Mem

/-- a reply, or that the program is to run on, perhaps for one instruction only -/
inductive Outcome where
  | none
  | reply (body : List UInt8)
  | resume (doStep : Bool)
deriving DecidableEq

def ascii (s : String) : List UInt8 := s.toList.map fun c => UInt8.ofNat c.toNat

/-- the target description -/
def TARGET_XML : List UInt8 :=
  ascii "\n<target version=\"1.0\">\n    <architecture>armv6</architecture>\n    <osabi>Darwin</osabi>\n</target>\n"

/-- `split_once` -/
def splitOnce (sep : UInt8) (l : List UInt8) : Option (List UInt8 × List UInt8) :=
  if sep ∈ l then some (l.takeWhile (· != sep), (l.dropWhile (· != sep)).drop 1) else none

def u32FromHex (src : List UInt8) : Option ℕ := fromStrRadix (2 ^ 32) src 16

def usizeFromHex (src : List UInt8) : Option ℕ := fromStrRadix (2 ^ 64) src 16

/-- `get_bytes_fallible`, which has no bytes to give unless all of them are accessible -/
def getBytesFallible (m : Mem) (addr count : ℕ) : Option (List UInt8) :=
  if addr < m.nullSegmentSize then none else if addr + count ≤ 2 ^ 32 then some (load m.bytes addr count) else none

/-- a register as its packets have it, the lowest byte first -/
def wordText (w : UInt32) : List UInt8 := hexFixed 8 (swapBytes w).toNat

def wordFromText (text : List UInt8) : Option UInt32 := (u32FromHex text).map fun n => swapBytes (UInt32.ofNat n)

def byteFromText (text : List UInt8) : Option UInt8 := (fromStrRadix 256 text 16).map UInt8.ofNat

/-- 'g' -/
def readRegisters (t : Target) : List UInt8 := t.cpu.regs.toList.flatMap wordText

/-- 'G' -/
def writeRegisters (t : Target) (data : List UInt8) : Except Panic Target := do
  assert (data.length = 16 * 4 * 2) .packetBody
  let words ← parseChunks 8 wordFromText 16 data
  pure { t with cpu := { t.cpu with regs := Vector.ofFn fun i => words.getD i 0 } }

/-- 'p' -/
def readRegister (t : Target) (num : ℕ) : List UInt8 :=
  match t.cpu.regs[num]? with
  | some reg => wordText reg
  | none => if num = 25 then wordText t.cpu.cpsr else ascii "E00"

/-- 'P' -/
def writeRegister (t : Target) (num : ℕ) (word : UInt32) : List UInt8 × Target :=
  if num < 16 then (ascii "OK", { t with cpu := { t.cpu with regs := t.cpu.regs.setIfInBounds num word } })
  else if num = 25 then (ascii "OK", { t with cpu := { t.cpu with cpsr := word } })
  else (ascii "E00", t)

/-- 'm' -/
def readMemory (t : Target) (addr length : ℕ) : List UInt8 :=
  match getBytesFallible t.mem addr length with
  | some data => data.flatMap fun byte => hexFixed 2 byte.toNat
  | none => ascii "E00"

/-- 'M' -/
def writeMemory (t : Target) (addr length : ℕ) (data : List UInt8) : Except Panic (List UInt8 × Target) := do
  assert (data.length = length * 2) .packetBody
  match getBytesFallible t.mem addr length with
  | some _ => do
    let bytes ← parseChunks 2 byteFromText length data
    pure (ascii "OK", { t with mem := { t.mem with bytes := store t.mem.bytes addr bytes } })
  | none => pure (ascii "E00", t)

/-- `qXfer:features:read` -/
def readFeatures (params : List UInt8) : Except Panic (List UInt8) := do
  let (annex, params) ← unwrap (splitOnce 58 params) .packetBody
  let (offset, length) ← unwrap (splitOnce 44 params) .packetBody
  let offset ← unwrap (usizeFromHex offset) .packetBody
  let length ← unwrap (usizeFromHex length) .packetBody
  if annex = ascii "target.xml" ∧ offset ≤ TARGET_XML.length then
    let bytes := TARGET_XML.drop offset
    let lengthRead := min length bytes.length
    -- 'l' is for the last piece
    pure ((if lengthRead < length then 108 else 109) :: bytes.take lengthRead)
  else pure (ascii "E00")

/-- the packets that begin with none of the letters of the others -/
def handleQuery (p : List UInt8) : Except Panic (List UInt8) :=
  if p = ascii "qAttached" then pure (ascii "0")
  else if p = ascii "qSupported" ∨ ascii "qSupported:" <+: p then pure (ascii "qXfer:features:read+")
  else if ascii "qXfer:features:read:" <+: p then readFeatures (p.drop 20)
  else pure []

/-- one packet; `stopped` says whether an error of the program has brought the debugger here -/
def handlePacket (stopped : Bool) (t : Target) (p : List UInt8) : Except Panic (Outcome × Target) :=
  match p with
  | [] => pure (.none, t)
  | 63 :: _ => do
    assert (!stopped) .packetBody
    pure (.reply (ascii "S00"), t)
  | 103 :: _ => pure (.reply (readRegisters t), t)
  | 71 :: data => do
    let t ← writeRegisters t data
    pure (.reply (ascii "OK"), t)
  | 112 :: num => do
    let num ← unwrap (usizeFromHex num) .packetBody
    pure (.reply (readRegister t num), t)
  | 80 :: args => do
    let (num, word) ← unwrap (splitOnce 61 args) .packetBody
    let num ← unwrap (usizeFromHex num) .packetBody
    let word ← unwrap (wordFromText word) .packetBody
    let (reply, t) := writeRegister t num word
    pure (.reply reply, t)
  | 109 :: args => do
    let (addr, length) ← unwrap (splitOnce 44 args) .packetBody
    let addr ← unwrap (u32FromHex addr) .packetBody
    let length ← unwrap (u32FromHex length) .packetBody
    pure (.reply (readMemory t addr length), t)
  | 77 :: args => do
    let (header, data) ← unwrap (splitOnce 58 args) .packetBody
    let (addr, length) ← unwrap (splitOnce 44 header) .packetBody
    let addr ← unwrap (u32FromHex addr) .packetBody
    let length ← unwrap (u32FromHex length) .packetBody
    let (reply, t) ← writeMemory t addr length data
    pure (.reply reply, t)
  | 107 :: _ => throw .killed
  | c :: args =>
    if c = 99 ∨ c = 115 then
      if args = [] then pure (.resume (c = 115), t) else throw .todo
    else if c = 67 ∨ c = 83 then
      if 59 ∈ args then throw .todo else pure (.resume (c = 83), t)
    else do
      let reply ← handleQuery (c :: args)
      pure (.reply reply, t)

/-- a debugger that reads the target description in pieces of one length, and asks for the next one as long as there is
more -/
def fetchFeatures (stopped : Bool) (t : Target) (offsetText : ℕ → List UInt8) (lengthText : List UInt8) :
    ℕ → ℕ → Except Panic (Option (List UInt8))
  | 0, _ => pure .none
  | fuel + 1, offset => do
    let (outcome, t) ← handlePacket stopped t
      (ascii "qXfer:features:read:target.xml:" ++ offsetText offset ++ ascii "," ++ lengthText)
    match outcome with
    | .reply (108 :: data) => pure (some data)
    | .reply (109 :: data) => do
      let rest ← fetchFeatures stopped t offsetText lengthText fuel (offset + data.length)
      pure (rest.map (data ++ ·))
    | _ => pure .none

/-- **The purpose**: what is sent back is what was there, and what cannot be accessed stays as it is. Numbers may be
written in any way that they can be read in. -/
structure Lossless (stopped : Bool) (t : Target) : Prop where
  registers : ∃ payload, handlePacket stopped t (ascii "g") = .ok (.reply payload, t) ∧
    handlePacket stopped t (ascii "G" ++ payload) = .ok (.reply (ascii "OK"), t)
  register : ∀ numText num, usizeFromHex numText = some num → ∃ payload answer,
    handlePacket stopped t (ascii "p" ++ numText) = .ok (.reply payload, t) ∧
    handlePacket stopped t (ascii "P" ++ numText ++ ascii "=" ++ payload) = .ok (.reply answer, t) ∧
    answer = if num < 16 ∨ num = 25 then ascii "OK" else ascii "E00"
  memory : ∀ addrText addr lengthText length, u32FromHex addrText = some addr → u32FromHex lengthText = some length →
    t.mem.InRange addr length → ∃ payload,
      handlePacket stopped t (ascii "m" ++ addrText ++ ascii "," ++ lengthText) = .ok (.reply payload, t) ∧
      handlePacket stopped t (ascii "M" ++ addrText ++ ascii "," ++ lengthText ++ ascii ":" ++ payload) =
        .ok (.reply (ascii "OK"), t)
  inaccessible : ∀ addrText addr lengthText length, u32FromHex addrText = some addr → u32FromHex lengthText = some length →
    ¬t.mem.InRange addr length →
      handlePacket stopped t (ascii "m" ++ addrText ++ ascii "," ++ lengthText) = .ok (.reply (ascii "E00"), t) ∧
      ∀ data, data.length = length * 2 →
        handlePacket stopped t (ascii "M" ++ addrText ++ ascii "," ++ lengthText ++ ascii ":" ++ data) =
          .ok (.reply (ascii "E00"), t)
  features : ∀ lengthText length (offsetText : ℕ → List UInt8), usizeFromHex lengthText = some length → 0 < length →
    (∀ offset < 2 ^ 64, usizeFromHex (offsetText offset) = some offset) →
    ∃ n, ∀ fuel ≥ n, fetchFeatures stopped t offsetText lengthText fuel 0 = .ok (some TARGET_XML)

/-! ## Texts of numbers -/

variable {stopped : Bool} {t : Target} {text text' data : List UInt8} {sep c : UInt8}
  {limit radix n num addr length offset : ℕ}

theorem splitOnce_append (h : sep ∉ text) (data : List UInt8) :
    splitOnce sep (text ++ sep :: data) = some (text, data) := by
  have hall : ∀ c ∈ text, (c != sep) = true := fun c hc => bne_iff_ne.2 (ne_of_mem_of_not_mem hc h)
  have htake : (text ++ sep :: data).takeWhile (· != sep) = text := by
    rw [List.takeWhile_append_of_pos hall, List.takeWhile_cons_of_neg (by simp), List.append_nil]
  have hdrop : (text ++ sep :: data).dropWhile (· != sep) = sep :: data := by
    rw [List.dropWhile_append_of_pos hall, List.dropWhile_cons_of_neg (by simp)]
  rw [splitOnce, if_pos (List.mem_append_right _ List.mem_cons_self), htake, hdrop]
  rfl

/-- a text of a number has digits in it, and perhaps a '+' -/
theorem digits_of_fromStrRadix (h : fromStrRadix limit text radix = some n) : ∀ c ∈ text, c = 43 ∨ (digitVal c).isSome := by
  have hfold : ∀ (l : List UInt8) (k : ℕ), l.foldlM (pushDigitBelow limit radix) k = some n →
      ∀ c ∈ l, (digitVal c).isSome := by
    intro l
    induction l with
    | nil => exact fun _ _ c hc => absurd hc List.not_mem_nil
    | cons a l ih =>
      intro k hk c hc
      rw [List.foldlM_cons] at hk
      obtain ⟨k', hpush, hrest⟩ := Option.bind_eq_some_iff.1 hk
      rcases List.mem_cons.1 hc with rfl | hc
      · unfold pushDigitBelow at hpush
        cases hd : digitVal c with
        | none =>
          rw [hd] at hpush
          cases hpush
        | some d => rfl
      · exact ih k' hrest c hc
  unfold fromStrRadix at h
  split at h
  · cases h
  · intro c hc
    rcases List.mem_cons.1 hc with rfl | hc
    · exact .inl rfl
    · exact .inr (hfold _ _ h c hc)
  · exact fun c hc => .inr (hfold _ _ h c hc)

/-- so it has no separator in it -/
theorem notMem_of_fromStrRadix (h : fromStrRadix limit text radix = some n) (hsep : sep ≠ 43)
    (hdigit : digitVal sep = none) :
    sep ∉ text := by
  intro hmem
  rcases digits_of_fromStrRadix h sep hmem with heq | hsome
  · exact hsep heq
  · rw [hdigit] at hsome
    exact Bool.false_ne_true hsome

theorem wordFromText_wordText (w : UInt32) : wordFromText (wordText w) = some w := by
  have hlt := (swapBytes w).toNat_lt
  rw [wordFromText, u32FromHex, wordText, fromStrRadix_hexFixed (by norm_num) (by omega) hlt, Option.map_some,
    UInt32.ofNat_toNat, swapBytes_swapBytes]

theorem length_wordText (w : UInt32) : (wordText w).length = 8 := length_hexFixed 8 _

theorem byteFromText_hexFixed (byte : UInt8) : byteFromText (hexFixed 2 byte.toNat) = some byte := by
  have hlt := byte.toNat_lt
  rw [byteFromText, fromStrRadix_hexFixed (by norm_num) (by omega) hlt, Option.map_some, UInt8.ofNat_toNat]

/-! ## Registers -/

/-- registers that are written as they were read, from whatever state they were read -/
theorem writeRegisters_readRegisters (t t' : Target) :
    writeRegisters t (readRegisters t') = .ok { t with cpu := { t.cpu with regs := t'.cpu.regs } } := by
  have hlength : t'.cpu.regs.toList.length = 16 := Vector.length_toList
  have hsize : (readRegisters t').length = 16 * 4 * 2 := by
    rw [readRegisters, length_flatMap_chunks fun w _ => length_wordText w, hlength]
  have hchunks : parseChunks 8 wordFromText 16 (readRegisters t') = .ok t'.cpu.regs.toList := by
    have hread := parseChunks_flatMap (l := t'.cpu.regs.toList) (fun w _ => length_wordText w) fun w _ =>
      wordFromText_wordText w
    rwa [hlength] at hread
  have hregs : Vector.ofFn (fun i : Fin 16 => t'.cpu.regs.toList.getD i 0) = t'.cpu.regs := by
    ext i hi
    simp
  rw [writeRegisters, assert_ok (decide_eq_true hsize), ok_bind, hchunks, ok_bind, hregs]
  rfl

/-- a register that is written as it was read -/
theorem writeRegister_readRegister (t : Target) (num : ℕ) :
    ∃ word, wordFromText (readRegister t num) = some word ∧
      writeRegister t num word = (if num < 16 ∨ num = 25 then ascii "OK" else ascii "E00", t) := by
  by_cases hgeneral : num < 16
  · refine ⟨t.cpu.regs[num], ?_, ?_⟩
    · rw [readRegister, Vector.getElem?_eq_getElem hgeneral]
      exact wordFromText_wordText _
    · have hsame : t.cpu.regs.setIfInBounds num t.cpu.regs[num] = t.cpu.regs := by
        ext i hi
        rw [Vector.getElem_setIfInBounds]
        split_ifs with heq
        · subst heq
          rfl
        · rfl
      rw [writeRegister, if_pos hgeneral, if_pos (.inl hgeneral), hsame]
  · have hnone : t.cpu.regs[num]? = none := Vector.getElem?_eq_none (Nat.le_of_not_lt hgeneral)
    by_cases hstatus : num = 25
    · refine ⟨t.cpu.cpsr, ?_, ?_⟩
      · rw [readRegister, hnone]
        change wordFromText (if num = 25 then wordText t.cpu.cpsr else ascii "E00") = _
        rw [if_pos hstatus]
        exact wordFromText_wordText _
      · rw [writeRegister, if_neg hgeneral, if_pos hstatus, if_pos (.inr hstatus)]
    -- the text of the error is a number too
    · refine ⟨swapBytes 0xE00, ?_, ?_⟩
      · rw [readRegister, hnone]
        change wordFromText (if num = 25 then wordText t.cpu.cpsr else ascii "E00") = _
        rw [if_neg hstatus]
        decide
      · rw [writeRegister, if_neg hgeneral, if_neg hstatus, if_neg (by tauto)]

/-! ## Memory -/

theorem getBytesFallible_of_inRange {m : Mem} (h : m.InRange addr length) :
    getBytesFallible m addr length = some (load m.bytes addr length) := by
  rw [getBytesFallible, if_neg (Nat.not_lt.2 h.1), if_pos h.2]

theorem getBytesFallible_of_not_inRange {m : Mem} (h : ¬m.InRange addr length) : getBytesFallible m addr length = none := by
  unfold getBytesFallible
  by_cases hnull : addr < m.nullSegmentSize
  · rw [if_pos hnull]
  · rw [if_neg hnull, if_neg fun hend => h ⟨Nat.le_of_not_lt hnull, hend⟩]

/-- memory that is written as it was read -/
theorem writeMemory_readMemory (h : t.mem.InRange addr length) :
    writeMemory t addr length (readMemory t addr length) = .ok (ascii "OK", t) := by
  have hbytes : (load t.mem.bytes addr length).length = length := load_length
  have hread : readMemory t addr length = (load t.mem.bytes addr length).flatMap fun byte => hexFixed 2 byte.toNat := by
    rw [readMemory, getBytesFallible_of_inRange h]
  have hsize : (readMemory t addr length).length = length * 2 := by
    rw [hread, length_flatMap_chunks fun byte _ => length_hexFixed 2 byte.toNat, hbytes]
  have hchunks := parseChunks_flatMap (l := load t.mem.bytes addr length) (fun byte _ => length_hexFixed 2 byte.toNat)
    fun byte _ => byteFromText_hexFixed byte
  rw [hbytes] at hchunks
  rw [writeMemory, assert_ok (decide_eq_true hsize), ok_bind, getBytesFallible_of_inRange h, hread]
  change (parseChunks 2 byteFromText length _ >>= _) = _
  rw [hchunks, ok_bind, store_load_self]
  rfl

theorem readMemory_error (h : ¬t.mem.InRange addr length) : readMemory t addr length = ascii "E00" := by
  rw [readMemory, getBytesFallible_of_not_inRange h]

theorem writeMemory_error (h : ¬t.mem.InRange addr length) (hdata : data.length = length * 2) :
    writeMemory t addr length data = .ok (ascii "E00", t) := by
  rw [writeMemory, assert_ok (decide_eq_true hdata), ok_bind, getBytesFallible_of_not_inRange h]
  rfl

/-! ## Packets -/

/-- two fields, the first of them a number -/
theorem fields_bind {α β : Type} {parse : List UInt8 → Option α} {b : α} (sep : UInt8)
    (h : fromStrRadix limit text radix = some n) (hparse : parse text' = some b) (hsep : sep ≠ 43) (hdigit : digitVal sep = none)
    (next : ℕ → α → Except Panic β) : (do
      let (x, y) ← unwrap (splitOnce sep (text ++ sep :: text')) .packetBody
      let x ← unwrap (fromStrRadix limit x radix) .packetBody
      let y ← unwrap (parse y) .packetBody
      next x y) = next n b := by
  rw [splitOnce_append (notMem_of_fromStrRadix h hsep hdigit)]
  change (unwrap (fromStrRadix limit text radix) .packetBody >>= fun x => unwrap (parse text') .packetBody >>= next x) = _
  rw [h, hparse]
  rfl

theorem handlePacket_register (h : usizeFromHex text = some num) :
    handlePacket stopped t (ascii "p" ++ text) = .ok (.reply (readRegister t num), t) := by
  change (unwrap (usizeFromHex text) .packetBody >>= fun num => pure (Outcome.reply (readRegister t num), t)) = _
  rw [h]
  rfl

theorem handlePacket_setRegister {word : UInt32} (h : usizeFromHex text = some num)
    (hword : wordFromText text' = some word) :
    handlePacket stopped t (ascii "P" ++ text ++ ascii "=" ++ text') =
      .ok (.reply (writeRegister t num word).1, (writeRegister t num word).2) := by
  have hform : ascii "P" ++ text ++ ascii "=" ++ text' = 80 :: (text ++ 61 :: text') := by
    rw [List.append_assoc, List.append_assoc]
    rfl
  rw [hform]
  exact fields_bind 61 h hword (by decide) (by decide)
    fun num word => pure (Outcome.reply (writeRegister t num word).1, (writeRegister t num word).2)

theorem handlePacket_memory (haddr : u32FromHex text = some addr) (hlength : u32FromHex text' = some length) :
    handlePacket stopped t (ascii "m" ++ text ++ ascii "," ++ text') = .ok (.reply (readMemory t addr length), t) := by
  have hform : ascii "m" ++ text ++ ascii "," ++ text' = 109 :: (text ++ 44 :: text') := by
    rw [List.append_assoc, List.append_assoc]
    rfl
  rw [hform]
  exact fields_bind 44 haddr hlength (by decide) (by decide) fun addr length =>
    pure (Outcome.reply (readMemory t addr length), t)

theorem handlePacket_setMemory {reply : List UInt8} {t' : Target} (haddr : u32FromHex text = some addr)
    (hlength : u32FromHex text' = some length) (hwrite : writeMemory t addr length data = .ok (reply, t')) :
    handlePacket stopped t (ascii "M" ++ text ++ ascii "," ++ text' ++ ascii ":" ++ data) = .ok (.reply reply, t') := by
  have hform : ascii "M" ++ text ++ ascii "," ++ text' ++ ascii ":" ++ data =
      77 :: (text ++ 44 :: (text' ++ 58 :: data)) := by
    simp only [List.append_assoc]
    rfl
  have hheader : (58 : UInt8) ∉ text ++ 44 :: text' := by
    intro hmem
    rcases List.mem_append.1 hmem with hmem | hmem
    · exact notMem_of_fromStrRadix haddr (by decide) (by decide) hmem
    · rcases List.mem_cons.1 hmem with heq | hmem
      · exact absurd heq (by decide)
      · exact notMem_of_fromStrRadix hlength (by decide) (by decide) hmem
  have hsplit : splitOnce 58 (text ++ 44 :: (text' ++ 58 :: data)) = some (text ++ 44 :: text', data) := by
    rw [← splitOnce_append hheader, List.append_assoc, List.cons_append]
  rw [hform]
  change (unwrap (splitOnce 58 (text ++ 44 :: (text' ++ 58 :: data))) .packetBody >>= _) = _
  rw [hsplit]
  refine (fields_bind 44 haddr hlength (by decide) (by decide) fun addr length =>
    writeMemory t addr length data >>= fun written => pure (Outcome.reply written.1, written.2)).trans ?_
  rw [hwrite]
  rfl

/-! ## The target description -/

/-- the reply about the part from `offset` on -/
def piece (offset length : ℕ) : List UInt8 :=
  (if TARGET_XML.length - offset < length then 108 else 109) :: (TARGET_XML.drop offset).take length

theorem readFeatures_eq (hoffset : usizeFromHex text = some offset) (hlength : usizeFromHex text' = some length)
    (hle : offset ≤ TARGET_XML.length) :
    readFeatures (ascii "target.xml:" ++ text ++ ascii "," ++ text') = .ok (piece offset length) := by
  have hannex : splitOnce 58 (ascii "target.xml:" ++ text ++ ascii "," ++ text') =
      some (ascii "target.xml", text ++ 44 :: text') := by
    rw [← splitOnce_append (show (58 : UInt8) ∉ ascii "target.xml" by decide), List.append_assoc, List.append_assoc]
    rfl
  have hread : min length (TARGET_XML.drop offset).length < length ↔ TARGET_XML.length - offset < length := by
    rw [List.length_drop]
    omega
  have htake : (TARGET_XML.drop offset).take (min length (TARGET_XML.drop offset).length) =
      (TARGET_XML.drop offset).take length := by
    rw [← List.take_take, List.take_of_length_le le_rfl]
  rw [readFeatures, hannex]
  refine (fields_bind 44 hoffset hlength (by decide) (by decide) fun offset length =>
    if ascii "target.xml" = ascii "target.xml" ∧ offset ≤ TARGET_XML.length then
      pure ((if min length (TARGET_XML.drop offset).length < length then 108 else 109) ::
        (TARGET_XML.drop offset).take (min length (TARGET_XML.drop offset).length))
    else pure (ascii "E00")).trans ?_
  rw [if_pos ⟨rfl, hle⟩, htake, piece]
  simp only [hread]
  rfl

theorem handlePacket_features (hoffset : usizeFromHex text = some offset) (hlength : usizeFromHex text' = some length)
    (hle : offset ≤ TARGET_XML.length) :
    handlePacket stopped t (ascii "qXfer:features:read:target.xml:" ++ text ++ ascii "," ++ text') =
      .ok (.reply (piece offset length), t) := by
  have hparams : ascii "qXfer:features:read:target.xml:" ++ text ++ ascii "," ++ text' =
      ascii "qXfer:features:read:" ++ (ascii "target.xml:" ++ text ++ ascii "," ++ text') := by
    rw [show ascii "qXfer:features:read:target.xml:" = ascii "qXfer:features:read:" ++ ascii "target.xml:" from by decide]
    simp only [List.append_assoc]
  have hquery : handleQuery (ascii "qXfer:features:read:target.xml:" ++ text ++ ascii "," ++ text') =
      .ok (piece offset length) := by
    have hprefix := List.prefix_append (ascii "qXfer:features:read:") (ascii "target.xml:" ++ text ++ ascii "," ++ text')
    have hdrop : (ascii "qXfer:features:read:" ++ (ascii "target.xml:" ++ text ++ ascii "," ++ text')).drop 20 =
        ascii "target.xml:" ++ text ++ ascii "," ++ text' := List.drop_left' (by decide)
    -- the second letter tells it from the others
    have hother : ∀ (c : UInt8) (l l' : List UInt8), c ≠ 88 → ¬(113 :: c :: l) <+: (113 :: 88 :: l') := by
      intro c l l' hc h
      rw [List.cons_prefix_cons, List.cons_prefix_cons] at h
      exact hc h.2.1
    rw [hparams, handleQuery, if_neg, if_neg, if_pos hprefix, hdrop, readFeatures_eq hoffset hlength hle]
    · intro h
      rcases h with h | h
      · exact hother 83 _ _ (by decide) ⟨[], (List.append_nil _).trans h.symm⟩
      · exact hother 83 _ _ (by decide) h
    · intro h
      exact hother 65 _ _ (by decide) ⟨[], (List.append_nil _).trans h.symm⟩
  change (handleQuery (ascii "qXfer:features:read:target.xml:" ++ text ++ ascii "," ++ text') >>= fun reply =>
    pure (Outcome.reply reply, t)) = _
  rw [hquery]
  rfl

/-- from every offset the rest is fetched -/
theorem fetchFeatures_drop {offsetText : ℕ → List UInt8} (hlength : usizeFromHex text = some length) (hpos : 0 < length)
    (htext : ∀ offset < 2 ^ 64, usizeFromHex (offsetText offset) = some offset) (fuel : ℕ)
    (hle : offset ≤ TARGET_XML.length)
    (hfuel : TARGET_XML.length - offset < fuel) :
    fetchFeatures stopped t offsetText text fuel offset = .ok (some (TARGET_XML.drop offset)) := by
  have hsmall : TARGET_XML.length < 2 ^ 64 := by decide
  induction fuel generalizing offset with
  | zero => omega
  | succ fuel ih =>
    rw [fetchFeatures, handlePacket_features (htext offset (by omega)) hlength hle, ok_bind, piece]
    by_cases hlast : TARGET_XML.length - offset < length
    · rw [if_pos hlast, List.take_of_length_le (by rw [List.length_drop]; omega)]
      rfl
    · rw [if_neg hlast]
      have hread : ((TARGET_XML.drop offset).take length).length = length := by
        rw [List.length_take, List.length_drop]
        omega
      change (fetchFeatures stopped t offsetText text fuel (offset + ((TARGET_XML.drop offset).take length).length) >>=
        fun rest => pure (rest.map ((TARGET_XML.drop offset).take length ++ ·))) = _
      rw [hread, ih (by omega) (by omega), ok_bind, Option.map_some, ← List.drop_drop, List.take_append_drop]
      rfl

/-! ## All packets -/

/-- **The data of the packets** is lossless. -/
theorem codings_lossless (stopped : Bool) (t : Target) : Lossless stopped t where
  registers := by
    refine ⟨readRegisters t, rfl, ?_⟩
    change (writeRegisters t (readRegisters t) >>= fun t => pure (Outcome.reply (ascii "OK"), t)) = _
    rw [writeRegisters_readRegisters]
    rfl
  register := by
    intro numText num hnum
    obtain ⟨word, hword, hwrite⟩ := writeRegister_readRegister t num
    refine ⟨readRegister t num, _, handlePacket_register hnum, ?_, rfl⟩
    rw [handlePacket_setRegister hnum hword, hwrite]
  memory := by
    intro addrText addr lengthText length haddr hlength hrange
    exact ⟨_, handlePacket_memory haddr hlength, handlePacket_setMemory haddr hlength (writeMemory_readMemory hrange)⟩
  inaccessible := by
    intro addrText addr lengthText length haddr hlength hrange
    constructor
    · rw [← readMemory_error hrange]
      exact handlePacket_memory haddr hlength
    · intro data hdata
      exact handlePacket_setMemory haddr hlength (writeMemory_error hrange hdata)
  features := by
    intro lengthText length offsetText hlength hpos htext
    refine ⟨TARGET_XML.length + 1, fun fuel hfuel => ?_⟩
    exact fetchFeatures_drop hlength hpos htext fuel (Nat.zero_le _) (by omega)

end TouchHLE.Gdb
