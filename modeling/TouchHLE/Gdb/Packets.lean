/-
The packets of the remote debugging protocol (`gdb.rs`). The server reads them through a buffer that takes more from the
connection only when it is empty.

- `GdbServer.readPacket`: one call of `read_packet`. `readPackets`: repeated calls.
- `Packet`: a well-formed packet. `Message`: a packet or an acknowledgment.
- `Delivers`: every packet is delivered, in order, as soon as its last byte has arrived.
- `readPacket_whole`: a message at the start of the buffer is taken off it.
- `readPacket_part`: the beginning of a packet stays where it is, so nothing more is ever read.
- `delivers_iff`: the packets are delivered exactly when no read of the connection ends inside a packet.
-/
import TouchHLE.Lib.Utf8
import TouchHLE.Libc.StrToInt

namespace TouchHLE.Gdb

open Machine Utf8

/-! ## The server -/

/-- the errors of a read; the last one stands for those that are none to the server, such as that nothing came in time -/
inductive ErrorKind where
  | brokenPipe
  | connectionReset
  | other
deriving DecidableEq, Repr

/-- the capacity of the buffer -/
def capacity : ℕ := 4096

/-- what a read of the connection into the buffer gives -/
abbrev Arrival := Except ErrorKind {chunk : List UInt8 // chunk.length ≤ capacity}

structure GdbServer where
  /-- what is left in the buffer of the reader -/
  buffer : List UInt8
  /-- what the next reads of the connection give; when nothing is left, they time out -/
  incoming : List Arrival
  sent : List UInt8

namespace GdbServer

/-- `BufReader::fill_buf` -/
def fillBuf (s : GdbServer) : Except ErrorKind (List UInt8) × GdbServer :=
  if s.buffer ≠ [] then (.ok s.buffer, s)
  else
    match s.incoming with
    | [] => (.error .other, s)
    | .error e :: incoming => (.error e, { s with incoming })
    | .ok chunk :: incoming => (.ok chunk, { s with buffer := chunk, incoming })

/-- `BufReader::consume` -/
def consume (s : GdbServer) (n : ℕ) : GdbServer := { s with buffer := s.buffer.drop n }

end GdbServer

/-- `buffer.get(start..end)` -/
def getRange (buffer : List UInt8) (start stop : ℕ) : Option (List UInt8) :=
  if start ≤ stop ∧ stop ≤ buffer.length then some ((buffer.drop start).take (stop - start)) else none

/-- one more digit of a `u8` -/
def pushDigit (radix n : ℕ) (c : UInt8) : Option ℕ :=
  match digitVal c with
  | some d => if d < radix ∧ n * radix + d < 256 then some (n * radix + d) else none
  | none => none

/-- `u8::from_str_radix`: a '+' in front of a digit is allowed -/
def u8FromStrRadix (src : List UInt8) (radix : ℕ) : Option ℕ :=
  match src with
  | [] => none
  | 43 :: c :: digits => (c :: digits).foldlM (pushDigit radix) 0
  | digits => digits.foldlM (pushDigit radix) 0

/-- the sum of the bytes, wrapping -/
def checksum (body : List UInt8) : UInt8 := body.foldl (· + ·) 0

/-- the packet that the buffer starts with, and its length -/
def parsePacket (buffer : List UInt8) : Except Panic (Option (List Char × ℕ)) :=
  match buffer.findIdx? (· == 35) with
  | none => do
    assert (buffer.length != capacity) .packetEnd
    pure none
  | some bodyEnd => do
    let body := (buffer.take bodyEnd).drop 1
    match getRange buffer (bodyEnd + 1) (bodyEnd + 3) with
    | none => pure none
    | some checksum1 => do
      let _ ← unwrap (fromUtf8 checksum1) .utf8
      let checksum1 ← unwrap (u8FromStrRadix checksum1 16) .conversion
      assert (checksum1 == (checksum body).toNat) .checksum
      let body ← unwrap (fromUtf8 body) .utf8
      pure (some (body, bodyEnd + 3))

namespace GdbServer

def readPacket (s : GdbServer) : Except Panic (Option (List Char) × GdbServer) :=
  match s.fillBuf with
  | (.error .brokenPipe, _) => .error .lostConnection
  | (.error .connectionReset, _) => .error .lostConnection
  | (.error .other, s) => .ok (none, s)
  | (.ok [], s) => .ok (none, s)
  | (.ok (c :: buffer), s) =>
    if c = 43 then .ok (none, s.consume 1)
    else do
      assert (c == 36) .packetStart
      match ← parsePacket (c :: buffer) with
      | none => pure (none, s)
      | some (body, length) => pure (some body, { s.consume length with sent := s.sent ++ [43] })

/-- `n` calls, and the bodies that they return -/
def readPackets : ℕ → GdbServer → Except Panic (List (List Char) × GdbServer)
  | 0, s => .ok ([], s)
  | n + 1, s => do
    let (body, s) ← s.readPacket
    let (bodies, s) ← readPackets n s
    pure (body.toList ++ bodies, s)

theorem readPackets_succ {n : ℕ} {s t u : GdbServer} {body : Option (List Char)} {bodies : List (List Char)}
    (h : s.readPacket = .ok (body, t)) (h' : readPackets n t = .ok (bodies, u)) :
    readPackets (n + 1) s = .ok (body.toList ++ bodies, u) := by
  simp only [readPackets, h, ok_bind, h', pure_eq_ok]

/-- calls after calls -/
theorem readPackets_trans {m n : ℕ} {s t u : GdbServer} {bodies bodies' : List (List Char)}
    (h : readPackets m s = .ok (bodies, t)) (h' : readPackets n t = .ok (bodies', u)) :
    readPackets (m + n) s = .ok (bodies ++ bodies', u) := by
  induction m generalizing s bodies with
  | zero =>
    cases h
    rwa [Nat.zero_add]
  | succ m ih =>
    obtain ⟨⟨body, s'⟩, hfirst, hrest⟩ := bind_eq_ok.1 h
    obtain ⟨⟨rest, t'⟩, hrest, heq⟩ := bind_eq_ok.1 hrest
    cases heq
    rw [Nat.add_right_comm, List.append_assoc]
    exact readPackets_succ hfirst (ih hrest)

/-- a call that changes nothing changes nothing when it is repeated -/
theorem readPackets_idle {s : GdbServer} (h : s.readPacket = .ok (none, s)) (n : ℕ) : readPackets n s = .ok ([], s) := by
  induction n with
  | zero => rfl
  | succ n ih =>
    exact readPackets_succ h ih

end GdbServer

/-! ## Packets -/

/-- a well-formed packet: '$', the body, '#', and the checksum in two hexadecimal digits -/
structure Packet where
  body : List UInt8
  high : UInt8
  low : UInt8
  ascii : ∀ c ∈ body, c < 0x80
  noEnd : 35 ∉ body
  sum : ∃ h l, digitVal high = some h ∧ digitVal low = some l ∧ h < 16 ∧ l < 16 ∧ h * 16 + l = (checksum body).toNat
  short : body.length + 4 < capacity

def Packet.bytes (p : Packet) : List UInt8 := 36 :: p.body ++ [35, p.high, p.low]

/-- the body as the string that it is -/
def Packet.text (p : Packet) : List Char := p.body.map fun c => Char.ofNat c.toNat

/-- what the debugger sends -/
inductive Message where
  | ack
  | packet (p : Packet)

def Message.bytes : Message → List UInt8
  | .ack => [43]
  | .packet p => p.bytes

def Message.body : Message → Option (List Char)
  | .ack => none
  | .packet p => some p.text

def encode (ms : List Message) : List UInt8 := ms.flatMap Message.bytes

def bodies (ms : List Message) : List (List Char) := ms.filterMap Message.body

/-- the bytes that the reads give -/
def received (arrivals : List Arrival) : List UInt8 :=
  arrivals.flatMap fun
    | .ok chunk => chunk
    | .error _ => []

/-- the messages of which all bytes are among the first `n` -/
def arrived (n : ℕ) : List Message → List Message
  | [] => []
  | m :: ms => if m.bytes.length ≤ n then m :: arrived (n - m.bytes.length) ms else []

/-- the server of a connection with nothing read yet -/
def start (arrivals : List Arrival) : GdbServer := ⟨[], arrivals, [43]⟩

/-- **Every packet is delivered.** However many of the reads have come in: repeated calls deliver the packets of which the
last byte has arrived, in order, and then no more. -/
def Delivers (ms : List Message) (arrivals : List Arrival) : Prop :=
  ∀ k, ∃ N, ∀ n ≥ N, ∃ s, (start (arrivals.take k)).readPackets n =
    .ok (bodies (arrived (received (arrivals.take k)).length ms), s)

/-- no read ends inside a packet -/
def WholeReads (ms : List Message) (arrivals : List Arrival) : Prop :=
  ∀ k, ∃ j, received (arrivals.take k) = encode (ms.take j)

/-! ## One call -/

section

variable {p : Packet} {rest : List UInt8} {incoming : List Arrival} {sent : List UInt8}

theorem digitVal_ascii {c : UInt8} {d : ℕ} (h : digitVal c = some d) : c < 0x80 ∧ c ≠ 43 := by
  constructor
  · unfold digitVal at h
    split_ifs at h with h1 h2 h3
    · exact UInt8.lt_of_le_of_lt h1.2 (by decide)
    · exact UInt8.lt_of_le_of_lt h2.2 (by decide)
    · exact UInt8.lt_of_le_of_lt h3.2 (by decide)
  · rintro rfl
    cases h

/-- the two digits of a well-formed packet are the sum of its body -/
theorem Packet.checksum_digits (p : Packet) :
    (fromUtf8 [p.high, p.low]).isSome ∧ u8FromStrRadix [p.high, p.low] 16 = some (checksum p.body).toNat := by
  obtain ⟨h, l, hhigh, hlow, hh, hl, hsum⟩ := p.sum
  constructor
  · rw [fromUtf8_ascii]
    · rfl
    · intro c hc
      rcases List.mem_pair.1 hc with rfl | rfl
      · exact (digitVal_ascii hhigh).1
      · exact (digitVal_ascii hlow).1
  · have hfirst : pushDigit 16 0 p.high = some h := by
      simp only [pushDigit, hhigh]
      rw [if_pos ⟨hh, by omega⟩, Nat.zero_mul, Nat.zero_add]
    have hsecond : pushDigit 16 h p.low = some (checksum p.body).toNat := by
      simp only [pushDigit, hlow]
      rw [if_pos ⟨hl, by omega⟩, hsum]
    unfold u8FromStrRadix
    split
    · next heq => cases heq
    · next heq => exact absurd (List.cons.inj heq).1 (digitVal_ascii hhigh).2
    · rw [List.foldlM_cons, hfirst, Option.bind_eq_bind, Option.bind_some, List.foldlM_cons, hsecond, Option.bind_eq_bind,
        Option.bind_some]
      rfl

/-- the end of the body is the first '#' -/
theorem Packet.findEnd (p : Packet) (rest : List UInt8) :
    (36 :: p.body ++ 35 :: rest).findIdx? (· == 35) = some (p.body.length + 1) := by
  have hnone : (36 :: p.body).findIdx? (· == 35) = none := by
    rw [List.findIdx?_eq_none_iff]
    intro c hc
    rcases List.mem_cons.1 hc with rfl | hc
    · rfl
    · exact beq_false_of_ne fun h => p.noEnd (h ▸ hc)
  have hhere : (35 :: rest).findIdx? (· == 35) = some 0 := by simp [List.findIdx?_cons]
  rw [List.findIdx?_append, hnone, hhere]
  simp

theorem parsePacket_whole (p : Packet) (rest : List UInt8) :
    parsePacket (p.bytes ++ rest) = .ok (some (p.text, p.bytes.length)) := by
  have hbytes : p.bytes ++ rest = 36 :: p.body ++ 35 :: p.high :: p.low :: rest := by simp [Packet.bytes]
  have hbody : ((36 :: p.body ++ 35 :: p.high :: p.low :: rest).take (p.body.length + 1)).drop 1 = p.body := by
    rw [List.take_left' (by simp), List.drop_one, List.tail_cons]
  have hsum : getRange (36 :: p.body ++ 35 :: p.high :: p.low :: rest) (p.body.length + 2) (p.body.length + 4) =
      some [p.high, p.low] := by
    unfold getRange
    rw [if_pos ⟨by omega, by simp⟩, show 36 :: p.body ++ 35 :: p.high :: p.low :: rest =
      (36 :: p.body ++ [35]) ++ p.high :: p.low :: rest by simp, List.drop_left' (by simp)]
    congr 1
    rw [show p.body.length + 4 - (p.body.length + 2) = 2 by omega]
    rfl
  obtain ⟨hutf8, hdigits⟩ := p.checksum_digits
  obtain ⟨digits, hutf8⟩ := Option.isSome_iff_exists.1 hutf8
  unfold parsePacket
  rw [hbytes, p.findEnd]
  simp only [hbody, hsum, hutf8, hdigits, unwrap, ok_bind, assert, beq_self_eq_true, if_true, fromUtf8_ascii p.ascii,
    pure_eq_ok]
  congr 1
  simp [Packet.bytes, Packet.text]

/-- of a packet that has not arrived in full nothing is taken -/
theorem parsePacket_part (p : Packet) {n : ℕ} (hn : n < p.bytes.length) : parsePacket (p.bytes.take n) = .ok none := by
  have hlen : p.bytes.length = p.body.length + 4 := by simp [Packet.bytes]
  have hshort := p.short
  by_cases hend : n ≤ p.body.length + 1
  · have htake : p.bytes.take n = (36 :: p.body).take n := List.take_append_of_le_length (by simpa using hend)
    have hnone : ((36 :: p.body).take n).findIdx? (· == 35) = none := by
      rw [List.findIdx?_eq_none_iff]
      intro c hc
      rcases List.mem_cons.1 (List.mem_of_mem_take hc) with rfl | hc
      · rfl
      · exact beq_false_of_ne fun h => p.noEnd (h ▸ hc)
    have hroom : ((36 :: p.body).take n).length ≠ capacity := by
      have := List.length_take_le n (36 :: p.body)
      omega
    unfold parsePacket
    rw [htake, hnone]
    simp only [assert, bne_iff_ne.2 hroom, if_true, ok_bind, pure_eq_ok]
  · obtain ⟨i, rfl⟩ := Nat.exists_eq_add_of_le (show p.body.length + 2 ≤ n by omega)
    have htake : p.bytes.take (p.body.length + 2 + i) = 36 :: p.body ++ 35 :: [p.high, p.low].take i := by
      rw [show p.bytes = (36 :: p.body ++ [35]) ++ [p.high, p.low] by simp [Packet.bytes],
        show p.body.length + 2 + i = (36 :: p.body ++ [35]).length + i by simp, List.take_length_add_append]
      simp
    have hrange : getRange (36 :: p.body ++ 35 :: [p.high, p.low].take i) (p.body.length + 2) (p.body.length + 4) = none := by
      refine if_neg fun h => ?_
      have hle := h.2
      simp only [List.length_append, List.length_cons, List.length_take, List.length_nil] at hle
      omega
    unfold parsePacket
    rw [htake, p.findEnd]
    simp only [hrange]
    rfl

/-- **A message** at the start of the buffer is taken off it. -/
theorem readPacket_whole (m : Message) : ∃ sent', GdbServer.readPacket ⟨m.bytes ++ rest, incoming, sent⟩ =
    .ok (m.body, ⟨rest, incoming, sent'⟩) := by
  cases m with
  | ack => exact ⟨sent, rfl⟩
  | packet p =>
    refine ⟨sent ++ [43], ?_⟩
    have hparse := parsePacket_whole p rest
    have hcons : p.bytes ++ rest = 36 :: (p.body ++ [35, p.high, p.low] ++ rest) := by simp [Packet.bytes]
    rw [hcons] at hparse
    have hfill : GdbServer.fillBuf ⟨p.bytes ++ rest, incoming, sent⟩ =
        (.ok (36 :: (p.body ++ [35, p.high, p.low] ++ rest)), ⟨p.bytes ++ rest, incoming, sent⟩) := by
      rw [hcons]
      rfl
    have hassert : assert ((36 : UInt8) == 36) .packetStart = .ok () := rfl
    simp only [Message.bytes, GdbServer.readPacket, hfill, hparse, hassert, ok_bind, pure_eq_ok, GdbServer.consume,
      Message.body, List.drop_left]
    rfl

/-- **The beginning of a packet** stays where it is. -/
theorem readPacket_part {n : ℕ} (h0 : 0 < n) (hn : n < p.bytes.length) :
    GdbServer.readPacket ⟨p.bytes.take n, incoming, sent⟩ = .ok (none, ⟨p.bytes.take n, incoming, sent⟩) := by
  have hparse := parsePacket_part p hn
  obtain ⟨n, rfl⟩ := Nat.exists_eq_add_of_lt h0
  have hcons : p.bytes.take (0 + n + 1) = 36 :: (p.body ++ [35, p.high, p.low]).take n := by
    rw [Nat.zero_add]
    rfl
  rw [hcons] at hparse ⊢
  have hassert : assert ((36 : UInt8) == 36) .packetStart = .ok () := rfl
  simp only [GdbServer.readPacket, GdbServer.fillBuf, ne_eq, reduceCtorEq, not_false_eq_true, if_true, hparse, hassert, ok_bind,
    pure_eq_ok]
  rfl

theorem readPacket_chunk (chunk : {chunk : List UInt8 // chunk.length ≤ capacity}) (h : chunk.1 ≠ []) :
    GdbServer.readPacket ⟨[], .ok chunk :: incoming, sent⟩ = GdbServer.readPacket ⟨chunk.1, incoming, sent⟩ := by
  unfold GdbServer.readPacket GdbServer.fillBuf
  simp [h]

theorem readPackets_chunk (chunk : {chunk : List UInt8 // chunk.length ≤ capacity}) (h : chunk.1 ≠ []) (n : ℕ) :
    GdbServer.readPackets (n + 1) ⟨[], .ok chunk :: incoming, sent⟩ =
      GdbServer.readPackets (n + 1) ⟨chunk.1, incoming, sent⟩ := by
  simp only [GdbServer.readPackets, readPacket_chunk chunk h]

end

/-! ## Messages and their bytes -/

theorem Message.bytes_pos (m : Message) : 0 < m.bytes.length := by
  cases m <;> simp [Message.bytes, Packet.bytes]

@[simp] theorem encode_nil : encode [] = [] := rfl

@[simp] theorem encode_cons (m : Message) (ms : List Message) : encode (m :: ms) = m.bytes ++ encode ms := rfl

@[simp] theorem encode_append (ms ms' : List Message) : encode (ms ++ ms') = encode ms ++ encode ms' := List.flatMap_append

@[simp] theorem bodies_append (ms ms' : List Message) : bodies (ms ++ ms') = bodies ms ++ bodies ms' := List.filterMap_append

theorem encode_eq_nil {ms : List Message} (h : encode ms = []) : ms = [] := by
  cases ms with
  | nil => rfl
  | cons m ms =>
    have hpos := m.bytes_pos
    rw [encode_cons, List.append_eq_nil_iff] at h
    rw [h.1] at hpos
    exact absurd hpos (by decide)

theorem encode_take_drop (j : ℕ) (ms : List Message) : encode (ms.take j) ++ encode (ms.drop j) = encode ms := by
  rw [← encode_append, List.take_append_drop]

/-- the messages of which all bytes are there, if these are the bytes of the first ones -/
theorem arrived_encode (ms ms' : List Message) : arrived (encode ms).length (ms ++ ms') = ms := by
  induction ms with
  | nil =>
    cases ms' with
    | nil => rfl
    | cons m ms' => exact if_neg (by simpa using m.bytes_pos.ne')
  | cons m ms ih =>
    rw [List.cons_append, arrived, encode_cons, List.length_append, if_pos (Nat.le_add_right _ _), Nat.add_sub_cancel_left, ih]

/-- the beginning of a sequence of messages is whole messages and then nothing or a part of the next one -/
theorem prefix_cases {ms : List Message} {l : List UInt8} (h : l <+: encode ms) :
    (∃ j, l = encode (ms.take j)) ∨
      ∃ ms₁ m ms₂ n, ms = ms₁ ++ m :: ms₂ ∧ 0 < n ∧ n < m.bytes.length ∧ l = encode ms₁ ++ m.bytes.take n := by
  induction ms generalizing l with
  | nil => exact .inl ⟨0, List.prefix_nil.1 h⟩
  | cons m ms ih =>
    rcases List.prefix_or_prefix_of_prefix h (List.prefix_append m.bytes (encode ms)) with h | ⟨l', rfl⟩
    · rcases Nat.eq_zero_or_pos l.length with hnil | hpos
      · exact .inl ⟨0, List.length_eq_zero_iff.1 hnil⟩
      · rcases h.length_le.lt_or_eq with hlt | heq
        · exact .inr ⟨[], m, ms, l.length, rfl, hpos, hlt, List.prefix_iff_eq_take.1 h⟩
        · exact .inl ⟨1, by rw [h.eq_of_length heq]; simp⟩
    · rcases ih ((List.prefix_append_right_inj _).1 h) with ⟨j, rfl⟩ | ⟨ms₁, m', ms₂, n, rfl, h0, hn, rfl⟩
      · exact .inl ⟨j + 1, rfl⟩
      · exact .inr ⟨m :: ms₁, m', ms₂, n, rfl, h0, hn, by simp⟩

/-! ## Repeated calls -/

section

variable {ms : List Message} {arrivals more : List Arrival} {rest : List UInt8} {sent : List UInt8}

/-- the messages at the start of the buffer, one call each -/
theorem readPackets_whole (ms : List Message) (rest sent : List UInt8) :
    ∃ sent', GdbServer.readPackets ms.length ⟨encode ms ++ rest, more, sent⟩ = .ok (bodies ms, ⟨rest, more, sent'⟩) := by
  induction ms generalizing sent with
  | nil => exact ⟨sent, rfl⟩
  | cons m ms ih =>
    obtain ⟨sent₁, hfirst⟩ := readPacket_whole m
    obtain ⟨sent₂, hrest⟩ := ih sent₁
    refine ⟨sent₂, ?_⟩
    rw [encode_cons, List.append_assoc, List.length_cons, GdbServer.readPackets_succ hfirst hrest]
    congr 2
    cases m <;> rfl

/-- the reads give nothing or whole messages, the messages `ms` altogether -/
inductive Whole : List Arrival → List Message → Prop
  | nil : Whole [] []
  | nothing {arrivals : List Arrival} {ms : List Message} (h : Whole arrivals ms) : Whole (.error .other :: arrivals) ms
  | chunk {arrivals : List Arrival} {ms ms' : List Message} {chunk : {chunk : List UInt8 // chunk.length ≤ capacity}}
      (hc : chunk.1 = encode ms) (h : Whole arrivals ms') : Whole (.ok chunk :: arrivals) (ms ++ ms')

theorem Whole.received (h : Whole arrivals ms) : received arrivals = encode ms := by
  induction h with
  | nil => rfl
  | nothing h ih => exact ih
  | chunk hc h ih => rw [encode_append, ← hc, ← ih]; rfl

/-- **Whole reads** are delivered. -/
theorem readPackets_of_whole (h : Whole arrivals ms) (more : List Arrival) (sent : List UInt8) :
    ∃ n sent', GdbServer.readPackets n ⟨[], arrivals ++ more, sent⟩ = .ok (bodies ms, ⟨[], more, sent'⟩) := by
  induction h generalizing sent with
  | nil => exact ⟨0, sent, rfl⟩
  | @nothing arrivals ms h ih =>
    obtain ⟨n, sent', hrest⟩ := ih sent
    have hfirst : GdbServer.readPacket ⟨[], .error .other :: (arrivals ++ more), sent⟩ =
        .ok (none, ⟨[], arrivals ++ more, sent⟩) := rfl
    exact ⟨n + 1, sent', GdbServer.readPackets_succ hfirst hrest⟩
  | @chunk arrivals ms ms' chunk hc h ih =>
    rw [bodies_append]
    cases ms with
    | nil =>
      obtain ⟨n, sent', hrest⟩ := ih sent
      have hfirst : GdbServer.readPacket ⟨[], .ok chunk :: (arrivals ++ more), sent⟩ =
          .ok (none, ⟨[], arrivals ++ more, sent⟩) := by
        simp only [GdbServer.readPacket, GdbServer.fillBuf, ne_eq, not_true_eq_false, if_false, hc, encode_nil]
      exact ⟨n + 1, sent', GdbServer.readPackets_succ hfirst hrest⟩
    | cons m ms =>
      obtain ⟨sent₁, hfirst⟩ := readPackets_whole (m :: ms) [] sent
      obtain ⟨n, sent₂, hrest⟩ := ih sent₁
      have hne : chunk.1 ≠ [] := by
        rw [hc]
        intro hnil
        exact absurd (encode_eq_nil hnil) (List.cons_ne_nil m ms)
      rw [List.append_nil, ← hc, List.length_cons, ← readPackets_chunk chunk hne] at hfirst
      exact ⟨ms.length + 1 + n, sent₂, GdbServer.readPackets_trans hfirst hrest⟩

theorem WholeReads.take (h : WholeReads ms arrivals) (k : ℕ) : WholeReads ms (arrivals.take k) := by
  intro k'
  rw [List.take_take]
  exact h (min k' k)

/-- what the reads after whole reads give -/
theorem WholeReads.tail {chunk : {chunk : List UInt8 // chunk.length ≤ capacity}} {j : ℕ}
    (h : WholeReads ms (.ok chunk :: arrivals)) (hc : chunk.1 = encode (ms.take j)) : WholeReads (ms.drop j) arrivals := by
  intro k
  obtain ⟨j', hj'⟩ := h (k + 1)
  have hsum : encode (ms.take j) ++ received (arrivals.take k) = encode (ms.take j') := by
    rw [← hc, ← hj']
    rfl
  rcases Nat.le_total j j' with hle | hle
  · obtain ⟨i, rfl⟩ := Nat.exists_eq_add_of_le hle
    refine ⟨i, ?_⟩
    rw [List.take_add, encode_append] at hsum
    exact List.append_cancel_left hsum
  · -- nothing was read
    obtain ⟨i, rfl⟩ := Nat.exists_eq_add_of_le hle
    refine ⟨0, ?_⟩
    have hlen := congrArg List.length hsum
    rw [List.take_add, encode_append, List.length_append, List.length_append] at hlen
    exact List.length_eq_zero_iff.1 (by omega)

theorem whole_of_reads (herr : ∀ e, .error e ∈ arrivals → e = ErrorKind.other) (h : WholeReads ms arrivals) :
    ∃ j, Whole arrivals (ms.take j) := by
  induction arrivals generalizing ms with
  | nil => exact ⟨0, .nil⟩
  | cons a arrivals ih =>
    have hrest := fun e he => herr e (List.mem_cons_of_mem a he)
    cases a with
    | error e =>
      obtain rfl := herr e List.mem_cons_self
      obtain ⟨j, hj⟩ := ih hrest fun k => h (k + 1)
      exact ⟨j, .nothing hj⟩
    | ok chunk =>
      obtain ⟨j, hj⟩ := h 1
      have hc : chunk.1 = encode (ms.take j) := by
        rw [← hj]
        exact (List.append_nil _).symm
      obtain ⟨i, hi⟩ := ih hrest (h.tail hc)
      refine ⟨j + i, ?_⟩
      rw [List.take_add]
      exact .chunk hc hi

/-- from a read that ends inside a packet on, nothing is delivered -/
theorem readPackets_stuck {chunk : {chunk : List UInt8 // chunk.length ≤ capacity}} {p : Packet} {ms₁ : List Message} {n : ℕ}
    (h0 : 0 < n) (hn : n < p.bytes.length) (hc : chunk.1 = encode ms₁ ++ p.bytes.take n) (sent : List UInt8) :
    ∃ n₀ s, GdbServer.readPackets n₀ ⟨[], .ok chunk :: more, sent⟩ = .ok (bodies ms₁, s) ∧ s.readPacket = .ok (none, s) := by
  obtain ⟨sent', hwhole⟩ := readPackets_whole ms₁ (p.bytes.take n) sent
  have hidle : GdbServer.readPacket ⟨p.bytes.take n, more, sent'⟩ = .ok (none, ⟨p.bytes.take n, more, sent'⟩) :=
    readPacket_part h0 hn
  have hne : chunk.1 ≠ [] := by
    intro hnil
    rw [hc, List.append_eq_nil_iff, List.take_eq_nil_iff] at hnil
    rcases hnil.2 with h | h
    · exact h0.ne' h
    · exact absurd h (List.cons_ne_nil _ _)
  refine ⟨ms₁.length + 1, _, ?_, hidle⟩
  rw [readPackets_chunk chunk hne, hc]
  have hrun := GdbServer.readPackets_trans hwhole (GdbServer.readPackets_idle hidle 1)
  rwa [List.append_nil] at hrun

end

/-! ## Packets are delivered when no read ends inside one -/

section

variable {ms : List Message} {arrivals : List Arrival}

theorem delivers_of_wholeReads (herr : ∀ e, .error e ∈ arrivals → e = ErrorKind.other) (h : WholeReads ms arrivals) :
    Delivers ms arrivals := by
  intro k
  obtain ⟨j, hj⟩ := whole_of_reads (fun e he => herr e (List.mem_of_mem_take he)) (h.take k)
  obtain ⟨N, sent, hrun⟩ := readPackets_of_whole hj [] [43]
  rw [List.append_nil] at hrun
  have harrived : arrived (received (arrivals.take k)).length ms = ms.take j := by
    have htake := arrived_encode (ms.take j) (ms.drop j)
    rwa [List.take_append_drop, ← hj.received] at htake
  refine ⟨N, fun n hn => ⟨⟨[], [], sent⟩, ?_⟩⟩
  obtain ⟨i, rfl⟩ := Nat.exists_eq_add_of_le hn
  have hidle := GdbServer.readPackets_idle (s := ⟨[], [], sent⟩) rfl i
  have hall := GdbServer.readPackets_trans hrun hidle
  rw [List.append_nil] at hall
  rw [harrived]
  exact hall

/-- the first read that ends inside a packet -/
theorem exists_part (hall : received arrivals = encode ms) (herr : ∀ e, .error e ∈ arrivals → e = ErrorKind.other)
    (h : ¬WholeReads ms arrivals) :
    ∃ before chunk after ms₀ ms₁ p ms₂ n, arrivals = before ++ .ok chunk :: after ∧ Whole before ms₀ ∧
      ms = ms₀ ++ ms₁ ++ .packet p :: ms₂ ∧ 0 < n ∧ n < p.bytes.length ∧ chunk.1 = encode ms₁ ++ p.bytes.take n := by
  induction arrivals generalizing ms with
  | nil => exact absurd (fun k => ⟨0, by simp [received]⟩) h
  | cons a arrivals ih =>
    have hrest := fun e he => herr e (List.mem_cons_of_mem a he)
    cases a with
    | error e =>
      obtain rfl := herr e List.mem_cons_self
      have hbad : ¬WholeReads ms arrivals := by
        intro hgood
        refine h fun k => ?_
        cases k with
        | zero => exact ⟨0, rfl⟩
        | succ k => exact hgood k
      obtain ⟨before, chunk, after, ms₀, ms₁, p, ms₂, n, rfl, hbefore, hms⟩ := ih hall hrest hbad
      exact ⟨.error .other :: before, chunk, after, ms₀, ms₁, p, ms₂, n, rfl, .nothing hbefore, hms⟩
    | ok chunk =>
      have hall' : chunk.1 ++ received arrivals = encode ms := hall
      rcases prefix_cases ⟨received arrivals, hall'⟩ with ⟨j, hc⟩ | ⟨ms₁, m, ms₂, n, rfl, h0, hn, hc⟩
      · have htail : received arrivals = encode (ms.drop j) := by
          rw [← encode_take_drop j, ← hc] at hall'
          exact List.append_cancel_left hall'
        have hbad : ¬WholeReads (ms.drop j) arrivals := by
          intro hgood
          refine h fun k => ?_
          cases k with
          | zero => exact ⟨0, rfl⟩
          | succ k =>
            obtain ⟨i, hi⟩ := hgood k
            have htake : ms.take (j + i) = ms.take j ++ (ms.drop j).take i := List.take_add
            refine ⟨j + i, ?_⟩
            rw [htake, encode_append, ← hc, ← hi]
            rfl
        obtain ⟨before, chunk', after, ms₀, ms₁, p, ms₂, n, rfl, hbefore, hms, hpart⟩ := ih htail hrest hbad
        refine ⟨.ok chunk :: before, chunk', after, ms.take j ++ ms₀, ms₁, p, ms₂, n, rfl, .chunk hc hbefore, ?_, hpart⟩
        calc ms = ms.take j ++ ms.drop j := (List.take_append_drop j ms).symm
          _ = ms.take j ++ (ms₀ ++ ms₁ ++ .packet p :: ms₂) := by rw [hms]
          _ = ms.take j ++ ms₀ ++ ms₁ ++ .packet p :: ms₂ := by simp only [List.append_assoc]
      · cases m with
        | ack => exact absurd hn (Nat.not_lt.2 h0)
        | packet p => exact ⟨[], chunk, arrivals, [], ms₁, p, ms₂, n, rfl, .nil, rfl, h0, hn, hc⟩

theorem wholeReads_of_delivers (hall : received arrivals = encode ms)
    (herr : ∀ e, .error e ∈ arrivals → e = ErrorKind.other) (h : Delivers ms arrivals) : WholeReads ms arrivals := by
  by_contra hbad
  obtain ⟨before, chunk, after, ms₀, ms₁, p, ms₂, n, harr, hbefore, hms, h0, hn, hc⟩ := exists_part hall herr hbad
  obtain ⟨n₁, sent, hfirst⟩ := readPackets_of_whole hbefore (.ok chunk :: after) [43]
  obtain ⟨n₂, s, hthen, hidle⟩ := readPackets_stuck h0 hn hc sent
  have hrun := GdbServer.readPackets_trans hfirst hthen
  obtain ⟨N, hN⟩ := h arrivals.length
  rw [List.take_length, hall] at hN
  obtain ⟨s', hend⟩ := hN (n₁ + n₂ + N) (Nat.le_add_left N _)
  have hsame := GdbServer.readPackets_trans hrun (GdbServer.readPackets_idle hidle N)
  have harrived := arrived_encode ms []
  rw [List.append_nil] at harrived
  rw [start, harr, harrived, hsame, List.append_nil] at hend
  -- the packet in the middle of which the read ended is missing
  have hlost := congrArg List.length (Prod.mk.inj (Except.ok.inj hend)).1
  rw [hms, bodies_append, bodies_append, bodies] at hlost
  simp [bodies, Message.body] at hlost

/-- **Packets are delivered** in order and as soon as they have arrived exactly if no read of the connection ends inside a
packet: the rest of a packet is never read, as there is something in the buffer already. -/
theorem delivers_iff (ms : List Message) (arrivals : List Arrival) (hall : received arrivals = encode ms)
    (herr : ∀ e, .error e ∈ arrivals → e = ErrorKind.other) : Delivers ms arrivals ↔ WholeReads ms arrivals :=
  ⟨wholeReads_of_delivers hall herr, delivers_of_wholeReads herr⟩

end

/-- the packet "$g#67": read the registers -/
def gPacket : Packet where
  body := [103]
  high := 54
  low := 55
  ascii := by simp
  noEnd := by decide
  sum := ⟨6, 7, by decide⟩
  short := by decide

/-- An acknowledgment and a packet in one read are whole messages. -/
theorem delivers_gPacket : Delivers [.ack, .packet gPacket] [.ok ⟨[43, 36, 103, 35, 54, 55], by decide⟩] := by
  refine (delivers_iff _ _ rfl (by simp)).2 fun k => ?_
  cases k with
  | zero => exact ⟨0, rfl⟩
  | succ k => exact ⟨2, by simp [received, encode, Message.bytes, Packet.bytes, gPacket]⟩

/-- **The packet "$g#67" in two reads**, "$g" and "#67", is never delivered. -/
theorem packet_split : ¬∀ ms arrivals, received arrivals = encode ms →
    (∀ e, .error e ∈ arrivals → e = ErrorKind.other) → Delivers ms arrivals := by
  intro h
  have hidle : GdbServer.readPacket ⟨[36, 103], [.ok ⟨[35, 54, 55], by decide⟩], [43]⟩ =
      .ok (none, ⟨[36, 103], [.ok ⟨[35, 54, 55], by decide⟩], [43]⟩) := rfl
  obtain ⟨N, hN⟩ := h [.packet gPacket] [.ok ⟨[36, 103], by decide⟩, .ok ⟨[35, 54, 55], by decide⟩] rfl (by simp) 2
  obtain ⟨s, hs⟩ := hN (N + 1) (Nat.le_succ N)
  have hstuck : (start [.ok ⟨[36, 103], by decide⟩, .ok ⟨[35, 54, 55], by decide⟩]).readPackets (N + 1) =
      .ok ([], ⟨[36, 103], [.ok ⟨[35, 54, 55], by decide⟩], [43]⟩) := by
    rw [start, readPackets_chunk _ (by simp)]
    exact GdbServer.readPackets_idle hidle (N + 1)
  exact absurd (hstuck.symm.trans hs) (by simp [received, arrived, bodies, Message.bytes, Packet.bytes, gPacket, Message.body])

end TouchHLE.Gdb
