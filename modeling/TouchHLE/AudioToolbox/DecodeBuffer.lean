/-
Decoding of audio (`audio_queue.rs`, `ima4.rs`): which formats are supported, and the bytes of a guest buffer as what
OpenAL plays.

- `decodeIma4`: a packet of IMA4.
- `isSupportedAudioFormat`, `decodeBuffer`: the two case analyses of the format.
- `decodeIma4_ok`: every packet is decoded.
- `Regular`: the formats and sizes for which the second does what the first promises. `decodes_format_iff`: exactly for these.
-/
import TouchHLE.Lib.Pieces
import TouchHLE.Mem.Memory

namespace TouchHLE.AudioDecoding

open Machine Words Pieces

/-! ## IMA4 -/

def INDEX_TABLE : List ℤ := [-1, -1, -1, -1, 2, 4, 6, 8, -1, -1, -1, -1, 2, 4, 6, 8]

def STEP_SIZE_TABLE : List ℕ := [
  7, 8, 9, 10, 11, 12, 13, 14, 16, 17, 19, 21, 23, 25, 28, 31, 34, 37, 41, 45, 50, 55, 60, 66,
  73, 80, 88, 97, 107, 118, 130, 143, 157, 173, 190, 209, 230, 253, 279, 307, 337, 371, 408, 449,
  494, 544, 598, 658, 724, 796, 876, 963, 1060, 1166, 1282, 1411, 1552, 1707, 1878, 2066, 2272,
  2499, 2749, 3024, 3327, 3660, 4026, 4428, 4871, 5358, 5894, 6484, 7132, 7845, 8630, 9493,
  10442, 11487, 12635, 13899, 15289, 16818, 18500, 20350, 22385, 24623, 27086, 29794, 32767]

/-- the nearest `i16` -/
def saturate (x : ℤ) : ℤ := max (-2 ^ 15) (min x (2 ^ 15 - 1))

/-- a sum of two `u16` -/
def add16 (a b : ℕ) : Except Panic ℕ := if a + b < 2 ^ 16 then .ok (a + b) else .error .overflow

structure Ima4State where
  index : ℕ
  predictedSample : ℤ
  stepSize : ℕ

namespace Ima4State

def difference (s : Ima4State) (nibble : ℕ) : Except Panic ℕ := do
  let difference ← if nibble &&& 4 ≠ 0 then add16 0 s.stepSize else pure 0
  let difference ← if nibble &&& 2 ≠ 0 then add16 difference (s.stepSize >>> 1) else pure difference
  let difference ← if nibble &&& 1 ≠ 0 then add16 difference (s.stepSize >>> 2) else pure difference
  add16 difference (s.stepSize >>> 3)

def next (s : Ima4State) (nibble : ℕ) : Except Panic Ima4State := do
  let difference ← s.difference nibble
  let predictedSample :=
    saturate (if nibble &&& 8 ≠ 0 then s.predictedSample - difference else s.predictedSample + difference)
  let step ← unwrap INDEX_TABLE[nibble]? .index
  let index := min (s.index + step).toNat (STEP_SIZE_TABLE.length - 1)
  let stepSize ← unwrap STEP_SIZE_TABLE[index]? .index
  pure { index, predictedSample, stepSize }

end Ima4State

/-- the samples of the nibbles -/
def ima4Loop : Ima4State → List ℕ → Except Panic (List ℤ)
  | _, [] => pure []
  | s, nibble :: nibbles => do
    let s ← s.next nibble
    let samples ← ima4Loop s nibbles
    pure (s.predictedSample :: samples)

/-- the lower nibble of a byte first -/
def nibbles (byte : UInt8) : List ℕ := [byte.toNat % 16, byte.toNat / 16]

def decodeIma4 (inPacket : List UInt8) : Except Panic (List ℤ) := do
  assert (inPacket.length = 34) .conversion
  let header := (inPacket.getD 0 0).toNat * 256 + (inPacket.getD 1 0).toNat
  let index := min (header &&& 0x7f) (STEP_SIZE_TABLE.length - 1)
  let predicted := header >>> 7 <<< 7
  let predictedSample : ℤ := if predicted < 2 ^ 15 then predicted else predicted - 2 ^ 16
  let stepSize ← unwrap STEP_SIZE_TABLE[index]? .index
  ima4Loop { index, predictedSample, stepSize } ((inPacket.drop 2).flatMap nibbles)

/-! ## Formats -/

structure AudioStreamBasicDescription where
  /-- `sample_rate as ALsizei` -/
  sampleRate : ℤ
  formatId : ℕ
  formatFlags : ℕ
  bytesPerFrame : ℕ
  channelsPerFrame : ℕ
  bitsPerChannel : ℕ

/-- "lpcm" -/
def kAudioFormatLinearPCM : ℕ := 0x6C70636D

/-- "ima4" -/
def kAudioFormatAppleIMA4 : ℕ := 0x696D6134

def kAudioFormatFlagIsFloat : ℕ := 1 <<< 0

def kAudioFormatFlagIsBigEndian : ℕ := 1 <<< 1

def kAudioFormatFlagIsSignedInteger : ℕ := 1 <<< 2

def kAudioFormatFlagIsPacked : ℕ := 1 <<< 3

inductive ALFormat where
  | mono8
  | mono16
  | stereo8
  | stereo16
deriving DecidableEq

variable (format : AudioStreamBasicDescription)

def isSupportedAudioFormat : Bool :=
  if format.formatId = kAudioFormatAppleIMA4 then format.channelsPerFrame = 1 || format.channelsPerFrame = 2
  else if format.formatId = kAudioFormatLinearPCM then
    (format.channelsPerFrame = 1 || format.channelsPerFrame = 2) &&
      (format.bitsPerChannel = 8 || format.bitsPerChannel = 16 || format.bitsPerChannel = 32) &&
      (format.formatFlags &&& kAudioFormatFlagIsPacked ≠ 0 ||
        format.bitsPerChannel / 8 * format.channelsPerFrame = format.bytesPerFrame) &&
      format.formatFlags &&& kAudioFormatFlagIsBigEndian = 0 && format.formatFlags &&& kAudioFormatFlagIsFloat = 0
  else false

/-! ## Decoding -/

/-- the bytes of an `i16` -/
def sampleBytes (sample : ℤ) : List UInt8 := leDigits 2 (sample % 2 ^ 16).toNat

def monoPacket (packet : List UInt8) : Except Panic (List UInt8) := do
  let pcmPacket ← decodeIma4 packet
  pure (pcmPacket.flatMap sampleBytes)

/-- packets for the left and the right channel take turns -/
def stereoPackets : List (List UInt8) → Except Panic (List UInt8)
  | [] => pure []
  | [left] => do
    let _ ← decodeIma4 left
    throw .missing
  | left :: right :: packets => do
    let leftPcmPacket ← decodeIma4 left
    let rightPcmPacket ← decodeIma4 right
    let outPcm ← stereoPackets packets
    pure ((leftPcmPacket.zip rightPcmPacket).flatMap (fun e => sampleBytes e.1 ++ sampleBytes e.2) ++ outPcm)

def decodeIma4Data (dataSlice : List UInt8) : Except Panic (ALFormat × ℤ × List UInt8) := do
  assert (dataSlice.length % 34 = 0) .audioFormat
  let packets := pieces 34 dataSlice
  if format.channelsPerFrame = 1 then
    let outPcm ← collect monoPacket packets
    pure (.mono16, format.sampleRate, outPcm)
  else
    let outPcm ← stereoPackets packets
    pure (.stereo16, format.sampleRate, outPcm)

/-- the last bytes of a frame, as a number that is big-endian and becomes little-endian -/
def processFrame (frame : List UInt8) : Except Panic (List UInt8) := do
  assert (format.bytesPerFrame ≤ frame.length) .overflow
  let frameBytes := frame.drop (frame.length - format.bytesPerFrame)
  if format.bytesPerFrame ∈ [1, 2, 4, 8, 16] then pure frameBytes.reverse else throw .unimplemented

/-- `val >> 16`: the upper half of a little-endian number of four bytes -/
def upperHalf (chunk : List UInt8) : List UInt8 := chunk.drop 2

/-- the format for OpenAL, and what is left of 32 bits -/
def finish (actualChannelsPerFrame : ℕ) (processedData : List UInt8) : Except Panic (ALFormat × ℤ × List UInt8) :=
  if actualChannelsPerFrame = 1 ∧ format.bitsPerChannel = 8 then pure (.mono8, format.sampleRate, processedData)
  else if actualChannelsPerFrame = 1 ∧ format.bitsPerChannel = 16 then pure (.mono16, format.sampleRate, processedData)
  else if actualChannelsPerFrame = 2 ∧ format.bitsPerChannel = 8 then pure (.stereo8, format.sampleRate, processedData)
  else if actualChannelsPerFrame = 2 ∧ format.bitsPerChannel = 16 then pure (.stereo16, format.sampleRate, processedData)
  else if actualChannelsPerFrame = 2 ∧ format.bitsPerChannel = 32 then do
    assert (format.formatFlags &&& kAudioFormatFlagIsSignedInteger ≠ 0) .audioFormat
    assert (processedData.length % 4 = 0) .audioFormat
    pure (.stereo16, format.sampleRate, (pieces 4 processedData).flatMap upperHalf)
  else throw .unreachable

def decodeLinearPCM (dataSlice : List UInt8) : Except Panic (ALFormat × ℤ × List UInt8) := do
  assert (format.bytesPerFrame ≠ 0) .divisionByZero
  let misalignedBy := dataSlice.length % format.bytesPerFrame
  let dataSlice := dataSlice.take (dataSlice.length - misalignedBy)
  let bytesPerChannel := format.bitsPerChannel / 8
  let actualBytesPerFrame := format.channelsPerFrame * bytesPerChannel
  let actualChannelsPerFrame := format.bytesPerFrame / bytesPerChannel
  let processedData ←
    if actualBytesPerFrame = format.bytesPerFrame then pure dataSlice
    else collect (processFrame format) (pieces actualBytesPerFrame dataSlice)
  finish format actualChannelsPerFrame processedData

def decodeBuffer (mem : Mem) (audioData audioDataByteSize : ℕ) : Except Panic (ALFormat × ℤ × List UInt8) := do
  let dataSlice ← mem.readBytes audioData audioDataByteSize
  assert (isSupportedAudioFormat format) .audioFormat
  if format.formatId = kAudioFormatAppleIMA4 then decodeIma4Data format dataSlice
  else if format.formatId = kAudioFormatLinearPCM then decodeLinearPCM format dataSlice
  else throw .unreachable

/-! ## What is to be decoded -/

def ALFormat.frameBytes : ALFormat → ℕ
  | .mono8 => 1
  | .mono16 => 2
  | .stereo8 => 2
  | .stereo16 => 4

/-- the bytes of a frame, or of a packet for each channel -/
def frameSize : ℕ :=
  if format.formatId = kAudioFormatAppleIMA4 then 34 * format.channelsPerFrame
  else format.channelsPerFrame * (format.bitsPerChannel / 8)

/-- the bytes for OpenAL that come from a frame, or from the packets for each channel -/
def outputSize (f : ALFormat) : ℕ := if format.formatId = kAudioFormatAppleIMA4 then 64 * f.frameBytes else f.frameBytes

/-- **What `decode_buffer` is to do**: there is no panic, the output is that of the whole frames in the buffer, and the
rest of the buffer makes no difference. -/
def Decodes (mem : Mem) (audioData size : ℕ) : Prop :=
  ∃ f out, decodeBuffer format mem audioData size = .ok (f, format.sampleRate, out) ∧
    out.length = outputSize format f * (size / frameSize format) ∧
    decodeBuffer format mem audioData (frameSize format * (size / frameSize format)) = .ok (f, format.sampleRate, out)

/-- there is a format of OpenAL for so many channels -/
def Plays (channels : ℕ) : Prop :=
  ((channels = 1 ∨ channels = 2) ∧ (format.bitsPerChannel = 8 ∨ format.bitsPerChannel = 16)) ∨
    (channels = 2 ∧ format.bitsPerChannel = 32 ∧ format.formatFlags &&& kAudioFormatFlagIsSignedInteger ≠ 0)

/-- IMA4 in whole packets for each channel. PCM in frames of the size that the format names, one channel of two in an
even number of frames, or less data than a frame. -/
def Regular (size : ℕ) : Prop :=
  if format.formatId = kAudioFormatAppleIMA4 then 34 * format.channelsPerFrame ∣ size
  else (format.bytesPerFrame = frameSize format ∧ Plays format format.channelsPerFrame) ∨
    (format.channelsPerFrame = 2 ∧ format.bitsPerChannel ≠ 32 ∧ format.bytesPerFrame = format.bitsPerChannel / 8 ∧
      2 ∣ size / format.bytesPerFrame) ∨
    (size < format.bytesPerFrame ∧ size < frameSize format ∧
    Plays format (format.bytesPerFrame / (format.bitsPerChannel / 8)))

/-! ## Packets -/

section

variable {s : Ima4State} {nibble : ℕ} {packets : List (List UInt8)} {out : List UInt8} {packet : List UInt8}

/-- the states of the decoder: the step size is in the table -/
structure Ima4State.Valid (s : Ima4State) : Prop where
  index : s.index < STEP_SIZE_TABLE.length
  stepSize : s.stepSize ≤ 32767

theorem stepSize_le {index step : ℕ} (h : STEP_SIZE_TABLE[index]? = some step) : step ≤ 32767 := by
  have hall : ∀ x ∈ STEP_SIZE_TABLE, x ≤ 32767 := by decide
  exact hall step (List.mem_of_getElem? h)

theorem add16_ok {a b : ℕ} (h : a + b < 2 ^ 16) : add16 a b = .ok (a + b) := if_pos h

theorem difference_ok (hs : s.Valid) (nibble : ℕ) : ∃ d, s.difference nibble = .ok d := by
  have hle := hs.stepSize
  unfold Ima4State.difference
  split_ifs <;> simp only [ok_bind, pure_eq_ok] <;> repeat rw [add16_ok (by omega), ok_bind]
  all_goals exact ⟨_, add16_ok (by omega)⟩

theorem next_ok (hs : s.Valid) (hn : nibble < 16) : ∃ s', s.next nibble = .ok s' ∧ s'.Valid := by
  obtain ⟨d, hd⟩ := difference_ok hs nibble
  obtain ⟨step, hstep⟩ : ∃ step, INDEX_TABLE[nibble]? = some step := ⟨_, List.getElem?_eq_getElem hn⟩
  have hindex : min (s.index + step).toNat (STEP_SIZE_TABLE.length - 1) < STEP_SIZE_TABLE.length :=
    (min_le_right _ _).trans_lt (by decide)
  obtain ⟨size, hsize⟩ : ∃ size, STEP_SIZE_TABLE[min (s.index + step).toNat (STEP_SIZE_TABLE.length - 1)]? = some size :=
    ⟨_, List.getElem?_eq_getElem hindex⟩
  let sample := saturate (if nibble &&& 8 ≠ 0 then s.predictedSample - d else s.predictedSample + d)
  refine ⟨{ index := _, predictedSample := sample, stepSize := size }, ?_, hindex, stepSize_le hsize⟩
  · rw [Ima4State.next, hd, ok_bind, hstep]
    simp only [unwrap, ok_bind, hsize]
    rfl

theorem ima4Loop_ok (hs : s.Valid) {l : List ℕ} (hl : ∀ nibble ∈ l, nibble < 16) :
    ∃ samples, ima4Loop s l = .ok samples ∧ samples.length = l.length := by
  induction l generalizing s with
  | nil => exact ⟨[], rfl, rfl⟩
  | cons nibble l ih =>
    obtain ⟨s', hnext, hs'⟩ := next_ok hs (hl nibble List.mem_cons_self)
    obtain ⟨samples, hrun, hlength⟩ := ih hs' fun n hn => hl n (List.mem_cons_of_mem nibble hn)
    refine ⟨s'.predictedSample :: samples, ?_, ?_⟩
    · rw [ima4Loop, hnext, ok_bind, hrun]
      rfl
    · rw [List.length_cons, hlength, List.length_cons]

theorem nibbles_lt {l : List UInt8} : ∀ nibble ∈ l.flatMap nibbles, nibble < 16 := by
  intro nibble h
  obtain ⟨byte, -, hmem⟩ := List.mem_flatMap.1 h
  have hlt := byte.toNat_lt
  simp only [nibbles, List.mem_cons, List.not_mem_nil, or_false] at hmem
  rcases hmem with rfl | rfl <;> omega

/-- **Every packet is decoded** to 64 samples. -/
theorem decodeIma4_ok (h : packet.length = 34) :
    ∃ samples, decodeIma4 packet = .ok samples ∧ samples.length = 64 := by
  have hindex : ∀ header : ℕ, min (header &&& 0x7f) (STEP_SIZE_TABLE.length - 1) < STEP_SIZE_TABLE.length :=
    fun header => (min_le_right _ _).trans_lt (by decide)
  obtain ⟨header, hheader⟩ : ∃ header, (packet.getD 0 0).toNat * 256 + (packet.getD 1 0).toNat = header := ⟨_, rfl⟩
  obtain ⟨size, hsize⟩ : ∃ size, STEP_SIZE_TABLE[min (header &&& 0x7f) (STEP_SIZE_TABLE.length - 1)]? = some size :=
    ⟨_, List.getElem?_eq_getElem (hindex header)⟩
  rw [decodeIma4, assert_ok (decide_eq_true h), ok_bind]
  simp only [hheader, hsize, unwrap, ok_bind]
  have hvalid (predicted : ℤ) :
      (Ima4State.mk (min (header &&& 0x7f) (STEP_SIZE_TABLE.length - 1)) predicted size).Valid :=
    ⟨hindex header, stepSize_le hsize⟩
  obtain ⟨samples, hrun, hlength⟩ := ima4Loop_ok (hvalid _) (nibbles_lt (l := packet.drop 2))
  refine ⟨samples, hrun, ?_⟩
  rw [hlength, List.length_flatMap]
  simp [nibbles, h]

theorem sampleBytes_length (sample : ℤ) : (sampleBytes sample).length = 2 := leDigits_length

theorem length_flatMap_of_const {α : Type} {f : α → List UInt8} {n : ℕ} (hf : ∀ a, (f a).length = n) (l : List α) :
    (l.flatMap f).length = n * l.length := by
  induction l with
  | nil => rfl
  | cons a l ih => rw [List.flatMap_cons, List.length_append, ih, hf, List.length_cons, Nat.mul_succ, add_comm]

theorem monoPacket_ok (h : packet.length = 34) :
    ∃ out, monoPacket packet = .ok out ∧ out.length = 128 := by
  obtain ⟨samples, hrun, hlength⟩ := decodeIma4_ok h
  refine ⟨samples.flatMap sampleBytes, ?_, ?_⟩
  · rw [monoPacket, hrun]
    rfl
  · rw [length_flatMap_of_const sampleBytes_length, hlength]

theorem stereoPackets_ok {n : ℕ} (hn : packets.length = 2 * n) (h : ∀ p ∈ packets, p.length = 34) :
    ∃ out, stereoPackets packets = .ok out ∧ out.length = 256 * n := by
  induction n generalizing packets with
  | zero =>
    obtain rfl := List.length_eq_zero_iff.1 hn
    exact ⟨[], rfl, rfl⟩
  | succ n ih =>
    obtain ⟨left, right, packets, rfl⟩ : ∃ left right rest, packets = left :: right :: rest := by
      rcases packets with _ | ⟨left, _ | ⟨right, rest⟩⟩
      · cases hn
      · simp only [List.length_cons, List.length_nil] at hn
        omega
      · exact ⟨left, right, rest, rfl⟩
    obtain ⟨l, hleft, hl⟩ := decodeIma4_ok (h left List.mem_cons_self)
    obtain ⟨r, hright, hr⟩ := decodeIma4_ok (h right (List.mem_cons_of_mem _ List.mem_cons_self))
    obtain ⟨out, hrun, hlength⟩ := ih (by simp only [List.length_cons] at hn; omega) fun p hp =>
      h p (List.mem_cons_of_mem _ (List.mem_cons_of_mem _ hp))
    refine ⟨(l.zip r).flatMap (fun e => sampleBytes e.1 ++ sampleBytes e.2) ++ out, ?_, ?_⟩
    · rw [stereoPackets, hleft, ok_bind, hright, ok_bind, hrun]
      rfl
    · have hpair (e : ℤ × ℤ) : (sampleBytes e.1 ++ sampleBytes e.2).length = 4 := by
        rw [List.length_append, sampleBytes_length, sampleBytes_length]
      rw [List.length_append, hlength, length_flatMap_of_const hpair, List.length_zip, hl, hr, min_self]
      omega

/-- a packet for the left channel alone is a panic -/
theorem even_of_stereoPackets (h : stereoPackets packets = .ok out) : 2 ∣ packets.length := by
  induction packets using stereoPackets.induct generalizing out with
  | case1 => exact dvd_zero 2
  | case2 left =>
    rw [stereoPackets] at h
    obtain ⟨-, -, h⟩ := bind_eq_ok.1 h
    cases h
  | case3 left right packets ih =>
    rw [stereoPackets] at h
    obtain ⟨l, -, hright⟩ := bind_eq_ok.1 h
    obtain ⟨r, -, hrest⟩ := bind_eq_ok.1 hright
    obtain ⟨outPcm, hrun, -⟩ := bind_eq_ok.1 hrest
    simp only [List.length_cons]
    have heven := ih hrun
    omega

end

/-! ## IMA4 -/

section

variable {format : AudioStreamBasicDescription} {data : List UInt8} {r : ALFormat × ℤ × List UInt8}

theorem packets_length (h : 34 ∣ data.length) : (pieces 34 data).length = data.length / 34 := by
  rw [length_pieces (by decide)]
  omega

/-- **IMA4** is decoded if there are whole packets for each channel. -/
theorem decodeIma4Data_ok (hchannels : format.channelsPerFrame = 1 ∨ format.channelsPerFrame = 2)
    (hdvd : 34 * format.channelsPerFrame ∣ data.length) : ∃ f out, decodeIma4Data format data =
    .ok (f, format.sampleRate, out) ∧
      out.length = 64 * f.frameBytes * (data.length / (34 * format.channelsPerFrame)) := by
  have h34 : 34 ∣ data.length := (Dvd.intro _ rfl).trans hdvd
  have hpackets := packets_length h34
  have hmem : ∀ p ∈ pieces 34 data, p.length = 34 := fun p hp => length_of_dvd (by decide) h34 hp
  rw [decodeIma4Data, assert_ok (decide_eq_true (Nat.mod_eq_zero_of_dvd h34)), ok_bind]
  rcases hchannels with h | h
  · obtain ⟨out, hrun, hlength⟩ := collect_ok fun p hp => monoPacket_ok (hmem p hp)
    refine ⟨.mono16, out, ?_, ?_⟩
    · rw [if_pos h, hrun]
      rfl
    · rw [hlength, hpackets, h]
      rfl
  · rw [h] at hdvd ⊢
    obtain ⟨out, hrun, hlength⟩ := stereoPackets_ok (n := data.length / 68) (by rw [hpackets]; omega) hmem
    refine ⟨.stereo16, out, ?_, hlength⟩
    rw [if_neg (by decide), hrun]
    rfl

theorem dvd_of_decodeIma4Data (hchannels : format.channelsPerFrame = 1 ∨ format.channelsPerFrame = 2)
    (h : decodeIma4Data format data = .ok r) : 34 * format.channelsPerFrame ∣ data.length := by
  obtain ⟨u, hassert, h⟩ := bind_eq_ok.1 h
  have h34 : 34 ∣ data.length := Nat.dvd_of_mod_eq_zero (of_decide_eq_true (assert_eq_ok.1 hassert))
  rcases hchannels with hone | htwo
  · rw [hone]
    exact h34
  · rw [if_neg (by rw [htwo]; decide)] at h
    obtain ⟨out, hrun, -⟩ := bind_eq_ok.1 h
    have heven := even_of_stereoPackets hrun
    rw [packets_length h34] at heven
    rw [htwo]
    omega

end

/-! ## PCM -/

section

variable {format : AudioStreamBasicDescription} {data : List UInt8} {r : ALFormat × ℤ × List UInt8} {channels n : ℕ}

theorem whole_length (data : List UInt8) (n : ℕ) : (data.take (data.length - data.length % n)).length =
    n * (data.length / n) := by
  have h := Nat.div_add_mod data.length n
  rw [List.length_take]
  omega

/-- only whole frames, of the size that the format names, are decoded -/
theorem decodeLinearPCM_take {k : ℕ} (hle : format.bytesPerFrame * (data.length / format.bytesPerFrame) ≤ k)
    (hk : k ≤ data.length) :
    decodeLinearPCM format (data.take k) = decodeLinearPCM format data := by
  by_cases hzero : format.bytesPerFrame = 0
  · simp only [decodeLinearPCM, hzero]
    rfl
  · have hlength : (data.take k).length = k := by rw [List.length_take, min_eq_left hk]
    have hdiv : k / format.bytesPerFrame = data.length / format.bytesPerFrame := by
      refine le_antisymm (Nat.div_le_div_right hk) ?_
      rw [Nat.le_div_iff_mul_le (Nat.pos_of_ne_zero hzero), mul_comm]
      exact hle
    have hwhole : (data.take k).take ((data.take k).length - (data.take k).length % format.bytesPerFrame) =
        data.take (data.length - data.length % format.bytesPerFrame) := by
      have h := Nat.div_add_mod data.length format.bytesPerFrame
      have h' := Nat.div_add_mod k format.bytesPerFrame
      rw [hdiv] at h'
      rw [hlength, List.take_take]
      congr 1
      omega
    unfold decodeLinearPCM
    simp only [hwhole]

theorem supported_bits (h : isSupportedAudioFormat format = true) (hima : format.formatId ≠ kAudioFormatAppleIMA4) :
    format.formatId = kAudioFormatLinearPCM ∧ (format.channelsPerFrame = 1 ∨ format.channelsPerFrame = 2) ∧
      (format.bitsPerChannel = 8 ∨ format.bitsPerChannel = 16 ∨ format.bitsPerChannel = 32) := by
  rw [isSupportedAudioFormat, if_neg hima] at h
  split_ifs at h with hpcm
  simp only [Bool.and_eq_true, Bool.or_eq_true, decide_eq_true_eq] at h
  obtain ⟨⟨⟨⟨hchannels, hbits⟩, -⟩, -⟩, -⟩ := h
  exact ⟨hpcm, hchannels, by rwa [or_assoc] at hbits⟩

/-- **The last step** gives a frame of OpenAL for each frame that is left, if there is a format for it. -/
theorem finish_ok (hplays : Plays format channels) (hdata : data.length = channels * (format.bitsPerChannel / 8) * n) :
    ∃ f out, finish format channels data = .ok (f, format.sampleRate, out) ∧ out.length = f.frameBytes * n := by
  unfold finish
  rcases hplays with ⟨rfl | rfl, h | h⟩ | ⟨rfl, h, hsigned⟩ <;> rw [h] at hdata ⊢
  · exact ⟨.mono8, data, rfl, hdata⟩
  · exact ⟨.mono16, data, rfl, hdata⟩
  · exact ⟨.stereo8, data, rfl, hdata⟩
  · exact ⟨.stereo16, data, rfl, hdata⟩
  · have h4 : 4 ∣ data.length := ⟨2 * n, by omega⟩
    refine ⟨.stereo16, (pieces 4 data).flatMap upperHalf, ?_, ?_⟩
    · rw [assert_ok (decide_eq_true hsigned), assert_ok (decide_eq_true (Nat.mod_eq_zero_of_dvd h4))]
      rfl
    · have hhalf : ∀ p ∈ pieces 4 data, (upperHalf p).length = 2 := fun p hp => by
        rw [upperHalf, List.length_drop, length_of_dvd (by decide) h4 hp]
      rw [List.length_flatMap, List.map_congr_left hhalf, List.map_const', List.sum_replicate, length_pieces (by decide),
        hdata]
      change _ = 4 * n
      rw [smul_eq_mul]
      omega

theorem plays_of_finish (h : finish format channels data = .ok r) : Plays format channels := by
  unfold finish at h
  split_ifs at h with h1 h2 h3 h4 h5
  · exact .inl ⟨.inl h1.1, .inl h1.2⟩
  · exact .inl ⟨.inl h2.1, .inr h2.2⟩
  · exact .inl ⟨.inr h3.1, .inl h3.2⟩
  · exact .inl ⟨.inr h4.1, .inr h4.2⟩
  · obtain ⟨u, hsigned, -⟩ := bind_eq_ok.1 h
    exact .inr ⟨h5.1, h5.2, of_decide_eq_true (assert_eq_ok.1 hsigned)⟩

theorem processFrame_ok {frame : List UInt8} (hle : format.bytesPerFrame ≤ frame.length)
    (hsize : format.bytesPerFrame ∈ [1, 2, 4, 8, 16]) :
    ∃ out, processFrame format frame = .ok out ∧ out.length = format.bytesPerFrame := by
  refine ⟨(frame.drop (frame.length - format.bytesPerFrame)).reverse, ?_, ?_⟩
  · rw [processFrame, assert_ok (decide_eq_true hle), ok_bind, if_pos hsize]
    rfl
  · rw [List.length_reverse, List.length_drop]
    omega

theorem cases_of_processFrame {frame out : List UInt8} (h : processFrame format frame = .ok out) :
    format.bytesPerFrame ≤ frame.length ∧ format.bytesPerFrame ∈ [1, 2, 4, 8, 16] := by
  obtain ⟨u, hle, h⟩ := bind_eq_ok.1 h
  refine ⟨of_decide_eq_true (assert_eq_ok.1 hle), by_contra fun hsize => ?_⟩
  rw [if_neg hsize] at h
  cases h

/-- the bytes in front of `finish` -/
def processed (format : AudioStreamBasicDescription) (data : List UInt8) : Except Panic (List UInt8) :=
  if format.channelsPerFrame * (format.bitsPerChannel / 8) = format.bytesPerFrame then pure data
  else collect (processFrame format) (pieces (format.channelsPerFrame * (format.bitsPerChannel / 8)) data)

theorem decodeLinearPCM_eq (hzero : format.bytesPerFrame ≠ 0) : decodeLinearPCM format data =
    processed format (data.take (data.length - data.length % format.bytesPerFrame)) >>= fun out =>
      finish format (format.bytesPerFrame / (format.bitsPerChannel / 8)) out := by
  rw [decodeLinearPCM, assert_ok (decide_eq_true hzero), ok_bind]
  unfold processed
  simp only
  split_ifs <;> rfl

/-- **Frames that are larger than the format says**: of each the last bytes are taken. -/
theorem processed_ok (format : AudioStreamBasicDescription) (data : List UInt8)
    (hne : format.channelsPerFrame * (format.bitsPerChannel / 8) ≠ format.bytesPerFrame)
    (hdvd : format.bytesPerFrame ∣ format.channelsPerFrame * (format.bitsPerChannel / 8))
    (hpos : 0 < format.channelsPerFrame * (format.bitsPerChannel / 8)) (hsize : format.bytesPerFrame ∈ [1, 2, 4, 8, 16])
    (hdata : format.bytesPerFrame ∣ data.length) : ∃ out, processed format data = .ok out ∧ out.length =
      format.bytesPerFrame * (pieces (format.channelsPerFrame * (format.bitsPerChannel / 8)) data).length := by
  rw [processed, if_neg hne]
  refine collect_ok fun p hp => processFrame_ok ?_ hsize
  obtain ⟨hp', hpos', -⟩ := dvd_length hpos hdvd hdata p hp
  exact Nat.le_of_dvd hpos' hp'

/-- **PCM** is decoded as it is to be in regular sizes. -/
theorem decodeLinearPCM_ok (hplays : Plays format (format.bytesPerFrame / (format.bitsPerChannel / 8))) (n : ℕ)
    (hzero : format.bytesPerFrame ≠ 0) {out : List UInt8}
    (hrun : processed format (data.take (data.length - data.length % format.bytesPerFrame)) = .ok out)
    (hlength : out.length = format.bytesPerFrame / (format.bitsPerChannel / 8) * (format.bitsPerChannel / 8) * n) :
    ∃ f out, decodeLinearPCM format data = .ok (f, format.sampleRate, out) ∧ out.length = f.frameBytes * n := by
  rw [decodeLinearPCM_eq hzero, hrun, ok_bind]
  exact finish_ok hplays hlength

/-- less than a frame is left out -/
theorem processed_nil : processed format [] = .ok [] := by
  unfold processed
  split_ifs <;> rfl

theorem take_eq_nil (h : data.length < n) : data.take (data.length - data.length % n) = [] := by
  rw [Nat.mod_eq_of_lt h, Nat.sub_self, List.take_zero]

/-- the number of pieces of twice the size of a frame, the last of which can be a single frame -/
theorem pieces_double {q : ℕ} (hn : 0 < n) (hdata : data.length = n * q) : (pieces (2 * n) data).length = (q + 1) / 2 := by
  rw [length_pieces (by omega), hdata]
  rcases Nat.even_or_odd' q with ⟨m, rfl | rfl⟩
  · rw [show n * (2 * m) + 2 * n - 1 = 2 * n - 1 + 2 * n * m by rw [← mul_assoc, mul_comm n 2]; omega,
      Nat.add_mul_div_left _ _ (by omega), Nat.div_eq_of_lt (by omega)]
    omega
  · rw [show n * (2 * m + 1) + 2 * n - 1 = n - 1 + 2 * n * (m + 1) by
        rw [mul_add, ← mul_assoc, mul_comm n 2, mul_add]; omega,
      Nat.add_mul_div_left _ _ (by omega), Nat.div_eq_of_lt (by omega)]
    omega

/-- the sizes of the last clause of `Regular` -/
def RegularPCM (format : AudioStreamBasicDescription) (size : ℕ) : Prop :=
  (format.bytesPerFrame = format.channelsPerFrame * (format.bitsPerChannel / 8) ∧ Plays format format.channelsPerFrame) ∨
    (format.channelsPerFrame = 2 ∧ format.bitsPerChannel ≠ 32 ∧ format.bytesPerFrame = format.bitsPerChannel / 8 ∧
      2 ∣ size / format.bytesPerFrame) ∨
    (size < format.bytesPerFrame ∧ size < format.channelsPerFrame * (format.bitsPerChannel / 8) ∧
      Plays format (format.bytesPerFrame / (format.bitsPerChannel / 8)))

theorem pcm_ok (hchannels : format.channelsPerFrame = 1 ∨ format.channelsPerFrame = 2)
    (hbits : format.bitsPerChannel = 8 ∨ format.bitsPerChannel = 16 ∨ format.bitsPerChannel = 32)
    (h : RegularPCM format data.length) : (∃ f out, decodeLinearPCM format data = .ok (f, format.sampleRate, out) ∧
      out.length = f.frameBytes * (data.length / (format.channelsPerFrame * (format.bitsPerChannel / 8)))) ∧
    format.bytesPerFrame * (data.length / format.bytesPerFrame) ≤ format.channelsPerFrame * (format.bitsPerChannel / 8) *
      (data.length / (format.channelsPerFrame * (format.bitsPerChannel / 8))) := by
  have hpos : 0 < format.bitsPerChannel / 8 := by omega
  rcases h with ⟨hframe, hplays⟩ | ⟨htwo, h32, hframe, m, hm⟩ | ⟨hlt, hlt', hplays⟩
  · have hzero : format.bytesPerFrame ≠ 0 := by
      rw [hframe]
      exact (Nat.mul_pos (by omega) hpos).ne'
    have hcancel : format.bytesPerFrame / (format.bitsPerChannel / 8) = format.channelsPerFrame := by
      rw [hframe, Nat.mul_div_cancel _ hpos]
    have hrun : processed format (data.take (data.length - data.length % format.bytesPerFrame)) =
        .ok (data.take (data.length - data.length % format.bytesPerFrame)) := by
      rw [processed, if_pos hframe.symm]
      rfl
    rw [← hframe]
    refine ⟨decodeLinearPCM_ok (by rw [hcancel]; exact hplays) _ hzero hrun ?_, le_rfl⟩
    rw [whole_length, hcancel, ← hframe]
  · have hzero : format.bytesPerFrame ≠ 0 := by omega
    have hcancel : format.bytesPerFrame / (format.bitsPerChannel / 8) = 1 := by rw [hframe, Nat.div_self hpos]
    have hdouble : format.channelsPerFrame * (format.bitsPerChannel / 8) = 2 * format.bytesPerFrame := by rw [htwo, hframe]
    have hdata := whole_length data format.bytesPerFrame
    rw [hm] at hdata
    have hframes : data.length / (2 * format.bytesPerFrame) = m := by
      rw [mul_comm, ← Nat.div_div_eq_div_mul, hm]
      omega
    have hsize : format.bytesPerFrame ∈ [1, 2, 4, 8, 16] := by
      rw [hframe]
      rcases hbits with h | h | h
      · rw [h]; decide
      · rw [h]; decide
      · exact absurd h h32
    obtain ⟨out, hrun, hlength⟩ := processed_ok format (data.take (data.length - data.length % format.bytesPerFrame))
      (by rw [hdouble]; omega) (by rw [hdouble]; exact Dvd.intro_left 2 rfl) (by rw [hdouble]; omega) hsize
      (by rw [hdata]; exact Dvd.intro _ rfl)
    have hcount : (2 * m + 1) / 2 = m := by omega
    rw [hdouble, pieces_double (Nat.pos_of_ne_zero hzero) hdata, hcount] at hlength
    rw [hdouble, hframes, hm]
    refine ⟨decodeLinearPCM_ok (.inl ⟨.inl hcancel, by omega⟩) m hzero hrun ?_, ?_⟩
    · rw [hlength, hcancel, one_mul, ← hframe]
    · exact (by ring : format.bytesPerFrame * (2 * m) = 2 * format.bytesPerFrame * m).le
  · have hzero : format.bytesPerFrame ≠ 0 := by omega
    have hrun : processed format (data.take (data.length - data.length % format.bytesPerFrame)) = .ok [] := by
      rw [take_eq_nil hlt, processed_nil]
    rw [Nat.div_eq_of_lt hlt, Nat.div_eq_of_lt hlt', mul_zero]
    exact ⟨decodeLinearPCM_ok hplays 0 hzero hrun rfl, Nat.zero_le _⟩

/-- the first frame is not smaller than the format says -/
theorem first_frame (hpos : 0 < format.channelsPerFrame * (format.bitsPerChannel / 8)) (hdata : data ≠ [])
    (hne : format.channelsPerFrame * (format.bitsPerChannel / 8) ≠ format.bytesPerFrame) {out : List UInt8}
    (h : processed format data = .ok out) :
    format.bytesPerFrame < format.channelsPerFrame * (format.bitsPerChannel / 8) ∧
      format.bytesPerFrame ∈ [1, 2, 4, 8, 16] := by
  rw [processed, if_neg hne, pieces_cons hpos hdata] at h
  obtain ⟨first, hfirst, -⟩ := bind_eq_ok.1 h
  obtain ⟨hle, hsize⟩ := cases_of_processFrame hfirst
  rw [List.length_take] at hle
  exact ⟨lt_of_le_of_ne (hle.trans (min_le_left _ _)) hne.symm, hsize⟩

theorem pcm_regular (hchannels : format.channelsPerFrame = 1 ∨ format.channelsPerFrame = 2)
    (hbits : format.bitsPerChannel = 8 ∨ format.bitsPerChannel = 16 ∨ format.bitsPerChannel = 32) {f : ALFormat} {rate : ℤ}
    {out : List UInt8} (hrun : decodeLinearPCM format data = .ok (f, rate, out))
    (hlength : out.length = f.frameBytes * (data.length / (format.channelsPerFrame * (format.bitsPerChannel / 8)))) :
    RegularPCM format data.length := by
  have hpos : 0 < format.bitsPerChannel / 8 := by omega
  have hpos' : 0 < format.channelsPerFrame * (format.bitsPerChannel / 8) := Nat.mul_pos (by omega) hpos
  have hzero : format.bytesPerFrame ≠ 0 := by
    obtain ⟨u, hassert, -⟩ := bind_eq_ok.1 hrun
    exact of_decide_eq_true (assert_eq_ok.1 hassert)
  rw [decodeLinearPCM_eq hzero] at hrun
  obtain ⟨processedData, hprocessed, hfinish⟩ := bind_eq_ok.1 hrun
  have hplays := plays_of_finish hfinish
  by_cases hframe : format.bytesPerFrame = format.channelsPerFrame * (format.bitsPerChannel / 8)
  · have hcancel : format.bytesPerFrame / (format.bitsPerChannel / 8) = format.channelsPerFrame := by
      rw [hframe, Nat.mul_div_cancel _ hpos]
    exact .inl ⟨hframe, by rwa [hcancel] at hplays⟩
  · by_cases hempty : data.length < format.bytesPerFrame
    · -- nothing is left
      rw [take_eq_nil hempty, processed_nil] at hprocessed
      cases hprocessed
      have hnil (n : ℕ) : ([] : List UInt8).length = n * 0 := rfl
      obtain ⟨f', out', hrun', hlength'⟩ := finish_ok hplays (hnil _)
      rw [hfinish] at hrun'
      cases hrun'
      rw [hlength', mul_zero] at hlength
      have hframes : data.length / (format.channelsPerFrame * (format.bitsPerChannel / 8)) = 0 :=
        (Nat.mul_eq_zero.1 hlength.symm).resolve_left (by cases f <;> decide)
      exact .inr (.inr ⟨hempty, (Nat.div_eq_zero_iff_lt hpos').1 hframes, hplays⟩)
    · -- one channel of two
      have hdata := whole_length data format.bytesPerFrame
      have hq : 0 < data.length / format.bytesPerFrame := Nat.div_pos (not_lt.1 hempty) (Nat.pos_of_ne_zero hzero)
      have hnonempty : data.take (data.length - data.length % format.bytesPerFrame) ≠ [] := by
        intro h
        rw [h] at hdata
        exact (Nat.mul_pos (Nat.pos_of_ne_zero hzero) hq).ne hdata
      obtain ⟨hlt, hsize⟩ := first_frame hpos' hnonempty (fun h => hframe h.symm) hprocessed
      have hone : format.channelsPerFrame = 2 ∧ format.bitsPerChannel ≠ 32 ∧ format.bytesPerFrame =
          format.bitsPerChannel / 8 := by
        simp only [List.mem_cons, List.not_mem_nil, or_false] at hsize
        rcases hchannels with hc | hc <;> rcases hbits with hb | hb | hb <;> rw [hc, hb] at hlt <;> rw [Plays,
          hb] at hplays <;>
          rw [hb] <;> omega
      obtain ⟨htwo, h32, hbytes⟩ := hone
      have hcancel : format.bytesPerFrame / (format.bitsPerChannel / 8) = 1 := by rw [hbytes, Nat.div_self hpos]
      have hdouble : format.channelsPerFrame * (format.bitsPerChannel / 8) = 2 * format.bytesPerFrame := by
          rw [htwo, hbytes]
      obtain ⟨out', hrun', hlength'⟩ := processed_ok format _ (fun h => hframe h.symm)
        (by rw [hdouble]; exact Dvd.intro_left 2 rfl) hpos' hsize (by rw [hdata]; exact Dvd.intro _ rfl)
      cases hprocessed.symm.trans hrun'
      rw [hdouble, pieces_double (Nat.pos_of_ne_zero hzero) hdata] at hlength'
      obtain ⟨f', out', hrun', hout⟩ := finish_ok hplays (hlength'.trans (by rw [hcancel, one_mul, hbytes]))
      rw [hfinish] at hrun'
      cases hrun'
      have hbytes' : 0 < f.frameBytes := by cases f <;> decide
      have hframes := Nat.eq_of_mul_eq_mul_left hbytes' (hout.symm.trans hlength)
      rw [hdouble, mul_comm 2, ← Nat.div_div_eq_div_mul, hbytes] at hframes
      exact .inr (.inl ⟨htwo, h32, hbytes, by rw [hbytes]; omega⟩)

end

/-! ## Buffers -/

section

variable {format : AudioStreamBasicDescription} {mem : Mem} {audioData size : ℕ}

theorem load_take (m : Bytes) {k : ℕ} (h : k ≤ size) : load m audioData k = (load m audioData size).take k := by
  rw [load, load, ← List.map_take, List.take_range, min_eq_left h]

theorem decodeBuffer_eq (hsupported : isSupportedAudioFormat format = true) (hrange : mem.InRange audioData size) :
    decodeBuffer format mem audioData size =
      if format.formatId = kAudioFormatAppleIMA4 then decodeIma4Data format (load mem.bytes audioData size)
      else decodeLinearPCM format (load mem.bytes audioData size) := by
  rw [decodeBuffer, Mem.readBytes, Mem.checkRange_ok hrange, ok_bind, pure_eq_ok, ok_bind, assert_ok hsupported, ok_bind]
  by_cases hima : format.formatId = kAudioFormatAppleIMA4
  · rw [if_pos hima, if_pos hima]
  · rw [if_neg hima, if_neg hima, if_pos (supported_bits hsupported hima).1]

/-- **Audio is decoded** without a panic, in whole frames and without the rest, exactly in the regular sizes of its
format. -/
theorem decodes_format_iff (hsupported : isSupportedAudioFormat format = true) (hrange : mem.InRange audioData size) :
    Decodes format mem audioData size ↔ Regular format size := by
  have hshort : mem.InRange audioData (frameSize format * (size / frameSize format)) :=
    ⟨hrange.1, (Nat.add_le_add_left (Nat.mul_div_le _ _) _).trans hrange.2⟩
  have hlength : (load mem.bytes audioData size).length = size := by rw [load, List.length_map, List.length_range]
  rw [Decodes, decodeBuffer_eq hsupported hrange, decodeBuffer_eq hsupported hshort,
    load_take mem.bytes (Nat.mul_div_le size (frameSize format))]
  generalize load mem.bytes audioData size = data at hlength
  subst hlength
  unfold Regular frameSize outputSize
  by_cases hima : format.formatId = kAudioFormatAppleIMA4
  · simp only [if_pos hima]
    have hchannels : format.channelsPerFrame = 1 ∨ format.channelsPerFrame = 2 := by
      rw [isSupportedAudioFormat, if_pos hima] at hsupported
      simpa using hsupported
    constructor
    · rintro ⟨f, out, hrun, -⟩
      exact dvd_of_decodeIma4Data hchannels hrun
    · intro hdvd
      obtain ⟨f, out, hrun, hout⟩ := decodeIma4Data_ok hchannels hdvd
      refine ⟨f, out, hrun, hout, ?_⟩
      rw [Nat.mul_div_cancel' hdvd, List.take_length]
      exact hrun
  · obtain ⟨-, hchannels, hbits⟩ := supported_bits hsupported hima
    simp only [if_neg hima]
    constructor
    · rintro ⟨f, out, hrun, hout, -⟩
      exact pcm_regular hchannels hbits hrun hout
    · intro h
      obtain ⟨⟨f, out, hrun, hout⟩, hle⟩ := pcm_ok hchannels hbits h
      refine ⟨f, out, hrun, hout, ?_⟩
      rw [decodeLinearPCM_take hle (Nat.mul_div_le _ _)]
      exact hrun

end

/-- one channel of 32 bits -/
def mono32 : AudioStreamBasicDescription := ⟨44100, kAudioFormatLinearPCM, kAudioFormatFlagIsSignedInteger, 4, 1, 32⟩

def monoIma4 : AudioStreamBasicDescription := ⟨44100, kAudioFormatAppleIMA4, 0, 0, 1, 0⟩

def zeros : Mem := ⟨fun _ => 0, 4096⟩

theorem decodes_format_iff_mono32 : Decodes mono32 zeros 4096 4 ↔ Regular mono32 4 :=
    decodes_format_iff (by decide) ⟨by decide, by decide⟩

/-- a frame of a format that OpenAL has not, and a packet with a byte behind it -/
theorem decoding_fails : (isSupportedAudioFormat mono32 = true ∧ ¬Decodes mono32 zeros 4096 4) ∧
    isSupportedAudioFormat monoIma4 = true ∧ ¬Decodes monoIma4 zeros 4096 35 := by
  have hpcm : decodeBuffer mono32 zeros 4096 4 = .error .unreachable := rfl
  have hima : decodeBuffer monoIma4 zeros 4096 35 = .error .audioFormat := rfl
  refine ⟨⟨by decide, ?_⟩, by decide, ?_⟩
  · rintro ⟨f, out, h, -⟩
    cases hpcm.symm.trans h
  · rintro ⟨f, out, h, -⟩
    cases hima.symm.trans h

end TouchHLE.AudioDecoding
