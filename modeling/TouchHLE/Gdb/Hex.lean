/-
Numbers and bytes as hexadecimal digits, the way the remote debugging protocol writes and reads them (`gdb.rs`).

- `fromStrRadix`: `from_str_radix` of an unsigned type. `hexFixed`: a number with a fixed count of digits.
- `fromStrRadix_hexFixed`: the round trip.
- `parseChunks`: data that is read in pieces of the same length. `parseChunks_flatMap`: the round trip.
- `swapBytes`: a word in the other byte order. `swapBytes_swapBytes`: twice is not at all.
-/
import TouchHLE.Gdb.Packets
import TouchHLE.Lib.Words

namespace TouchHLE.Gdb

open Machine Words

/-- one more digit of a number below `limit` -/
def pushDigitBelow (limit radix n : ℕ) (c : UInt8) : Option ℕ :=
  match digitVal c with
  | some d => if d < radix ∧ n * radix + d < limit then some (n * radix + d) else none
  | none => none

/-- `from_str_radix` of the unsigned type of the numbers below `limit` -/
def fromStrRadix (limit : ℕ) (src : List UInt8) (radix : ℕ) : Option ℕ :=
  match src with
  | [] => none
  | 43 :: c :: digits => (c :: digits).foldlM (pushDigitBelow limit radix) 0
  | digits => digits.foldlM (pushDigitBelow limit radix) 0

/-- the type that the checksum of a packet is read as -/
theorem u8FromStrRadix_eq (src : List UInt8) (radix : ℕ) : u8FromStrRadix src radix = fromStrRadix 256 src radix := rfl

/-- a lower-case digit -/
def hexDigit (d : ℕ) : UInt8 := if d < 10 then UInt8.ofNat (48 + d) else UInt8.ofNat (87 + d)

/-- so many digits of a number -/
def hexFixed : ℕ → ℕ → List UInt8
  | 0, _ => []
  | width + 1, n => hexFixed width (n / 16) ++ [hexDigit (n % 16)]

/-- `n` pieces of `size` bytes, each of which must be what `parse` reads -/
def parseChunks {α : Type} (size : ℕ) (parse : List UInt8 → Option α) : ℕ → List UInt8 → Except Panic (List α)
  | 0, _ => pure []
  | n + 1, data => do
    let a ← unwrap (parse (data.take size)) .packetBody
    let rest ← parseChunks size parse n (data.drop size)
    pure (a :: rest)

/-- `u32::from_be_bytes(word.to_le_bytes())`, and the other way round -/
def swapBytes (w : UInt32) : UInt32 := leWord (leBytes w).reverse

variable {α : Type} {d n width limit size : ℕ} {l : List α} {f : α → List UInt8} {parse : List UInt8 → Option α}

/-! ## Digits -/

theorem digitVal_hexDigit (h : d < 16) : digitVal (hexDigit d) = some d := by
  interval_cases d <;> rfl

theorem length_hexFixed (width n : ℕ) : (hexFixed width n).length = width := by
  induction width generalizing n with
  | zero => rfl
  | succ width ih => rw [hexFixed, List.length_append, ih, List.length_singleton]

/-- the digits of a number give the number -/
theorem foldlM_hexFixed (hwidth : n < 16 ^ width) (hlimit : n < limit) :
    (hexFixed width n).foldlM (pushDigitBelow limit 16) 0 = some n := by
  induction width generalizing n with
  | zero =>
    obtain rfl : n = 0 := by omega
    rfl
  | succ width ih =>
    rw [pow_succ] at hwidth
    have hlast : n / 16 * 16 + n % 16 = n := by omega
    rw [hexFixed, List.foldlM_append, ih (by omega) (by omega)]
    simp only [Option.bind_eq_bind, Option.bind_some, List.foldlM_cons, List.foldlM_nil, pushDigitBelow,
      digitVal_hexDigit (Nat.mod_lt n (by norm_num : 0 < 16)), hlast]
    rw [if_pos ⟨Nat.mod_lt n (by norm_num), hlimit⟩]
    rfl

theorem hexDigit_ne_plus (h : d < 16) : hexDigit d ≠ 43 := by
  interval_cases d <;> decide

theorem head_hexFixed (width n : ℕ) : ∀ c ∈ (hexFixed width n).head?, c ≠ 43 := by
  have hmem : ∀ c ∈ hexFixed width n, c ≠ 43 := by
    induction width generalizing n with
    | zero => exact fun c hc => absurd hc List.not_mem_nil
    | succ width ih =>
      intro c hc
      rcases List.mem_append.1 hc with hc | hc
      · exact ih _ c hc
      · rw [List.mem_singleton.1 hc]
        exact hexDigit_ne_plus (Nat.mod_lt n (by norm_num))
  exact fun c hc => hmem c (List.mem_of_mem_head? hc)

/-- **A number** with a fixed count of digits is read back. -/
theorem fromStrRadix_hexFixed (hpos : 0 < width) (hwidth : n < 16 ^ width) (hlimit : n < limit) :
    fromStrRadix limit (hexFixed width n) 16 = some n := by
  have hfold := foldlM_hexFixed hwidth hlimit
  have hhead := head_hexFixed width n
  have hlength := length_hexFixed width n
  unfold fromStrRadix
  split
  · rename_i heq
    rw [heq] at hlength
    exact absurd hlength.symm hpos.ne'
  · rename_i c digits heq
    rw [heq] at hhead
    exact absurd rfl (hhead 43 rfl)
  · exact hfold

/-! ## Pieces -/

/-- **Data** that is written in pieces of the same length is read back. -/
theorem parseChunks_flatMap (hsize : ∀ a ∈ l, (f a).length = size) (hparse : ∀ a ∈ l, parse (f a) = some a) :
    parseChunks size parse l.length (l.flatMap f) = .ok l := by
  induction l with
  | nil => rfl
  | cons a l ih =>
    have htake : ((a :: l).flatMap f).take size = f a := List.take_left' (hsize a List.mem_cons_self)
    have hdrop : ((a :: l).flatMap f).drop size = l.flatMap f := List.drop_left' (hsize a List.mem_cons_self)
    rw [List.length_cons, parseChunks, htake, hdrop, hparse a List.mem_cons_self,
      ih (fun b hb => hsize b (List.mem_cons_of_mem a hb)) fun b hb => hparse b (List.mem_cons_of_mem a hb)]
    rfl

theorem length_flatMap_chunks (hsize : ∀ a ∈ l, (f a).length = size) : (l.flatMap f).length = l.length * size := by
  induction l with
  | nil => rw [List.length_nil, Nat.zero_mul]; rfl
  | cons a l ih =>
    rw [List.flatMap_cons, List.length_append, hsize a List.mem_cons_self, ih fun b hb => hsize b
      (List.mem_cons_of_mem a hb),
      List.length_cons, Nat.succ_mul, Nat.add_comm]

/-! ## Words -/

theorem leBytes_leWord {l : List UInt8} (h : l.length = 4) : leBytes (leWord l) = l := by
  obtain ⟨a, b, c, d, rfl⟩ := List.length_eq_four.1 h
  have ha := a.toNat_lt
  have hb := b.toNat_lt
  have hc := c.toNat_lt
  have hd := d.toNat_lt
  have hword : (leWord [a, b, c, d]).toNat = a.toNat + 256 * (b.toNat + 256 * (c.toNat + 256 * d.toNat)) := by
    refine (UInt32.toNat_ofNat_of_lt ?_).trans ?_
    · change a.toNat + 256 * (b.toNat + 256 * (c.toNat + 256 * (d.toNat + 256 * 0))) < 4294967296
      omega
    · change a.toNat + 256 * (b.toNat + 256 * (c.toNat + 256 * (d.toNat + 256 * 0))) = _
      omega
  have hbyte : ∀ (n : ℕ) (x : UInt8), n % 256 = x.toNat → UInt8.ofNat n = x := by
    intro n x hn
    apply UInt8.toNat_inj.1
    rw [UInt8.toNat_ofNat', ← hn]
  rw [leBytes, hword]
  simp only [List.cons.injEq, and_true]
  exact ⟨hbyte _ a (by omega), hbyte _ b (by omega), hbyte _ c (by omega), hbyte _ d (by omega)⟩

theorem swapBytes_swapBytes (w : UInt32) : swapBytes (swapBytes w) = w := by
  rw [swapBytes, swapBytes, leBytes_leWord (by rw [List.length_reverse]; rfl), List.reverse_reverse, leWord_leBytes]

end TouchHLE.Gdb
