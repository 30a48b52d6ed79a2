/-
UTF-8. The characters of a list of bytes, where ill-formed sequences either end the conversion or are each replaced by
one character: the longest beginning of a character that there is, or else one byte.

- `width`, `follows`: how many bytes a character that starts with a byte has, and how many of the next bytes belong
  to it.
- `decodeWith`: the conversion. `fromUtf8`, `fromUtf8Lossy`: the strict one and the one that replaces.
- `fromUtf8_ascii`: bytes below 128 are characters of their own.
- `fromUtf8Lossy_of_some`: of well-formed text both give the same.
- `fromUtf8_encode`: the bytes of a text are converted back to it. `encode_fromUtf8`: the other way round.
- `zero_mem_encode`: only one character has a zero byte.
-/
import Mathlib.Data.List.TakeWhile
import Mathlib.Tactic

namespace TouchHLE.Utf8

/-- the number of bytes of a character that starts with `a`, 0 if none does -/
def width (a : UInt8) : ℕ :=
  if a < 0x80 then 1
  else if 0xC2 ≤ a ∧ a ≤ 0xDF then 2
  else if 0xE0 ≤ a ∧ a ≤ 0xEF then 3
  else if 0xF0 ≤ a ∧ a ≤ 0xF4 then 4
  else 0

/-- the second byte: no overlong forms, no surrogates, nothing above U+10FFFF -/
def isSecond (a b : UInt8) : Bool :=
  (if a = 0xE0 then 0xA0 else if a = 0xF0 then 0x90 else 0x80) ≤ b &&
    b ≤ (if a = 0xED then 0x9F else if a = 0xF4 then 0x8F else 0xBF)

def isContinuation (b : UInt8) : Bool := 0x80 ≤ b && b ≤ 0xBF

/-- how many of the bytes `l` continue the character that `a` begins -/
def follows (a : UInt8) : List UInt8 → ℕ
  | [] => 0
  | b :: l => if 2 ≤ width a ∧ isSecond a b then ((l.take (width a - 2)).takeWhile isContinuation).length + 1 else 0

/-- the character that starts with `a` and goes on with `l` -/
def charOf (a : UInt8) (l : List UInt8) : Char :=
  if width a = 1 then Char.ofNat a.toNat
  else Char.ofNat (l.foldl (fun n b => n * 64 + b.toNat % 64) (a.toNat % 2 ^ (7 - width a)))

/-- the character that starts with `a`, or its replacement if it is ill-formed -/
def firstChar (replacement : Option Char) (a : UInt8) (l : List UInt8) : Option Char :=
  if follows a l + 1 = width a then some (charOf a (l.take (follows a l))) else replacement

/-- the characters of at most `n` bytes -/
def decodeWith (replacement : Option Char) : ℕ → List UInt8 → Option (List Char)
  | 0, _ => some []
  | _ + 1, [] => some []
  | n + 1, a :: l => do
    let c ← firstChar replacement a l
    let rest ← decodeWith replacement n (l.drop (follows a l))
    pure (c :: rest)

/-- `String::from_utf8` -/
def fromUtf8 (l : List UInt8) : Option (List Char) := decodeWith none l.length l

/-- `String::from_utf8_lossy` -/
def fromUtf8Lossy (l : List UInt8) : List Char := (decodeWith (some '\uFFFD') l.length l).getD []

variable {a b : UInt8} {l rest : List UInt8} {n : ℕ} {s : List Char} {c : Char}

theorem follows_ascii (h : a < 0x80) : follows a l = 0 := by
  have hwidth : width a = 1 := if_pos h
  cases l with
  | nil => rfl
  | cons b l => exact if_neg fun hb => absurd hb.1 (by rw [hwidth]; decide)

/-- bytes below 128 are characters of their own -/
theorem fromUtf8_ascii (h : ∀ a ∈ l, a < 0x80) : fromUtf8 l = some (l.map fun a => Char.ofNat a.toNat) := by
  unfold fromUtf8
  induction l with
  | nil => rfl
  | cons a l ih =>
    have ha := h a List.mem_cons_self
    have hwidth : width a = 1 := if_pos ha
    have hrest := ih fun b hb => h b (List.mem_cons_of_mem a hb)
    have hfirst : firstChar none a l = some (Char.ofNat a.toNat) := by
      simp only [firstChar, follows_ascii ha, hwidth, Nat.zero_add, if_true, charOf]
    simp only [List.length_cons, decodeWith, hfirst, follows_ascii ha, List.drop_zero, hrest, List.map_cons]
    rfl

theorem firstChar_of_some (r : Option Char) (h : firstChar none a l = some c) : firstChar r a l = some c := by
  unfold firstChar at h ⊢
  split_ifs at h with hw
  rw [if_pos hw, h]

theorem decodeWith_of_some (r : Option Char) (h : decodeWith none n l = some s) : decodeWith r n l = some s := by
  induction n generalizing l s with
  | zero => exact h
  | succ n ih =>
    cases l with
    | nil => exact h
    | cons a l =>
      obtain ⟨c, hc, h⟩ := Option.bind_eq_some_iff.1 h
      obtain ⟨rest, hrest, h⟩ := Option.bind_eq_some_iff.1 h
      simp only [decodeWith, firstChar_of_some r hc, ih hrest]
      exact h

/-- of well-formed text both conversions give the same -/
theorem fromUtf8Lossy_of_some (h : fromUtf8 l = some s) : fromUtf8Lossy l = s := by
  rw [fromUtf8Lossy, decodeWith_of_some _ h, Option.getD_some]

/-! ## The bytes of a text -/

theorem follows_cons (hwidth : width a = rest.length + 2) (hsecond : isSecond a b = true)
    (hrest : ∀ x ∈ rest, isContinuation x = true)
    (l : List UInt8) : follows a (b :: rest ++ l) = rest.length + 1 := by
  have htake : (rest ++ l).take (width a - 2) = rest := by
    rw [hwidth, Nat.add_sub_cancel, List.take_left']
    rfl
  rw [List.cons_append, follows, if_pos ⟨by omega, hsecond⟩, htake, List.takeWhile_eq_self_iff.2 hrest]

theorem isContinuation_ofNat (n : ℕ) : isContinuation (UInt8.ofNat (n % 0x40 + 0x80)) = true := by
  have hn : (UInt8.ofNat (n % 0x40 + 0x80)).toNat = n % 0x40 + 0x80 := UInt8.toNat_ofNat_of_lt (by change _ < 256; omega)
  rw [isContinuation, Bool.and_eq_true, decide_eq_true_iff, decide_eq_true_iff, UInt8.le_iff_toNat_le,
    UInt8.le_iff_toNat_le, hn]
  change 128 ≤ _ ∧ _ ≤ 191
  omega

/-- what a first byte and the others say, as numbers -/
theorem width_eq (a : UInt8) : width a =
    if a.toNat < 0x80 then 1 else if 0xC2 ≤ a.toNat ∧ a.toNat ≤ 0xDF then 2 else if 0xE0 ≤ a.toNat ∧ a.toNat ≤ 0xEF then 3
    else if 0xF0 ≤ a.toNat ∧ a.toNat ≤ 0xF4 then 4 else 0 := by
  simp only [width, UInt8.lt_iff_toNat_lt, UInt8.le_iff_toNat_le]
  rfl

theorem isSecond_iff (a b : UInt8) : isSecond a b = true ↔
    (if a.toNat = 0xE0 then 0xA0 else if a.toNat = 0xF0 then 0x90 else 0x80) ≤ b.toNat ∧
      b.toNat ≤ if a.toNat = 0xED then 0x9F else if a.toNat = 0xF4 then 0x8F else 0xBF := by
  have heq : ∀ x : UInt8, a = x ↔ a.toNat = x.toNat := fun x => UInt8.toNat_inj.symm
  rw [isSecond, Bool.and_eq_true, decide_eq_true_iff, decide_eq_true_iff, UInt8.le_iff_toNat_le, UInt8.le_iff_toNat_le,
    apply_ite UInt8.toNat, apply_ite UInt8.toNat, apply_ite UInt8.toNat, apply_ite UInt8.toNat]
  simp only [heq]
  rfl

/-- **One character**: its first byte says how many bytes it has, the others continue it, and they are its code. -/
theorem encoded (c : Char) : ∃ a rest, String.utf8EncodeChar c = a :: rest ∧ width a = rest.length + 1 ∧
    (∀ l, follows a (rest ++ l) = rest.length) ∧ charOf a rest = c := by
  have hrange : c.val.toNat < 0xD800 ∨ 0xDFFF < c.val.toNat ∧ c.val.toNat < 0x110000 := c.valid
  have hback : Char.ofNat c.val.toNat = c := Char.ofNat_toNat c
  unfold String.utf8EncodeChar
  generalize c.val.toNat = v at *
  have htoNat : ∀ n < 256, (UInt8.ofNat n).toNat = n := fun n h => UInt8.toNat_ofNat_of_lt h
  dsimp only
  split_ifs with h1 h2 h3
  · have hlt : UInt8.ofNat v < 0x80 := by
      rw [UInt8.lt_iff_toNat_lt, htoNat v (by omega)]
      exact Nat.lt_succ_of_le h1
    have hwidth : width (UInt8.ofNat v) = 1 := if_pos hlt
    refine ⟨_, [], rfl, hwidth, fun l => follows_ascii hlt, ?_⟩
    rw [charOf, if_pos hwidth, htoNat v (by omega), hback]
  · have hwidth : width (UInt8.ofNat (v / 64 % 0x20 + 0xc0)) = 2 := by
      rw [width_eq, htoNat _ (by omega)]
      split_ifs <;> omega
    have hsecond : isSecond (UInt8.ofNat (v / 64 % 0x20 + 0xc0)) (UInt8.ofNat (v % 0x40 + 0x80)) = true := by
      rw [isSecond_iff, htoNat _ (by omega), htoNat _ (by omega)]
      split_ifs <;> omega
    refine ⟨_, _, rfl, hwidth, follows_cons hwidth hsecond (fun x hx => by cases hx), ?_⟩
    have hv : (v / 64 % 0x20 + 0xc0) % 2 ^ (7 - 2) * 64 + (v % 0x40 + 0x80) % 64 = v := by omega
    rw [charOf, hwidth, if_neg (by decide), List.foldl_cons, List.foldl_nil, htoNat _ (by omega), htoNat _ (by omega), hv,
      hback]
  · have hwidth : width (UInt8.ofNat (v / 4096 % 0x10 + 0xe0)) = 3 := by
      rw [width_eq, htoNat _ (by omega)]
      split_ifs <;> omega
    have hsecond : isSecond (UInt8.ofNat (v / 4096 % 0x10 + 0xe0)) (UInt8.ofNat (v / 64 % 0x40 + 0x80)) = true := by
      rw [isSecond_iff, htoNat _ (by omega), htoNat _ (by omega)]
      split_ifs <;> omega
    refine ⟨_, _, rfl, hwidth, follows_cons hwidth hsecond (fun x hx => ?_), ?_⟩
    · rw [List.mem_singleton.1 hx]
      exact isContinuation_ofNat v
    · have hv : ((v / 4096 % 0x10 + 0xe0) % 2 ^ (7 - 3) * 64 + (v / 64 % 0x40 + 0x80) % 64) * 64 +
          (v % 0x40 + 0x80) % 64 = v := by
        omega
      rw [charOf, hwidth, if_neg (by decide), List.foldl_cons, List.foldl_cons, List.foldl_nil, htoNat _ (by omega),
        htoNat _ (by omega), htoNat _ (by omega), hv, hback]
  · have hwidth : width (UInt8.ofNat (v / 262144 % 0x08 + 0xf0)) = 4 := by
      rw [width_eq, htoNat _ (by omega)]
      split_ifs <;> omega
    have hsecond : isSecond (UInt8.ofNat (v / 262144 % 0x08 + 0xf0)) (UInt8.ofNat (v / 4096 % 0x40 + 0x80)) = true := by
      rw [isSecond_iff, htoNat _ (by omega), htoNat _ (by omega)]
      split_ifs <;> omega
    refine ⟨_, _, rfl, hwidth, follows_cons hwidth hsecond (fun x hx => ?_), ?_⟩
    · rcases List.mem_cons.1 hx with rfl | hx
      · exact isContinuation_ofNat (v / 64)
      · rw [List.mem_singleton.1 hx]
        exact isContinuation_ofNat v
    · have hv :
          (((v / 262144 % 0x08 + 0xf0) % 2 ^ (7 - 4) * 64 + (v / 4096 % 0x40 + 0x80) % 64) * 64 +
          (v / 64 % 0x40 + 0x80) % 64) * 64 +
          (v % 0x40 + 0x80) % 64 = v := by omega
      rw [charOf, hwidth, if_neg (by decide), List.foldl_cons, List.foldl_cons, List.foldl_cons, List.foldl_nil,
        htoNat _ (by omega), htoNat _ (by omega), htoNat _ (by omega), htoNat _ (by omega), hv, hback]

theorem decodeWith_encode (s : List Char) (h : (s.flatMap String.utf8EncodeChar).length ≤ n) :
    decodeWith none n (s.flatMap String.utf8EncodeChar) = some s := by
  induction s generalizing n with
  | nil => cases n <;> rfl
  | cons c s ih =>
    obtain ⟨a, rest, hc, hwidth, hfollows, hchar⟩ := encoded c
    rw [List.flatMap_cons, hc, List.cons_append] at h ⊢
    rw [List.length_cons, List.length_append] at h
    obtain ⟨n, rfl⟩ : ∃ m, n = m + 1 := ⟨n - 1, by omega⟩
    have hfirst : firstChar none a (rest ++ s.flatMap String.utf8EncodeChar) = some c := by
      rw [firstChar, hfollows, if_pos hwidth.symm, List.take_left', hchar]
      rfl
    simp only [decodeWith, hfirst, hfollows, List.drop_left', ih (by omega : _ ≤ n)]
    rfl

/-- **The characters of the bytes of a text** -/
theorem fromUtf8_encode (s : List Char) : fromUtf8 (s.flatMap String.utf8EncodeChar) = some s := decodeWith_encode s le_rfl

-- a euro sign; an overlong form of '/' is two bytes that are replaced
example : fromUtf8 [0xE2, 0x82, 0xAC] = some ['€'] := by decide
example : fromUtf8Lossy [0xC0, 0xAF] = ['\uFFFD', '\uFFFD'] := by decide

/-! ## The bytes that a text was read from -/

theorem toNat_ofNat {v : ℕ} (hv : v < 0xD800 ∨ 0xDFFF < v ∧ v < 0x110000) : (Char.ofNat v).val.toNat = v := by
  rw [Char.ofNat, dif_pos hv]
  rfl

theorem eq_ofNat {v : ℕ} (h : a.toNat = v) : a = UInt8.ofNat v := by
  rw [← h, UInt8.ofNat_toNat]

theorem continuation_range (h : isContinuation b = true) : 0x80 ≤ b.toNat ∧ b.toNat ≤ 0xBF := by
  rw [isContinuation, Bool.and_eq_true, decide_eq_true_iff, decide_eq_true_iff, UInt8.le_iff_toNat_le,
    UInt8.le_iff_toNat_le] at h
  exact h

/-- the bytes that continue a character that is complete -/
theorem follows_cases {k : ℕ} (h : follows a l + 1 = width a) (hk : width a = k + 2) : ∃ b rest l', l = b :: (rest ++ l') ∧
    rest.length = k ∧ isSecond a b = true ∧ (∀ x ∈ rest, isContinuation x = true) ∧ l.take (follows a l) = b :: rest := by
  cases l with
  | nil =>
    rw [follows, hk] at h
    omega
  | cons b l =>
    have hf : follows a (b :: l) = if 2 ≤ width a ∧
        isSecond a b then ((l.take (width a - 2)).takeWhile isContinuation).length + 1 else 0 := rfl
    rw [hf] at h
    split_ifs at h with hsecond
    · rw [hk, Nat.add_sub_cancel] at h
      have hlen : ((l.take k).takeWhile isContinuation).length = k := by omega
      have hle := (List.takeWhile_prefix (p := isContinuation) (l := l.take k)).length_le
      rw [List.length_take] at hle
      have htake : (l.take k).takeWhile isContinuation = l.take k := by
        refine (List.takeWhile_prefix _).eq_of_length ?_
        rw [hlen, List.length_take]
        omega
      refine ⟨b, l.take k, l.drop k, by rw [List.take_append_drop], by rw [List.length_take]; omega, hsecond.2,
        List.takeWhile_eq_self_iff.1 htake, ?_⟩
      rw [hf, if_pos hsecond, hk, Nat.add_sub_cancel, hlen, List.take_succ_cons]
    · rw [hk] at h
      omega

/-- **The bytes of a character** that was read are those that it was read from. -/
theorem encode_firstChar (h : firstChar none a l = some c) :
    String.utf8EncodeChar c = a :: l.take (follows a l) := by
  unfold firstChar at h
  split_ifs at h with hcomplete
  cases h
  have hwidth := width_eq a
  rcases Nat.lt_or_ge a.toNat 0x80 with hlt | hge
  · rw [if_pos hlt] at hwidth
    have hzero : follows a l = 0 := by omega
    have hv : (Char.ofNat a.toNat).val.toNat = a.toNat := toNat_ofNat (by omega)
    rw [hzero, List.take_zero, charOf, if_pos hwidth]
    unfold String.utf8EncodeChar
    dsimp only
    rw [hv, if_pos (by omega), UInt8.ofNat_toNat]
  · rw [if_neg (by omega)] at hwidth
    split_ifs at hwidth with h2 h3 h4
    · obtain ⟨b, rest, l', -, hlen, hsecond, -, htake⟩ := follows_cases (k := 0) hcomplete hwidth
      obtain rfl := List.length_eq_zero_iff.1 hlen
      rw [isSecond_iff, if_neg (by omega), if_neg (by omega), if_neg (by omega), if_neg (by omega)] at hsecond
      rw [htake, charOf, if_neg (by omega), hwidth, List.foldl_cons, List.foldl_nil]
      obtain ⟨v, hv⟩ : ∃ v, v = a.toNat % 2 ^ (7 - 2) * 64 + b.toNat % 64 := ⟨_, rfl⟩
      have ha : a = UInt8.ofNat (v / 64 % 0x20 + 0xc0) := eq_ofNat (by omega)
      have hb : b = UInt8.ofNat (v % 0x40 + 0x80) := eq_ofNat (by omega)
      rw [← hv]
      unfold String.utf8EncodeChar
      dsimp only
      rw [toNat_ofNat (by omega), if_neg (by omega), if_pos (by omega), ← ha, ← hb]
    · obtain ⟨b, rest, l', -, hlen, hsecond, hrest, htake⟩ := follows_cases (k := 1) hcomplete hwidth
      obtain ⟨b₁, rfl⟩ := List.length_eq_one_iff.1 hlen
      have hb₁ := continuation_range (hrest b₁ List.mem_cons_self)
      rw [isSecond_iff] at hsecond
      rw [htake, charOf, if_neg (by omega), hwidth, List.foldl_cons, List.foldl_cons, List.foldl_nil]
      obtain ⟨v, hv⟩ : ∃ v, v = (a.toNat % 2 ^ (7 - 3) * 64 + b.toNat % 64) * 64 + b₁.toNat % 64 := ⟨_, rfl⟩
      have hrange : 0x800 ≤ v ∧ (v < 0xD800 ∨ 0xDFFF < v ∧ v < 0x10000) := by split_ifs at hsecond <;> omega
      have hsecond' : 0x80 ≤ b.toNat ∧ b.toNat ≤ 0xBF := by split_ifs at hsecond <;> omega
      have ha : a = UInt8.ofNat (v / 4096 % 0x10 + 0xe0) := eq_ofNat (by omega)
      have hb : b = UInt8.ofNat (v / 64 % 0x40 + 0x80) := eq_ofNat (by omega)
      have hb' : b₁ = UInt8.ofNat (v % 0x40 + 0x80) := eq_ofNat (by omega)
      rw [← hv]
      unfold String.utf8EncodeChar
      dsimp only
      rw [toNat_ofNat (by omega), if_neg (by omega), if_neg (by omega), if_pos (by omega), ← ha, ← hb, ← hb']
    · obtain ⟨b, rest, l', -, hlen, hsecond, hrest, htake⟩ := follows_cases (k := 2) hcomplete hwidth
      obtain ⟨b₁, b₂, rfl⟩ := List.length_eq_two.1 hlen
      have hb₁ := continuation_range (hrest b₁ List.mem_cons_self)
      have hb₂ := continuation_range (hrest b₂ (List.mem_cons_of_mem _ List.mem_cons_self))
      rw [isSecond_iff] at hsecond
      rw [htake, charOf, if_neg (by omega), hwidth, List.foldl_cons, List.foldl_cons, List.foldl_cons, List.foldl_nil]
      obtain ⟨v, hv⟩ : ∃ v, v = ((a.toNat % 2 ^ (7 - 4) * 64 + b.toNat % 64) * 64 + b₁.toNat % 64) * 64 + b₂.toNat % 64 :=
          ⟨_, rfl⟩
      have hrange : 0x10000 ≤ v ∧ v < 0x110000 := by split_ifs at hsecond <;> omega
      have hsecond' : 0x80 ≤ b.toNat ∧ b.toNat ≤ 0xBF := by split_ifs at hsecond <;> omega
      have ha : a = UInt8.ofNat (v / 262144 % 0x08 + 0xf0) := eq_ofNat (by omega)
      have hb : b = UInt8.ofNat (v / 4096 % 0x40 + 0x80) := eq_ofNat (by omega)
      have hb' : b₁ = UInt8.ofNat (v / 64 % 0x40 + 0x80) := eq_ofNat (by omega)
      have hb'' : b₂ = UInt8.ofNat (v % 0x40 + 0x80) := eq_ofNat (by omega)
      rw [← hv]
      unfold String.utf8EncodeChar
      dsimp only
      rw [toNat_ofNat (by omega), if_neg (by omega), if_neg (by omega), if_neg (by omega), ← ha, ← hb, ← hb', ← hb'']
    · omega

theorem encode_decodeWith (hlen : l.length ≤ n) (h : decodeWith none n l = some s) : s.flatMap String.utf8EncodeChar =
    l := by
  induction n generalizing l s with
  | zero =>
    obtain rfl := List.length_eq_zero_iff.1 (Nat.le_zero.1 hlen)
    cases h
    rfl
  | succ n ih =>
    cases l with
    | nil =>
      cases h
      rfl
    | cons a l =>
      obtain ⟨c, hc, h⟩ := Option.bind_eq_some_iff.1 h
      obtain ⟨rest, hrest, h⟩ := Option.bind_eq_some_iff.1 h
      cases h
      have hdrop : (l.drop (follows a l)).length ≤ n := by
        rw [List.length_drop]
        rw [List.length_cons] at hlen
        omega
      rw [List.flatMap_cons, encode_firstChar hc, ih hdrop hrest, List.cons_append, List.take_append_drop]

/-- **The bytes of a text** that was read from bytes -/
theorem encode_fromUtf8 (h : fromUtf8 l = some s) : s.flatMap String.utf8EncodeChar = l := encode_decodeWith le_rfl h

/-- only one character has a zero byte -/
theorem zero_mem_encode (h : (0 : UInt8) ∈ String.utf8EncodeChar c) : c = '\x00' := by
  obtain ⟨a, rest, hc, hwidth, hfollows, hchar⟩ := encoded c
  rw [hc] at h
  have hzero : a = 0 := by
    rcases List.mem_cons.1 h with h | h
    · exact h.symm
    · exfalso
      obtain ⟨k, hk⟩ : ∃ k, rest.length = k + 1 := ⟨rest.length - 1, by have := List.length_pos_of_mem h; omega⟩
      have hself : follows a rest = rest.length := by
        have hnil := hfollows []
        rwa [List.append_nil] at hnil
      obtain ⟨b, rest', l', -, -, hsecond, hrest', htake⟩ :=
          follows_cases (k := k) (by rw [hself, hwidth]) (by rw [hwidth, hk])
      rw [hself, List.take_length] at htake
      rw [htake] at h
      rcases List.mem_cons.1 h with rfl | h
      · rw [isSecond_iff] at hsecond
        have hb : (0 : UInt8).toNat = 0 := rfl
        split_ifs at hsecond <;> omega
      · exact absurd (hrest' 0 h) (by decide)
  subst hzero
  have hnil : rest = [] := by
    have hone : width 0 = 1 := by decide
    rw [hone] at hwidth
    exact List.length_eq_zero_iff.1 (by omega)
  rw [← hchar, hnil]
  decide

end TouchHLE.Utf8
