/-
UTF-16. A character is one code unit or a pair of surrogates.

- `encode`, `decode`: the code units of a text, and the text of code units, which there is none of when a surrogate is not paired.
- `decode_encode`, `encode_of_decode`: the round trips.
- `encode_prefix_iff`, `encode_suffix_iff`: one text begins or ends with another exactly when its code units do.
- `compareUnits`, `compareUnits_eq`, `compareUnits_lt`: the order of lists of code units, element by element.
-/
import Mathlib.Tactic

namespace TouchHLE.Utf16

/-- the first of a pair of surrogates -/
def isLead (u : UInt16) : Bool := 0xD800 ≤ u && u < 0xDC00

/-- the second one -/
def isTrail (u : UInt16) : Bool := 0xDC00 ≤ u && u < 0xE000

def encodeChar (c : Char) : List UInt16 :=
  if c.toNat < 0x10000 then [UInt16.ofNat c.toNat]
  else [UInt16.ofNat (0xD800 + (c.toNat - 0x10000) / 0x400), UInt16.ofNat (0xDC00 + (c.toNat - 0x10000) % 0x400)]

def encode (s : List Char) : List UInt16 := s.flatMap encodeChar

/-- the character of a pair of surrogates -/
def pair (u v : UInt16) : Char := Char.ofNat (0x10000 + (u.toNat - 0xD800) * 0x400 + (v.toNat - 0xDC00))

def decode : List UInt16 → Option (List Char)
  | [] => some []
  | [u] => if isLead u || isTrail u then none else some [Char.ofNat u.toNat]
  | u :: v :: l =>
    if isLead u then if isTrail v then (decode l).map (pair u v :: ·) else none
    else if isTrail u then none
    else (decode (v :: l)).map (Char.ofNat u.toNat :: ·)

variable {u v : UInt16} {c : Char} {l l' : List UInt16} {s s' : List Char}

/-! ## One character -/

theorem isLead_iff : isLead u = true ↔ 0xD800 ≤ u.toNat ∧ u.toNat < 0xDC00 := by
  rw [isLead, Bool.and_eq_true, decide_eq_true_iff, decide_eq_true_iff, UInt16.le_iff_toNat_le, UInt16.lt_iff_toNat_lt]
  rfl

theorem isTrail_iff : isTrail u = true ↔ 0xDC00 ≤ u.toNat ∧ u.toNat < 0xE000 := by
  rw [isTrail, Bool.and_eq_true, decide_eq_true_iff, decide_eq_true_iff, UInt16.le_iff_toNat_le, UInt16.lt_iff_toNat_lt]
  rfl

/-- a unit that is no surrogate -/
def Plain (u : UInt16) : Prop := isLead u = false ∧ isTrail u = false

theorem plain_iff : Plain u ↔ u.toNat < 0xD800 ∨ 0xE000 ≤ u.toNat := by
  rw [Plain, ← Bool.not_eq_true, ← Bool.not_eq_true, isLead_iff, isTrail_iff]
  omega

theorem decode_plain (h : Plain u) : decode (u :: l) = (decode l).map (Char.ofNat u.toNat :: ·) := by
  cases l with
  | nil => simp [decode, h.1, h.2]
  | cons v l => simp [decode, h.1, h.2]

theorem decode_pair (h : isLead u = true) (h' : isTrail v = true) : decode (u :: v :: l) = (decode l).map (pair u v :: ·) := by
  rw [decode, if_pos h, if_pos h']

theorem toNat_ofNat (n : ℕ) (h : n < 0xD800 ∨ 0xDFFF < n ∧ n < 0x110000) : (Char.ofNat n).toNat = n := by
  rw [Char.ofNat, dif_pos h]
  rfl

theorem char_range (c : Char) : c.toNat < 0xD800 ∨ 0xDFFF < c.toNat ∧ c.toNat < 0x110000 := c.valid

/-- a character of one unit -/
theorem encodeChar_of_lt (h : c.toNat < 0x10000) :
    ∃ u, encodeChar c = [u] ∧ Plain u ∧ Char.ofNat u.toNat = c := by
  have hu : (UInt16.ofNat c.toNat).toNat = c.toNat := UInt16.toNat_ofNat_of_lt h
  refine ⟨UInt16.ofNat c.toNat, if_pos h, ?_, ?_⟩
  · rw [plain_iff, hu]
    have hc := char_range c
    omega
  · rw [hu, Char.ofNat_toNat]

/-- a character of two units -/
theorem encodeChar_of_ge (h : ¬c.toNat < 0x10000) :
    ∃ u v, encodeChar c = [u, v] ∧ isLead u = true ∧ isTrail v = true ∧ pair u v = c := by
  have hc := char_range c
  have hu : (UInt16.ofNat (0xD800 + (c.toNat - 0x10000) / 0x400)).toNat = 0xD800 + (c.toNat - 0x10000) / 0x400 :=
    UInt16.toNat_ofNat_of_lt (by change _ < 65536; omega)
  have hv : (UInt16.ofNat (0xDC00 + (c.toNat - 0x10000) % 0x400)).toNat = 0xDC00 + (c.toNat - 0x10000) % 0x400 :=
    UInt16.toNat_ofNat_of_lt (by change _ < 65536; omega)
  refine ⟨_, _, if_neg h, isLead_iff.2 ?_, isTrail_iff.2 ?_, ?_⟩
  · rw [hu]
    omega
  · rw [hv]
    omega
  · have hsum : 0x10000 + (0xD800 + (c.toNat - 0x10000) / 0x400 - 0xD800) * 0x400 +
        (0xDC00 + (c.toNat - 0x10000) % 0x400 - 0xDC00) = c.toNat := by omega
    rw [pair, hu, hv, hsum, Char.ofNat_toNat]

theorem encodeChar_ofNat (h : Plain u) : encodeChar (Char.ofNat u.toNat) = [u] := by
  have hlt : u.toNat < 0x10000 := u.toNat_lt
  have hn : (Char.ofNat u.toNat).toNat = u.toNat := by
    apply toNat_ofNat
    rcases plain_iff.1 h with h | h
    · exact .inl h
    · exact .inr ⟨h, hlt.trans (by norm_num)⟩
  rw [encodeChar, hn, if_pos hlt, UInt16.ofNat_toNat]

theorem encodeChar_pair (h : isLead u = true) (h' : isTrail v = true) : encodeChar (pair u v) = [u, v] := by
  have hu := isLead_iff.1 h
  have hv := isTrail_iff.1 h'
  have hn : (pair u v).toNat = 0x10000 + (u.toNat - 0xD800) * 0x400 + (v.toNat - 0xDC00) := by
    apply toNat_ofNat
    omega
  have hu' : 0xD800 + (0x10000 + (u.toNat - 0xD800) * 0x400 + (v.toNat - 0xDC00) - 0x10000) / 0x400 = u.toNat := by omega
  have hv' : 0xDC00 + (0x10000 + (u.toNat - 0xD800) * 0x400 + (v.toNat - 0xDC00) - 0x10000) % 0x400 = v.toNat := by omega
  rw [encodeChar, hn, if_neg (by omega), hu', hv', UInt16.ofNat_toNat, UInt16.ofNat_toNat]

/-! ## Texts -/

theorem encode_cons : encode (c :: s) = encodeChar c ++ encode s := List.flatMap_cons

theorem encode_append : encode (s ++ s') = encode s ++ encode s' := List.flatMap_append

theorem decode_encode_append (s : List Char) (l : List UInt16) : decode (encode s ++ l) = (decode l).map (s ++ ·) := by
  induction s with
  | nil => simp [encode]
  | cons c s ih =>
    rw [encode_cons, List.append_assoc]
    by_cases hc : c.toNat < 0x10000
    · obtain ⟨u, hu, hplain, hback⟩ := encodeChar_of_lt hc
      rw [hu, List.singleton_append, decode_plain hplain, ih, hback, Option.map_map]
      rfl
    · obtain ⟨u, v, huv, hlead, htrail, hback⟩ := encodeChar_of_ge hc
      rw [huv, List.cons_append, List.singleton_append, decode_pair hlead htrail, ih, hback, Option.map_map]
      rfl

theorem decode_encode (s : List Char) : decode (encode s) = some s := by
  have h := decode_encode_append s []
  rw [List.append_nil] at h
  simpa [decode] using h

theorem encode_injective : Function.Injective encode := by
  intro s s' h
  have hs := decode_encode s
  rw [h, decode_encode] at hs
  exact (Option.some.inj hs).symm

theorem encode_of_decode (h : decode l = some s) : encode s = l := by
  induction l using decode.induct generalizing s with
  | case1 =>
    cases h
    rfl
  | case2 u hsurrogate =>
    rw [decode, if_pos hsurrogate] at h
    cases h
  | case3 u hplain =>
    rw [decode, if_neg hplain] at h
    cases h
    rw [Bool.or_eq_true, not_or, Bool.not_eq_true, Bool.not_eq_true] at hplain
    rw [encode_cons, encodeChar_ofNat hplain]
    rfl
  | case4 u v l hlead htrail ih =>
    rw [decode_pair hlead htrail] at h
    obtain ⟨s, hs, rfl⟩ := Option.map_eq_some_iff.1 h
    rw [encode_cons, encodeChar_pair hlead htrail, ih hs]
    rfl
  | case5 u v l hlead htrail =>
    rw [decode, if_pos hlead, if_neg htrail] at h
    cases h
  | case6 u v l hlead htrail =>
    rw [decode, if_neg hlead, if_pos htrail] at h
    cases h
  | case7 u v l hlead htrail ih =>
    have hplain : Plain u := ⟨Bool.eq_false_of_not_eq_true hlead, Bool.eq_false_of_not_eq_true htrail⟩
    rw [decode_plain hplain] at h
    obtain ⟨s, hs, rfl⟩ := Option.map_eq_some_iff.1 h
    rw [encode_cons, encodeChar_ofNat hplain, ih hs]
    rfl

/-! ## Beginnings and ends -/

theorem encode_prefix_iff : encode s <+: encode s' ↔ s <+: s' := by
  constructor
  · rintro ⟨l, hl⟩
    have hs := decode_encode s'
    rw [← hl, decode_encode_append] at hs
    obtain ⟨t, -, ht⟩ := Option.map_eq_some_iff.1 hs
    exact ⟨t, ht⟩
  · rintro ⟨t, rfl⟩
    exact ⟨encode t, encode_append.symm⟩

/-- a text does not begin with a second surrogate -/
theorem head_encode (h : encode s = u :: l) : isTrail u = false := by
  cases s with
  | nil => cases h
  | cons c s =>
    rw [encode_cons] at h
    by_cases hc : c.toNat < 0x10000
    · obtain ⟨u', hu, hplain, -⟩ := encodeChar_of_lt hc
      rw [hu, List.singleton_append] at h
      exact (List.cons.inj h).1 ▸ hplain.2
    · obtain ⟨u', v, huv, hlead, -⟩ := encodeChar_of_ge hc
      rw [huv, List.cons_append] at h
      rw [← (List.cons.inj h).1, ← Bool.not_eq_true, isTrail_iff]
      have := isLead_iff.1 hlead
      omega

/-- **Before a text** there is a text. -/
theorem decode_append_encode (h : decode (l ++ encode s) = some s') : ∃ t, decode l = some t ∧ s' = t ++ s := by
  induction l using decode.induct generalizing s' with
  | case1 =>
    rw [List.nil_append, decode_encode] at h
    exact ⟨[], rfl, (Option.some.inj h).symm⟩
  | case2 u hsurrogate =>
    -- a single surrogate is not completed by what comes after it
    exfalso
    rw [List.singleton_append] at h
    cases hs : encode s with
    | nil =>
      rw [hs, decode, if_pos hsurrogate] at h
      cases h
    | cons v l =>
      rw [hs, decode, head_encode hs] at h
      rw [Bool.or_eq_true] at hsurrogate
      rcases hsurrogate with hlead | htrail
      · simp [hlead] at h
      · simp [htrail] at h
  | case3 u hplain =>
    rw [Bool.or_eq_true, not_or, Bool.not_eq_true, Bool.not_eq_true] at hplain
    rw [List.singleton_append, decode_plain hplain, decode_encode] at h
    cases h
    exact ⟨[Char.ofNat u.toNat], decode_plain hplain, rfl⟩
  | case4 u v l hlead htrail ih =>
    rw [List.cons_append, List.cons_append, decode_pair hlead htrail] at h
    obtain ⟨s₁, hs₁, rfl⟩ := Option.map_eq_some_iff.1 h
    obtain ⟨t, ht, rfl⟩ := ih hs₁
    exact ⟨pair u v :: t, by rw [decode_pair hlead htrail, ht]; rfl, rfl⟩
  | case5 u v l hlead htrail =>
    rw [List.cons_append, List.cons_append, decode, if_pos hlead, if_neg htrail] at h
    cases h
  | case6 u v l hlead htrail =>
    rw [List.cons_append, List.cons_append, decode, if_neg hlead, if_pos htrail] at h
    cases h
  | case7 u v l hlead htrail ih =>
    have hplain : Plain u := ⟨Bool.eq_false_of_not_eq_true hlead, Bool.eq_false_of_not_eq_true htrail⟩
    rw [List.cons_append, decode_plain hplain] at h
    obtain ⟨s₁, hs₁, rfl⟩ := Option.map_eq_some_iff.1 h
    obtain ⟨t, ht, rfl⟩ := ih hs₁
    exact ⟨Char.ofNat u.toNat :: t, by rw [decode_plain hplain, ht]; rfl, rfl⟩

theorem encode_suffix_iff : encode s <:+ encode s' ↔ s <:+ s' := by
  constructor
  · rintro ⟨l, hl⟩
    have hs := decode_encode s'
    rw [← hl] at hs
    obtain ⟨t, -, ht⟩ := decode_append_encode hs
    exact ⟨t, ht.symm⟩
  · rintro ⟨t, rfl⟩
    exact ⟨encode t, encode_append.symm⟩

/-! ## Order -/

/-- two lists of code units element by element; one that ends first is less -/
def compareUnits : List UInt16 → List UInt16 → Ordering
  | [], [] => .eq
  | [], _ :: _ => .lt
  | _ :: _, [] => .gt
  | u :: l, v :: l' => if u < v then .lt else if v < u then .gt else compareUnits l l'

theorem compareUnits_eq : compareUnits l l' = .eq ↔ l = l' := by
  induction l generalizing l' with
  | nil => cases l' <;> simp [compareUnits]
  | cons u l ih =>
    cases l' with
    | nil => simp [compareUnits]
    | cons v l' =>
      rw [compareUnits, List.cons.injEq]
      split_ifs with hlt hgt
      · exact iff_of_false nofun fun h => absurd h.1 (UInt16.ne_of_lt hlt)
      · exact iff_of_false nofun fun h => absurd h.1.symm (UInt16.ne_of_lt hgt)
      · rw [ih, and_iff_right (UInt16.le_antisymm (UInt16.not_lt.1 hgt) (UInt16.not_lt.1 hlt))]

theorem compareUnits_lt : compareUnits l l' = .lt ↔ l < l' := by
  induction l generalizing l' with
  | nil => cases l' <;> simp [compareUnits]
  | cons u l ih =>
    cases l' with
    | nil => simp [compareUnits]
    | cons v l' =>
      rw [compareUnits, List.cons_lt_cons_iff]
      split_ifs with hlt hgt
      · exact iff_of_true rfl (.inl hlt)
      · refine iff_of_false nofun ?_
        rintro (h | ⟨rfl, -⟩)
        · exact UInt16.lt_asymm h hgt
        · exact UInt16.lt_irrefl _ hgt
      · have heq : u = v := UInt16.le_antisymm (UInt16.not_lt.1 hgt) (UInt16.not_lt.1 hlt)
        rw [ih, or_iff_right hlt, and_iff_right heq]

end TouchHLE.Utf16
