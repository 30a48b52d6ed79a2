/-
`intValue` (`ns_string.rs`) and `scanInt:` (`ns_scanner.rs`): the number at the front of a string.

- `intValue`, `NSScannerHostObject`, `skipCharacters`, `scanInt`: the methods.
- `IntValue`, `Scanned`: what they are to do, by the longest number at the front.
- `IntFits`, `ScanFits`: when they do it. `intValue_iff`, `scanInt_iff`: exactly then.
- `int_iff`: both.

What a scanner skips is a parameter.
-/
import TouchHLE.Foundation.StringViews
import TouchHLE.Lib.SignedDecimal
import TouchHLE.Mem.Memory

namespace TouchHLE.IntScanning

open Machine Utf16 Words SignedDecimal
open NSString (StringHostObject toUtf8)

/-- `char::is_whitespace` -/
def isWhitespace (c : Char) : Bool :=
  (9 ≤ c.toNat && c.toNat ≤ 13) || c.toNat == 0x20 || c.toNat == 0x85 || c.toNat == 0xA0 || c.toNat == 0x1680 ||
    (0x2000 ≤ c.toNat && c.toNat ≤ 0x200A) || c.toNat == 0x2028 || c.toNat == 0x2029 ||
    c.toNat == 0x202F || c.toNat == 0x205F ||
    c.toNat == 0x3000

def isIntChar (c : Char) : Bool := c.isDigit || c == '+' || c == '-'

/-- where the digits and signs at the front end; they have one byte, and one code unit, each -/
def cutoff : List Char → ℕ
  | [] => 0
  | c :: st => if isIntChar c then cutoff st + 1 else 0

def intValue (this : StringHostObject) : Except Panic ℤ := do
  let st ← unwrap (toUtf8 this) .utf16
  let st := st.dropWhile isWhitespace
  pure ((parseI32 (st.take (cutoff st))).getD 0)

/-- a scanner; its string is taken as code units -/
structure NSScannerHostObject where
  toBeSkipped : UInt16 → Bool
  string : List UInt16
  len : ℕ
  pos : ℕ

/-- the loop of `skip_characters`, for so many code units -/
def skipFrom (s : NSScannerHostObject) : ℕ → ℕ → Except Panic ℕ
  | 0, pos => pure pos
  | n + 1, pos => do
    let c ← unwrap s.string[pos]? .index
    if s.toBeSkipped c then skipFrom s n (pos + 1) else pure pos

def skipCharacters (s : NSScannerHostObject) : Except Panic NSScannerHostObject := do
  let pos ← skipFrom s (s.len - s.pos) s.pos
  pure { s with pos }

def scanInt (s : NSScannerHostObject) (m : Mem) (result : ℕ) : Except Panic (Bool × NSScannerHostObject × Mem) := do
  let s ← skipCharacters s
  let st ← unwrap (decode (s.string.drop s.pos)) .utf16
  if cutoff st = 0 then pure (false, s, m)
  else do
    let m ← if result ≠ 0 then m.writeU32 result (UInt32.ofInt ((parseI32 (st.take (cutoff st))).getD 0)) else pure m
    let pos ← add32 s.pos (cutoff st)
    pure (true, { s with pos }, m)

/-! ## What the methods are to do -/

/-- the value of the longest number behind white space, as a 32-bit number; 0 if there is no number -/
def IntValue (this : StringHostObject) (v : ℤ) : Prop :=
  ∃ text, toUtf8 this = some text ∧
    ((∃ p, Longest (text.dropWhile isWhitespace) p ∧ v = clamp (valueOf p)) ∨
      (∀ p, p <+: text.dropWhile isWhitespace → ¬Number p) ∧ v = 0)

/-- the first position that is not skipped -/
def NSScannerHostObject.start (s : NSScannerHostObject) : ℕ :=
  s.pos + ((s.string.drop s.pos).takeWhile s.toBeSkipped).length

/-- the number is stored and the position is right behind it -/
structure Stored (s : NSScannerHostObject) (m : Mem) (result : ℕ) (p : List Char) (r : Bool × NSScannerHostObject × Mem) :
    Prop where
  found : r.1 = true
  position : r.2.1 = { s with pos := s.start + p.length }
  value : result ≠ 0 → loadWord r.2.2.bytes result = UInt32.ofInt (clamp (valueOf p))
  memory : ∀ x, result = 0 ∨ x < result ∨ result + 4 ≤ x → r.2.2.bytes x = m.bytes x

/-- the longest number is stored, or there is none and nothing changes -/
def Scanned (s : NSScannerHostObject) (m : Mem) (result : ℕ) (r : Bool × NSScannerHostObject × Mem) : Prop :=
  ∃ t, decode (s.string.drop s.start) = some t ∧
    ((∃ p, Longest t p ∧ Stored s m result p r) ∨ (∀ p, p <+: t → ¬Number p) ∧ r = (false, s, m))

/-! ## When they do it -/

/-- the digits and signs at the front of a text -/
def signsAndDigits (t : List Char) : List Char := t.takeWhile isIntChar

/-- the string has a text, and behind white space there is no number, or one that is 0, or one that is in range and not
followed by signs -/
def IntFits (this : StringHostObject) : Prop :=
  ∃ text, toUtf8 this = some text ∧ (valueOf (leading (text.dropWhile isWhitespace)) = 0 ∨
    signsAndDigits (text.dropWhile isWhitespace) = leading (text.dropWhile isWhitespace) ∧
      InI32 (valueOf (leading (text.dropWhile isWhitespace))))

/-- what is not skipped has a text, and the signs and digits at its front are a number that is in range or not stored,
or there are none and nothing is skipped -/
def ScanFits (s : NSScannerHostObject) (result : ℕ) : Prop :=
  ∃ t, decode (s.string.drop s.start) = some t ∧ signsAndDigits t = leading t ∧ (leading t = [] → s.start = s.pos) ∧
    (leading t ≠ [] → result = 0 ∨ InI32 (valueOf (leading t)))

structure NSScannerHostObject.Valid (s : NSScannerHostObject) : Prop where
  length : s.string.length = s.len
  inside : s.pos ≤ s.len
  fits : s.len < 2 ^ 32

/-! ## The number at the front -/

variable {this : StringHostObject} {s : NSScannerHostObject} {m : Mem} {result n pos : ℕ} {t text : List Char} {v : ℤ}

theorem take_cutoff (t : List Char) : t.take (cutoff t) = signsAndDigits t := by
  induction t with
  | nil => rfl
  | cons c t ih =>
    rw [cutoff, signsAndDigits, List.takeWhile_cons]
    split_ifs
    · rw [List.take_succ_cons, ih]
      rfl
    · rfl

theorem cutoff_eq (t : List Char) : cutoff t = (signsAndDigits t).length := by
  induction t with
  | nil => rfl
  | cons c t ih =>
    rw [cutoff, signsAndDigits, List.takeWhile_cons]
    split_ifs
    · rw [List.length_cons, ih]
      rfl
    · rfl

/-- the number is made of digits and signs -/
theorem leading_run (t : List Char) : leading t <+: signsAndDigits t := by
  have hall : ∀ c ∈ leading t, isIntChar c = true := by
    intro c hc
    rw [leading] at hc
    split_ifs at hc
    · exact absurd hc List.not_mem_nil
    · rcases List.mem_append.1 hc with hc | hc
      · rcases sign_cases t with h | h | h <;> rw [h] at hc
        · rw [List.mem_singleton.1 hc]
          rfl
        · rw [List.mem_singleton.1 hc]
          rfl
        · exact absurd hc List.not_mem_nil
      · rw [isIntChar, List.mem_takeWhile_imp hc]
        rfl
  obtain ⟨l, hl⟩ := leading_isPrefix t
  rw [signsAndDigits]
  conv_rhs => rw [← hl]
  rw [List.takeWhile_append_of_pos hall]
  exact List.prefix_append _ _

/-- **What is parsed** -/
theorem parse_run (t : List Char) : (parseI32 (signsAndDigits t)).getD 0 =
    if leading t ≠ [] ∧ signsAndDigits t = leading t ∧ InI32 (valueOf (leading t)) then valueOf (leading t) else 0 := by
  by_cases hrun : leading t ≠ [] ∧ signsAndDigits t = leading t
  · obtain ⟨hne, heq⟩ := hrun
    rw [heq, parseI32_of_number (number_leading hne)]
    by_cases hin : InI32 (valueOf (leading t))
    · rw [if_pos hin, if_pos ⟨hne, rfl, hin⟩]
      rfl
    · rw [if_neg hin, if_neg fun h => hin h.2.2]
      rfl
  · have hnot : ¬Number (signsAndDigits t) := by
      intro hnumber
      have hle := prefix_leading (List.takeWhile_prefix _) hnumber
      have heq := hle.eq_of_length (le_antisymm hle.length_le (leading_run t).length_le)
      refine hrun ⟨fun hnil => ?_, heq⟩
      have hempty : signsAndDigits t = [] := heq.trans hnil
      rw [hempty] at hnumber
      exact hnumber.nonempty rfl
    rw [parseI32_of_not_number hnot, if_neg fun h => hrun ⟨h.1, h.2.1⟩]
    rfl

/-- **What is to be read**: the number at the front, or 0 -/
theorem expected_iff : ((∃ p, Longest t p ∧ v = clamp (valueOf p)) ∨ (∀ p, p <+: t → ¬Number p) ∧ v = 0) ↔
    v = clamp (valueOf (leading t)) := by
  constructor
  · rintro (⟨p, hp, rfl⟩ | ⟨hnone, rfl⟩)
    · rw [hp.eq_leading]
    · have hnil : leading t = [] := by
        by_contra hne
        exact hnone _ (leading_isPrefix t) (number_leading hne)
      rw [hnil]
      rfl
  · intro hv
    by_cases hnil : leading t = []
    · rw [hnil] at hv
      exact .inr ⟨fun p => no_number hnil, hv⟩
    · exact .inl ⟨_, leading_longest hnil, hv⟩

theorem parse_iff (t : List Char) : (parseI32 (signsAndDigits t)).getD 0 = clamp (valueOf (leading t)) ↔
    valueOf (leading t) = 0 ∨ signsAndDigits t = leading t ∧ InI32 (valueOf (leading t)) := by
  rw [parse_run]
  by_cases hnil : leading t = []
  · rw [if_neg fun h => h.1 hnil, hnil]
    exact iff_of_true rfl (.inl rfl)
  · split_ifs with hgood
    · rw [clamp_of_inI32 hgood.2.2]
      exact iff_of_true rfl (.inr hgood.2)
    · rw [eq_comm, clamp_eq_zero]
      exact ⟨.inl, fun h => h.resolve_right fun hrun => hgood ⟨hnil, hrun⟩⟩

/-- **`intValue`** -/
theorem intValue_iff (this : StringHostObject) : (∃ v, intValue this = .ok v ∧ IntValue this v) ↔ IntFits this := by
  have hspec : ∀ text, toUtf8 this = some text →
      intValue this = .ok ((parseI32 (signsAndDigits (text.dropWhile isWhitespace))).getD 0) := by
    intro text htext
    rw [intValue, htext, ← take_cutoff]
    rfl
  constructor
  · rintro ⟨v, hv, text, htext, hexpected⟩
    rw [hspec text htext] at hv
    rw [expected_iff, ← Except.ok.inj hv] at hexpected
    exact ⟨text, htext, (parse_iff _).1 hexpected⟩
  · rintro ⟨text, htext, hfits⟩
    exact ⟨_, hspec text htext, text, htext, expected_iff.2 ((parse_iff _).2 hfits)⟩

/-! ## Scanners -/

theorem skipFrom_eq (hlength : s.string.length = s.len) (hn : pos + n = s.len) :
    skipFrom s n pos = .ok (pos + ((s.string.drop pos).takeWhile s.toBeSkipped).length) := by
  induction n generalizing pos with
  | zero =>
    rw [List.drop_eq_nil_of_le (by omega)]
    rfl
  | succ n ih =>
    have hpos : pos < s.string.length := by omega
    rw [skipFrom, List.getElem?_eq_getElem hpos, List.drop_eq_getElem_cons hpos, List.takeWhile_cons]
    change (if s.toBeSkipped s.string[pos] = true then _ else _) = _
    split_ifs with hskip
    · rw [ih (by omega), List.length_cons]
      congr 1
      omega
    · rfl

theorem skipCharacters_eq (hs : s.Valid) : skipCharacters s = .ok { s with pos := s.start } := by
  have hinside := hs.inside
  rw [skipCharacters, skipFrom_eq hs.length (by omega)]
  rfl

theorem length_le_encode (t : List Char) : t.length ≤ (encode t).length := by
  induction t with
  | nil => exact le_rfl
  | cons c t ih =>
    have hpos : 1 ≤ (encodeChar c).length := by
      rw [encodeChar]
      split_ifs
      · exact le_rfl
      · exact Nat.le_succ 1
    rw [encode_cons, List.length_append, List.length_cons]
    omega

/-- the memory after the number was stored -/
def written (m : Mem) (result : ℕ) (v : ℤ) : Mem :=
  if result = 0 then m else { m with bytes := storeWord m.bytes result (UInt32.ofInt v) }

/-- what `scanInt:` gives when there is text -/
theorem scanInt_eq (hs : s.Valid) (hr : result = 0 ∨ m.InRange result 4) (ht : decode (s.string.drop s.start) = some t) :
    scanInt s m result = .ok (if signsAndDigits t = [] then (false, { s with pos := s.start }, m)
      else (true, { s with pos := s.start + (signsAndDigits t).length },
        written m result ((parseI32 (signsAndDigits t)).getD 0))) := by
  have hfit : s.start + (signsAndDigits t).length < 2 ^ 32 := by
    have hrun : (signsAndDigits t).length ≤ t.length := (List.takeWhile_prefix _).length_le
    have htext := length_le_encode t
    have hskip : ((s.string.drop s.pos).takeWhile s.toBeSkipped).length ≤ (s.string.drop s.pos).length :=
        (List.takeWhile_prefix _).length_le
    have hlen := hs.fits
    have hlength := hs.length
    have hinside := hs.inside
    rw [encode_of_decode ht, List.length_drop] at htext
    rw [List.length_drop] at hskip
    rw [NSScannerHostObject.start] at htext ⊢
    omega
  have hunwrap : unwrap (decode (s.string.drop s.start)) .utf16 = .ok t := by
    rw [ht]
    rfl
  rw [scanInt, skipCharacters_eq hs, ok_bind, hunwrap, ok_bind, take_cutoff, cutoff_eq]
  by_cases hnil : signsAndDigits t = []
  · rw [if_pos (List.length_eq_zero_iff.2 hnil), if_pos hnil]
    rfl
  · rw [if_neg fun h => hnil (List.length_eq_zero_iff.1 h), if_neg hnil]
    by_cases hresult : result = 0
    · rw [if_neg (not_not.2 hresult), written, if_pos hresult, pure_eq_ok, ok_bind, add32_ok hfit]
      rfl
    · rw [if_pos hresult, Mem.writeU32_ok (hr.resolve_left hresult), ok_bind, add32_ok hfit, written, if_neg hresult]
      rfl

theorem written_memory (m : Mem) (result : ℕ) (v : ℤ) (x : ℕ) (hx : result = 0 ∨ x < result ∨ result + 4 ≤ x) :
    (written m result v).bytes x = m.bytes x := by
  rw [written]
  split_ifs with hresult
  · rfl
  · exact storeWord_outside (hx.resolve_left hresult)

theorem ofInt_clamp (h : ¬InI32 v) : UInt32.ofInt 0 ≠ UInt32.ofInt (clamp v) := by
  rcases clamp_of_not_inI32 h with hv | hv <;> rw [hv] <;> decide

/-- the value that is stored is right when it is in range -/
theorem written_value (hne : leading t ≠ []) (hrun : signsAndDigits t = leading t) :
    (result ≠ 0 → loadWord (written m result ((parseI32 (signsAndDigits t)).getD 0)).bytes result =
      UInt32.ofInt (clamp (valueOf (leading t)))) ↔ result = 0 ∨ InI32 (valueOf (leading t)) := by
  by_cases hresult : result = 0
  · exact iff_of_true (fun h => absurd hresult h) (.inl hresult)
  · rw [imp_iff_right hresult, or_iff_right hresult, written, if_neg hresult, loadWord_storeWord, parse_run]
    by_cases hin : InI32 (valueOf (leading t))
    · rw [if_pos ⟨hne, hrun, hin⟩, clamp_of_inI32 hin]
      exact iff_of_true rfl hin
    · rw [if_neg fun h => hin h.2.2]
      exact iff_of_false (ofInt_clamp hin) hin

/-- **`scanInt:`** -/
theorem scanInt_iff (hs : s.Valid) (hr : result = 0 ∨ m.InRange result 4) :
    (∃ r, scanInt s m result = .ok r ∧ Scanned s m result r) ↔ ScanFits s result := by
  constructor
  · rintro ⟨r, hr', t, ht, hscanned⟩
    rw [scanInt_eq hs hr ht] at hr'
    cases hr'
    refine ⟨t, ht, ?_⟩
    have hstart := leading_run t
    split_ifs at hscanned with hnil
    · rw [hnil, List.prefix_nil] at hstart
      rw [hnil, hstart]
      refine ⟨rfl, fun _ => ?_, fun h => absurd rfl h⟩
      rcases hscanned with ⟨p, -, hstored⟩ | ⟨-, hsame⟩
      · exact absurd hstored.found Bool.false_ne_true
      · exact congrArg (fun r => r.2.1.pos) hsame
    · rcases hscanned with ⟨p, hp, hstored⟩ | ⟨-, hsame⟩
      · obtain rfl := hp.eq_leading
        have hlength := congrArg NSScannerHostObject.pos hstored.position
        have hrun : signsAndDigits t = leading t := (hstart.eq_of_length (Nat.add_left_cancel hlength).symm).symm
        have hne : leading t ≠ [] := hrun ▸ hnil
        exact ⟨hrun, fun h => absurd h hne, fun _ => (written_value hne hrun).1 hstored.value⟩
      · exact absurd (congrArg Prod.fst hsame) Bool.false_ne_true.symm
  · rintro ⟨t, ht, hrun, hstart, hrange⟩
    refine ⟨_, scanInt_eq hs hr ht, t, ht, ?_⟩
    by_cases hnil : leading t = []
    · rw [if_pos (hrun.trans hnil), hstart hnil]
      exact .inr ⟨fun p => no_number hnil, rfl⟩
    · rw [if_neg (hrun ▸ hnil)]
      refine .inl ⟨_, leading_longest hnil, rfl, ?_, (written_value hnil hrun).2 (hrange hnil), fun x hx =>
        written_memory _ _ _ _ hx⟩
      rw [hrun]

/-- **`intValue` and `scanInt:` read the longest number**, and scanners move as they are to move, exactly when the
signs and digits at the front make up a number that is in range, or there are none, or (for `intValue`) the number is 0
or (for `scanInt:`) not stored. -/
theorem int_iff (this : StringHostObject) (hs : s.Valid) (hr : result = 0 ∨ m.InRange result 4) :
    ((∃ v, intValue this = .ok v ∧ IntValue this v) ↔ IntFits this) ∧
      ((∃ r, scanInt s m result = .ok r ∧ Scanned s m result r) ↔ ScanFits s result) :=
  ⟨intValue_iff this, scanInt_iff hs hr⟩

/-- a scanner that skips spaces -/
def scannerOf (text : String) : NSScannerHostObject :=
  ⟨fun c => c == 0x20, encode text.toList, (encode text.toList).length, 0⟩

def emptyMemory : Mem := ⟨fun _ => 0, 0x1000⟩

theorem int_iff_42 : ((∃ v, intValue (.utf8 " -42 b".toList) = .ok v ∧ IntValue (.utf8 " -42 b".toList) v) ↔
      IntFits (.utf8 " -42 b".toList)) ∧
    ((∃ r, scanInt (scannerOf " -42 b") emptyMemory 0x1000 = .ok r ∧ Scanned (scannerOf " -42 b") emptyMemory 0x1000 r) ↔
      ScanFits (scannerOf " -42 b") 0x1000) :=
  int_iff (.utf8 " -42 b".toList) ⟨rfl, Nat.zero_le _, by decide⟩ (.inr ⟨le_rfl, by decide⟩)

/-- "12-3" is 0, and a scanner accepts "+", which is no number. -/
theorem signs_fail : intValue (.utf8 "12-3".toList) = .ok 0 ∧ ¬IntValue (.utf8 "12-3".toList) 0 ∧
    scanInt (scannerOf "+") emptyMemory 0 = .ok (true, { scannerOf "+" with pos := 1 }, emptyMemory) ∧
    ¬Scanned (scannerOf "+") emptyMemory 0 (true, { scannerOf "+" with pos := 1 }, emptyMemory) := by
  refine ⟨rfl, ?_, rfl, ?_⟩
  · rintro ⟨text, htext, hv⟩
    obtain rfl := Option.some.inj htext
    exact absurd (expected_iff.1 hv) (by decide)
  · rintro ⟨t, ht, hscanned⟩
    obtain rfl : t = ['+'] := (Option.some.inj ht).symm
    rcases hscanned with ⟨p, hp, -⟩ | ⟨-, hsame⟩
    · exact hp.number.nonempty (by rw [hp.eq_leading]; rfl)
    · exact absurd (congrArg Prod.fst hsame) Bool.false_ne_true.symm

end TouchHLE.IntScanning
