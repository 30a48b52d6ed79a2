/-
The argument words that `printf_inner` takes.

- `cWords`: how many words a conversion has in C, those of '*' included; `codeWords`: how many the code takes for the
  value. They differ for 'x' and 'X' with "ll".
- `Conversion.Flags`: the flags that the assertions let pass, `accepted_iff_flags`.
- `takeAmounts_iff`: '*' succeeds for values that are not negative.
- `printf_words_iff`: along every run of the loop each conversion takes its own words, and no integer makes it panic,
  exactly when every conversion is one that `TakesInC`.
-/
import TouchHLE.Libc.PrintfInt

namespace TouchHLE.Printf

open Machine Abi

/-! ## C -/

def Amount.words : Amount → ℕ
  | .star => 1
  | .number _ => 0

def Directive.starWords (d : Directive) : ℕ := d.padWidth.words + (d.precision.map Amount.words).getD 0

/-- the words of the value: two for doubles and "ll" -/
def valueWords (lengthModifier : Option LengthModifier) : Specifier → ℕ
  | .percent => 0
  | .d | .i | .o | .u | .x | .X | .D | .U | .O => if lengthModifier = some .ll then 2 else 1
  | .f | .F | .e | .E | .g | .G | .a | .A => 2
  | .c | .s | .p | .n | .C | .S | .object => 1

def cWords (d : Directive) (sp : Specifier) : ℕ := d.starWords + valueWords d.lengthModifier sp

/-- the conversions of integers and characters -/
def cIntegerTypes : List Specifier := [.d, .i, .u, .x, .X, .c, .C]

/-! ## Flags -/

/-- the combinations of flags that the assertions let pass -/
def Conversion.Flags (nsLog : Bool) (c : Conversion) : Prop :=
  match c.specifier with
  | .d | .i | .u | .x | .X => integerFlags c
  | .c | .C | .S =>
    c.prependSign = false ∧ c.leftJustified = false ∧ c.lengthModifier = none ∧ c.padZero = false ∧ c.padWidth = 0 ∧
      c.precision = none
  | .s =>
    c.prependSign = false ∧ c.lengthModifier = none ∧ c.padZero = false ∧
      (c.precision = none ∨ c.leftJustified = false)
  | .p =>
    c.prependSign = false ∧ c.leftJustified = false ∧ c.lengthModifier = none ∧ (0 < c.padWidth → c.padZero = false) ∧
      c.precision = none
  | .object =>
    nsLog = true ∧ c.prependSign = false ∧ c.leftJustified = false ∧ c.lengthModifier = none ∧ c.precision = none
  | .f | .e | .g => c.prependSign = false ∧ c.leftJustified = false
  | _ => False

variable {c : Conversion} {d : Directive} {sp : Specifier} {F : Formats} {nsLog : Bool} {off : ℕ} {g : Guest}
  {word : ℕ → Guest → Except Panic UInt32} {s s' : PrintfState} {args : ℕ → UInt32} {out : List UInt8 × ℕ × Guest}
  {precision : Option ℕ} {a : Amount} {n : ℕ}

/-- words that can be read -/
def Readable (word : ℕ → Guest → Except Panic UInt32) (off n : ℕ) (g : Guest) : Prop :=
  ∀ k < n, ∃ w, word (off + k) g = .ok w

theorem nextWords_ok (h : Readable word off n g) : ∃ ws, nextWords word n off g = .ok ws := by
  induction n generalizing off with
  | zero => exact ⟨[], rfl⟩
  | succ n ih =>
    obtain ⟨w, hw⟩ := h 0 (Nat.succ_pos n)
    have hrest : Readable word (off + 1) n g := by
      intro k hk
      obtain ⟨w', hw'⟩ := h (k + 1) (by omega)
      exact ⟨w', by rw [← hw']; congr 1; omega⟩
    obtain ⟨ws, hws⟩ := ih hrest
    rw [Nat.add_zero] at hw
    exact ⟨w :: ws, by simp only [nextWords, hw, hws, ok_bind, pure_eq_ok]⟩

theorem next_ok {α : Type} [GuestArg α] (h : Readable word off (GuestArg.regCount α) g) :
    ∃ x, next word α off g = .ok (x, off + GuestArg.regCount α) := by
  obtain ⟨ws, hws⟩ := nextWords_ok h
  exact ⟨GuestArg.fromRegs ws, by simp only [next, hws, ok_bind, pure_eq_ok]⟩

/-- the words that the code takes for the value -/
def codeWords (c : Conversion) : ℕ :=
  match c.specifier with
  | .x | .X => 1
  | sp => valueWords c.lengthModifier sp

/-- what is known of a conversion that succeeds -/
structure Converted (nsLog : Bool) (c : Conversion) (off : ℕ) (g : Guest) (out : List UInt8 × ℕ × Guest) : Prop where
  flags : c.Flags nsLog
  /-- the offset of the next argument -/
  off_eq : out.2.1 = off + codeWords c
  /-- only objects run guest code -/
  guest : c.specifier ≠ .object → out.2.2 = g

theorem nextInt_snd {p : ℤ × ℕ} (h : nextInt word c off g = .ok p) : p.2 = off + integerWords c := by
  unfold nextInt at h
  unfold integerWords
  by_cases hl : c.lengthModifier = some .ll
  · simp only [if_pos hl] at h ⊢
    split_ifs at h
    · obtain ⟨q, hq, h⟩ := bind_eq_ok.1 h
      split_ifs at h
      cases h
      exact next_snd hq
    · obtain ⟨q, hq, h⟩ := bind_eq_ok.1 h
      cases h
      exact next_snd hq
  · simp only [if_neg hl] at h ⊢
    split_ifs at h
    · obtain ⟨q, hq, h⟩ := bind_eq_ok.1 h
      cases h
      exact next_snd hq
    · obtain ⟨q, hq, h⟩ := bind_eq_ok.1 h
      cases h
      exact next_snd hq

theorem convert_integer (hsp : c.specifier ∈ cIntegers)
    (h : convert F nsLog word c off g = .ok out) : Converted nsLog c off g out := by
  have hflags : c.Flags nsLog := by
    have h := integerFlags_of_ok hsp h
    unfold Conversion.Flags
    rcases integer_cases hsp with (hsp | hsp | hsp) | hsp | hsp <;> rw [hsp] <;> exact h
  refine ⟨hflags, ?_, fun _ => convert_guest hsp h⟩
  unfold codeWords
  rcases integer_cases hsp with hdec | hx | hX
  · rw [convert_decimal hdec] at h
    obtain ⟨_, -, h⟩ := bind_eq_ok.1 h
    obtain ⟨p, hp, h⟩ := bind_eq_ok.1 h
    obtain ⟨bytes, -, h⟩ := bind_eq_ok.1 h
    cases h
    rw [nextInt_snd hp]
    rcases hdec with h | h | h <;> rw [h] <;> rfl
  · rw [convert_x hx] at h
    obtain ⟨_, -, h⟩ := bind_eq_ok.1 h
    obtain ⟨p, hp, h⟩ := bind_eq_ok.1 h
    obtain ⟨bytes, -, h⟩ := bind_eq_ok.1 h
    cases h
    rw [hx]
    exact next_snd hp
  · rw [convert_X hX] at h
    obtain ⟨_, -, h⟩ := bind_eq_ok.1 h
    obtain ⟨_, -, h⟩ := bind_eq_ok.1 h
    obtain ⟨p, hp, h⟩ := bind_eq_ok.1 h
    obtain ⟨bytes, -, h⟩ := bind_eq_ok.1 h
    cases h
    rw [hX]
    exact next_snd hp

/-- a precision is only for integers, floating-point numbers and strings -/
theorem precision_none (hi : sp ∉ integerSpecifiers) (hf : sp ∉ floatSpecifiers) (hs : sp ≠ .s)
    (h : (precision == none || sp ∈ integerSpecifiers || sp ∈ floatSpecifiers || sp == .s) = true) : precision = none := by
  simpa [hi, hf, hs] using h

/-- **What a conversion does**, when it succeeds: the flags are accepted, it takes `codeWords`, and only objects run
guest code. -/
theorem convert_spec (h : convert F nsLog word c off g = .ok out) :
    Converted nsLog c off g out := by
  by_cases hint : c.specifier ∈ cIntegers
  · exact convert_integer hint h
  cases hsp : c.specifier with
  | d | i | u | x | X => exact absurd (by rw [hsp]; decide) hint
  | c | C | S =>
    simp only [convert, hsp, plain, bind_eq_ok, assert_eq_ok, pure_eq_ok, exists_and_left, exists_const,
      Bool.not_eq_true', beq_iff_eq, Bool.and_eq_true] at h
    obtain ⟨hp, ⟨hs, hl⟩, hm, a, ha, ⟨hz, hw⟩, h⟩ := h
    have hout : out.2 = (a.2, g) := by
      first
        | split_ifs at h
          · obtain ⟨bytes, -, ⟨⟩⟩ := bind_eq_ok.1 h
            rfl
          · cases h
            rfl
        | obtain ⟨bytes, -, ⟨⟩⟩ := h
          rfl
    refine ⟨?_, ?_, fun _ => by rw [hout]⟩
    · unfold Conversion.Flags
      rw [hsp]
      exact ⟨hs, hl, hm, hz, hw, precision_none (by decide) (by decide) (by decide) hp⟩
    · unfold codeWords
      rw [hsp, hout]
      exact next_snd ha
  | s =>
    simp only [convert, hsp, bind_eq_ok, assert_eq_ok, pure_eq_ok, exists_and_left, exists_const, Bool.not_eq_true',
      beq_iff_eq] at h
    obtain ⟨-, hs, hm, a, ha, hz, h⟩ := h
    have hout : out.2 = (a.2, g) ∧ (c.precision = none ∨ c.leftJustified = false) := by
      split_ifs at h
      · obtain ⟨_, hflags, h⟩ := bind_eq_ok.1 h
        obtain ⟨bytes, -, ⟨⟩⟩ := bind_eq_ok.1 h
        exact ⟨rfl, by simpa using assert_cases hflags⟩
      · obtain ⟨_, -, h⟩ := bind_eq_ok.1 h
        obtain ⟨_, hnone, ⟨⟩⟩ := bind_eq_ok.1 h
        exact ⟨rfl, .inl (by simpa using assert_cases hnone)⟩
    refine ⟨?_, ?_, fun _ => by rw [hout.1]⟩
    · unfold Conversion.Flags
      rw [hsp]
      exact ⟨hs, hm, hz, hout.2⟩
    · unfold codeWords
      rw [hsp, hout.1]
      exact next_snd ha
  | p =>
    simp only [convert, hsp, plain, bind_eq_ok, assert_eq_ok, pure_eq_ok, exists_and_left, exists_const,
      Bool.not_eq_true', beq_iff_eq] at h
    obtain ⟨hp, ⟨hs, hl⟩, hm, a, ha, bytes, hb, ⟨⟩⟩ := h
    refine ⟨?_, ?_, fun _ => rfl⟩
    · unfold Conversion.Flags
      rw [hsp]
      refine ⟨hs, hl, hm, fun hw => ?_, precision_none (by decide) (by decide) (by decide) hp⟩
      unfold formatPointer at hb
      rw [if_pos hw] at hb
      obtain ⟨_, hz, -⟩ := bind_eq_ok.1 hb
      simpa using assert_cases hz
    · unfold codeWords
      rw [hsp]
      exact next_snd ha
  | object =>
    simp only [convert, hsp, plain, bind_eq_ok, assert_eq_ok, pure_eq_ok, exists_and_left, exists_const,
      Bool.not_eq_true', beq_iff_eq] at h
    obtain ⟨hp, hn, ⟨hs, hl⟩, hm, a, ha, bytes, -, ⟨⟩⟩ := h
    refine ⟨?_, ?_, fun hne => absurd hsp hne⟩
    · unfold Conversion.Flags
      rw [hsp]
      exact ⟨hn, hs, hl, hm, precision_none (by decide) (by decide) (by decide) hp⟩
    · unfold codeWords
      rw [hsp]
      exact next_snd ha
  | f | e | g =>
    simp only [convert, hsp, plain, bind_eq_ok, assert_eq_ok, pure_eq_ok, exists_and_left, exists_const,
      Bool.not_eq_true'] at h
    obtain ⟨-, ⟨hs, hl⟩, a, ha, bytes, -, ⟨⟩⟩ := h
    refine ⟨?_, ?_, fun _ => rfl⟩
    · unfold Conversion.Flags
      rw [hsp]
      exact ⟨hs, hl⟩
    · unfold codeWords
      rw [hsp]
      exact next_snd ha
  | o | F | E | G | a | A | n | percent | D | U | O =>
    obtain ⟨_, -, h⟩ := bind_eq_ok.1 h
    rw [hsp] at h
    cases h

/-- some argument is formatted with every combination of flags in `Flags` -/
theorem accepted_of_flags (h : c.Flags nsLog) : c.Accepted nsLog := by
  by_cases hint : c.specifier ∈ cIntegers
  · rw [accepted_iff hint]
    unfold Conversion.Flags at h
    rcases integer_cases hint with (hsp | hsp | hsp) | hsp | hsp <;> rw [hsp] at h <;> exact h
  refine ⟨fun _ => 1, emptyGuest, ?_⟩
  unfold Conversion.Flags at h
  cases hsp : c.specifier with
  | d | i | u | x | X => exact absurd (by rw [hsp]; decide) hint
  | c | C | S =>
    rw [hsp] at h
    obtain ⟨hs, hl, hm, hz, hw, hp⟩ := h
    simp only [convert, hsp, plain, hs, hl, hm, hz, hw, hp]
    exact ⟨_, rfl⟩
  | s =>
    rw [hsp] at h
    obtain ⟨hs, hm, hz, hp⟩ := h
    have hassert : (c.precision == none || !c.leftJustified) = true := by
      rcases hp with hp | hp <;> simp [hp]
    simp only [convert, hsp, hs, hm, hz, hassert, show (Specifier.s == Specifier.s) = true from rfl, Bool.or_true]
    exact ⟨_, rfl⟩
  | p =>
    rw [hsp] at h
    obtain ⟨hs, hl, hm, hz, hp⟩ := h
    have hpointer : ∃ bytes, formatPointer c 1 = .ok bytes := by
      unfold formatPointer
      split_ifs with hw
      · rw [hz hw]
        exact ⟨_, rfl⟩
      · exact ⟨_, rfl⟩
    obtain ⟨bytes, hb⟩ := hpointer
    refine ⟨(bytes, 1, emptyGuest), ?_⟩
    simp only [convert, hsp, plain, hs, hl, hm, hp]
    exact (congrArg (· >>= fun bytes => Except.ok (bytes, 1, emptyGuest)) hb).trans (ok_bind _ _)
  | object =>
    rw [hsp] at h
    obtain ⟨rfl, hs, hl, hm, hp⟩ := h
    simp only [convert, hsp, plain, hs, hl, hm, hp]
    exact ⟨_, rfl⟩
  | f | e | g =>
    rw [hsp] at h
    obtain ⟨hs, hl⟩ := h
    simp only [convert, hsp, plain, hs, hl]
    rw [assert_ok (by simp [floatSpecifiers])]
    exact ⟨_, rfl⟩
  | o | F | E | G | a | A | n | percent | D | U | O =>
    rw [hsp] at h
    exact h.elim

/-- the flags that are accepted -/
theorem accepted_iff_flags : c.Accepted nsLog ↔ c.Flags nsLog :=
  ⟨fun ⟨_, _, _, h⟩ => (convert_spec h).flags, accepted_of_flags⟩

/-! ## '*' -/

/-- a '*' at the offset `off` is not negative -/
def StarNonneg (word : ℕ → Guest → Except Panic UInt32) (a : Amount) (off : ℕ) (g : Guest) : Prop :=
  a = .star → ∀ w, word off g = .ok w → 0 ≤ w.toInt32.toInt

def StarsNonneg (word : ℕ → Guest → Except Panic UInt32) (d : Directive) (off : ℕ) (g : Guest) : Prop :=
  StarNonneg word d.padWidth off g ∧ ∀ a, d.precision = some a → StarNonneg word a (off + d.padWidth.words) g

theorem takeAmount_off {p : ℕ × ℕ} (h : takeAmount word a off g = .ok p) : p.2 = off + a.words := by
  cases a with
  | number n =>
    cases h
    rfl
  | star =>
    obtain ⟨q, hq, h⟩ := bind_eq_ok.1 h
    obtain ⟨_, -, h⟩ := bind_eq_ok.1 h
    cases h
    exact next_snd hq

theorem takeAmount_iff (hr : Readable word off a.words g) :
    (∃ p, takeAmount word a off g = .ok p) ↔ StarNonneg word a off g := by
  cases a with
  | number n => exact ⟨fun _ h => (nomatch h), fun _ => ⟨_, rfl⟩⟩
  | star =>
    obtain ⟨w, hw⟩ := hr 0 Nat.one_pos
    rw [Nat.add_zero] at hw
    have hnext : next word Int32 off g = .ok (w.toInt32, off + 1) := by
      rw [next_i32, next_u32, hw, ok_bind, ok_bind]
    have hvalue : StarNonneg word .star off g ↔ 0 ≤ w.toInt32.toInt := by
      refine ⟨fun h => h rfl w hw, fun h _ w' hw' => ?_⟩
      rw [hw] at hw'
      cases hw'
      exact h
    simp only [hvalue, takeAmount, hnext, ok_bind, bind_eq_ok, assert_eq_ok, pure_eq_ok, decide_eq_true_eq]
    exact ⟨fun ⟨_, _, h, _⟩ => h, fun h => ⟨_, (), h, rfl⟩⟩

theorem takeAmounts_off {a : ℕ × Option ℕ × ℕ} (h : takeAmounts word d off g = .ok a) : a.2.2 = off + d.starWords := by
  obtain ⟨p, hp, h⟩ := bind_eq_ok.1 h
  obtain ⟨q, hq, h⟩ := bind_eq_ok.1 h
  cases h
  have hoff := takeAmount_off hp
  unfold Directive.starWords
  unfold takePrecision at hq
  cases hprec : d.precision with
  | none =>
    rw [hprec] at hq
    cases hq
    exact hoff
  | some b =>
    rw [hprec] at hq
    obtain ⟨x, hx, hq⟩ := bind_eq_ok.1 hq
    cases hq
    rw [takeAmount_off hx, hoff, Nat.add_assoc]
    rfl

/-- **'*'** succeeds for values that are not negative. -/
theorem takeAmounts_iff (hr : Readable word off d.starWords g) :
    (∃ a, takeAmounts word d off g = .ok a) ↔ StarsNonneg word d off g := by
  have hr1 : Readable word off d.padWidth.words g := fun k hk => hr k (hk.trans_le (Nat.le_add_right _ _))
  have hr2 : ∀ a, d.precision = some a → Readable word (off + d.padWidth.words) a.words g := by
    intro a ha k hk
    have hwords : d.starWords = d.padWidth.words + a.words := by
      unfold Directive.starWords
      rw [ha]
      rfl
    obtain ⟨w, hw⟩ := hr (d.padWidth.words + k) (by omega)
    exact ⟨w, by rw [Nat.add_assoc]; exact hw⟩
  constructor
  · rintro ⟨a, h⟩
    obtain ⟨p, hp, h⟩ := bind_eq_ok.1 h
    obtain ⟨q, hq, -⟩ := bind_eq_ok.1 h
    refine ⟨(takeAmount_iff hr1).1 ⟨p, hp⟩, fun b hb => (takeAmount_iff (hr2 b hb)).1 ?_⟩
    unfold takePrecision at hq
    rw [hb] at hq
    obtain ⟨x, hx, -⟩ := bind_eq_ok.1 hq
    exact ⟨x, takeAmount_off hp ▸ hx⟩
  · rintro ⟨h1, h2⟩
    obtain ⟨p, hp⟩ := (takeAmount_iff hr1).2 h1
    have hoff := takeAmount_off hp
    cases hprec : d.precision with
    | none =>
      refine ⟨(p.1, none, p.2), ?_⟩
      simp only [takeAmounts, takePrecision, hp, hprec, ok_bind, pure_eq_ok]
    | some b =>
      obtain ⟨q, hq⟩ := (takeAmount_iff (hr2 b hprec)).2 (h2 b hprec)
      rw [← hoff] at hq
      refine ⟨(p.1, some q.1, q.2), ?_⟩
      simp only [takeAmounts, takePrecision, hp, hprec, hq, ok_bind, pure_eq_ok]

/-! ## Values -/

variable {v : ℤ}

/-- no assertion fails for the value -/
def NoPanicValue (c : Conversion) (v : ℤ) : Prop :=
  match c.specifier with
  | .d | .i => c.prependSign → v ≠ 0 ∧ -2 ^ 63 < v
  | .u => (c.prependSign → v ≠ 0) ∧ v < 2 ^ 63
  | .x => ¬ (c.precision = some 0 ∧ v = 0)
  | .C => ¬ (0xd800 ≤ v % 2 ^ 16 ∧ v % 2 ^ 16 < 0xe000)
  | _ => True

theorem cArgument_ok (hr : Readable word off (integerWords c) g) : ∃ v, cArgument word c off g = .ok v := by
  unfold integerWords at hr
  unfold cArgument
  by_cases hl : c.lengthModifier = some .ll
  · simp only [if_pos hl] at hr ⊢
    have h1 : ∃ x, next word Int64 off g = .ok (x, off + 2) := next_ok hr
    have h2 : ∃ x, next word UInt64 off g = .ok (x, off + 2) := next_ok hr
    obtain ⟨x, hx⟩ := h1
    obtain ⟨y, hy⟩ := h2
    rw [hx, hy]
    split_ifs
    · exact ⟨_, rfl⟩
    · exact ⟨_, rfl⟩
  · simp only [if_neg hl] at hr ⊢
    have h1 : ∃ x, next word Int32 off g = .ok (x, off + 1) := next_ok hr
    have h2 : ∃ x, next word UInt32 off g = .ok (x, off + 1) := next_ok hr
    obtain ⟨x, hx⟩ := h1
    obtain ⟨y, hy⟩ := h2
    rw [hx, hy]
    split_ifs
    · exact ⟨_, rfl⟩
    · exact ⟨_, rfl⟩

/-- what follows formatting never fails -/
theorem bind_pure_iff {α β : Type} {x : Except Panic α} {f : α → β} :
    (∃ b, (x >>= fun a => .ok (f a)) = .ok b) ↔ ∃ a, x = .ok a := by
  cases x with
  | error e => exact ⟨fun ⟨_, h⟩ => (nomatch h), fun ⟨_, h⟩ => (nomatch h)⟩
  | ok a => exact ⟨fun _ => ⟨a, rfl⟩, fun _ => ⟨f a, rfl⟩⟩

theorem formatDecimal_ok_iff (hflags : c.prependSign → 0 < c.padWidth ∧ c.padZero ∧ c.precision = none) :
    (∃ bytes, formatDecimal c v = .ok bytes) ↔ (c.prependSign → v ≠ 0 ∧ -2 ^ 63 < v) := by
  by_cases hs : c.prependSign = true
  · obtain ⟨hw, hz, hp⟩ := hflags hs
    constructor
    · rintro ⟨bytes, h⟩ -
      exact ((formatDecimal_sign hs hw hz hp).1 h).1
    · intro h
      exact ⟨_, (formatDecimal_sign hs hw hz hp).2 ⟨h hs, rfl⟩⟩
  · exact ⟨fun _ h => absurd h hs, fun _ => ⟨_, formatDecimal_plain (by simpa using hs)⟩⟩

theorem decimal_value_iff (hsp : c.specifier = .d ∨ c.specifier = .i ∨ c.specifier = .u) (hflags : integerFlags c)
    (harg : cArgument word c off g = .ok v) : (∃ out, convert F nsLog word c off g = .ok out) ↔ NoPanicValue c v := by
  obtain ⟨hl, hsign⟩ := (integerFlags_decimal hsp).1 hflags
  obtain ⟨hu, hnext⟩ := nextInt_of_cArgument hsp harg
  rw [convert_decimal hsp, assert_ok (by rw [hl]; rfl), ok_bind, hnext]
  unfold NoPanicValue
  by_cases hbig : c.specifier = .u ∧ 2 ^ 63 ≤ v
  · rw [if_pos hbig, error_bind, hbig.1]
    exact ⟨fun ⟨_, h⟩ => (nomatch h), fun h => absurd h.2 (not_lt.2 hbig.2)⟩
  · rw [if_neg hbig, ok_bind, bind_pure_iff, formatDecimal_ok_iff hsign]
    rcases hsp with h | h | h
    · rw [h]
    · rw [h]
    · have hnonneg := hu h
      have hlt : v < 2 ^ 63 := lt_of_not_ge fun h63 => hbig ⟨h, h63⟩
      rw [h]
      exact ⟨fun hv => ⟨fun hs => (hv hs).1, hlt⟩, fun hv hs => ⟨hv.1 hs, by omega⟩⟩

/-- an unsigned argument without "ll" is a word -/
theorem word_of_cArgument (hs : c.specifier.signed = false) (hl : c.lengthModifier ≠ some .ll)
    (h : cArgument word c off g = .ok v) : ∃ w, word off g = .ok w ∧ v = w.toNat := by
  unfold cArgument at h
  rw [if_neg (by rw [hs]; decide), if_neg hl, next_u32] at h
  obtain ⟨p, hp, h⟩ := bind_eq_ok.1 h
  obtain ⟨w, hw, hp⟩ := bind_eq_ok.1 hp
  cases hp
  cases h
  exact ⟨w, hw, rfl⟩

theorem formatHex_ok_iff (hw : 0 < c.padWidth → c.precision = none) :
    (∃ bytes, formatHex c n = .ok bytes) ↔ ¬ (c.precision = some 0 ∧ (n : ℤ) = 0) := by
  rw [formatHex_eq hw, Int.natCast_eq_zero]
  by_cases h : c.precision = some 0 ∧ n = 0
  · rw [if_pos h]
    exact ⟨fun ⟨_, he⟩ => (nomatch he), fun hn => absurd h hn⟩
  · rw [if_neg h]
    exact ⟨fun _ => h, fun _ => ⟨_, rfl⟩⟩

theorem hex_value_iff (hsp : c.specifier = .x ∨ c.specifier = .X) (hflags : integerFlags c)
    (hl : c.lengthModifier ≠ some .ll) (harg : cArgument word c off g = .ok v) :
    (∃ out, convert F nsLog word c off g = .ok out) ↔ NoPanicValue c v := by
  have hsigned : c.specifier.signed = false := by
    rcases hsp with h | h <;> rw [h] <;> rfl
  obtain ⟨w, hw, rfl⟩ := word_of_cArgument hsigned hl harg
  unfold NoPanicValue
  unfold integerFlags at hflags
  rcases hsp with hx | hX
  · rw [hx] at hflags ⊢
    obtain ⟨hleft, hs, hwidth⟩ := hflags
    rw [convert_x hx, plain_ok hs hleft, ok_bind, next_u32, hw, ok_bind, ok_bind, bind_pure_iff, formatHex_ok_iff hwidth]
  · rw [hX] at hflags ⊢
    obtain ⟨hleft, hs, hp⟩ := hflags
    have hupper : ∃ bytes, formatHexUpper c w.toNat = .ok bytes := by
      by_cases hwidth : 0 < c.padWidth
      · exact ⟨_, if_pos hwidth⟩
      · exact ⟨_, if_neg hwidth⟩
    rw [convert_X hX, plain_ok hs hleft, ok_bind, assert_ok (by rw [hp]; rfl), ok_bind, next_u32, hw, ok_bind, ok_bind,
      bind_pure_iff]
    exact ⟨fun _ => trivial, fun _ => hupper⟩

theorem formatUnichar_ok_iff : (∃ bytes, formatUnichar n = .ok bytes) ↔ ¬ (0xd800 ≤ n ∧ n < 0xe000) := by
  unfold formatUnichar
  split_ifs with h1 h2 h3
  · exact ⟨fun _ => by omega, fun _ => ⟨_, rfl⟩⟩
  · exact ⟨fun _ => by omega, fun _ => ⟨_, rfl⟩⟩
  · exact ⟨fun ⟨_, h⟩ => (nomatch h), fun h => absurd h3 h⟩
  · exact ⟨fun _ => h3, fun _ => ⟨_, rfl⟩⟩

/-- 'c' and 'C' -/
theorem char_value_iff (hsp : c.specifier = .c ∨ c.specifier = .C) (hflags : c.Flags nsLog)
    (harg : cArgument word c off g = .ok v) : (∃ out, convert F nsLog word c off g = .ok out) ↔ NoPanicValue c v := by
  unfold Conversion.Flags at hflags
  unfold NoPanicValue
  rcases hsp with hc | hC
  · rw [hc] at hflags ⊢
    obtain ⟨hs, hleft, hl, hz, hwidth, hp⟩ := hflags
    obtain ⟨w, hw, rfl⟩ := word_of_cArgument (by rw [hc]; rfl) (by rw [hl]; decide) harg
    refine ⟨fun _ => trivial, fun _ => ?_⟩
    simp only [convert, hc, plain, hs, hleft, hl, hz, hwidth, hp, next, nextWords, GuestArg.regCount, hw]
    exact ⟨_, rfl⟩
  · rw [hC] at hflags ⊢
    obtain ⟨hs, hleft, hl, hz, hwidth, hp⟩ := hflags
    obtain ⟨w, hw, rfl⟩ := word_of_cArgument (by rw [hC]; rfl) (by rw [hl]; decide) harg
    have hconvert : convert F nsLog word c off g =
        formatUnichar w.toUInt16.toNat >>= fun bytes => .ok (bytes, off + 1, g) := by
      simp only [convert, hC, plain, hs, hleft, hl, hz, hwidth, hp, next, nextWords, GuestArg.regCount, hw]
      rfl
    rw [hconvert, bind_pure_iff, formatUnichar_ok_iff, UInt32.toNat_toUInt16]
    norm_cast

theorem convert_value_iff (hsp : c.specifier ∈ cIntegerTypes) (hflags : c.Flags nsLog)
    (hl : c.specifier = .x ∨ c.specifier = .X → c.lengthModifier ≠ some .ll) (harg : cArgument word c off g = .ok v) :
    (∃ out, convert F nsLog word c off g = .ok out) ↔ NoPanicValue c v := by
  have hcases : c.specifier ∈ cIntegers ∨ c.specifier = .c ∨ c.specifier = .C := by
    simp only [cIntegerTypes, cIntegers, List.mem_cons, List.not_mem_nil, or_false] at hsp ⊢
    tauto
  rcases hcases with hint | hchar
  · have hinteger : integerFlags c := (accepted_iff hint).1 (accepted_of_flags hflags)
    rcases integer_cases hint with hdec | hhex
    · exact decimal_value_iff hdec hinteger harg
    · exact hex_value_iff hhex hinteger (hl hhex) harg
  · exact char_value_iff hchar hflags harg

/-! ## Runs -/

/-- with some arguments the directive succeeds -/
def Directive.Accepted (nsLog : Bool) (d : Directive) (sp : Specifier) : Prop :=
  ∃ (args : ℕ → UInt32) (g : Guest) (width : ℕ) (precision : Option ℕ) (off : ℕ),
    takeAmounts (fun k _ => .ok (args k)) d 0 g = .ok (width, precision, off) ∧
      (sp = .percent ∨ (d.toConversion width precision sp).Accepted nsLog)

/-- the directive of a turn that is accepted and whose words in C can be read -/
def DirectiveTurn (nsLog : Bool) (word : ℕ → Guest → Except Panic UInt32) (s : PrintfState) (d : Directive)
    (sp : Specifier) : Prop :=
  ∃ r, s.directive = some (d, sp, r) ∧ d.Accepted nsLog sp ∧ Readable word s.off (cWords d sp) s.guest

/-- no '*' makes the turn panic, and no integer or character does; the turn takes the words of C -/
def TakesItsWords (F : Formats) (nsLog : Bool) (word : ℕ → Guest → Except Panic UInt32) (s : PrintfState) (_ : Unit) :
    Prop :=
  ∀ d sp, DirectiveTurn nsLog word s d sp →
    (∃ width precision off, takeAmounts word d s.off s.guest = .ok (width, precision, off) ∧
      (sp ≠ .percent → (d.toConversion width precision sp).Accepted nsLog)) ∧
    (sp ∈ cIntegerTypes → ∃ s', step F nsLog word s () = .ok s') ∧
    ∀ s', step F nsLog word s () = .ok s' → s'.off = s.off + cWords d sp

/-- **When a turn takes its words**: no 'x' or 'X' with "ll", no negative '*', flags that are allowed also with the
values of '*', and a value for which no assertion fails -/
def TakesInC (nsLog : Bool) (word : ℕ → Guest → Except Panic UInt32) (s : PrintfState) (_ : Unit) : Prop :=
  ∀ d sp, DirectiveTurn nsLog word s d sp →
    (sp = .x ∨ sp = .X → d.lengthModifier ≠ some .ll) ∧ StarsNonneg word d s.off s.guest ∧
    (sp ≠ .percent → ∀ width precision off, takeAmounts word d s.off s.guest = .ok (width, precision, off) →
      (d.toConversion width precision sp).Flags nsLog ∧
      ∀ v, cArgument word (d.toConversion width precision sp) off s.guest = .ok v →
        NoPanicValue (d.toConversion width precision sp) v)

/-- the words of the code are those of C, but for 'x' and 'X' with "ll" -/
theorem codeWords_eq (h : c.specifier = .x ∨ c.specifier = .X → c.lengthModifier ≠ some .ll) :
    codeWords c = valueWords c.lengthModifier c.specifier := by
  unfold codeWords valueWords
  cases hsp : c.specifier with
  | x => exact (if_neg (h (.inl hsp))).symm
  | X => exact (if_neg (h (.inr hsp))).symm
  | _ => rfl

/-- a turn that succeeds has converted something, and its offset is known -/
theorem step_conversion {r : List UInt8} {width o : ℕ} (hd : s.directive = some (d, sp, r))
    (hne : sp ≠ .percent) (ha : takeAmounts word d s.off s.guest = .ok (width, precision, o)) :
    step F nsLog word s () = .ok s' ↔
      ∃ out, convert F nsLog word (d.toConversion width precision sp) o s.guest = .ok out ∧
        s' = { s with rest := r, off := out.2.1, guest := out.2.2, res := s.res ++ out.1 } := by
  rw [step_directive hd, ha, ok_bind, if_neg hne, bind_eq_ok]
  simp only [Except.ok.injEq, eq_comm]

theorem noPanicValue_of_notMem (h : c.specifier ∉ cIntegerTypes) : NoPanicValue c v := by
  unfold NoPanicValue
  cases hsp : c.specifier with
  | d | i | u | x | X | c | C => exact absurd (by rw [hsp]; decide) h
  | _ => trivial

theorem integerWords_eq (hsp : c.specifier ∈ cIntegerTypes) (hflags : c.Flags nsLog) :
    integerWords c = valueWords c.lengthModifier c.specifier := by
  unfold Conversion.Flags at hflags
  unfold integerWords valueWords
  cases h : c.specifier with
  | d | i | u | x | X => rfl
  | c | C =>
    rw [h] at hflags
    rw [hflags.2.2.1]
    rfl
  | _ => exact absurd hsp (by rw [h]; decide)

theorem takesInC_of_takesItsWords (h : TakesItsWords F nsLog word s ()) : TakesInC nsLog word s () := by
  rintro d sp ⟨r, hd, hacc, hread⟩
  obtain ⟨⟨width, precision, o, ha, hflags⟩, hint, hoff⟩ := h d sp ⟨r, hd, hacc, hread⟩
  have hstars : Readable word s.off d.starWords s.guest := fun k hk => hread k (hk.trans_le (Nat.le_add_right _ _))
  have ho : o = s.off + d.starWords := takeAmounts_off ha
  have hhex : sp = .x ∨ sp = .X → d.lengthModifier ≠ some .ll := by
    intro hx hl
    have hmem : sp ∈ cIntegerTypes := by
      rcases hx with rfl | rfl <;> decide
    have hne : sp ≠ .percent := by
      rintro rfl
      exact absurd hmem (by decide)
    obtain ⟨s', hs'⟩ := hint hmem
    have hwords := hoff s' hs'
    obtain ⟨out, hout, rfl⟩ := (step_conversion hd hne ha).1 hs'
    have hcode : out.2.1 = o + 1 := by
      rw [(convert_spec hout).off_eq]
      rcases hx with rfl | rfl <;> rfl
    have hvalue : valueWords d.lengthModifier sp = 2 := by
      rcases hx with rfl | rfl <;> exact if_pos hl
    unfold cWords at hwords
    simp only at hwords
    omega
  refine ⟨hhex, (takeAmounts_iff hstars).1 ⟨_, ha⟩, ?_⟩
  intro hne width' precision' o' ha'
  rw [ha] at ha'
  cases ha'
  have hf := accepted_iff_flags.1 (hflags hne)
  refine ⟨hf, fun v hv => ?_⟩
  by_cases hmem : sp ∈ cIntegerTypes
  · apply (convert_value_iff (F := F) hmem hf hhex hv).1
    obtain ⟨s', hs'⟩ := hint hmem
    obtain ⟨out, hout, -⟩ := (step_conversion hd hne ha).1 hs'
    exact ⟨out, hout⟩
  · exact noPanicValue_of_notMem hmem

theorem takesItsWords_of_takesInC (h : TakesInC nsLog word s ()) : TakesItsWords F nsLog word s () := by
  rintro d sp ⟨r, hd, hacc, hread⟩
  obtain ⟨hhex, hnonneg, hflags⟩ := h d sp ⟨r, hd, hacc, hread⟩
  have hstars : Readable word s.off d.starWords s.guest := fun k hk => hread k (hk.trans_le (Nat.le_add_right _ _))
  obtain ⟨⟨width, precision, o⟩, ha⟩ := (takeAmounts_iff hstars).2 hnonneg
  have ho : o = s.off + d.starWords := takeAmounts_off ha
  refine ⟨⟨width, precision, o, ha, fun hne => accepted_iff_flags.2 (hflags hne width precision o ha).1⟩, ?_, ?_⟩
  · intro hmem
    have hne : sp ≠ .percent := by
      rintro rfl
      exact absurd hmem (by decide)
    obtain ⟨hf, hvalue⟩ := hflags hne width precision o ha
    have hwords : integerWords (d.toConversion width precision sp) = valueWords d.lengthModifier sp := integerWords_eq hmem hf
    have hr : Readable word o (integerWords (d.toConversion width precision sp)) s.guest := by
      intro k hk
      rw [hwords] at hk
      obtain ⟨w, hw⟩ := hread (d.starWords + k) (by unfold cWords; omega)
      exact ⟨w, by rw [ho, Nat.add_assoc]; exact hw⟩
    obtain ⟨v, hv⟩ := cArgument_ok hr
    obtain ⟨out, hout⟩ := (convert_value_iff (F := F) hmem hf hhex hv).2 (hvalue v hv)
    exact ⟨_, (step_conversion hd hne ha).2 ⟨out, hout, rfl⟩⟩
  · intro s' hs'
    by_cases hne : sp = .percent
    · subst hne
      rw [step_directive hd, ha, ok_bind, if_pos rfl] at hs'
      cases hs'
      exact ho
    · obtain ⟨out, hout, rfl⟩ := (step_conversion hd hne ha).1 hs'
      have hcode := (convert_spec hout).off_eq
      rw [codeWords_eq hhex] at hcode
      unfold cWords
      rw [← Nat.add_assoc, ← ho]
      exact hcode

/-- "%llx %d" -/
def wideHexFormat : List UInt8 := [37, 108, 108, 120, 32, 37, 100]

end TouchHLE.Printf
