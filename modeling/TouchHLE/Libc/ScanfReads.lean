/-
The loops of the scanner over a source with known input: a string, in which an index is a position, or a stream, which
has a position of its own.

- `Reads`: what the loops need of a source. `ended` is what it gives at its end, NUL or nothing.
- `spacesLoop_reads`, `countWhitespace_reads`, `setLoop_reads`, `stringLoop_reads`: each loop takes the longest prefix of
  its kind and leaves the source after it.
- `floatChars`: the characters of a floating-point number; `floatStages_reads`: the stages take just these.
-/
import TouchHLE.Libc.Scanf

namespace TouchHLE.Scanf

open Machine

/-- `At st idx r`: in the state `st` the characters from the index `idx` on are `r`. Reading moves on, and pushing back
what has been read restores the state. -/
structure Reads {σ : Type} (src : Source σ) (ended : Option UInt8) (At : σ → ℕ → List UInt8 → Prop) : Prop where
  next : ∀ {st idx c r}, At st idx (c :: r) →
    ∃ st', src.getcAt st idx = .ok (some c, st') ∧ src.ungetc st' c = .ok st ∧ At st' (idx + 1) r
  last : ∀ {st idx}, At st idx [] → src.getcAt st idx = .ok (ended, st) ∧ ∀ c, ended = some c → src.ungetc st c = .ok st
  ends : ended = none ∨ ended = some 0
  noNul : ∀ {st idx r}, At st idx r → ∀ c ∈ r, c ≠ 0
  small : ∀ {st idx r}, At st idx r → idx + r.length < 2 ^ 32

/-- the next character, or what the end gives -/
def nextOr (ended : Option UInt8) (r : List UInt8) : Option UInt8 := r.head?.or ended

/-- the next character of `r` has been read: the state is `st'`, and `st` when it is pushed back -/
structure Ahead {σ : Type} (src : Source σ) (ended : Option UInt8) (At : σ → ℕ → List UInt8 → Prop) (idx : ℕ)
    (r : List UInt8) (st st' : σ) : Prop where
  here : At st idx r
  get : src.getcAt st idx = .ok (nextOr ended r, st')
  back : ∀ c, nextOr ended r = some c → src.ungetc st' c = .ok st
  same : nextOr ended r = none → st' = st

section

variable {σ : Type} {src : Source σ} {ended : Option UInt8} {At : σ → ℕ → List UInt8 → Prop} {st st₁ : σ}
  {idx offset fuel : ℕ} {r chars : List UInt8} {c cc curr : UInt8}

theorem nextOr_none (h : nextOr ended r = none) : r = [] := by
  cases r with
  | nil => rfl
  | cons => cases h

@[simp] theorem nextOr_cons : nextOr ended (c :: r) = some c := rfl

@[simp] theorem nextOr_nil : nextOr ended [] = ended := rfl

/-- one character ahead -/
theorem Reads.peek (h : Reads src ended At) (hat : At st idx r) : ∃ st', Ahead src ended At idx r st st' := by
  cases r with
  | nil =>
    obtain ⟨hget, hback⟩ := h.last hat
    exact ⟨st, hat, hget, hback, fun _ => rfl⟩
  | cons c r =>
    obtain ⟨st', hget, hback, -⟩ := h.next hat
    refine ⟨st', hat, hget, ?_, fun hc => (nomatch hc)⟩
    intro c' hc
    cases hc
    exact hback

/-- the character ahead is taken -/
theorem Reads.taken (h : Reads src ended At) (ha : Ahead src ended At idx (c :: r) st st₁) : At st₁ (idx + 1) r := by
  obtain ⟨st', hget, -, hnext⟩ := h.next ha.here
  have heq := ha.get
  rw [hget] at heq
  cases heq
  exact hnext

/-- reading at the end gives NUL, if it gives something -/
theorem Reads.last_some (h : Reads src ended At) (hcc : nextOr ended [] = some cc) : cc = 0 := by
  rcases h.ends with he | he
  · rw [nextOr_nil, he] at hcc
    cases hcc
  · rw [nextOr_nil, he] at hcc
    exact (Option.some.inj hcc).symm

theorem Reads.fuel_succ (h : Reads src ended At) (hat : At st idx r) (hf : 2 ^ 32 ≤ idx + fuel) : ∃ f, fuel = f + 1 := by
  have hsmall := h.small hat
  exact ⟨fuel - 1, by omega⟩

/-! ## White space -/

/-- **The loops over white space** stop at the first other character, which has been read then. -/
theorem spacesLoop_reads (h : Reads src ended At) (ha : Ahead src ended At idx r st st₁) (hcc : nextOr ended r = some cc)
    (hf : 2 ^ 32 ≤ idx + fuel) :
    ∃ st₂ st₃, spacesLoop src fuel idx cc st₁ =
        .ok (idx + (r.takeWhile isspaceInner).length, nextOr ended (r.dropWhile isspaceInner), st₂) ∧
      Ahead src ended At (idx + (r.takeWhile isspaceInner).length) (r.dropWhile isspaceInner) st₃ st₂ := by
  induction r generalizing st idx fuel st₁ cc with
  | nil =>
    obtain ⟨fuel, rfl⟩ := h.fuel_succ ha.here hf
    obtain rfl := h.last_some hcc
    refine ⟨st₁, st, ?_, ha⟩
    simp only [spacesLoop, isspaceInner_zero, Bool.false_eq_true, if_false, pure_eq_ok, List.takeWhile_nil,
      List.dropWhile_nil, List.length_nil, Nat.add_zero, hcc]
  | cons c r ih =>
    obtain ⟨fuel, rfl⟩ := h.fuel_succ ha.here hf
    obtain rfl : c = cc := Option.some.inj hcc
    by_cases hc : isspaceInner c = true
    · rw [List.takeWhile_cons_of_pos hc, List.dropWhile_cons_of_pos hc, List.length_cons, ← Nat.add_assoc,
        Nat.add_right_comm]
      obtain ⟨st₂, hahead⟩ := h.peek (h.taken ha)
      cases hx : nextOr ended r with
      | none =>
        obtain rfl := nextOr_none hx
        refine ⟨st₂, st₁, ?_, hahead⟩
        simp only [spacesLoop, hc, if_true, hahead.get, ok_bind, hx, pure_eq_ok, List.takeWhile_nil, List.dropWhile_nil,
          List.length_nil, Nat.add_zero]
      | some cc =>
        have hf' : 2 ^ 32 ≤ idx + 1 + fuel := by omega
        obtain ⟨st₃, st₄, hloop, hrest⟩ := ih hahead hx hf'
        refine ⟨st₃, st₄, ?_, hrest⟩
        simp only [spacesLoop, hc, if_true, hahead.get, hx, ok_bind, hloop]
    · rw [List.takeWhile_cons_of_neg hc, List.dropWhile_cons_of_neg hc, List.length_nil, Nat.add_zero]
      refine ⟨st₁, st, ?_, ha⟩
      simp only [spacesLoop, hc, Bool.false_eq_true, if_false, pure_eq_ok, nextOr_cons, Nat.add_zero]

/-- counting white space where there is none -/
theorem countWhitespace_reads (h : Reads src ended At) (hat : At st idx r) (hspace : r.takeWhile isspaceInner = [])
    (hr : r ≠ [] ∨ ended = some 0) : src.countWhitespaceGeneric st idx = .ok (.ok 0, st) := by
  obtain ⟨st₁, ha⟩ := h.peek hat
  have hroom : 2 ^ 32 ≤ idx + (2 ^ 32 - idx) := by omega
  obtain ⟨fuel, hfuel⟩ := h.fuel_succ hat hroom
  rw [Source.countWhitespaceGeneric, hfuel]
  have hnext : ∃ c, nextOr ended r = some c ∧ isspaceInner c = false := by
    cases r with
    | nil => exact ⟨0, hr.resolve_left fun hne => hne rfl, isspaceInner_zero⟩
    | cons c r =>
      refine ⟨c, rfl, ?_⟩
      by_contra hc
      rw [List.takeWhile_cons_of_pos (by simpa using hc)] at hspace
      cases hspace
  obtain ⟨c, hc, hcs⟩ := hnext
  simp only [Source.countWhitespaceLoop, ha.get, ok_bind, hc, hcs, Bool.false_eq_true, if_false, ha.back c hc, pure_eq_ok,
    Nat.sub_self]

/-! ## Texts -/

/-- **The loop over a set** takes the longest prefix of accepted characters. -/
theorem setLoop_reads (h : Reads src ended At) (hat : At st idx r) (set : CharSet) (hf : 2 ^ 32 ≤ idx + fuel)
    (hr : r.dropWhile set.accepts ≠ [] ∨ ended = some 0) :
    ∃ st', setLoop src set fuel idx chars st =
        .ok (chars ++ r.takeWhile set.accepts, idx + (r.takeWhile set.accepts).length, st') ∧
      At st' (idx + (r.takeWhile set.accepts).length) (r.dropWhile set.accepts) := by
  induction r generalizing st idx fuel chars with
  | nil =>
    obtain ⟨fuel, rfl⟩ := h.fuel_succ hat hf
    obtain ⟨hlast, hback⟩ := h.last hat
    obtain he := hr.resolve_left fun hne => hne rfl
    refine ⟨st, ?_, hat⟩
    simp only [setLoop, hlast, ok_bind, he, bne_self_eq_false, Bool.and_false, Bool.false_eq_true, if_false, hback 0 he,
      pure_eq_ok, List.takeWhile_nil, List.append_nil, List.length_nil, Nat.add_zero]
  | cons c r ih =>
    obtain ⟨fuel, rfl⟩ := h.fuel_succ hat hf
    obtain ⟨st', hget, hback, hnext⟩ := h.next hat
    have hne : (c != 0) = true := bne_iff_ne.2 (h.noNul hat c List.mem_cons_self)
    by_cases hc : set.accepts c = true
    · rw [List.dropWhile_cons_of_pos hc] at hr
      rw [List.takeWhile_cons_of_pos hc, List.dropWhile_cons_of_pos hc, List.length_cons, ← Nat.add_assoc,
        Nat.add_right_comm]
      have hf' : 2 ^ 32 ≤ idx + 1 + fuel := by omega
      obtain ⟨st₂, hloop, hrest⟩ := @ih _ _ _ (chars ++ [c]) hnext hf' hr
      refine ⟨st₂, ?_, hrest⟩
      simp only [setLoop, hget, ok_bind, hc, hne, Bool.and_self, if_true, hloop, List.append_assoc, List.singleton_append]
    · rw [List.takeWhile_cons_of_neg hc, List.dropWhile_cons_of_neg hc, List.length_nil, Nat.add_zero]
      refine ⟨st, ?_, hat⟩
      simp only [setLoop, hget, ok_bind, hc, Bool.false_and, Bool.false_eq_true, if_false, hback, pure_eq_ok,
        List.append_nil, Nat.add_zero]

/-- at the end of a stream it panics -/
theorem setLoop_ended (h : Reads src none At) (hat : At st idx r) (set : CharSet) (hf : 2 ^ 32 ≤ idx + fuel)
    (hr : r.dropWhile set.accepts = []) : setLoop src set fuel idx chars st = .error .endOfInput := by
  induction r generalizing st idx fuel chars with
  | nil =>
    obtain ⟨fuel, rfl⟩ := h.fuel_succ hat hf
    simp only [setLoop, (h.last hat).1, ok_bind]
    rfl
  | cons c r ih =>
    obtain ⟨fuel, rfl⟩ := h.fuel_succ hat hf
    obtain ⟨st', hget, hback, hnext⟩ := h.next hat
    have hne : (c != 0) = true := bne_iff_ne.2 (h.noNul hat c List.mem_cons_self)
    by_cases hc : set.accepts c = true
    · rw [List.dropWhile_cons_of_pos hc] at hr
      simp only [setLoop, hget, ok_bind, hc, hne, Bool.and_self, if_true]
      exact ih hnext (by omega) hr
    · rw [List.dropWhile_cons_of_neg hc] at hr
      cases hr

def notSpace (c : UInt8) : Bool := !isspaceInner c

/-- **The loop of 's'** takes everything up to white space. -/
theorem stringLoop_reads (h : Reads src ended At) (hat : At st idx r) (hf : 2 ^ 32 ≤ idx + fuel) :
    ∃ st', stringLoop src fuel idx chars st =
        .ok (chars ++ r.takeWhile notSpace, idx + (r.takeWhile notSpace).length, st') ∧
      At st' (idx + (r.takeWhile notSpace).length) (r.dropWhile notSpace) := by
  induction r generalizing st idx fuel chars with
  | nil =>
    obtain ⟨fuel, rfl⟩ := h.fuel_succ hat hf
    refine ⟨st, ?_, hat⟩
    simp only [stringLoop, (h.last hat).1, ok_bind]
    rcases h.ends with he | he <;> subst he <;>
      simp [isspaceInner_zero]
  | cons c r ih =>
    obtain ⟨fuel, rfl⟩ := h.fuel_succ hat hf
    obtain ⟨st', hget, hback, hnext⟩ := h.next hat
    have hne : c ≠ 0 := h.noNul hat c List.mem_cons_self
    by_cases hc : isspaceInner c = true
    · have hn : ¬ notSpace c = true := by simp [notSpace, hc]
      rw [List.takeWhile_cons_of_neg hn, List.dropWhile_cons_of_neg hn, List.length_nil, Nat.add_zero]
      refine ⟨st, ?_, hat⟩
      simp only [stringLoop, hget, ok_bind, hc, if_true, hback, pure_eq_ok, List.append_nil, Nat.add_zero]
    · have hn : notSpace c = true := by simpa [notSpace] using hc
      rw [List.takeWhile_cons_of_pos hn, List.dropWhile_cons_of_pos hn, List.length_cons, ← Nat.add_assoc,
        Nat.add_right_comm]
      have hf' : 2 ^ 32 ≤ idx + 1 + fuel := by omega
      obtain ⟨st₂, hloop, hrest⟩ := @ih _ _ _ (chars ++ [c]) hnext hf'
      refine ⟨st₂, ?_, hrest⟩
      simp only [stringLoop, hget, ok_bind, hc, Bool.false_eq_true, if_false, hne, hloop, List.append_assoc,
        List.singleton_append]

/-! ## Floating-point numbers -/

end

/-- a sign or a digit, and digits -/
def signChars : List UInt8 → List UInt8
  | [] => []
  | c :: r => if isSign c || isDigit 10 c then c :: r.takeWhile (isDigit 10) else []

/-- '.', and digits -/
def fractionChars : List UInt8 → List UInt8
  | [] => []
  | c :: r => if c = 46 then c :: r.takeWhile (isDigit 10) else []

/-- 'e' or 'E', a sign and digits -/
def exponentChars : List UInt8 → List UInt8
  | [] => []
  | c :: r => if c = 101 ∨ c = 69 then c :: signChars r else []

/-- the characters that may be those of a floating-point number -/
def floatChars (r : List UInt8) : List UInt8 :=
  let r₁ := r.drop (signChars r).length
  let r₂ := r₁.drop (fractionChars r₁).length
  signChars r ++ fractionChars r₁ ++ exponentChars r₂

section

variable {σ : Type} {src : Source σ} {ended : Option UInt8} {At : σ → ℕ → List UInt8 → Prop} {st st₁ : σ}
  {idx offset fuel : ℕ} {r chars : List UInt8} {c cc curr : UInt8}

/-- what a stage leaves: it has taken the characters `taken` of `r`, and one more character has been read -/
def Staged (src : Source σ) (ended : Option UInt8) (At : σ → ℕ → List UInt8 → Prop) (offset : ℕ)
    (chars taken r : List UInt8) (x : Except Panic (List UInt8 × Option UInt8 × σ)) : Prop :=
  ∃ st₂ st₃, x = .ok (chars ++ taken, nextOr ended (r.drop taken.length), st₂) ∧
    Ahead src ended At (offset + (chars ++ taken).length) (r.drop taken.length) st₃ st₂

/-- a stage that takes nothing -/
theorem staged_nil (ha : Ahead src ended At (offset + chars.length) r st st₁) :
    Staged src ended At offset chars [] r (.ok (chars, nextOr ended r, st₁)) :=
  ⟨st₁, st, by rw [List.append_nil]; rfl, by rw [List.append_nil]; exact ha⟩

/-- a stage that goes on after one character -/
theorem Staged.cons {taken : List UInt8} {x : Except Panic (List UInt8 × Option UInt8 × σ)}
    (hx : Staged src ended At offset (chars ++ [c]) taken r x) : Staged src ended At offset chars (c :: taken) (c :: r) x := by
  obtain ⟨st₂, st₃, heq, ha⟩ := hx
  rw [List.append_assoc, List.singleton_append] at heq ha
  exact ⟨st₂, st₃, heq, ha⟩

theorem floatDigits_reads (h : Reads src ended At) (ha : Ahead src ended At (offset + chars.length) r st st₁)
    (hcc : nextOr ended r = some curr) (hf : 2 ^ 32 ≤ offset + chars.length + fuel) :
    Staged src ended At offset chars (r.takeWhile (isDigit 10)) r (floatDigits src offset fuel chars curr st₁) := by
  induction r generalizing st fuel st₁ curr chars with
  | nil =>
    obtain ⟨fuel, rfl⟩ := h.fuel_succ ha.here hf
    obtain rfl := h.last_some hcc
    simp only [floatDigits, isDigit_zero, Bool.false_eq_true, if_false, pure_eq_ok]
    rw [← hcc]
    exact staged_nil ha
  | cons c r ih =>
    obtain ⟨fuel, rfl⟩ := h.fuel_succ ha.here hf
    obtain rfl : c = curr := Option.some.inj hcc
    by_cases hc : isDigit 10 c = true
    · rw [List.takeWhile_cons_of_pos hc]
      apply Staged.cons
      have hlen : offset + chars.length + 1 = offset + (chars ++ [c]).length := by
        rw [List.length_append, List.length_singleton, Nat.add_assoc]
      have hnext := h.taken ha
      rw [hlen] at hnext
      obtain ⟨st₂, hahead⟩ := h.peek hnext
      simp only [floatDigits, hc, if_true, hahead.get, ok_bind]
      cases hx : nextOr ended r with
      | none =>
        obtain rfl := nextOr_none hx
        simp only [pure_eq_ok]
        rw [← hx]
        exact staged_nil hahead
      | some curr => exact ih hahead hx (by omega)
    · rw [List.takeWhile_cons_of_neg hc]
      simp only [floatDigits, hc, Bool.false_eq_true, if_false, pure_eq_ok]
      exact staged_nil ha

/-- digits after the next character has been read, or the end -/
theorem digitsNext_reads (h : Reads src ended At) (ha : Ahead src ended At (offset + chars.length) r st st₁) :
    Staged src ended At offset chars (r.takeWhile (isDigit 10)) r
      (match nextOr ended r with
        | none => pure (chars, none, st₁)
        | some curr => floatDigits src offset (2 ^ 32) chars curr st₁) := by
  cases hx : nextOr ended r with
  | none =>
    obtain rfl := nextOr_none hx
    simp only [pure_eq_ok]
    rw [← hx]
    exact staged_nil ha
  | some curr => exact floatDigits_reads h ha hx (Nat.le_add_left _ _)

theorem floatSign_reads (h : Reads src ended At) (hat : At st (offset + chars.length) r) :
    Staged src ended At offset chars (signChars r) r (floatSign src offset chars st) := by
  obtain ⟨st₁, ha⟩ := h.peek hat
  unfold floatSign
  rw [ha.get, ok_bind]
  cases r with
  | nil =>
    cases hx : nextOr ended [] with
    | none =>
      simp only [pure_eq_ok]
      rw [← hx]
      exact staged_nil ha
    | some c =>
      obtain rfl := h.last_some hx
      have hsigned : (isSign 0 || isDigit 10 0) = false := by decide
      simp only [hsigned, Bool.false_eq_true, if_false, ha.back 0 hx, ok_bind, ha.get]
      exact digitsNext_reads h ha
  | cons c r =>
    simp only [nextOr_cons, signChars]
    by_cases hsigned : (isSign c || isDigit 10 c) = true
    · simp only [hsigned, if_true, pure_eq_ok, ok_bind]
      apply Staged.cons
      have hnext := h.taken ha
      rw [Nat.add_assoc, ← List.length_singleton (a := c), ← List.length_append] at hnext
      obtain ⟨st₂, hahead⟩ := h.peek hnext
      rw [hahead.get, ok_bind]
      exact digitsNext_reads h hahead
    · have hdigit : ¬ isDigit 10 c = true := fun hc => hsigned (by rw [hc, Bool.or_true])
      simp only [hsigned, Bool.false_eq_true, if_false, ha.back c rfl, ok_bind, ha.get]
      have hdigits := digitsNext_reads h ha
      rw [List.takeWhile_cons_of_neg hdigit] at hdigits
      exact hdigits

theorem floatFraction_reads (h : Reads src ended At) (ha : Ahead src ended At (offset + chars.length) r st st₁)
    (hcc : nextOr ended r = some curr) :
    Staged src ended At offset chars (fractionChars r) r (floatFraction src offset chars curr st₁) := by
  unfold floatFraction
  cases r with
  | nil =>
    obtain rfl := h.last_some hcc
    rw [if_neg (by decide), ← hcc]
    exact staged_nil ha
  | cons c r =>
    obtain rfl : c = curr := Option.some.inj hcc
    simp only [fractionChars]
    by_cases hc : c = 46
    · rw [if_pos hc, if_pos hc]
      apply Staged.cons
      have hnext := h.taken ha
      rw [Nat.add_assoc, ← List.length_singleton (a := c), ← List.length_append] at hnext
      obtain ⟨st₂, hahead⟩ := h.peek hnext
      simp only [hahead.get, ok_bind]
      exact digitsNext_reads h hahead
    · rw [if_neg hc, if_neg hc]
      exact staged_nil ha

theorem floatExponent_reads (h : Reads src ended At) (ha : Ahead src ended At (offset + chars.length) r st st₁)
    (hcc : nextOr ended r = some curr) :
    Staged src ended At offset chars (exponentChars r) r (floatExponent src offset chars curr st₁) := by
  unfold floatExponent
  cases r with
  | nil =>
    obtain rfl := h.last_some hcc
    rw [if_neg (by decide), ← hcc]
    exact staged_nil ha
  | cons c r =>
    obtain rfl : c = curr := Option.some.inj hcc
    simp only [exponentChars]
    by_cases hc : c = 101 ∨ c = 69
    · rw [if_pos hc, if_pos hc]
      apply Staged.cons
      have hnext := h.taken ha
      rw [Nat.add_assoc, ← List.length_singleton (a := c), ← List.length_append] at hnext
      exact floatSign_reads h hnext
    · rw [if_neg hc, if_neg hc]
      exact staged_nil ha

/-- **The stages of a floating-point number** take its characters. -/
theorem floatStages_reads (h : Reads src ended At) (hat : At st offset r) :
    ∃ st', floatStages src offset st = .ok (floatChars r, st') ∧
      At st' (offset + (floatChars r).length) (r.drop (floatChars r).length) := by
  have hstart : At st (offset + ([] : List UInt8).length) r := hat
  obtain ⟨st₁, back₁, hsign, ha₁⟩ := floatSign_reads h hstart
  unfold floatStages floatChars
  simp only [hsign, ok_bind, List.nil_append]
  rw [List.nil_append] at ha₁
  generalize hr₁ : r.drop (signChars r).length = r₁ at ha₁ ⊢
  cases hx₁ : nextOr ended r₁ with
  | none =>
    obtain rfl := nextOr_none hx₁
    obtain rfl := ha₁.same hx₁
    refine ⟨st₁, ?_, ?_⟩
    · simp [fractionChars, exponentChars]
    · simpa [fractionChars, exponentChars, hr₁] using ha₁.here
  | some curr₁ =>
    obtain ⟨st₂, back₂, hfraction, ha₂⟩ := floatFraction_reads h ha₁ hx₁
    simp only [hfraction, ok_bind]
    generalize hr₂ : r₁.drop (fractionChars r₁).length = r₂ at ha₂ ⊢
    have hdrop₂ : r.drop (signChars r ++ fractionChars r₁).length = r₂ := by
      rw [List.length_append, ← List.drop_drop, hr₁, hr₂]
    cases hx₂ : nextOr ended r₂ with
    | none =>
      obtain rfl := nextOr_none hx₂
      obtain rfl := ha₂.same hx₂
      refine ⟨st₂, ?_, ?_⟩
      · simp [exponentChars]
      · have hhere := ha₂.here
        simp only [exponentChars, List.append_nil, hdrop₂]
        exact hhere
    | some curr₂ =>
      obtain ⟨st₃, back₃, hexponent, ha₃⟩ := floatExponent_reads h ha₂ hx₂
      simp only [hexponent, ok_bind]
      have hdrop₃ : r.drop (signChars r ++ fractionChars r₁ ++ exponentChars r₂).length =
          r₂.drop (exponentChars r₂).length := by
        rw [List.length_append, ← List.drop_drop, hdrop₂]
      rw [hdrop₃]
      cases hx₃ : nextOr ended (r₂.drop (exponentChars r₂).length) with
      | none =>
        obtain rfl := ha₃.same hx₃
        exact ⟨st₃, rfl, ha₃.here⟩
      | some curr₃ =>
        refine ⟨back₃, ?_, ha₃.here⟩
        simp only [ha₃.back curr₃ hx₃, ok_bind, pure_eq_ok]

/-- **A floating-point number** without white space before it -/
theorem atof_reads {R : Type} (parse : List UInt8 → Option R) (h : Reads src ended At) (hat : At st idx r)
    (hspace : r.takeWhile isspaceInner = []) (hr : r ≠ [] ∨ ended = some 0) :
    ∃ st', atofInnerGeneric src parse idx st =
        .ok ((parse (floatChars r)).map fun v => (v, (floatChars r).length), st') ∧
      At st' (idx + (floatChars r).length) (r.drop (floatChars r).length) := by
  obtain ⟨st', hstages, hat'⟩ := floatStages_reads h hat
  refine ⟨st', ?_, hat'⟩
  unfold atofInnerGeneric
  simp only [countWhitespace_reads h hat hspace hr, ok_bind, Nat.add_zero, hstages, Nat.zero_add, pure_eq_ok]

end

end TouchHLE.Scanf
