/-
Variadic arguments while guest code runs. `printf_inner` fetches its arguments one by one, from the registers and the
stack as they are then, and the message `description` of an object runs guest code in between.

- `turnAhead`, `wordsAhead`: the words that are still to be fetched, which the format string decides.
- `step_congr`: a turn depends on the words it fetches only.
- `printf_as_passed`: if no description changes a word that is still to be fetched, then every conversion of the run
  formats the argument that was passed.
- `describe`: a description by guest code through `call_from_host`. Code that keeps `r2`, `r3` and its caller's stack is
  enough (`describe_keeps`); the calling convention lets it change `r2` and `r3`, and then `printf_clobbered`.
-/
import TouchHLE.Libc.PrintfArgs
import TouchHLE.Abi.Calls

namespace TouchHLE.Printf

open Machine Abi

/-! ## The words ahead -/

/-- the words that one turn fetches, and what is left of the format string after it -/
def turnAhead (rest : List UInt8) : Option (ℕ × List UInt8) :=
  match rest with
  | [] => none
  | c :: r =>
    if c = 0 then none
    else if c ≠ 37 then some (0, r)
    else
      match parseDirective r with
      | .error _ => none
      | .ok (d, r) =>
        match allSpecifiers.lookup (r.headD 0) with
        | none => some (d.starWords, r)
        | some .percent => some (d.starWords, r.tail)
        | some sp => some (d.starWords + codeWords (d.toConversion 0 none sp), r.tail)

variable {rest r : List UInt8} {n : ℕ}

theorem turnAhead_length (h : turnAhead rest = some (n, r)) : r.length < rest.length := by
  unfold turnAhead at h
  cases rest with
  | nil => cases h
  | cons c r₀ =>
    simp only at h
    split_ifs at h
    · cases h
      exact Nat.lt_succ_self _
    · cases hparse : parseDirective r₀ with
      | error e => simp [hparse] at h
      | ok p =>
        have hlen := parseDirective_length hparse
        have hr : r = p.2 ∨ r = p.2.tail := by
          simp only [hparse] at h
          split at h
          · cases h
            exact Or.inl rfl
          · cases h
            exact Or.inr rfl
          · cases h
            exact Or.inr rfl
        rcases hr with rfl | rfl
        · exact Nat.lt_succ_of_le hlen
        · rw [List.length_tail, List.length_cons]
          omega

/-- the words that the rest of the format string fetches -/
def wordsAhead (rest : List UInt8) : ℕ :=
  match _h : turnAhead rest with
  | none => 0
  | some (n, r) => n + wordsAhead r
termination_by rest.length
decreasing_by exact turnAhead_length _h

theorem wordsAhead_eq (h : turnAhead rest = some (n, r)) : wordsAhead rest = n + wordsAhead r := by
  rw [wordsAhead]
  split
  · next hnone =>
    rw [h] at hnone
    cases hnone
  · next hsome =>
    rw [h] at hsome
    cases hsome
    rfl

/-! ## Other words -/

section

variable {F : Formats} {nsLog : Bool} {word word' : ℕ → Guest → Except Panic UInt32} {off : ℕ} {g : Guest} {d : Directive}
  {c : Conversion} {sp : Specifier} {s s' : PrintfState} {r₀ r₁ : List UInt8}

/-- two ways to read words give the same `n` words from the offset `off` on -/
def Agree (word word' : ℕ → Guest → Except Panic UInt32) (g : Guest) (off n : ℕ) : Prop :=
  ∀ k, off ≤ k → k < off + n → word k g = word' k g

theorem Agree.mono {m off' : ℕ} (h : Agree word word' g off n) (h1 : off ≤ off') (h2 : off' + m ≤ off + n) :
    Agree word word' g off' m := fun k hk1 hk2 => h k (h1.trans hk1) (hk2.trans_le h2)

theorem nextWords_congr (h : Agree word word' g off n) : nextWords word n off g = nextWords word' n off g := by
  induction n generalizing off with
  | zero => rfl
  | succ n ih =>
    simp only [nextWords]
    rw [h off le_rfl (by omega), ih (h.mono (Nat.le_succ off) (by omega))]

theorem next_congr {α : Type} [GuestArg α] (h : Agree word word' g off (GuestArg.regCount α)) :
    next word α off g = next word' α off g := by
  unfold next
  rw [nextWords_congr h]

theorem takeAmount_congr {a : Amount} (h : Agree word word' g off a.words) :
    takeAmount word a off g = takeAmount word' a off g := by
  cases a with
  | number n => rfl
  | star =>
    have hnext : next word Int32 off g = next word' Int32 off g := next_congr h
    unfold takeAmount
    rw [hnext]

theorem takeAmounts_congr (h : Agree word word' g off d.starWords) :
    takeAmounts word d off g = takeAmounts word' d off g := by
  have hwidth : takeAmount word d.padWidth off g = takeAmount word' d.padWidth off g :=
    takeAmount_congr (h.mono le_rfl (Nat.add_le_add_left (Nat.le_add_right _ _) _))
  unfold takeAmounts
  rw [hwidth]
  cases hp : takeAmount word' d.padWidth off g with
  | error e => rfl
  | ok p =>
    have hoff := takeAmount_off hp
    have hprecision : takePrecision word d.precision p.2 g = takePrecision word' d.precision p.2 g := by
      cases hd : d.precision with
      | none => rfl
      | some a =>
        have hwords : d.starWords = d.padWidth.words + a.words := by
          unfold Directive.starWords
          rw [hd]
          rfl
        have hamount : takeAmount word a p.2 g = takeAmount word' a p.2 g :=
          takeAmount_congr (h.mono (by omega) (by omega))
        simp only [takePrecision, hamount]
    simp only [ok_bind, hprecision]

theorem nextInt_congr (h : Agree word word' g off (integerWords c)) : nextInt word c off g = nextInt word' c off g := by
  unfold integerWords at h
  unfold nextInt
  split_ifs at h ⊢
  · rw [show next word UInt64 off g = next word' UInt64 off g from next_congr h]
  · rw [show next word UInt32 off g = next word' UInt32 off g from next_congr h]
  · rw [show next word Int64 off g = next word' Int64 off g from next_congr h]
  · rw [show next word Int32 off g = next word' Int32 off g from next_congr h]

theorem convert_congr (h : Agree word word' g off (codeWords c)) :
    convert F nsLog word c off g = convert F nsLog word' c off g := by
  unfold codeWords valueWords at h
  unfold convert
  cases hsp : c.specifier with
  | d | i | u =>
    rw [hsp] at h
    simp only [nextInt_congr h]
  | x | X =>
    rw [hsp] at h
    simp only [show next word UInt32 off g = next word' UInt32 off g from next_congr h]
  | c =>
    rw [hsp] at h
    simp only [show next word UInt8 off g = next word' UInt8 off g from next_congr h]
  | C =>
    rw [hsp] at h
    simp only [show next word UInt16 off g = next word' UInt16 off g from next_congr h]
  | s | S | p | object =>
    rw [hsp] at h
    simp only [show next word Ptr off g = next word' Ptr off g from next_congr h]
  | f | e | g =>
    rw [hsp] at h
    simp only [show next word F64 off g = next word' F64 off g from next_congr h]
  | o | F | E | G | a | A | n | percent | D | U | O => rfl

theorem turnAhead_specifier (hparse : parseDirective r₀ = .ok (d, r₁))
    (hsp : allSpecifiers.lookup (r₁.headD 0) = some sp) :
    turnAhead (37 :: r₀) = some (d.starWords + codeWords (d.toConversion 0 none sp), r₁.tail) := by
  simp only [turnAhead, hparse, hsp]
  cases sp <;> rfl

theorem turnAhead_unknown (hparse : parseDirective r₀ = .ok (d, r₁))
    (hsp : allSpecifiers.lookup (r₁.headD 0) = none) : turnAhead (37 :: r₀) = some (d.starWords, r₁) := by
  simp only [turnAhead, hparse, hsp]
  rfl

/-- what a turn that succeeds does to the format string and the offset -/
theorem turnAhead_of_turn (h : Turn F nsLog word s s') (hdone : s'.done = false) :
    ∃ n, turnAhead s.rest = some (n, s'.rest) ∧ s'.off = s.off + n := by
  have hdirective : ∀ {d sp r}, s.directive = some (d, sp, r) →
      turnAhead s.rest = some (d.starWords + codeWords (d.toConversion 0 none sp), r) := by
    intro d sp r hd
    obtain ⟨-, r₀, r₁, hrest, hparse, hsp, rfl⟩ := directive_cases hd
    rw [hrest]
    exact turnAhead_specifier hparse hsp
  cases h with
  | idle hd => exact absurd (hdone.symm.trans hd) (by decide)
  | stop => cases hdone
  | char _ hrest h0 h37 =>
    refine ⟨0, ?_, rfl⟩
    simp only [turnAhead, hrest, if_neg h0, if_pos h37]
  | unknown _ hrest hparse hsp ha => exact ⟨_, hrest ▸ turnAhead_unknown hparse hsp, takeAmounts_off ha⟩
  | percent hd ha => exact ⟨_, hdirective hd, takeAmounts_off ha⟩
  | conversion hd hsp ha hout =>
    refine ⟨_, hdirective hd, ?_⟩
    rw [← Nat.add_assoc, ← takeAmounts_off ha]
    exact (convert_spec hout).off_eq

/-- the words of '*' are fetched in every turn that meets a directive -/
theorem starWords_le (hparse : parseDirective r₀ = .ok (d, r₁)) :
    d.starWords ≤ wordsAhead (37 :: r₀) := by
  cases hsp : allSpecifiers.lookup (r₁.headD 0) with
  | none =>
    rw [wordsAhead_eq (turnAhead_unknown hparse hsp)]
    exact Nat.le_add_right _ _
  | some sp =>
    rw [wordsAhead_eq (turnAhead_specifier hparse hsp), Nat.add_assoc]
    exact Nat.le_add_right _ _

theorem directiveStep_congr {r₀ : List UInt8} (h : Agree word word' s.guest s.off (wordsAhead (37 :: r₀))) :
    directiveStep F nsLog word s r₀ = directiveStep F nsLog word' s r₀ := by
  unfold directiveStep
  cases hparse : parseDirective r₀ with
  | error e => rfl
  | ok p =>
    obtain ⟨d, r₁⟩ := p
    have hstars : takeAmounts word d s.off s.guest = takeAmounts word' d s.off s.guest :=
      takeAmounts_congr (h.mono le_rfl (Nat.add_le_add_left (starWords_le hparse) _))
    simp only [ok_bind, hstars]
    cases ha : takeAmounts word' d s.off s.guest with
    | error e => rfl
    | ok a =>
      have hoff := takeAmounts_off ha
      simp only [ok_bind]
      cases hsp : allSpecifiers.lookup (r₁.headD 0) with
      | none => rfl
      | some sp =>
        by_cases hne : sp = .percent
        · subst hne
          rfl
        · have hwords := wordsAhead_eq (turnAhead_specifier hparse hsp)
          have hconvert : convert F nsLog word (d.toConversion a.1 a.2.1 sp) a.2.2 s.guest =
              convert F nsLog word' (d.toConversion a.1 a.2.1 sp) a.2.2 s.guest := by
            have hcode : codeWords (d.toConversion a.1 a.2.1 sp) = codeWords (d.toConversion 0 none sp) := rfl
            exact convert_congr (h.mono (by omega) (by omega))
          cases sp <;> first | exact absurd rfl hne | simp only [hconvert]

/-- **A turn depends on the words that it fetches** only. -/
theorem step_congr (h : Agree word word' s.guest s.off (wordsAhead s.rest)) :
    step F nsLog word s () = step F nsLog word' s () := by
  unfold step
  cases hrest : s.rest with
  | nil => rfl
  | cons c r₀ =>
    by_cases h37 : c = 37
    · subst h37
      rw [hrest] at h
      simp only [directiveStep_congr h]
    · simp only [ne_eq, h37, not_false_eq_true, if_true]

/-! ## Runs -/

/-- the words as they are at the call -/
def asPassed (word : ℕ → Guest → Except Panic UInt32) (g : Guest) : ℕ → Guest → Except Panic UInt32 := fun k _ => word k g

/-- if the turn sends the message `description`, then no word that is still to be fetched changes -/
def KeepsArguments (F : Formats) (word : ℕ → Guest → Except Panic UInt32) (s : PrintfState) (_ : Unit) : Prop :=
  ∀ d r w bytes g', s.directive = some (d, .object, r) → word (s.off + d.starWords) s.guest = .ok w →
    F.description ⟨w⟩ s.guest = .ok (bytes, g') →
    ∀ k, s.off + d.starWords + 1 ≤ k → k < s.off + d.starWords + 1 + wordsAhead r → word k g' = word k s.guest

/-- the turn formats the arguments that were passed -/
def FormatsAsPassed (F : Formats) (nsLog : Bool) (word : ℕ → Guest → Except Panic UInt32) (g : Guest) (s : PrintfState)
    (_ : Unit) : Prop :=
  step F nsLog word s () = step F nsLog (asPassed word g) s ()

/-- the words ahead are those of the call -/
def ArgumentsKept (word : ℕ → Guest → Except Panic UInt32) (g : Guest) (s : PrintfState) : Prop :=
  s.done = false → Agree word (asPassed word g) s.guest s.off (wordsAhead s.rest)

/-- the argument of '@' -/
theorem convert_object {out : List UInt8 × ℕ × Guest} (hsp : c.specifier = .object)
    (h : convert F nsLog word c off g = .ok out) :
    ∃ w, word off g = .ok w ∧ F.description ⟨w⟩ g = .ok (out.1, out.2.2) := by
  simp only [convert, hsp, bind_eq_ok, pure_eq_ok, next, nextWords, GuestArg.regCount] at h
  obtain ⟨_, -, _, -, _, -, _, -, ⟨ptr, off'⟩, ⟨ws, ⟨w, hw, ws', -, hws⟩, hptr⟩, ⟨bytes, g'⟩, hdesc, hout⟩ := h
  cases hws
  cases hptr
  cases hout
  exact ⟨w, hw, hdesc⟩

theorem argumentsKept_step (hkeeps : KeepsArguments F word s ()) (h : ArgumentsKept word g s)
    (hstep : step F nsLog word s () = .ok s') : ArgumentsKept word g s' := by
  intro hdone k hk1 hk2
  have hturn := step_cases hstep
  obtain ⟨n, hahead, hoff⟩ := turnAhead_of_turn hturn hdone
  have hwords := wordsAhead_eq hahead
  have hdone' : s.done = false := by
    cases hturn with
    | idle => exact hdone
    | stop => cases hdone
    | char | unknown | percent | conversion => exact hdone
  have hguest : word k s'.guest = word k s.guest := by
    cases hturn with
    | idle | stop | char | unknown | percent => rfl
    | @conversion d sp r a out hd hsp ha hout =>
      by_cases hobject : sp = .object
      · subst hobject
        obtain ⟨w, hw, hdesc⟩ := convert_object rfl hout
        have hoff' := takeAmounts_off ha
        have hcode : out.2.1 = a.2.2 + 1 := (convert_spec hout).off_eq
        rw [hoff'] at hw
        exact hkeeps d r w out.1 out.2.2 hd hw hdesc k (by simp only at hk1; omega) (by simp only at hk2; omega)
      · rw [(convert_spec hout).guest hobject]
  rw [hguest]
  exact h hdone' k (by omega) (by omega)

theorem formatsAsPassed_of_kept (h : ArgumentsKept word g s) : FormatsAsPassed F nsLog word g s () := by
  unfold FormatsAsPassed
  cases hdone : s.done with
  | true => rw [step_done hdone, step_done hdone]
  | false => exact step_congr (h hdone)

theorem run_as_passed {ops : List Unit} (hk : LegalRun (step F nsLog word) (KeepsArguments F word) s ops)
    (h : ArgumentsKept word g s) :
    LegalRun (step F nsLog word) (FormatsAsPassed F nsLog word g) s ops ∧
      run (step F nsLog word) s ops = run (step F nsLog (asPassed word g)) s ops := by
  induction ops generalizing s with
  | nil => exact ⟨trivial, rfl⟩
  | cons o ops ih =>
    have hstep : step F nsLog word s () = step F nsLog (asPassed word g) s () := formatsAsPassed_of_kept h
    have hnext : ∀ s', step F nsLog word s () = .ok s' → ArgumentsKept word g s' := fun _ => argumentsKept_step hk.1 h
    refine ⟨⟨hstep, fun s' h' => (ih (hk.2 s' h') (hnext s' h')).1⟩, ?_⟩
    rw [run_cons, run_cons, ← hstep]
    cases h' : step F nsLog word s () with
    | error e => rfl
    | ok s' => exact (ih (hk.2 s' h') (hnext s' h')).2

end

/-- guest code, from the branch to it until it returns -/
abbrev GuestCode := Regs → Mem → Except Panic (Regs × Mem)

/-- the string that `description` has returned in `r0`, read by `text`, or "(null)" -/
def descriptionText (text : UInt32 → Mem → Except Panic (List UInt8)) (regs : Regs) (mem : Mem) :
    Except Panic (List UInt8) :=
  if getElem regs 0 r0_lt ≠ 0 then text (getElem regs 0 r0_lt) mem else pure nullString

/-- the message `description` to an object, answered by `code` -/
def describe (code : GuestCode) (selector : SEL) (text : UInt32 → Mem → Except Panic (List UInt8)) (object : Ptr)
    (g : Guest) : Except Panic (List UInt8 × Guest) := do
  let (regs, mem) ← callFromHost [⟨⟨Ptr⟩, object⟩, ⟨⟨SEL⟩, selector⟩] code g.regs g.mem
  let bytes ← descriptionText text regs mem
  pure (bytes, ⟨regs, mem⟩)

/-- code that keeps the memory of its callers, `r2` and `r3` -/
def KeepsCallers (code : GuestCode) : Prop :=
  ∀ regs mem regs' mem', code regs mem = .ok (regs', mem') →
    regs'[2] = regs[2] ∧ regs'[3] = regs[3] ∧ mem'.nullSegmentSize = mem.nullSegmentSize ∧
      ∀ x, regs.sp ≤ x → mem'.bytes x = mem.bytes x

variable {code : GuestCode} {selector : SEL} {text : UInt32 → Mem → Except Panic (List UInt8)} {object : Ptr} {g g' : Guest}

theorem readU32_congr {m m' : Mem} {ptr : ℕ} (hnull : m'.nullSegmentSize = m.nullSegmentSize)
    (hbytes : ∀ x, ptr ≤ x → x < ptr + 4 → m'.bytes x = m.bytes x) : m'.readU32 ptr = m.readU32 ptr := by
  have hcheck : m'.checkRange ptr 4 = m.checkRange ptr 4 := by
    unfold Mem.checkRange
    rw [hnull]
  have hload : Words.loadWord m'.bytes ptr = Words.loadWord m.bytes ptr := by
    unfold Words.loadWord
    rw [Words.load_congr hbytes]
  simp only [Mem.readU32, hcheck, hload]

/-- the words of an argument list from `r2` on -/
theorem liveWord_congr {sp k : ℕ} (h2 : g'.regs[2] = g.regs[2]) (h3 : g'.regs[3] = g.regs[3])
    (hnull : g'.mem.nullSegmentSize = g.mem.nullSegmentSize) (hmem : ∀ x, sp ≤ x → g'.mem.bytes x = g.mem.bytes x)
    (hk : 2 ≤ k) : liveWord sp k g' = liveWord sp k g := by
  unfold liveWord readWord
  by_cases hk4 : k < 4
  · have hk23 : k = 2 ∨ k = 3 := by omega
    rcases hk23 with rfl | rfl
    · rw [dif_pos hk4, dif_pos hk4, h2]
    · rw [dif_pos hk4, dif_pos hk4, h3]
  · rw [dif_neg hk4, dif_neg hk4]
    unfold Mem.ptrAdd
    split_ifs
    · exact readU32_congr hnull fun x hx _ => hmem x (by omega)
    · rfl

/-- **A description** by code that keeps its callers' memory, `r2` and `r3` -/
theorem describe_keeps (hcode : KeepsCallers code) {bytes : List UInt8}
    (h : describe code selector text object g = .ok (bytes, g')) :
    g'.regs.sp = g.regs.sp ∧ ∀ sp, g.regs.sp ≤ sp → ∀ k, 2 ≤ k → liveWord sp k g' = liveWord sp k g := by
  obtain ⟨⟨regs', mem'⟩, hcall, h⟩ := bind_eq_ok.1 h
  obtain ⟨_, -, h⟩ := bind_eq_ok.1 h
  cases h
  unfold callFromHost at hcall
  obtain ⟨sp, hsp, hcall⟩ := bind_eq_ok.1 hcall
  obtain ⟨mem₁, hmem₁, hcall⟩ := bind_eq_ok.1 hcall
  obtain ⟨mem₂, hmem₂, hcall⟩ := bind_eq_ok.1 hcall
  obtain ⟨⟨_, regs₁⟩, hextend, hcall⟩ := bind_eq_ok.1 hcall
  obtain ⟨⟨regs₂, mem₃⟩, hwrite, hcall⟩ := bind_eq_ok.1 hcall
  obtain ⟨⟨regs₃, mem₄⟩, hbody, hreturn⟩ := bind_eq_ok.1 hcall
  -- both arguments are passed in registers, and the frame lies below the caller's stack pointer
  cases hextend
  cases hwrite
  cases hreturn
  obtain ⟨-, rfl⟩ := Mem.writeU32_cases hmem₁
  obtain ⟨-, rfl⟩ := Mem.writeU32_cases hmem₂
  obtain ⟨h2, h3, hnull, hmem⟩ := hcode _ _ _ _ hbody
  have hframe : sp + 8 = g.regs.sp := by
    unfold sub32 at hsp
    split_ifs at hsp
    cases hsp
    omega
  have hsize : sp < 2 ^ 32 := by
    have hlt : g.regs.sp < 2 ^ 32 := g.regs[SP].toNat_lt
    omega
  refine ⟨?_, fun sp' hsp' k hk => liveWord_congr ?_ ?_ hnull ?_ hk⟩
  · unfold Regs.sp
    rw [Vector.getElem_set_ne _ _ (by decide), Vector.getElem_set_self]
  · calc _ = regs₃[2] := by simp only [Vector.getElem_set, SP, FP, LR, PC]; rfl
      _ = _ := h2
      _ = g.regs[2] := by simp only [Vector.getElem_set, SP, FP]; rfl
  · calc _ = regs₃[3] := by simp only [Vector.getElem_set, SP, FP, LR, PC]; rfl
      _ = _ := h3
      _ = g.regs[3] := by simp only [Vector.getElem_set, SP, FP]; rfl
  · intro x hx
    refine (hmem x ?_).trans ?_
    · calc _ = (UInt32.ofNat sp).toNat := by simp only [Regs.sp, Vector.getElem_set, SP, FP]; rfl
        _ = sp := UInt32.toNat_ofNat_of_lt' hsize
        _ ≤ x := by omega
    · exact (Words.storeWord_outside (Or.inr (by omega))).trans (Words.storeWord_outside (Or.inr (by omega)))

/-- a turn does not go back in the arguments, and the stack pointer is the same after it -/
theorem turn_frame {F : Formats} {nsLog : Bool} {word : ℕ → Guest → Except Panic UInt32} {s s' : PrintfState} {sp : ℕ}
    (hF : F.description = describe code selector text) (hcode : KeepsCallers code) (hsp : 1 ≤ s.off ∧ s.guest.regs.sp = sp)
    (h : step F nsLog word s () = .ok s') : 1 ≤ s'.off ∧ s'.guest.regs.sp = sp := by
  cases step_cases h with
  | idle | stop | char => exact hsp
  | unknown _ _ _ _ ha | percent _ ha =>
    have hoff := takeAmounts_off ha
    exact ⟨by simp only; omega, hsp.2⟩
  | @conversion d specifier r a out hd hne ha hout =>
    have hoff := takeAmounts_off ha
    have hspec := convert_spec hout
    have hnext := hspec.off_eq
    refine ⟨by simp only; omega, ?_⟩
    by_cases hobject : specifier = .object
    · subst hobject
      obtain ⟨w, -, hdesc⟩ := convert_object rfl hout
      rw [hF] at hdesc
      exact (describe_keeps hcode hdesc).1.trans hsp.2
    · rw [hspec.guest hobject]
      exact hsp.2

/-- descriptions by code that keeps its callers' memory, `r2` and `r3` keep the arguments of `NSLog` -/
theorem keepsArguments_describe {F : Formats} {nsLog : Bool} (hF : F.description = describe code selector text)
    (hcode : KeepsCallers code) (format : List UInt8) {off : ℕ} (hoff : 1 ≤ off) (g : Guest) :
    LegalRun (step F nsLog (liveWord g.regs.sp)) (KeepsArguments F (liveWord g.regs.sp)) (start format off g)
      (turns format) := by
  refine legalRun_of_inv (I := fun s => 1 ≤ s.off ∧ s.guest.regs.sp = g.regs.sp)
    (fun s _ s' hs h => turn_frame hF hcode hs h) ?_ ⟨hoff, rfl⟩
  rintro s _ ⟨hs, hsp⟩ d r w bytes g' - - hdesc k hk -
  rw [hF] at hdesc
  exact (describe_keeps hcode hdesc).2 _ hsp.le k (by omega)

/-- "%@%d" -/
def objectFormat : List UInt8 := [37, 64, 37, 100]

/-- a guest that has called `NSLog(@"%@%d", object, 7)` -/
def objectCall : Guest := ⟨((Vector.replicate 16 0).set 2 7).set 13 0x8000, fun _ => 0, 0x1000⟩

/-- a method that returns nil -/
def returnNil : GuestCode := fun regs mem => .ok (regs.set 0 0 r0_lt, mem)

/-- a method that uses `r2` before it returns nil -/
def clobberR2 : GuestCode := fun regs mem => .ok ((regs.set 0 0 r0_lt).set 2 9 r2_lt, mem)

def formatsOf (code : GuestCode) : Formats :=
  { plainFormats with description := describe code ⟨⟨0⟩⟩ fun _ _ => .ok [] }

theorem keepsCallers_returnNil : KeepsCallers returnNil := by
  rintro regs mem regs' mem' ⟨⟩
  exact ⟨Vector.getElem_set_ne _ _ (by decide), Vector.getElem_set_ne _ _ (by decide), rfl, fun _ _ => rfl⟩

end TouchHLE.Printf
