/-
`sscanf` (`libc/stdio/printf.rs`) and the matching of the C standard: every directive either takes the longest prefix of
its kind from the input or ends the scan.

- `cTurn`: what C says the next directive of the format does. `cScan`: how many assignments come before the first one
  that does not match.
- `TurnAsInC`: a turn of the loop does that. `Matches`: when it does.
- `sscanf_iff`: runs of the loop. `sscanf_emptyString`: "%s" stores an empty string where nothing is left.
-/
import TouchHLE.Libc.ScanfReads
import TouchHLE.Libc.ScanfInt

namespace TouchHLE.Scanf

open Machine Words

/-! ## What C matches -/

/-- what the next directive does -/
inductive CTurn where
  /-- the format ends -/
  | finished
  | unsupported
  /-- no match; the rest of the format -/
  | failed (rest : List UInt8)
  /-- a match of so many characters, and whether it is assigned -/
  | matched (rest : List UInt8) (taken : ℕ) (assigned : Bool)
deriving DecidableEq, Repr

/-- a conversion after `n` characters of white space -/
def CTurn.ofLength (rest : List UInt8) (n : ℕ) : Option ℕ → CTurn
  | none => .failed rest
  | some len => .matched rest (n + len) true

/-- the base of an integer conversion -/
def intBase (specifier : UInt8) : ℕ :=
  if specifier = 105 then 0 else if specifier = 120 ∨ specifier = 88 then 16 else 10

def isInteger (specifier : UInt8) : Bool :=
  specifier == 100 || specifier == 105 || specifier == 120 || specifier == 88 || specifier == 117

inductive Kind where
  | integer
  | float
  | set
  | string
deriving DecidableEq, Repr

/-- the directives that are supported -/
def ScanDirective.kind (d : ScanDirective) : Option Kind :=
  if isInteger d.specifier then
    if d.lengthModifier = none ∨ (d.specifier = 100 ∨ d.specifier = 105) ∧ d.lengthModifier = some .h then some .integer
    else none
  else if d.maxWidth ≠ 0 then none
  else if d.specifier = 102 then
    if d.lengthModifier = none ∨ d.lengthModifier = some .l then some .float else none
  else if d.lengthModifier ≠ none then none
  else if d.specifier = 91 then some .set
  else if d.specifier = 115 then some .string
  else none

section

variable {R : Type} (parse : List UInt8 → Option R)

/-- a directive, where `f` is the rest of the format and `r` the input; floating-point numbers are decimal -/
def cConversion (d : ScanDirective) (f r : List UInt8) : CTurn :=
  let n := (r.takeWhile isspaceInner).length
  let r' := r.dropWhile isspaceInner
  match d.kind with
  | some .integer => .ofLength f n (cIntLength (intBase d.specifier) d.maxWidth r')
  | some .float => .ofLength f n ((parse (floatChars r')).map fun _ => (floatChars r').length)
  | some .set =>
    match parseSet f with
    | .ok (set, f) => .ofLength f 0 (positive (r.takeWhile set.accepts).length)
    | .error _ => .unsupported
  | some .string => .ofLength f n (positive (r'.takeWhile notSpace).length)
  | none => .unsupported

/-- the next directive of a format -/
def cTurn (format r : List UInt8) : CTurn :=
  match format with
  | [] => .finished
  | c :: f =>
    if c = 0 then .finished
    else if c ≠ 37 then
      if isspaceInner c then .matched f (r.takeWhile isspaceInner).length false
      else if r.head? = some c then .matched f 1 false
      else .failed f
    else
      match parseScan f with
      | .ok (d, f) => cConversion parse d f r
      | .error _ => .unsupported

/-- the number of assignments before the first directive that does not match; `none` with an unsupported directive -/
def cScan : ℕ → List UInt8 → List UInt8 → Option ℕ
  | 0, _, _ => some 0
  | turns + 1, format, r =>
    match cTurn parse format r with
    | .finished => some 0
    | .unsupported => none
    | .failed _ => some 0
    | .matched rest taken assigned => (cScan turns rest (r.drop taken)).map (assigned.toNat + ·)

end

/-! ## The conversions on a string -/

/-- where a scan of the string `input` stands: `r` is left -/
structure Reading {σ R : Type} (st : σ) (input : List UInt8) (s : ScanState σ R) (r : List UInt8) : Prop where
  src : s.src = st
  inside : s.srcIdx ≤ input.length
  left : input.drop s.srcIdx = r

/-- after an assignment of `len` characters -/
def ScanState.assigned {σ R : Type} (s : ScanState σ R) (v : Stored R) (len : ℕ) : ScanState σ R :=
  { s with srcIdx := s.srcIdx + len, argIdx := s.argIdx + 1, stores := s.stores ++ [(s.argIdx, v)], matched := s.matched + 1 }

section

variable {σ R : Type} {src : Source σ} {parse : List UInt8 → Option R} {st : σ} {input r f : List UInt8}
  {s s' : ScanState σ R} {d : ScanDirective} {c : UInt8}

theorem string_reads (hs : src.IsString st input) :
    Reads src (some 0) fun st' idx r => st' = st ∧ idx ≤ input.length ∧ input.drop idx = r where
  next := by
    rintro st' idx c r ⟨rfl, hle, hdrop⟩
    have hget := hs.getcAt hle
    rw [Source.IsString.getD_eq_head, hdrop] at hget
    have hlt : idx < input.length := by
      have hlen := congrArg List.length hdrop
      rw [List.length_drop, List.length_cons] at hlen
      omega
    refine ⟨st', hget, hs.ungetc c, rfl, hlt, ?_⟩
    rw [← List.drop_drop, hdrop]
    rfl
  last := by
    rintro st' idx ⟨rfl, hle, hdrop⟩
    have hget := hs.getcAt hle
    rw [Source.IsString.getD_eq_head, hdrop] at hget
    exact ⟨hget, fun c _ => hs.ungetc c⟩
  ends := .inr rfl
  noNul := by
    rintro st' idx r ⟨-, -, hdrop⟩ c hc
    rw [← hdrop] at hc
    exact hs.noNul c (List.mem_of_mem_drop hc)
  small := by
    rintro st' idx r ⟨-, hle, hdrop⟩
    have hsize := hs.size
    have hlen := congrArg List.length hdrop
    rw [List.length_drop] at hlen
    omega

namespace Reading

theorem length (h : Reading st input s r) : s.srcIdx + r.length = input.length := by
  have hlen := congrArg List.length h.left
  rw [List.length_drop] at hlen
  have hle := h.inside
  omega

/-- after `n` more characters -/
theorem more (h : Reading st input s r) {n : ℕ} (hn : n ≤ r.length) (hsrc : s'.src = st) (hidx : s'.srcIdx = s.srcIdx + n) :
    Reading st input s' (r.drop n) := by
  have hlen := h.length
  refine ⟨hsrc, ?_, ?_⟩
  · rw [hidx]
    omega
  · rw [hidx, ← List.drop_drop, h.left]

theorem assign_eq (h : Reading st input s r) (hs : src.IsString st input) {len : ℕ} (hle : len ≤ r.length) (v : Stored R) :
    s.assign v len st = .ok (s.assigned v len) := by
  have hlen := h.length
  have hsize := hs.size
  unfold ScanState.assign
  rw [add32_ok (by omega), ok_bind, pure_eq_ok, ← h.src]
  rfl

end Reading

theorem parseNumber_lt {limit n v : ℕ} {l : List UInt8} (hn : n < limit)
    (h : Printf.parseNumber limit l n = .ok (v, r)) : v < limit := by
  induction l generalizing n with
  | nil =>
    cases h
    exact hn
  | cons c l ih =>
    unfold Printf.parseNumber at h
    by_cases hc : 48 ≤ c ∧ c ≤ 57
    · rw [if_pos hc] at h
      by_cases hlt : n * 10 + (c.toNat - 48) < limit
      · exact ih hlt (by rwa [if_pos hlt] at h)
      · rw [if_neg hlt] at h
        cases h
    · rw [if_neg hc] at h
      cases h
      exact hn

theorem parseScan_width (h : parseScan f = .ok (d, r)) : d.maxWidth < 2 ^ 32 := by
  unfold parseScan at h
  obtain ⟨⟨w, rest⟩, hw, h⟩ := bind_eq_ok.1 h
  cases h
  exact parseNumber_lt (by decide) hw

theorem widthLimit_bounds {w : ℕ} (hw : w < 2 ^ 32) : 0 < widthLimit w ∧ widthLimit w < 2 ^ 32 := by
  unfold widthLimit
  split_ifs with hpos
  · exact ⟨hpos, hw⟩
  · decide

/-- an integer conversion, by what it finds -/
def integerResult (s : ScanState σ R) (store : ℤ → Stored R) (x : Except Panic (Option (ℤ × ℕ))) :
    Except Panic (ScanState σ R) :=
  x.map fun res => res.elim (s.stop s.src) fun p => s.assigned (store p.1) p.2

theorem scanInteger_string (hs : src.IsString st input) (hr : Reading st input s r) {ty : IntType} {base w : ℕ}
    (hb : base ≤ 36) (hw : w < 2 ^ 32) (store : ℤ → Stored R) :
    scanInteger src ty base w store s = integerResult s store ((scanInt base (widthLimit w) r).finish ty) := by
  obtain ⟨hm, hm'⟩ := widthLimit_bounds hw
  have hconv := strToInt_string hs hr.inside hb hm hm' ty
  rw [hr.left, ← hr.src] at hconv
  unfold scanInteger
  change strToIntInnerGeneric src s.srcIdx (widthLimit w) ty base s.src >>= _ = _
  rw [hconv]
  cases hfin : (scanInt base (widthLimit w) r).finish ty with
  | error e => rfl
  | ok res =>
    cases res with
    | none => rfl
    | some p =>
      have hassign := hr.assign_eq hs (scanInt_len hfin) (store p.1)
      rw [← hr.src] at hassign
      exact hassign

/-- a floating-point number in a supported directive -/
def floatStore (d : ScanDirective) (v : R) : Stored R := if d.lengthModifier = none then .f32 v else .f64 v

theorem scanFloat_string (hs : src.IsString st input) (hr : Reading st input s r) (hspace : r.takeWhile isspaceInner = [])
    (hw : d.maxWidth = 0) :
    (floatChars r).length ≤ r.length ∧
      scanFloat src parse d s =
        match parse (floatChars r) with
        | none => .ok (s.stop s.src)
        | some v =>
          if d.lengthModifier = none ∨ d.lengthModifier = some .l then
            .ok (s.assigned (floatStore d v) (floatChars r).length)
          else .error .todo := by
  obtain ⟨st', hatof, hst, hinside, -⟩ :=
    atof_reads parse (string_reads hs) ⟨hr.src, hr.inside, hr.left⟩ hspace (.inr rfl)
  rw [← hr.src] at hst
  subst hst
  have hlen := hr.length
  have hle : (floatChars r).length ≤ r.length := by omega
  refine ⟨hle, ?_⟩
  unfold scanFloat
  rw [hw, hatof]
  cases parse (floatChars r) with
  | none => rfl
  | some v =>
    have hassign : ∀ stored, s.assign stored (floatChars r).length s.src = .ok (s.assigned stored (floatChars r).length) := by
      intro stored
      rw [hr.src]
      exact hr.assign_eq hs hle stored
    cases hl : d.lengthModifier with
    | none => simp only [beq_self_eq_true, assert, if_true, ok_bind, Option.map_some, floatStore, hl, hassign, true_or]
    | some length =>
      cases length with
      | l => simp [assert, floatStore, hl, hassign]
      | hh => simp [assert]
      | h => simp [assert]
      | ll => simp [assert]

theorem scanSet_string (hs : src.IsString st input) (hr : Reading st input s r) {set : CharSet} (hw : d.maxWidth = 0)
    (hl : d.lengthModifier = none) (hset : parseSet s.rest = .ok (set, f)) :
    scanSet src d s = .ok (if r.takeWhile set.accepts = [] then { s with rest := f, argIdx := s.argIdx + 1 }
      else { s with rest := f, srcIdx := s.srcIdx + (r.takeWhile set.accepts).length, argIdx := s.argIdx + 1
                    stores := s.stores ++ [(s.argIdx, .text (r.takeWhile set.accepts ++ [0]))]
                    matched := s.matched + 1 }) := by
  have hfuel : 2 ^ 32 ≤ s.srcIdx + (2 ^ 32 - s.srcIdx) := by omega
  obtain ⟨st', hloop, hst, -⟩ :=
    setLoop_reads (string_reads hs) ⟨hr.src, hr.inside, hr.left⟩ set hfuel (.inr rfl)
  rw [← hr.src] at hst
  subst hst
  rw [List.nil_append] at hloop
  unfold scanSet
  simp only [hw, hl, hset, hloop, beq_self_eq_true, assert, if_true, ok_bind, pure_eq_ok]
  by_cases hnil : r.takeWhile set.accepts = []
  · rw [if_pos hnil, if_neg (not_not_intro hnil), hnil]
    rfl
  · rw [if_neg hnil, if_pos hnil]
    rfl

theorem scanString_string (hs : src.IsString st input) (hr : Reading st input s r) (hw : d.maxWidth = 0)
    (hl : d.lengthModifier = none) :
    scanString src d s = .ok (s.assigned (.text (r.takeWhile notSpace ++ [0])) (r.takeWhile notSpace).length) := by
  have hfuel : 2 ^ 32 ≤ s.srcIdx + (2 ^ 32 - s.srcIdx) := by omega
  obtain ⟨st', hloop, hst, -⟩ :=
    stringLoop_reads (string_reads hs) ⟨hr.src, hr.inside, hr.left⟩ hfuel
  rw [← hr.src] at hst
  subst hst
  rw [List.nil_append] at hloop
  unfold scanString
  simp only [hw, hl, hloop, beq_self_eq_true, assert, if_true, ok_bind, pure_eq_ok]
  rfl

/-- a string never changes -/
theorem ahead_string (hs : src.IsString st input) {idx : ℕ} {st₁ st₂ : σ}
    (ha : Ahead src (some 0) (fun st' idx r => st' = st ∧ idx ≤ input.length ∧ input.drop idx = r) idx r st₁ st₂) :
    st₁ = st ∧ st₂ = st := by
  obtain ⟨rfl, hinside, -⟩ := ha.here
  have hget := ha.get
  rw [hs.getcAt hinside] at hget
  exact ⟨rfl, (congrArg Prod.snd (Except.ok.inj hget)).symm⟩

theorem nextOr_zero (r : List UInt8) : nextOr (some 0) r = some (r.headD 0) := by cases r <;> rfl

/-- the white space in front of a conversion or at white space of the format -/
theorem spaces_string (hs : src.IsString st input) (hr : Reading st input s r) :
    src.getcAt s.src s.srcIdx = .ok (some (r.headD 0), s.src) ∧
      spacesLoop src (2 ^ 32 - s.srcIdx) s.srcIdx (r.headD 0) s.src =
        .ok (s.srcIdx + (r.takeWhile isspaceInner).length, some ((r.dropWhile isspaceInner).headD 0), s.src) := by
  have hreads := string_reads hs
  have hfuel : 2 ^ 32 ≤ s.srcIdx + (2 ^ 32 - s.srcIdx) := by omega
  obtain ⟨st₁, ha⟩ := hreads.peek ⟨hr.src, hr.inside, hr.left⟩
  obtain ⟨st₂, st₃, hloop, ha'⟩ := spacesLoop_reads hreads ha (nextOr_zero r) hfuel
  have hget := ha.get
  rw [nextOr_zero] at hget hloop
  rw [(ahead_string hs ha).2] at hget hloop
  rw [(ahead_string hs ha').2] at hloop
  rw [hr.src]
  rw [hr.src] at hget
  exact ⟨hget, hloop⟩

/-- the state in which a conversion starts -/
def ScanState.skipped (s : ScanState σ R) (f : List UInt8) (n : ℕ) : ScanState σ R :=
  { s with rest := f, srcIdx := s.srcIdx + n }

theorem takeWhile_length_le (p : UInt8 → Bool) (r : List UInt8) : (r.takeWhile p).length ≤ r.length :=
  (List.takeWhile_sublist p).length_le

theorem drop_takeWhile (p : UInt8 → Bool) (r : List UInt8) : r.drop (r.takeWhile p).length = r.dropWhile p := by
  calc r.drop (r.takeWhile p).length
      = (r.takeWhile p ++ r.dropWhile p).drop (r.takeWhile p).length := by rw [List.takeWhile_append_dropWhile]
    _ = r.dropWhile p := List.drop_left

theorem Reading.skipped (hr : Reading st input s r) (f : List UInt8) :
    Reading st input (s.skipped f (r.takeWhile isspaceInner).length) (r.dropWhile isspaceInner) := by
  rw [← drop_takeWhile]
  exact hr.more (takeWhile_length_le _ r) hr.src rfl

/-- a directive other than '[' -/
theorem scanDirective_string (hs : src.IsString st input) (hr : Reading st input s r) {g : List UInt8}
    (hp : parseScan g = .ok (d, f)) (hne : d.specifier ≠ 91 ∧ d.specifier ≠ 99 ∧ d.specifier ≠ 110) :
    scanDirective src parse s g = scanConversion src parse d (s.skipped f (r.takeWhile isspaceInner).length) := by
  obtain ⟨hget, hloop⟩ := spaces_string hs hr
  have hback : src.ungetc s.src ((r.dropWhile isspaceInner).headD 0) = .ok s.src := by
    rw [hr.src]
    exact hs.ungetc _
  unfold scanDirective
  simp only [hp, ok_bind, if_pos hne, hget, hloop, hback]
  rfl

/-- '[', and two that are not supported -/
theorem scanDirective_set {g : List UInt8} (hp : parseScan g = .ok (d, f))
    (hsp : ¬(d.specifier ≠ 91 ∧ d.specifier ≠ 99 ∧ d.specifier ≠ 110)) :
    scanDirective src parse s g = scanConversion src parse d { s with rest := f } := by
  unfold scanDirective
  simp only [hp, ok_bind, if_neg hsp]

theorem scanLiteral_space (hs : src.IsString st input) (hr : Reading st input s r) (hc : isspaceInner c = true) :
    scanLiteral src s c f = .ok (s.skipped f (r.takeWhile isspaceInner).length) := by
  obtain ⟨hget, hloop⟩ := spaces_string hs hr
  have hback : src.ungetc s.src ((r.dropWhile isspaceInner).headD 0) = .ok s.src := by
    rw [hr.src]
    exact hs.ungetc _
  unfold scanLiteral
  simp only [ok_bind, hget, hc, if_true, hloop, hback]
  rfl

theorem scanLiteral_other (hs : src.IsString st input) (hr : Reading st input s r) (hc : isspaceInner c = false)
    (h0 : c ≠ 0) : scanLiteral src s c f =
      .ok (if r.head? = some c then s.skipped f 1 else { s with rest := f, done := true }) := by
  obtain ⟨hget, -⟩ := spaces_string hs hr
  have hsize := hs.size
  have hlen := hr.length
  unfold scanLiteral
  simp only [ok_bind, hget, hc, Bool.false_eq_true, if_false]
  cases r with
  | nil =>
    rw [List.headD_nil, if_pos h0, if_neg fun h => (nomatch h)]
    rfl
  | cons c' r =>
    rw [List.length_cons] at hlen
    by_cases heq : c = c'
    · subst heq
      rw [List.headD_cons, if_neg (not_not_intro rfl), add32_ok (by omega), ok_bind, List.head?_cons, if_pos rfl]
      rfl
    · rw [List.headD_cons, if_pos heq, List.head?_cons, if_neg fun h => heq (Option.some.inj h).symm]
      rfl

/-! ## Kinds of directives -/

def intType (d : ScanDirective) : IntType :=
  if d.specifier = 100 ∨ d.specifier = 105 then if d.lengthModifier = some .h then i16Type else i32Type else u32Type

def intStore (d : ScanDirective) (v : ℤ) : Stored R :=
  if d.specifier = 100 ∨ d.specifier = 105 then if d.lengthModifier = some .h then .i16 v else .i32 v else .u32 v

theorem intStore_injective (d : ScanDirective) : Function.Injective (intStore d : ℤ → Stored R) := by
  intro a b h
  unfold intStore at h
  split_ifs at h <;> cases h <;> rfl

/-- what a kind says about the directive -/
def ScanDirective.IsKind (d : ScanDirective) : Kind → Prop
  | .integer => isInteger d.specifier = true ∧
      (d.lengthModifier = none ∨ (d.specifier = 100 ∨ d.specifier = 105) ∧ d.lengthModifier = some .h)
  | .float => d.specifier = 102 ∧ d.maxWidth = 0 ∧ (d.lengthModifier = none ∨ d.lengthModifier = some .l)
  | .set => d.specifier = 91 ∧ d.maxWidth = 0 ∧ d.lengthModifier = none
  | .string => d.specifier = 115 ∧ d.maxWidth = 0 ∧ d.lengthModifier = none

theorem kind_spec {k : Kind} (h : d.kind = some k) : d.IsKind k := by
  unfold ScanDirective.kind at h
  split_ifs at h with hint hl hw hf hl hl hset hstring <;> cases h
  · exact ⟨hint, hl⟩
  · exact ⟨hf, not_ne_iff.1 hw, hl⟩
  · exact ⟨hset, not_ne_iff.1 hw, not_ne_iff.1 hl⟩
  · exact ⟨hstring, not_ne_iff.1 hw, not_ne_iff.1 hl⟩

theorem isInteger_cases (h : isInteger c = true) : c = 100 ∨ c = 105 ∨ c = 120 ∨ c = 88 ∨ c = 117 := by
  simpa [isInteger, or_assoc] using h

theorem scanConversion_integer (h : d.kind = some .integer) :
    scanConversion src parse d s = scanInteger src (intType d) (intBase d.specifier) d.maxWidth (intStore d) s := by
  obtain ⟨hi, hl⟩ := kind_spec h
  unfold scanConversion intType intStore
  rcases isInteger_cases hi with hsp | hsp | hsp | hsp | hsp
  · rcases hl with hl | ⟨-, hl⟩ <;> simp [hsp, hl, intBase]
  · rcases hl with hl | ⟨-, hl⟩ <;> simp [hsp, hl, intBase]
  · have hl' : d.lengthModifier = none := hl.resolve_right fun h => by simp [hsp] at h
    simp [hsp, hl', intBase, assert]
  · have hl' : d.lengthModifier = none := hl.resolve_right fun h => by simp [hsp] at h
    simp [hsp, hl', intBase, assert]
  · have hl' : d.lengthModifier = none := hl.resolve_right fun h => by simp [hsp] at h
    simp [hsp, hl', intBase, assert]

theorem scanConversion_float (h : d.specifier = 102) : scanConversion src parse d s = scanFloat src parse d s := by
  simp [scanConversion, h]

theorem scanConversion_set (h : d.specifier = 91) : scanConversion src parse d s = scanSet src d s := by
  simp [scanConversion, h]

theorem scanConversion_string (h : d.specifier = 115) : scanConversion src parse d s = scanString src d s := by
  simp [scanConversion, h]

end

/-! ## Turns -/

/-- the turn `x` in the state `s` does what C says; a scan is over when nothing is left of the format, too -/
def DoesTurn {σ R : Type} (s : ScanState σ R) (x : Except Panic (ScanState σ R)) : CTurn → Prop
  | .unsupported => True
  | .finished => ∃ s', x = .ok s' ∧ s'.done = true ∧ s'.stores = s.stores ∧ s'.matched = s.matched
  | .failed _ =>
    ∃ s', x = .ok s' ∧ (s'.done = true ∨ s'.rest.headD 0 = 0) ∧ s'.stores = s.stores ∧ s'.matched = s.matched
  | .matched rest n false =>
    ∃ s', x = .ok s' ∧ s'.done = false ∧ s'.rest = rest ∧ s'.srcIdx = s.srcIdx + n ∧ s'.argIdx = s.argIdx ∧
      s'.stores = s.stores ∧ s'.matched = s.matched
  | .matched rest n true =>
    ∃ s', x = .ok s' ∧ s'.done = false ∧ s'.rest = rest ∧ s'.srcIdx = s.srcIdx + n ∧ s'.argIdx = s.argIdx + 1 ∧
      (∃ v, s'.stores = s.stores ++ [(s.argIdx, v)]) ∧ s'.matched = s.matched + 1

/-- when a directive of its kind does what C says; '[' at the end of the format has nothing to go on with -/
def DirectiveMatches (d : ScanDirective) (f r : List UInt8) : Prop :=
  match d.kind with
  | some .integer => IntMatches (intBase d.specifier) d.maxWidth (r.dropWhile isspaceInner)
  | some .string => r.dropWhile isspaceInner ≠ []
  | some .set => ∀ set f', parseSet f = .ok (set, f') → r.takeWhile set.accepts ≠ [] ∨ f'.headD 0 = 0
  | _ => True

section

variable {σ R : Type} (src : Source σ) (parse : List UInt8 → Option R) (input : List UInt8)

/-- a turn does what C says -/
def TurnAsInC (s : ScanState σ R) (_ : Unit) : Prop :=
  s.done = false → DoesTurn s (scanStep src parse s ()) (cTurn parse s.rest (input.drop s.srcIdx))

/-- its condition: a directive that is supported matches as in C -/
def Matches (s : ScanState σ R) (_ : Unit) : Prop :=
  s.done = false → ∀ g d f, s.rest = 37 :: g → parseScan g = .ok (d, f) → DirectiveMatches d f (input.drop s.srcIdx)

end

section

variable {σ R : Type} {src : Source σ} {parse : List UInt8 → Option R} {st : σ} {input r f g : List UInt8}
  {s s' : ScanState σ R} {d : ScanDirective} {n : ℕ}

/-- an integer conversion -/
theorem integer_turn {ty : IntType} {v : IntScan} {found : Option ℕ} (store : ℤ → Stored R) (hd : s.done = false) :
    DoesTurn s (integerResult (s.skipped f n) store (v.finish ty)) (.ofLength f n found) ↔ Finds ty v found := by
  cases hfin : v.finish ty with
  | error e =>
    refine iff_of_false ?_ ?_
    · intro h
      cases found with
      | none =>
        obtain ⟨s', hx, -⟩ := h
        cases hx
      | some len =>
        obtain ⟨s', hx, -⟩ := h
        cases hx
    · rintro ⟨val, hval⟩
      rw [hfin] at hval
      cases hval
  | ok res =>
    cases res with
    | none =>
      have hx : integerResult (s.skipped f n) store (.ok none) = .ok ((s.skipped f n).stop s.src) := rfl
      have hnone : Finds ty v none := ⟨0, hfin⟩
      rw [hx]
      constructor
      · intro h
        cases found with
        | none => exact hnone
        | some len =>
          obtain ⟨s', hs', hdone, -⟩ := h
          cases hs'
          cases hdone
      · intro h
        obtain rfl := h.unique hnone
        exact ⟨_, rfl, .inl rfl, rfl, rfl⟩
    | some p =>
      have hx : integerResult (s.skipped f n) store (.ok (some p)) = .ok ((s.skipped f n).assigned (store p.1) p.2) := rfl
      have hsome : Finds ty v (some p.2) := ⟨p.1, hfin⟩
      rw [hx]
      constructor
      · intro h
        cases found with
        | none =>
          obtain ⟨s', hs', -, -, hmatched⟩ := h
          cases hs'
          exact absurd hmatched (by simp [ScanState.assigned, ScanState.skipped])
        | some len =>
          obtain ⟨s', hs', -, -, hidx, -⟩ := h
          cases hs'
          have hlen : p.2 = len := by
            simp only [ScanState.assigned, ScanState.skipped] at hidx
            omega
          rw [← hlen]
          exact hsome
      · intro h
        obtain rfl := h.unique hsome
        exact ⟨_, rfl, hd, rfl, Nat.add_assoc _ _ _, rfl, ⟨_, rfl⟩, rfl⟩

/-- a conversion that assigns what it has found -/
theorem assigned_turn (v : Stored R) (len : ℕ) (hd : s.done = false) :
    DoesTurn s (.ok ((s.skipped f n).assigned v len)) (.ofLength f n (some len)) :=
  ⟨_, rfl, hd, rfl, Nat.add_assoc _ _ _, rfl, ⟨_, rfl⟩, rfl⟩

theorem takeWhile_dropWhile_self (p : UInt8 → Bool) (r : List UInt8) : (r.dropWhile p).takeWhile p = [] := by
  induction r with
  | nil => rfl
  | cons c r ih =>
    by_cases hc : p c = true
    · rw [List.dropWhile_cons_of_pos hc]
      exact ih
    · rw [List.dropWhile_cons_of_neg hc, List.takeWhile_cons_of_neg hc]

theorem takeWhile_notSpace (r : List UInt8) :
    (r.dropWhile isspaceInner).takeWhile notSpace = [] ↔ r.dropWhile isspaceInner = [] := by
  induction r with
  | nil => exact Iff.rfl
  | cons c r ih =>
    by_cases hc : isspaceInner c = true
    · rw [List.dropWhile_cons_of_pos hc]
      exact ih
    · have hn : notSpace c = true := by simpa [notSpace] using hc
      rw [List.dropWhile_cons_of_neg hc, List.takeWhile_cons_of_pos hn]
      exact iff_of_false (List.cons_ne_nil _ _) (List.cons_ne_nil _ _)

theorem positive_length (l : List UInt8) : positive l.length = if l = [] then none else some l.length := by
  unfold positive
  simp only [List.length_eq_zero_iff]

/-- what a kind says about the specifier -/
theorem skips_space {k : Kind} (h : d.kind = some k) (hk : k ≠ .set) :
    d.specifier ≠ 91 ∧ d.specifier ≠ 99 ∧ d.specifier ≠ 110 := by
  have hspec := kind_spec h
  cases k with
  | integer => rcases isInteger_cases hspec.1 with hsp | hsp | hsp | hsp | hsp <;> rw [hsp] <;> decide
  | float => rw [hspec.1]; decide
  | set => exact absurd rfl hk
  | string => rw [hspec.1]; decide

theorem intBase_cases (c : UInt8) : intBase c = 0 ∨ intBase c = 10 ∨ intBase c = 16 := by
  unfold intBase
  split_ifs
  · exact .inl rfl
  · exact .inr (.inr rfl)
  · exact .inr (.inl rfl)

/-- **A directive** does what C says exactly when it matches as in C. -/
theorem directive_turn (hs : src.IsString st input) (hr : Reading st input s r) (hd : s.done = false)
    (hp : parseScan g = .ok (d, f)) :
    DoesTurn s (scanDirective src parse s g) (cConversion parse d f r) ↔ DirectiveMatches d f r := by
  have hr' := hr.skipped f
  unfold cConversion DirectiveMatches
  cases hk : d.kind with
  | none => exact Iff.rfl
  | some k =>
    cases k with
    | integer =>
      have hbase := intBase_cases d.specifier
      have hsize := hs.size
      have hlen := hr'.length
      rw [scanDirective_string hs hr hp (skips_space hk (by decide)), scanConversion_integer hk,
        scanInteger_string hs hr' (by omega) (parseScan_width hp)]
      exact (integer_turn _ hd).trans
        (scanInt_finds_iff (intType d) hbase (takeWhile_dropWhile_self _ r) (by omega))
    | float =>
      obtain ⟨hsp, hw, hl⟩ := kind_spec hk
      rw [scanDirective_string hs hr hp (skips_space hk (by decide)), scanConversion_float hsp,
        (scanFloat_string hs hr' (takeWhile_dropWhile_self _ r) hw).2]
      refine iff_of_true ?_ trivial
      cases hv : parse (floatChars (r.dropWhile isspaceInner)) with
      | none =>
        simp only [hv, Option.map_none]
        exact ⟨_, rfl, .inl rfl, rfl, rfl⟩
      | some v =>
        simp only [hv, if_pos hl, Option.map_some]
        exact assigned_turn _ _ hd
    | string =>
      obtain ⟨hsp, hw, hl⟩ := kind_spec hk
      rw [scanDirective_string hs hr hp (skips_space hk (by decide)), scanConversion_string hsp,
        scanString_string hs hr' hw hl]
      simp only [positive_length, takeWhile_notSpace]
      by_cases hnil : r.dropWhile isspaceInner = []
      · rw [if_pos hnil]
        refine iff_of_false ?_ (not_not_intro hnil)
        rintro ⟨s', hs', -, -, hmatched⟩
        cases hs'
        exact absurd hmatched (by simp [ScanState.assigned, ScanState.skipped])
      · rw [if_neg hnil]
        exact iff_of_true (assigned_turn _ _ hd) hnil
    | set =>
      obtain ⟨hsp, hw, hl⟩ := kind_spec hk
      have hstart : Reading st input { s with rest := f } r := ⟨hr.src, hr.inside, hr.left⟩
      rw [scanDirective_set hp fun h => h.1 hsp, scanConversion_set hsp]
      cases hset : parseSet f with
      | error e =>
        exact iff_of_true trivial fun set f' h => (nomatch h)
      | ok p =>
        obtain ⟨set, f'⟩ := p
        rw [scanSet_string hs hstart hw hl hset]
        simp only [positive_length]
        by_cases hnil : r.takeWhile set.accepts = []
        · rw [if_pos hnil, if_pos hnil]
          constructor
          · rintro ⟨s', hs', hend, -⟩ set' f'' h
            cases hs'
            cases h
            refine .inr (hend.resolve_left ?_)
            rw [hd]
            decide
          · intro h
            exact ⟨_, rfl, .inr ((h set f' rfl).resolve_left (not_not_intro hnil)), rfl, rfl⟩
        · rw [if_neg hnil, if_neg hnil]
          refine iff_of_true ⟨_, rfl, hd, rfl, ?_, rfl, ⟨_, rfl⟩, rfl⟩ ?_
          · rw [Nat.zero_add]
          · intro set' f'' h
            cases h
            exact .inl hnil

/-- **One turn.** -/
theorem turn_iff (hs : src.IsString st input) (hr : Reading st input s (input.drop s.srcIdx)) :
    TurnAsInC src parse input s () ↔ Matches input s () := by
  unfold TurnAsInC Matches
  refine imp_congr_right fun hd => ?_
  unfold scanStep cTurn
  rw [if_neg (by rw [hd]; decide)]
  cases hrest : s.rest with
  | nil => exact iff_of_true ⟨_, rfl, rfl, rfl, rfl⟩ fun g d f h => (nomatch h)
  | cons c g =>
    simp only
    by_cases h0 : c = 0
    · subst h0
      rw [if_pos rfl, if_pos rfl]
      refine iff_of_true ⟨_, rfl, rfl, rfl, rfl⟩ ?_
      intro g' d f h
      exact absurd (List.cons.inj h).1 (by decide)
    rw [if_neg h0, if_neg h0]
    by_cases hc : c = 37
    · subst hc
      rw [if_neg (not_not_intro rfl), if_neg (not_not_intro rfl)]
      cases hp : parseScan g with
      | error e =>
        refine iff_of_true trivial ?_
        intro g' d f h hp'
        obtain rfl := (List.cons.inj h).2
        rw [hp] at hp'
        cases hp'
      | ok p =>
        obtain ⟨d, f⟩ := p
        refine (directive_turn hs hr hd hp).trans ⟨?_, fun h => h g d f rfl hp⟩
        intro h g' d' f' hrest' hp'
        obtain rfl := (List.cons.inj hrest').2
        rw [hp] at hp'
        cases hp'
        exact h
    · rw [if_pos hc, if_pos hc]
      refine iff_of_true ?_ fun g' d f h => absurd (List.cons.inj h).1 hc
      by_cases hspace : isspaceInner c = true
      · rw [if_pos hspace, scanLiteral_space hs hr hspace]
        exact ⟨_, rfl, hd, rfl, rfl, rfl, rfl, rfl⟩
      · rw [if_neg hspace, scanLiteral_other hs hr (by simpa using hspace) h0]
        by_cases hhead : (input.drop s.srcIdx).head? = some c
        · rw [if_pos hhead, if_pos hhead]
          exact ⟨_, rfl, hd, rfl, rfl, rfl, rfl, rfl⟩
        · rw [if_neg hhead, if_neg hhead]
          exact ⟨_, rfl, .inl rfl, rfl, rfl⟩

/-! ## Runs -/

/-- a directive that is not supported panics, or it is a float that fails before the length modifier is looked at -/
theorem unsupported_ok (h : d.kind = none) (hok : scanConversion src parse d s = .ok s') :
    d.specifier = 102 ∧ d.maxWidth = 0 := by
  by_cases hint : isInteger d.specifier = true
  · rw [ScanDirective.kind, if_pos hint] at h
    have hl : ¬(d.lengthModifier = none ∨ (d.specifier = 100 ∨ d.specifier = 105) ∧ d.lengthModifier = some .h) := by
      intro hl
      rw [if_pos hl] at h
      cases h
    push Not at hl
    obtain ⟨hnone, hshort⟩ := hl
    rcases isInteger_cases hint with hsp | hsp | hsp | hsp | hsp
    · have hne := hshort (.inl hsp)
      cases hlen : d.lengthModifier with
      | none => exact absurd hlen hnone
      | some length => cases length <;> simp [scanConversion, hsp, hlen] at hok hne
    · have hne := hshort (.inr hsp)
      cases hlen : d.lengthModifier with
      | none => exact absurd hlen hnone
      | some length => cases length <;> simp [scanConversion, hsp, hlen] at hok hne
    · simp [scanConversion, hsp, hnone, assert] at hok
    · simp [scanConversion, hsp, hnone, assert] at hok
    · simp [scanConversion, hsp, hnone, assert] at hok
  · rw [ScanDirective.kind, if_neg hint] at h
    by_cases hf : d.specifier = 102
    · refine ⟨hf, ?_⟩
      by_contra hw
      rw [scanConversion_float hf] at hok
      simp [scanFloat, hw, assert] at hok
    · exfalso
      by_cases hset : d.specifier = 91
      · rw [scanConversion_set hset] at hok
        by_cases hw : d.maxWidth = 0
        · by_cases hl : d.lengthModifier = none
          · simp [hw, hl, hset] at h
          · simp [scanSet, hw, hl, assert] at hok
        · simp [scanSet, hw, assert] at hok
      · by_cases hstring : d.specifier = 115
        · rw [scanConversion_string hstring] at hok
          by_cases hw : d.maxWidth = 0
          · by_cases hl : d.lengthModifier = none
            · simp [hw, hl, hstring] at h
            · simp [scanString, hw, hl, assert] at hok
          · simp [scanString, hw, assert] at hok
        · simp [isInteger] at hint
          simp [scanConversion, hf, hset, hstring, hint] at hok

theorem Reading.self (h : Reading st input s r) : Reading st input s (input.drop s.srcIdx) := ⟨h.src, h.inside, rfl⟩

theorem Reading.stop (h : Reading st input s r) : Reading st input (s.stop s.src) r := ⟨h.src, h.inside, h.left⟩

theorem float_reading (hs : src.IsString st input) (hr : Reading st input s r) (hspace : r.takeWhile isspaceInner = [])
    (hw : d.maxWidth = 0) (hok : scanFloat src parse d s = .ok s') : Reading st input s' (input.drop s'.srcIdx) := by
  obtain ⟨hle, heq⟩ := scanFloat_string hs hr hspace hw
  rw [heq] at hok
  cases hv : parse (floatChars r) with
  | none =>
    rw [hv] at hok
    cases hok
    exact hr.stop.self
  | some v =>
    rw [hv] at hok
    simp only at hok
    split_ifs at hok
    cases hok
    exact Reading.self (hr.more hle hr.src rfl)

/-- a conversion stays in the string -/
theorem conversion_reading (hs : src.IsString st input) (hr : Reading st input s r)
    (hspace : d.specifier ≠ 91 → r.takeWhile isspaceInner = []) (hwidth : d.maxWidth < 2 ^ 32)
    (hok : scanConversion src parse d s = .ok s') : Reading st input s' (input.drop s'.srcIdx) := by
  cases hk : d.kind with
  | none =>
    obtain ⟨hsp, hw⟩ := unsupported_ok hk hok
    rw [scanConversion_float hsp] at hok
    exact float_reading hs hr (hspace (by rw [hsp]; decide)) hw hok
  | some k =>
    cases k with
    | integer =>
      have hbase := intBase_cases d.specifier
      rw [scanConversion_integer hk, scanInteger_string hs hr (by omega) hwidth] at hok
      cases hfin : (scanInt (intBase d.specifier) (widthLimit d.maxWidth) r).finish (intType d) with
      | error e =>
        rw [hfin] at hok
        cases hok
      | ok res =>
        rw [hfin] at hok
        cases res with
        | none =>
          cases hok
          exact hr.stop.self
        | some p =>
          cases hok
          exact Reading.self (hr.more (scanInt_len hfin) hr.src rfl)
    | float =>
      obtain ⟨hsp, hw, -⟩ := kind_spec hk
      rw [scanConversion_float hsp] at hok
      exact float_reading hs hr (hspace (by rw [hsp]; decide)) hw hok
    | string =>
      obtain ⟨hsp, hw, hl⟩ := kind_spec hk
      rw [scanConversion_string hsp, scanString_string hs hr hw hl] at hok
      cases hok
      exact Reading.self (hr.more (takeWhile_length_le _ r) hr.src rfl)
    | set =>
      obtain ⟨hsp, hw, hl⟩ := kind_spec hk
      rw [scanConversion_set hsp] at hok
      cases hset : parseSet s.rest with
      | error e =>
        simp [scanSet, hw, hl, hset, assert] at hok
      | ok p =>
        rw [scanSet_string hs hr hw hl hset] at hok
        cases hok
        split_ifs
        · exact ⟨hr.src, hr.inside, rfl⟩
        · exact Reading.self (hr.more (takeWhile_length_le _ r) hr.src rfl)

/-- a turn stays in the string -/
theorem step_reading (hs : src.IsString st input) (hr : Reading st input s (input.drop s.srcIdx))
    (hok : scanStep src parse s () = .ok s') : Reading st input s' (input.drop s'.srcIdx) := by
  unfold scanStep at hok
  by_cases hd : s.done = true
  · rw [if_pos hd] at hok
    cases hok
    exact hr
  rw [if_neg hd] at hok
  cases hrest : s.rest with
  | nil =>
    rw [hrest] at hok
    cases hok
    exact hr.stop.self
  | cons c g =>
    rw [hrest] at hok
    simp only at hok
    by_cases h0 : c = 0
    · rw [if_pos h0] at hok
      cases hok
      exact hr.stop.self
    rw [if_neg h0] at hok
    by_cases hc : c = 37
    swap
    · rw [if_pos hc] at hok
      by_cases hspace : isspaceInner c = true
      · rw [scanLiteral_space hs hr hspace] at hok
        cases hok
        exact (hr.skipped g).self
      · rw [scanLiteral_other hs hr (by simpa using hspace) h0] at hok
        cases hok
        split_ifs with hhead
        · have hpos : 1 ≤ (input.drop s.srcIdx).length := by
            cases hl : input.drop s.srcIdx with
            | nil =>
              rw [hl] at hhead
              cases hhead
            | cons => exact Nat.succ_pos _
          exact Reading.self (hr.more hpos hr.src rfl)
        · exact ⟨hr.src, hr.inside, rfl⟩
    rw [if_neg (not_not_intro hc)] at hok
    obtain ⟨⟨d, f⟩, hp, -⟩ := bind_eq_ok.1 hok
    by_cases hsp : d.specifier ≠ 91 ∧ d.specifier ≠ 99 ∧ d.specifier ≠ 110
    · rw [scanDirective_string hs hr hp hsp] at hok
      exact conversion_reading hs (hr.skipped f) (fun _ => takeWhile_dropWhile_self _ _) (parseScan_width hp) hok
    · rw [scanDirective_set hp hsp] at hok
      have hstart : Reading st input { s with rest := f } (input.drop s.srcIdx) := ⟨hr.src, hr.inside, rfl⟩
      refine conversion_reading hs hstart (fun hset => ?_) (parseScan_width hp) hok
      exfalso
      by_cases hchar : d.specifier = 99
      · simp [scanConversion, hchar] at hok
      · have hcount : d.specifier = 110 := by_contra fun h => hsp ⟨hset, hchar, h⟩
        simp [scanConversion, hcount] at hok

/-- what matches is shorter than the format -/
theorem cConversion_length {rest : List UInt8} {n : ℕ} {b : Bool} (h : cConversion parse d f r = .matched rest n b) :
    rest.length ≤ f.length := by
  have hof : ∀ {f' : List UInt8} {k : ℕ} {found : Option ℕ}, CTurn.ofLength f' k found = .matched rest n b → rest = f' := by
    intro f' k found hof
    cases found with
    | none => cases hof
    | some len =>
      cases hof
      rfl
  unfold cConversion at h
  cases hk : d.kind with
  | none =>
    rw [hk] at h
    cases h
  | some k =>
    rw [hk] at h
    cases k with
    | integer => exact (congrArg List.length (hof h)).le
    | float => exact (congrArg List.length (hof h)).le
    | string => exact (congrArg List.length (hof h)).le
    | set =>
      cases hset : parseSet f with
      | error e =>
        simp only [hset] at h
        cases h
      | ok p =>
        simp only [hset] at h
        exact (congrArg List.length (hof h)).le.trans (parseSet_length hset)

theorem cTurn_length {format rest : List UInt8} {n : ℕ} {b : Bool} (h : cTurn parse format r = .matched rest n b) :
    rest.length < format.length := by
  cases format with
  | nil => cases h
  | cons c f =>
    unfold cTurn at h
    simp only at h
    by_cases h0 : c = 0
    · rw [if_pos h0] at h
      cases h
    rw [if_neg h0] at h
    by_cases hc : c = 37
    · rw [if_neg (not_not_intro hc)] at h
      cases hp : parseScan f with
      | error e =>
        rw [hp] at h
        cases h
      | ok p =>
        rw [hp] at h
        exact Nat.lt_succ_of_le ((cConversion_length h).trans (parseScan_length hp))
    · rw [if_pos hc] at h
      split_ifs at h
      · cases h
        exact Nat.lt_succ_self _
      · cases h
        exact Nat.lt_succ_self _

/-- a scan that is over assigns nothing more -/
theorem run_ended (hend : s.done = true ∨ s.rest.headD 0 = 0) (n : ℕ) :
    ∃ t, run (scanStep src parse) s (List.replicate n ()) = .ok t ∧ t.stores = s.stores ∧ t.matched = s.matched := by
  by_cases hd : s.done = true
  · exact ⟨s, run_done hd n, rfl, rfl⟩
  have hhead := hend.resolve_left hd
  cases n with
  | zero => exact ⟨s, rfl, rfl, rfl⟩
  | succ n =>
    have hstep : scanStep src parse s () = .ok (s.stop s.src) := by
      unfold scanStep
      rw [if_neg hd]
      cases hrest : s.rest with
      | nil => rfl
      | cons c f =>
        rw [hrest] at hhead
        exact if_pos hhead
    refine ⟨s.stop s.src, ?_, rfl, rfl⟩
    rw [List.replicate_succ, run_cons, hstep, ok_bind, run_done (s := s.stop s.src) rfl]

/-- **The count of a run** whose turns do what C says -/
theorem run_count (hs : src.IsString st input) {n k : ℕ} (hr : Reading st input s (input.drop s.srcIdx))
    (hd : s.done = false) (hn : s.rest.length < n)
    (hl : LegalRun (scanStep src parse) (TurnAsInC src parse input) s (List.replicate n ()))
    (hk : cScan parse n s.rest (input.drop s.srcIdx) = some k) :
    ∃ t, run (scanStep src parse) s (List.replicate n ()) = .ok t ∧ t.matched = s.matched + k ∧
      t.stores.map Prod.fst = s.stores.map Prod.fst ++ List.range' s.argIdx k := by
  induction n generalizing s k with
  | zero => exact absurd hn (Nat.not_lt_zero _)
  | succ n ih =>
    obtain ⟨hturn, hlegal⟩ := hl
    have hdoes := hturn hd
    rw [cScan] at hk
    cases hc : cTurn parse s.rest (input.drop s.srcIdx) with
    | finished =>
      rw [hc] at hdoes hk
      obtain ⟨s', hstep, hdone, hstores, hmatched⟩ := hdoes
      cases hk
      refine ⟨s', ?_, by simpa using hmatched, by simpa using congrArg (List.map Prod.fst) hstores⟩
      rw [List.replicate_succ, run_cons, hstep, ok_bind, run_done hdone]
    | unsupported =>
      rw [hc] at hk
      cases hk
    | failed f =>
      rw [hc] at hdoes hk
      obtain ⟨s', hstep, hend, hstores, hmatched⟩ := hdoes
      cases hk
      obtain ⟨t, hrun, hstores', hmatched'⟩ := run_ended hend n
      refine ⟨t, ?_, ?_, ?_⟩
      · rw [List.replicate_succ, run_cons, hstep, ok_bind, hrun]
      · simp [hmatched', hmatched]
      · simp [hstores', hstores]
    | matched rest taken b =>
      have hlt := cTurn_length hc
      rw [hc] at hdoes hk
      obtain ⟨k', hk', hsum⟩ := Option.map_eq_some_iff.1 hk
      cases b with
      | false =>
        obtain ⟨s', hstep, hdone, hrest, hidx, harg, hstores, hmatched⟩ := hdoes
        rw [List.drop_drop, ← hidx, ← hrest] at hk'
        rw [← hrest] at hlt
        obtain ⟨t, hrun, hcount, hargs⟩ := ih (step_reading hs hr hstep) hdone (by omega) (hlegal s' hstep) hk'
        have hkk : k' = k := by simpa using hsum
        refine ⟨t, ?_, ?_, ?_⟩
        · rw [List.replicate_succ, run_cons, hstep, ok_bind, hrun]
        · rw [hcount, hmatched, hkk]
        · rw [hargs, hstores, harg, hkk]
      | true =>
        obtain ⟨s', hstep, hdone, hrest, hidx, harg, ⟨v, hstores⟩, hmatched⟩ := hdoes
        rw [List.drop_drop, ← hidx, ← hrest] at hk'
        rw [← hrest] at hlt
        obtain ⟨t, hrun, hcount, hargs⟩ := ih (step_reading hs hr hstep) hdone (by omega) (hlegal s' hstep) hk'
        have hkk : k = k' + 1 := by rw [← hsum, Bool.toNat_true, Nat.add_comm]
        refine ⟨t, ?_, ?_, ?_⟩
        · rw [List.replicate_succ, run_cons, hstep, ok_bind, hrun]
        · rw [hcount, hmatched, hkk]
          push_cast
          ring
        · rw [hargs, hstores, harg, hkk, List.map_append, List.append_assoc, List.range'_succ]
          rfl

end

/-! ## The function -/

section

variable {R : Type} (parse : List UInt8 → Option R) (format input : List UInt8)

/-- `sscanf` assigns as in C: every turn of the loop does what C says; and without an unsupported directive before the
first one that fails, it returns the number of assignments before that one and makes just these -/
def ScansAsInC (ptr : ℕ) (m : Mem) : Prop :=
  LegalRun (scanStep (cString ptr) parse) (TurnAsInC (cString ptr) parse input) (scanStart format m) (scanTurns format) ∧
    ∀ k, cScan parse (format.length + 1) format input = some k →
      ∃ t, scan (cString ptr) parse format m = .ok t ∧ t.matched = k ∧ t.stores.map Prod.fst = List.range k

/-- **`sscanf`.** In every run over every string, all directives do what C says, and the count is that of C, if and only
if every directive of the run is as `Matches` says. -/
theorem sscanf_iff {ptr : ℕ} {m : Mem} (h : HoldsString m ptr input) :
    ScansAsInC parse format input ptr m ↔
      LegalRun (scanStep (cString ptr) parse) (Matches input) (scanStart format m) (scanTurns format) := by
  have hs := h.isString
  have hstart : Reading m input (scanStart (R := R) format m) (input.drop 0) := ⟨rfl, Nat.zero_le _, rfl⟩
  have hcongr : LegalRun (scanStep (cString ptr) parse) (TurnAsInC (cString ptr) parse input) (scanStart format m)
      (scanTurns format) ↔ LegalRun (scanStep (cString ptr) parse) (Matches input) (scanStart format m) (scanTurns format) :=
    legalRun_congr_of_inv (I := fun s => Reading m input s (input.drop s.srcIdx))
      (fun s o s' hr hok => step_reading hs hr hok) (fun s o hr => turn_iff hs hr) hstart
  constructor
  · intro hscan
    exact hcongr.1 hscan.1
  · intro hmatches
    have hlegal := hcongr.2 hmatches
    refine ⟨hlegal, fun k hk => ?_⟩
    obtain ⟨t, hrun, hcount, hargs⟩ := run_count hs hstart rfl (Nat.lt_succ_self _) hlegal hk
    refine ⟨t, hrun, ?_, ?_⟩
    · rw [hcount]
      exact Int.zero_add _
    · rw [hargs, List.range_eq_range']
      rfl

end

/-- "7" in memory -/
def sevenMem : Mem := ⟨store (fun _ => 0) 4096 [55], 4096⟩

/-- "%d" on "7" -/
theorem sscanf_iff_seven : HoldsString sevenMem 4096 [55] ∧
    ScansAsInC (fun _ => (none : Option ℕ)) [37, 100] [55] 4096 sevenMem := by
  have hmem : HoldsString sevenMem 4096 [55] := ⟨by decide, by decide, by decide, by simp⟩
  refine ⟨hmem, (sscanf_iff (fun _ => (none : Option ℕ)) [37, 100] [55] hmem).2 ?_⟩
  have hcode : scanStep (cString 4096) (fun _ => (none : Option ℕ)) (scanStart [37, 100] sevenMem) () =
      .ok ⟨[], 1, 1, [(0, .i32 7)], 1, sevenMem, false⟩ := rfl
  refine ⟨?_, fun s₁ h₁ => ?_⟩
  · intro _ g d f hrest hp
    cases hrest
    cases hp
    show IntMatches 10 0 [55]
    decide
  · rw [hcode] at h₁
    cases h₁
    refine ⟨fun _ g d f hrest => (nomatch hrest), fun s₂ h₂ => ?_⟩
    cases h₂
    exact ⟨fun hdone => (nomatch hdone), fun _ _ => trivial⟩

/-- an empty string in memory -/
def emptyMem : Mem := ⟨fun _ => 0, 4096⟩

/-- "%s" stores an empty string where nothing is left. -/
theorem sscanf_emptyString : HoldsString emptyMem 4096 [] ∧
    ¬ScansAsInC (fun _ => (none : Option ℕ)) [37, 115] [] 4096 emptyMem := by
  have hmem : HoldsString emptyMem 4096 [] := ⟨by decide, by decide, by decide, by simp⟩
  refine ⟨hmem, ?_⟩
  rintro ⟨⟨hturn, -⟩, -⟩
  obtain ⟨s', hstep, -, -, hmatched⟩ := hturn rfl
  have hcode : scanStep (cString 4096) (fun _ => (none : Option ℕ)) (scanStart [37, 115] emptyMem) () =
      .ok ⟨[], 0, 1, [(0, .text [0])], 1, emptyMem, false⟩ := rfl
  rw [hcode] at hstep
  cases hstep
  exact absurd hmatched (by decide)

end TouchHLE.Scanf
