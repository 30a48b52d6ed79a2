/-
`NSString` (`ns_string.rs`): strings as UTF-8 text or as UTF-16 code units, and the methods that see them as one or the other.

- `StringHostObject`, `toUtf8`, `iterCodeUnits`, `convertToUtf16Inplace`: the representations. A text is a list of characters.
- `length`, `characterAtIndex`, `hash`, `isEqual`, `isEqualToString`, `hasPrefix`, `hasSuffix`, `compare`: the methods.
- `Op`, `call`, `step`: calls in any order.
- `expected`: what a call is to give, from the code units alone. `Fits`: the calls for which it does.
- `string_calls`: sequences of calls.

The hash of a text is a parameter.
-/
import TouchHLE.Lib.Machine
import TouchHLE.Lib.Utf16
import TouchHLE.Panic

namespace TouchHLE.NSString

open Machine Utf16

inductive StringHostObject where
  | utf8 (utf8 : List Char)
  /-- not necessarily well-formed -/
  | utf16 (utf16 : List UInt16)

def toUtf8 : StringHostObject → Option (List Char)
  | .utf8 utf8 => some utf8
  | .utf16 utf16 => decode utf16

def iterCodeUnits : StringHostObject → List UInt16
  | .utf8 utf8 => encode utf8
  | .utf16 utf16 => utf16

/-- the code units, which become the representation -/
def convertToUtf16Inplace (host : StringHostObject) : List UInt16 × StringHostObject :=
  (iterCodeUnits host, .utf16 (iterCodeUnits host))

structure NSRange where
  location : ℕ
  length : ℕ
deriving DecidableEq

/-- the strings that there are -/
abbrev Strings := List StringHostObject

section

variable (s : Strings)

def borrow (a : ℕ) : Except Panic StringHostObject := unwrap s[a]? .hostObject

def toRustString (a : ℕ) : Except Panic (List Char) := do
  let host ← borrow s a
  unwrap (toUtf8 host) .utf16

def length (a : ℕ) : Except Panic (ℕ × Strings) := do
  let host ← borrow s a
  let (utf16, host) := convertToUtf16Inplace host
  assert (utf16.length < 2 ^ 32) .conversion
  pure (utf16.length, s.set a host)

def characterAtIndex (a index : ℕ) : Except Panic (UInt16 × Strings) := do
  let host ← borrow s a
  let (utf16, host) := convertToUtf16Inplace host
  let unit ← unwrap utf16[index]? .index
  pure (unit, s.set a host)

def hash (hashHelper : List Char → ℕ) (a : ℕ) : Except Panic ℕ := do
  let string ← toRustString s a
  pure (hashHelper string)

/-- `isEqual:`, for another string -/
def isEqual (a b : ℕ) : Except Panic Bool :=
  if a = b then pure true else do
    let this ← toRustString s a
    let other ← toRustString s b
    pure (this == other)

def isEqualToString (a b : ℕ) : Except Panic Bool := isEqual s a b

def hasPrefix (a b : ℕ) : Except Panic Bool := do
  let str ← toRustString s b
  let this ← toRustString s a
  pure (str.isPrefixOf this)

def hasSuffix (a b : ℕ) : Except Panic Bool := do
  let str ← toRustString s b
  let this ← toRustString s a
  pure (str.isSuffixOf this)

/-- `compare:`, a literal comparison -/
def compare (a b : ℕ) : Except Panic Ordering := do
  let this ← borrow s a
  let other ← borrow s b
  pure (compareUnits (iterCodeUnits this) (iterCodeUnits other))

end

inductive Op where
  | length (a : ℕ)
  | characterAtIndex (a index : ℕ)
  | hash (a : ℕ)
  | isEqual (a b : ℕ)
  | isEqualToString (a b : ℕ)
  | hasPrefix (a b : ℕ)
  | hasSuffix (a b : ℕ)
  | compare (a b : ℕ)

inductive Answer where
  | length (n : ℕ)
  | unit (u : UInt16)
  | hash (n : ℕ)
  | bool (b : Bool)
  | order (o : Ordering)
deriving DecidableEq

def call (hashHelper : List Char → ℕ) (s : Strings) : Op → Except Panic (Answer × Strings)
  | .length a => do
    let (n, s) ← length s a
    pure (.length n, s)
  | .characterAtIndex a index => do
    let (u, s) ← characterAtIndex s a index
    pure (.unit u, s)
  | .hash a => do
    let n ← hash s hashHelper a
    pure (.hash n, s)
  | .isEqual a b => do
    let equal ← isEqual s a b
    pure (.bool equal, s)
  | .isEqualToString a b => do
    let equal ← isEqualToString s a b
    pure (.bool equal, s)
  | .hasPrefix a b => do
    let has ← hasPrefix s a b
    pure (.bool has, s)
  | .hasSuffix a b => do
    let has ← hasSuffix s a b
    pure (.bool has, s)
  | .compare a b => do
    let o ← compare s a b
    pure (.order o, s)

/-- the strings, and the answers so far -/
structure Session where
  strings : Strings
  answers : List Answer

def step (hashHelper : List Char → ℕ) (s : Session) (op : Op) : Except Panic Session := do
  let (answer, strings) ← call hashHelper s.strings op
  pure ⟨strings, s.answers ++ [answer]⟩

/-! ## What the calls are to give -/

/-- all code units -/
def units (s : Strings) : List (List UInt16) := s.map iterCodeUnits

section

variable (us : List (List UInt16))

/-- the code units of a string -/
def unitsOf (a : ℕ) : List UInt16 := us.getD a []

/-- **The purpose**: a string is its code units. Equal strings have equal hashes. -/
def expected (hashHelper : List Char → ℕ) : Op → Answer
  | .length a => .length (unitsOf us a).length
  | .characterAtIndex a index => .unit ((unitsOf us a).getD index 0)
  | .hash a => .hash (hashHelper ((decode (unitsOf us a)).getD []))
  | .isEqual a b | .isEqualToString a b => .bool (unitsOf us a = unitsOf us b)
  | .hasPrefix a b => .bool (unitsOf us b <+: unitsOf us a)
  | .hasSuffix a b => .bool (unitsOf us b <:+ unitsOf us a)
  | .compare a b =>
    .order (if unitsOf us a = unitsOf us b then .eq else if unitsOf us a < unitsOf us b then .lt else .gt)

/-- a call for strings that there are -/
def OfStrings : Op → Prop
  | .length a | .characterAtIndex a _ | .hash a => a < us.length
  | .isEqual a b | .isEqualToString a b | .hasPrefix a b | .hasSuffix a b | .compare a b => a < us.length ∧ b < us.length

instance (op : Op) : Decidable (OfStrings us op) :=
  match op with
  | .length _ | .characterAtIndex .. | .hash _ => inferInstanceAs (Decidable (_ < _))
  | .isEqual .. | .isEqualToString .. | .hasPrefix .. | .hasSuffix .. | .compare .. => inferInstanceAs (Decidable (_ ∧ _))

/-- a string without unpaired surrogates -/
def WellFormed (a : ℕ) : Prop := (decode (unitsOf us a)).isSome

/-- **The condition**: no string with an unpaired surrogate is hashed, looked at for its beginning or end, or compared with another
one for equality. Lengths fit in 32 bits, and indices are inside the strings. -/
def Fits : Op → Prop
  | .length a => (unitsOf us a).length < 2 ^ 32
  | .characterAtIndex a index => index < (unitsOf us a).length
  | .hash a => WellFormed us a
  | .isEqual a b | .isEqualToString a b => a = b ∨ WellFormed us a ∧ WellFormed us b
  | .hasPrefix a b | .hasSuffix a b => WellFormed us b ∧ WellFormed us a
  | .compare .. => True

end

/-! ## Calls -/

variable {hashHelper : List Char → ℕ} {s : Strings} {a b : ℕ} {op : Op} {host : StringHostObject}

theorem borrow_eq (ha : a < (units s).length) : ∃ host, borrow s a = .ok host ∧ iterCodeUnits host = unitsOf (units s) a := by
  rw [units, List.length_map] at ha
  refine ⟨s[a], ?_, ?_⟩
  · rw [borrow, List.getElem?_eq_getElem ha]
    rfl
  · rw [unitsOf, units, List.getD_eq_getElem?_getD, List.getElem?_map, List.getElem?_eq_getElem ha]
    rfl

/-- both views have the same text -/
theorem toUtf8_eq (host : StringHostObject) : toUtf8 host = decode (iterCodeUnits host) := by
  cases host with
  | utf8 utf8 => exact (decode_encode utf8).symm
  | utf16 utf16 => rfl

/-- **`to_rust_string`** works for a string without unpaired surrogates. -/
theorem toRustString_eq (ha : a < (units s).length) : toRustString s a = unwrap (decode (unitsOf (units s) a)) .utf16 := by
  obtain ⟨host, hborrow, hunits⟩ := borrow_eq ha
  rw [toRustString, hborrow, ok_bind, toUtf8_eq, hunits]

/-- a conversion does not change the code units -/
theorem units_set (ha : a < (units s).length) : units (s.set a (.utf16 (unitsOf (units s) a))) = units s := by
  rw [units, List.map_set]
  apply List.ext_getElem?
  intro i
  rw [List.getElem?_set]
  split_ifs with hi hlt
  · subst hi
    rw [unitsOf, units, List.getD_eq_getElem?_getD, List.getElem?_eq_getElem hlt]
    rfl
  · exact absurd (hi ▸ ha) hlt
  · rfl

theorem length_eq (ha : a < (units s).length) : length s a =
    (assert ((unitsOf (units s) a).length < 2 ^ 32) .conversion >>= fun _ =>
      pure ((unitsOf (units s) a).length, s.set a (.utf16 (unitsOf (units s) a)))) := by
  obtain ⟨host, hborrow, hunits⟩ := borrow_eq ha
  rw [length, hborrow, ok_bind, convertToUtf16Inplace, hunits]

theorem characterAtIndex_eq {index : ℕ} (ha : a < (units s).length) : characterAtIndex s a index =
    (unwrap (unitsOf (units s) a)[index]? .index >>= fun unit =>
      pure (unit, s.set a (.utf16 (unitsOf (units s) a)))) := by
  obtain ⟨host, hborrow, hunits⟩ := borrow_eq ha
  rw [characterAtIndex, hborrow, ok_bind, convertToUtf16Inplace, hunits]

/-- two strings as texts -/
theorem two_texts (ha : WellFormed (units s) a) (hb : WellFormed (units s) b) : ∃ t t', decode (unitsOf (units s) a) = some t ∧
    decode (unitsOf (units s) b) = some t' ∧ encode t = unitsOf (units s) a ∧ encode t' = unitsOf (units s) b := by
  obtain ⟨t, ht⟩ := Option.isSome_iff_exists.1 ha
  obtain ⟨t', ht'⟩ := Option.isSome_iff_exists.1 hb
  exact ⟨t, t', ht, ht', encode_of_decode ht, encode_of_decode ht'⟩

/-- a function of two texts, for strings that may have none -/
theorem two_cases {α : Type} (f : List Char → List Char → α) (ha : a < (units s).length) (hb : b < (units s).length) :
    (∃ t t', encode t = unitsOf (units s) a ∧ encode t' = unitsOf (units s) b ∧ WellFormed (units s) a ∧ WellFormed (units s) b ∧
      (do
        let this ← toRustString s a
        let other ← toRustString s b
        pure (f this other)) = .ok (f t t')) ∨
    ¬(WellFormed (units s) a ∧ WellFormed (units s) b) ∧
      (do
        let this ← toRustString s a
        let other ← toRustString s b
        pure (f this other)) = .error .utf16 := by
  rw [toRustString_eq ha, toRustString_eq hb]
  by_cases hwf : WellFormed (units s) a ∧ WellFormed (units s) b
  · obtain ⟨t, t', ht, ht', hback, hback'⟩ := two_texts hwf.1 hwf.2
    refine .inl ⟨t, t', hback, hback', hwf.1, hwf.2, ?_⟩
    rw [ht, ht']
    rfl
  · refine .inr ⟨hwf, ?_⟩
    rw [WellFormed, WellFormed, not_and_or, Bool.not_eq_true, Bool.not_eq_true, Option.isSome_eq_false_iff, Option.isSome_eq_false_iff,
      Option.isNone_iff_eq_none, Option.isNone_iff_eq_none] at hwf
    by_cases hnone : decode (unitsOf (units s) a) = none
    · rw [hnone]
      rfl
    · obtain ⟨t, ht⟩ := Option.ne_none_iff_exists'.1 hnone
      rw [ht, hwf.resolve_left hnone]
      rfl

/-- a call that gives a truth value of two texts -/
theorem two_texts_call (f : List Char → List Char → Bool) (p : Prop) [Decidable p] (ha : a < (units s).length)
    (hb : b < (units s).length)
    (hf : ∀ t t', encode t = unitsOf (units s) a → encode t' = unitsOf (units s) b → (f t t' = true ↔ p)) :
    let x : Except Panic Bool := do
      let this ← toRustString s a
      let other ← toRustString s b
      pure (f this other)
    (WellFormed (units s) a ∧ WellFormed (units s) b → x = .ok (decide p)) ∧
      (¬(WellFormed (units s) a ∧ WellFormed (units s) b) → x = .error .utf16) := by
  intro x
  rcases two_cases f ha hb with ⟨t, t', ht, ht', hwf, hwf', hx⟩ | ⟨hwf, hx⟩
  · refine ⟨fun _ => ?_, fun hnot => absurd ⟨hwf, hwf'⟩ hnot⟩
    rw [show x = _ from hx, Bool.eq_iff_iff.2 ((hf t t' ht ht').trans decide_eq_true_iff.symm)]
  · exact ⟨fun h => absurd h hwf, fun _ => hx⟩

/-- **Equality** of texts is that of the code units. -/
theorem isEqual_spec (ha : a < (units s).length) (hb : b < (units s).length) :
    (a = b ∨ WellFormed (units s) a ∧ WellFormed (units s) b →
      isEqual s a b = .ok (decide (unitsOf (units s) a = unitsOf (units s) b))) ∧
    (¬(a = b ∨ WellFormed (units s) a ∧ WellFormed (units s) b) → isEqual s a b = .error .utf16) := by
  unfold isEqual
  split_ifs with heq
  · refine ⟨fun _ => ?_, fun hnot => absurd (.inl heq) hnot⟩
    rw [decide_eq_true (heq ▸ rfl)]
    rfl
  · obtain ⟨hok, herror⟩ := two_texts_call (· == ·) (unitsOf (units s) a = unitsOf (units s) b) ha hb fun t t' ht ht' => by
      rw [beq_iff_eq, ← ht, ← ht', encode_injective.eq_iff]
    exact ⟨fun h => hok (h.resolve_left heq), fun h => herror fun hwf => h (.inr hwf)⟩

theorem hasPrefix_spec (ha : a < (units s).length) (hb : b < (units s).length) :
    (WellFormed (units s) b ∧ WellFormed (units s) a →
      hasPrefix s a b = .ok (decide (unitsOf (units s) b <+: unitsOf (units s) a))) ∧
    (¬(WellFormed (units s) b ∧ WellFormed (units s) a) → hasPrefix s a b = .error .utf16) :=
  two_texts_call List.isPrefixOf (unitsOf (units s) b <+: unitsOf (units s) a) hb ha fun t t' ht ht' => by
    rw [List.isPrefixOf_iff_prefix, ← ht, ← ht', encode_prefix_iff]

theorem hasSuffix_spec (ha : a < (units s).length) (hb : b < (units s).length) :
    (WellFormed (units s) b ∧ WellFormed (units s) a →
      hasSuffix s a b = .ok (decide (unitsOf (units s) b <:+ unitsOf (units s) a))) ∧
    (¬(WellFormed (units s) b ∧ WellFormed (units s) a) → hasSuffix s a b = .error .utf16) :=
  two_texts_call List.isSuffixOf (unitsOf (units s) b <:+ unitsOf (units s) a) hb ha fun t t' ht ht' => by
    rw [List.isSuffixOf_iff_suffix, ← ht, ← ht', encode_suffix_iff]

/-- the order of code units, with 'same' for equal strings -/
theorem compare_eq (ha : a < (units s).length) (hb : b < (units s).length) : compare s a b =
    .ok (if unitsOf (units s) a = unitsOf (units s) b then .eq else if unitsOf (units s) a < unitsOf (units s) b then .lt else .gt) := by
  obtain ⟨this, hthis, hunits⟩ := borrow_eq ha
  obtain ⟨other, hother, hunits'⟩ := borrow_eq hb
  rw [compare, hthis, ok_bind, hother, ok_bind, hunits, hunits', pure_eq_ok]
  congr 1
  split_ifs with heq hlt
  · exact compareUnits_eq.2 heq
  · exact compareUnits_lt.2 hlt
  · cases hc : compareUnits (unitsOf (units s) a) (unitsOf (units s) b) with
    | lt => exact absurd (compareUnits_lt.1 hc) hlt
    | eq => exact absurd (compareUnits_eq.1 hc) heq
    | gt => rfl

/-- **A call** gives what it is to give and keeps the code units of all strings, or it panics. -/
theorem call_spec (hashHelper : List Char → ℕ) (h : OfStrings (units s) op) :
    (Fits (units s) op → ∃ s', call hashHelper s op = .ok (expected (units s) hashHelper op, s') ∧ units s' = units s) ∧
      (¬Fits (units s) op → ∃ e, call hashHelper s op = .error e) := by
  cases op with
  | length a =>
    rw [call, length_eq h]
    refine ⟨fun hfits => ⟨_, ?_, units_set h⟩, fun hfits => ⟨.conversion, ?_⟩⟩
    · have hlt : (unitsOf (units s) a).length < 2 ^ 32 := hfits
      rw [assert_ok (decide_eq_true hlt)]
      rfl
    · have hge : ¬(unitsOf (units s) a).length < 2 ^ 32 := hfits
      rw [decide_eq_false hge]
      rfl
  | characterAtIndex a index =>
    rw [call, characterAtIndex_eq h]
    refine ⟨fun hfits => ⟨_, ?_, units_set h⟩, fun hfits => ⟨.index, ?_⟩⟩
    · rw [expected, List.getD_eq_getElem?_getD, List.getElem?_eq_getElem hfits]
      rfl
    · rw [List.getElem?_eq_none (not_lt.1 hfits)]
      rfl
  | hash a =>
    rw [call, hash, toRustString_eq h]
    refine ⟨fun hfits => ⟨s, ?_, rfl⟩, fun hfits => ⟨.utf16, ?_⟩⟩
    · obtain ⟨t, ht⟩ := Option.isSome_iff_exists.1 hfits
      rw [expected, ht]
      rfl
    · rw [Fits, WellFormed, Bool.not_eq_true, Option.isSome_eq_false_iff, Option.isNone_iff_eq_none] at hfits
      rw [hfits]
      rfl
  | isEqual a b =>
    rw [call]
    obtain ⟨hok, herror⟩ := isEqual_spec h.1 h.2
    exact ⟨fun hfits => ⟨s, by rw [hok hfits]; rfl, rfl⟩, fun hfits => ⟨_, by rw [herror hfits]; rfl⟩⟩
  | isEqualToString a b =>
    rw [call, isEqualToString]
    obtain ⟨hok, herror⟩ := isEqual_spec h.1 h.2
    exact ⟨fun hfits => ⟨s, by rw [hok hfits]; rfl, rfl⟩, fun hfits => ⟨_, by rw [herror hfits]; rfl⟩⟩
  | hasPrefix a b =>
    rw [call]
    obtain ⟨hok, herror⟩ := hasPrefix_spec h.1 h.2
    exact ⟨fun hfits => ⟨s, by rw [hok hfits]; rfl, rfl⟩, fun hfits => ⟨_, by rw [herror hfits]; rfl⟩⟩
  | hasSuffix a b =>
    rw [call]
    obtain ⟨hok, herror⟩ := hasSuffix_spec h.1 h.2
    exact ⟨fun hfits => ⟨s, by rw [hok hfits]; rfl, rfl⟩, fun hfits => ⟨_, by rw [herror hfits]; rfl⟩⟩
  | compare a b =>
    rw [call, compare_eq h.1 h.2]
    exact ⟨fun _ => ⟨s, rfl, rfl⟩, fun hfits => absurd trivial hfits⟩

/-! ## Sequences of calls -/

/-- calls from a session that has answers already -/
theorem calls_spec {us : List (List UInt16)} {ops : List Op} (hashHelper : List Char → ℕ) (session : Session) (hunits : units session.strings = us)
    (hops : ∀ op ∈ ops, OfStrings us op) :
    ((∀ op ∈ ops, Fits us op) → ∃ s', run (step hashHelper) session ops = .ok s' ∧ units s'.strings = us ∧
      s'.answers = session.answers ++ ops.map (expected us hashHelper)) ∧
    ((¬∀ op ∈ ops, Fits us op) → ∃ e, run (step hashHelper) session ops = .error e) := by
  induction ops generalizing session with
  | nil => exact ⟨fun _ => ⟨session, rfl, hunits, (List.append_nil _).symm⟩, fun h => absurd (fun _ ho => nomatch ho) h⟩
  | cons op ops ih =>
    subst hunits
    obtain ⟨hok, herror⟩ := call_spec hashHelper (hops op List.mem_cons_self)
    by_cases hfits : Fits (units session.strings) op
    · obtain ⟨strings, hcall, hkept⟩ := hok hfits
      have hstep : step hashHelper session op =
          .ok ⟨strings, session.answers ++ [expected (units session.strings) hashHelper op]⟩ := by
        rw [step, hcall]
        rfl
      have hrest := ih ⟨strings, session.answers ++ [expected (units session.strings) hashHelper op]⟩ hkept
        fun op' ho => hops op' (List.mem_cons_of_mem _ ho)
      rw [run_cons, hstep, ok_bind]
      refine ⟨fun hall => ?_, fun hnot => hrest.2 fun hall => hnot ?_⟩
      · obtain ⟨s', hrun, hunits', hanswers⟩ := hrest.1 fun op' ho => hall op' (List.mem_cons_of_mem _ ho)
        refine ⟨s', hrun, hunits', ?_⟩
        rw [hanswers, List.append_assoc]
        rfl
      · intro op' ho
        rcases List.mem_cons.1 ho with rfl | ho
        · exact hfits
        · exact hall op' ho
    · obtain ⟨e, hcall⟩ := herror hfits
      refine ⟨fun hall => absurd (hall op List.mem_cons_self) hfits, fun _ => ⟨e, ?_⟩⟩
      rw [run_cons, step, hcall]
      rfl

/-- **Strings are their code units**: whatever the representations and the order of the calls, no call panics and every one answers as
its code units say, exactly when all calls meet the condition. -/
theorem string_calls (hashHelper : List Char → ℕ) (strings : Strings) (ops : List Op)
    (hops : ∀ op ∈ ops, OfStrings (units strings) op) :
    (∃ s, run (step hashHelper) ⟨strings, []⟩ ops = .ok s ∧ units s.strings = units strings ∧
      s.answers = ops.map (expected (units strings) hashHelper)) ↔ ∀ op ∈ ops, Fits (units strings) op := by
  obtain ⟨hok, herror⟩ := calls_spec hashHelper ⟨strings, []⟩ rfl hops
  refine ⟨?_, hok⟩
  rintro ⟨s, hrun, -⟩
  by_contra hnot
  obtain ⟨e, he⟩ := herror hnot
  rw [hrun] at he
  exact nomatch he

/-- "a", then "a" and a character above U+FFFF in both representations -/
def samples : Strings := [.utf8 ['a'], .utf8 ['a', Char.ofNat 0x1F600], .utf16 [0x61, 0xD83D, 0xDE00]]

def sampleCalls : List Op := [.length 1, .isEqual 1 2, .hasPrefix 2 0, .compare 0 2]

theorem string_calls_sample :
    (∃ s, run (step List.length) ⟨samples, []⟩ sampleCalls = .ok s ∧ units s.strings = units samples ∧
      s.answers = sampleCalls.map (expected (units samples) List.length)) ↔ ∀ op ∈ sampleCalls, Fits (units samples) op :=
  string_calls List.length samples sampleCalls (by decide)

/-- an unpaired surrogate -/
def unpaired : Strings := [.utf16 [0xD800], .utf16 [0xD800]]

/-- Two strings with the same code units, for which `compare:` says so, and every other comparison panics. -/
theorem unpaired_panics : unitsOf (units unpaired) 0 = unitsOf (units unpaired) 1 ∧ compare unpaired 0 1 = .ok .eq ∧
    ∀ op ∈ [Op.isEqual 0 1, .isEqualToString 0 1, .hash 0, .hasPrefix 0 1, .hasSuffix 0 1],
      run (step List.length) ⟨unpaired, []⟩ [op] = .error .utf16 := by
  refine ⟨rfl, rfl, fun op hop => ?_⟩
  simp only [List.mem_cons, List.not_mem_nil, or_false] at hop
  rcases hop with rfl | rfl | rfl | rfl | rfl <;> rfl

end TouchHLE.NSString
