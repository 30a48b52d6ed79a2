/-
`compare:options:` (`ns_string.rs`), and what it is with `NSNumericSearch`.

- `compareOptions`: the method. `asciiNumber`, `numericSearch`, `caseInsensitiveSearch`: its loops.
- `Compared`, `Fits`: what must hold of the code units and the runs of digits that are compared.
- `numericSearch_spec`: then the loop gives the numeric order, and otherwise it panics.
- `NumericPreorder`: what the comparison is to be on a set of strings. `numeric_preorder_iff`: when it is.

The lower-case mapping of characters is a parameter.
-/
import TouchHLE.Foundation.StringViews
import TouchHLE.Lib.NumericOrder

namespace TouchHLE.NumericSearch

open Machine Utf16 NumericOrder
open NSString (StringHostObject iterCodeUnits)

def NSCaseInsensitiveSearch : ℕ := 1
def NSLiteralSearch : ℕ := 2
def NSNumericSearch : ℕ := 64

/-- `char::from_u32` gives a character -/
def isChar (u : UInt16) : Bool := !(isLead u || isTrail u)

/-- `is_ascii_digit` and `to_digit` -/
def toDigit (u : UInt16) : Option ℕ := if 0x30 ≤ u.toNat ∧ u.toNat ≤ 0x39 then some (u.toNat - 0x30) else none

/-- the digits at the front of an iterator, behind a number that has begun -/
def asciiNumber (num : ℕ) : List UInt16 → Except Panic (ℕ × List UInt16)
  | [] => pure (num, [])
  | u :: iter =>
    match toDigit u with
    | some digit => do
      let num ← mul32 num 10
      let num ← add32 num digit
      asciiNumber num iter
    | none => pure (num, u :: iter)

def numericSearch : ℕ → List UInt16 → List UInt16 → Except Panic Ordering
  | 0, _, _ => throw .tooDeep
  | fuel + 1, aUnit :: aIter, bUnit :: bIter => do
    assert (isChar aUnit && isChar bUnit) .invalidChars
    match toDigit aUnit, toDigit bUnit with
    | some aDigit, some bDigit => do
      let (aInt, aIter) ← asciiNumber aDigit aIter
      let (bInt, bIter) ← asciiNumber bDigit bIter
      match compare aInt bInt with
      | .eq => numericSearch fuel aIter bIter
      | numericOrder => pure numericOrder
    | _, _ =>
      match compare aUnit.toNat bUnit.toNat with
      | .eq => numericSearch fuel aIter bIter
      | charOrder => pure charOrder
  | _ + 1, aIter, bIter => pure (compare aIter.head? bIter.head?)

def caseInsensitiveSearch (toLowercase : Char → List Char) : List UInt16 → List UInt16 → Except Panic Ordering
  | aUnit :: aIter, bUnit :: bIter => do
    assert (isChar aUnit && isChar bUnit) .invalidChars
    match compare (toLowercase (Char.ofNat aUnit.toNat)) (toLowercase (Char.ofNat bUnit.toNat)) with
    | .eq => caseInsensitiveSearch toLowercase aIter bIter
    | insensitiveOrder => pure insensitiveOrder
  | aIter, bIter => pure (compare aIter.head? bIter.head?)

/-- `compare:options:`, for a string and another one -/
def compareOptions (toLowercase : Char → List Char) (this other : StringHostObject) (mask : ℕ) : Except Panic Ordering :=
  let aIter := iterCodeUnits this
  let bIter := iterCodeUnits other
  let mask := if mask = 0 then NSLiteralSearch else mask
  if mask = NSCaseInsensitiveSearch then caseInsensitiveSearch toLowercase aIter bIter
  else if mask = NSLiteralSearch then pure (compareUnits aIter bIter)
  -- every turn takes a code unit of both
  else if mask = NSNumericSearch then numericSearch (aIter.length + 1) aIter bIter
  else throw .unimplemented

/-! ## What the comparison is to be -/

/-- the order of code units, with numbers for runs of digits -/
def numericOrder (l m : List UInt16) : Ordering := order UInt16.toNat 0x30 toDigit l m

/-- tokens that can be compared: no surrogates, and numbers below 2³² -/
def Compared : Token UInt16 → Token UInt16 → Prop
  | .number n, .number n' => n < 2 ^ 32 ∧ n' < 2 ^ 32
  | .number _, .unit v => isChar v
  | .unit u, .number _ => isChar u
  | .unit u, .unit v => isChar u ∧ isChar v

/-- **The condition**: all tokens can be compared, up to the first ones that differ. -/
def Fits (l m : List UInt16) : Prop := Until Compared (tokens toDigit l) (tokens toDigit m)

/-- a run of digits that cannot be made longer, in front of `x` -/
structure Run (d x : List UInt16) : Prop where
  nonempty : d ≠ []
  digits : ∀ u ∈ d, IsDigit toDigit u
  complete : ∀ u ∈ x.head?, ¬IsDigit toDigit u

/-- **The purpose** of a comparison, on a set of strings -/
structure NumericPreorder (S : Set StringHostObject) (r : StringHostObject → StringHostObject → Except Panic Ordering) :
    Prop where
  /-- it never panics -/
  total : ∀ a ∈ S, ∀ b ∈ S, ∃ o, r a b = .ok o
  antisymmetric : ∀ a ∈ S, ∀ b ∈ S, ∀ o, r a b = .ok o → r b a = .ok o.swap
  transitive : ∀ a ∈ S, ∀ b ∈ S, ∀ c ∈ S, ∀ o o', r a b = .ok o → r b c = .ok o' → o.isLE → o'.isLE →
    ∃ o'', r a c = .ok o'' ∧ o''.isLE
  /-- digits that follow the same units go by their value -/
  numbers : ∀ a ∈ S, ∀ b ∈ S, ∀ p d x d' x', iterCodeUnits a = p ++ (d ++ x) → iterCodeUnits b = p ++ (d' ++ x') →
    (∀ u ∈ p.getLast?, ¬IsDigit toDigit u) → Run d x → Run d' x' → decimal toDigit d < decimal toDigit d' → r a b = .ok .lt

/-! ## Numbers -/

variable {u v : UInt16} {l m a b : List UInt16} {n n' num fuel : ℕ}

theorem toDigit_eq_some (h : toDigit u = some n) : 0x30 ≤ u.toNat ∧ u.toNat ≤ 0x39 ∧ n < 10 ∧ isChar u = true := by
  unfold toDigit at h
  split_ifs at h with hu
  cases h
  refine ⟨hu.1, hu.2, by omega, ?_⟩
  rw [isChar, Bool.not_eq_true', Bool.or_eq_false_iff, ← Bool.not_eq_true, ← Bool.not_eq_true, isLead_iff, isTrail_iff]
  omega

theorem toDigit_eq_none (h : toDigit u = none) : u.toNat < 0x30 ∨ 0x39 < u.toNat := by
  unfold toDigit at h
  split_ifs at h with hu
  omega

/-- a number either fits, or it is the end -/
theorem asciiNumber_spec (num : ℕ) (l : List UInt16) : ∃ n rest,
    tokensFrom toDigit (some num) l = .number n :: tokens toDigit rest ∧ rest.length ≤ l.length ∧ num ≤ n ∧
    (n < 2 ^ 32 → asciiNumber num l = .ok (n, rest)) ∧
    (num < 2 ^ 32 → 2 ^ 32 ≤ n → asciiNumber num l = .error .overflow) := by
  induction l generalizing num with
  | nil => exact ⟨num, [], rfl, le_rfl, le_rfl, fun _ => rfl, fun hnum h => absurd hnum (Nat.not_lt.2 h)⟩
  | cons u l ih =>
    cases hu : toDigit u with
    | none =>
      refine ⟨num, u :: l, ?_, le_rfl, le_rfl, fun _ => ?_, fun hnum h => absurd hnum (Nat.not_lt.2 h)⟩
      · have hrest : tokens toDigit (u :: l) = .unit u :: tokens toDigit l := tokensFrom_unit hu
        rw [tokensFrom_unit hu, hrest]
        rfl
      · rw [asciiNumber, hu]
        rfl
    | some d =>
      obtain ⟨n, rest, htokens, hlength, hle, hok, herror⟩ := ih (push num d)
      have hpush : push num d = num * 10 + d := rfl
      have hstep : num * 10 + d < 2 ^ 32 → asciiNumber num (u :: l) = asciiNumber (push num d) l := by
        intro hfit
        rw [asciiNumber, hu]
        simp only [mul32_ok (show num * 10 < 2 ^ 32 by omega), ok_bind, add32_ok hfit]
        rfl
      refine ⟨n, rest, ?_, hlength.trans (Nat.le_succ _), by omega, fun h => ?_, fun _ h => ?_⟩
      · rw [tokensFrom_digit hu]
        exact htokens
      -- the number only grows
      · rw [hstep (by omega), hok h]
      · by_cases hfit : num * 10 + d < 2 ^ 32
        · rw [hstep hfit, herror hfit h]
        · rw [asciiNumber, hu, mul32]
          dsimp only
          split_ifs with hmul
          · rw [ok_bind, add32, if_neg hfit]
            rfl
          · rfl

/-! ## The loop -/

/-- a token that begins with a code unit -/
def Starts (u : UInt16) : Token UInt16 → Prop
  | .number _ => ∃ d, toDigit u = some d
  | .unit u' => u' = u ∧ toDigit u = none

/-- two numbers go by their value, and everything else by the first code unit -/
theorem orderTokens_eq {t t' : Token UInt16} (ht : Starts u t) (ht' : Starts v t')
    (h : toDigit u = none ∨ toDigit v = none) :
    orderTokens UInt16.toNat 0x30 t t' = compare u.toNat v.toNat := by
  cases t with
  | number n =>
    obtain ⟨d, hd⟩ := ht
    cases t' with
    | number n' =>
      obtain ⟨d', hd'⟩ := ht'
      rcases h with h | h
      · rw [h] at hd
        cases hd
      · rw [h] at hd'
        cases hd'
    | unit v' =>
      obtain ⟨rfl, hnone⟩ := ht'
      obtain ⟨hlow, hhigh, -⟩ := toDigit_eq_some hd
      rw [orderTokens, compareLex, compareOn, group, group]
      rcases toDigit_eq_none hnone with hv | hv
      · rw [if_pos hv, Nat.compare_eq_gt.2 (by omega : v'.toNat < u.toNat)]
        rfl
      · rw [if_neg (by omega), Nat.compare_eq_lt.2 (by omega : u.toNat < v'.toNat)]
        rfl
  | unit u' =>
    obtain ⟨rfl, hnone⟩ := ht
    cases t' with
    | number n' =>
      obtain ⟨d', hd'⟩ := ht'
      obtain ⟨hlow, hhigh, -⟩ := toDigit_eq_some hd'
      rw [orderTokens, compareLex, compareOn, group, group]
      rcases toDigit_eq_none hnone with hu | hu
      · rw [if_pos hu, Nat.compare_eq_lt.2 (by omega : u'.toNat < v.toNat)]
        rfl
      · rw [if_neg (by omega), Nat.compare_eq_gt.2 (by omega : v.toNat < u'.toNat)]
        rfl
    | unit v' =>
      obtain ⟨rfl, hnone'⟩ := ht'
      rw [orderTokens, compareLex, compareOn, compareOn, group, group, value, value]
      rcases toDigit_eq_none hnone with hu | hu <;> rcases toDigit_eq_none hnone' with hv | hv
      · rw [if_pos hu, if_pos hv]
        rfl
      · rw [if_pos hu, if_neg (by omega), Nat.compare_eq_lt.2 (by omega : u'.toNat < v'.toNat)]
        rfl
      · rw [if_neg (by omega), if_pos hv, Nat.compare_eq_gt.2 (by omega : v'.toNat < u'.toNat)]
        rfl
      · rw [if_neg (by omega), if_neg (by omega)]
        rfl

theorem tokens_starts (u : UInt16) (l : List UInt16) : ∃ t rest, tokens toDigit (u :: l) = t :: rest ∧ Starts u t := by
  cases hu : toDigit u with
  | none => exact ⟨.unit u, tokens toDigit l, tokensFrom_unit hu, rfl, hu⟩
  | some d =>
    obtain ⟨n, rest, htokens, -⟩ := asciiNumber_spec (push 0 d) l
    exact ⟨.number n, tokens toDigit rest, (tokensFrom_digit hu).trans htokens, d, hu⟩

/-- what the loop does with two iterators -/
def Decides (fuel : ℕ) (a b : List UInt16) : Prop :=
  (Fits a b → numericSearch fuel a b = .ok (numericOrder a b)) ∧ (¬Fits a b → ∃ e, numericSearch fuel a b = .error e)

/-- a turn with digits in both strings -/
theorem decides_numbers (hu : toDigit u = some n) (hv : toDigit v = some n')
    (ih : ∀ a' b', a'.length ≤ a.length → Decides fuel a' b') : Decides (fuel + 1) (u :: a) (v :: b) := by
  obtain ⟨-, -, hn, hcu⟩ := toDigit_eq_some hu
  obtain ⟨-, -, hn', hcv⟩ := toDigit_eq_some hv
  obtain ⟨k, rest, htokens, hlength, -, hok, herror⟩ := asciiNumber_spec n a
  obtain ⟨k', rest', htokens', -, -, hok', herror'⟩ := asciiNumber_spec n' b
  have ha : tokens toDigit (u :: a) = .number k :: tokens toDigit rest := by
    rw [← htokens, tokens, tokensFrom_digit hu, Option.getD_none, push, Nat.zero_mul, Nat.zero_add]
  have hb : tokens toDigit (v :: b) = .number k' :: tokens toDigit rest' := by
    rw [← htokens', tokens, tokensFrom_digit hv, Option.getD_none, push, Nat.zero_mul, Nat.zero_add]
  have hturn : numericSearch (fuel + 1) (u :: a) (v :: b) = (asciiNumber n a >>= fun r => asciiNumber n' b >>= fun r' =>
      match compare r.1 r'.1 with
      | .eq => numericSearch fuel r.2 r'.2
      | numericOrder => pure numericOrder) := by
    rw [numericSearch, hcu, hcv, hu, hv]
    rfl
  have hfits : Fits (u :: a) (v :: b) ↔ (k < 2 ^ 32 ∧ k' < 2 ^ 32) ∧ (k = k' → Fits rest rest') := by
    rw [Fits, ha, hb, Until, Token.number.injEq]
    rfl
  have horder : numericOrder (u :: a) (v :: b) = (compare k k').then (numericOrder rest rest') := by
    rw [numericOrder, order, ha, hb, List.compareLex_cons_cons]
    rfl
  rw [Decides, hturn, hfits, horder]
  by_cases hk : k < 2 ^ 32
  · rw [hok hk, ok_bind]
    by_cases hk' : k' < 2 ^ 32
    · have hboth : (k < 2 ^ 32 ∧ k' < 2 ^ 32) ∧ (k = k' → Fits rest rest') ↔ (k = k' → Fits rest rest') :=
          and_iff_right ⟨hk, hk'⟩
      rw [hok' hk', ok_bind, hboth]
      cases hc : compare k k' with
      | eq =>
        obtain rfl := Nat.compare_eq_eq.1 hc
        rw [imp_iff_right rfl]
        exact ih rest rest' hlength
      | lt =>
        refine ⟨fun _ => rfl, fun hnot => absurd (fun heq => ?_) hnot⟩
        exact absurd heq (Nat.compare_eq_lt.1 hc).ne
      | gt =>
        refine ⟨fun _ => rfl, fun hnot => absurd (fun heq => ?_) hnot⟩
        exact absurd heq (Nat.compare_eq_gt.1 hc).ne'
    · rw [herror' (by omega) (Nat.not_lt.1 hk')]
      exact ⟨fun h => absurd h.1.2 hk', fun _ => ⟨_, rfl⟩⟩
  · rw [herror (by omega) (Nat.not_lt.1 hk)]
    exact ⟨fun h => absurd h.1.1 hk, fun _ => ⟨_, rfl⟩⟩

theorem numericSearch_units (h : toDigit u = none ∨ toDigit v = none) :
    numericSearch (fuel + 1) (u :: a) (v :: b) = (assert (isChar u && isChar v) .invalidChars >>= fun _ =>
      match compare u.toNat v.toNat with
      | .eq => numericSearch fuel a b
      | charOrder => pure charOrder) := by
  rw [numericSearch]
  rcases h with h | h
  · rw [h]
  · rw [h]
    cases toDigit u <;> rfl

/-- a turn with the same code unit in both strings, which is no digit -/
theorem decides_same (h : toDigit u = none) (ih : Decides fuel a b) : Decides (fuel + 1) (u :: a) (u :: b) := by
  have htokens : ∀ l, tokens toDigit (u :: l) = .unit u :: tokens toDigit l := fun l => tokensFrom_unit h
  have horder : numericOrder (u :: a) (u :: b) = numericOrder a b := by
    rw [numericOrder, order, htokens, htokens]
    exact compareLex_append [Token.unit u] _ _
  have hfits : Fits (u :: a) (u :: b) ↔ isChar u = true ∧ Fits a b := by
    rw [Fits, htokens, htokens, Until, Compared, and_self, imp_iff_right rfl]
    rfl
  rw [Decides, hfits, horder, numericSearch_units (.inl h), Nat.compare_eq_eq.2 rfl, Bool.and_self]
  by_cases hc : isChar u = true
  · rw [assert_ok hc, ok_bind, and_iff_right hc]
    exact ih
  · rw [Bool.not_eq_true] at hc
    rw [hc]
    exact ⟨fun hf => absurd hf.1 Bool.false_ne_true, fun _ => ⟨_, rfl⟩⟩

theorem isChar_of_starts_number (h : Starts u (.number n)) : isChar u = true := by
  obtain ⟨d, hd⟩ := h
  exact (toDigit_eq_some hd).2.2.2

/-- a turn with different code units that are not both digits -/
theorem decides_different (h : toDigit u = none ∨ toDigit v = none) (hne : u ≠ v) :
    Decides (fuel + 1) (u :: a) (v :: b) := by
  obtain ⟨t, rest, ha, ht⟩ := tokens_starts u a
  obtain ⟨t', rest', hb, ht'⟩ := tokens_starts v b
  have htokens := orderTokens_eq ht ht' h
  have hcompare : compare u.toNat v.toNat ≠ .eq := fun heq => hne (UInt16.toNat_inj.1 (Nat.compare_eq_eq.1 heq))
  have hdiffer : t ≠ t' := by
    rintro rfl
    have hself : orderTokens UInt16.toNat 0x30 t t = .eq := Std.ReflCmp.compare_self
    exact hcompare (htokens.symm.trans hself)
  have hcompared : Compared t t' ↔ isChar u = true ∧ isChar v = true := by
    cases t with
    | number n =>
      cases t' with
      | number n' =>
        obtain ⟨d, hd⟩ := ht
        obtain ⟨d', hd'⟩ := ht'
        rw [hd, hd'] at h
        exact absurd h (by simp)
      | unit v' =>
        obtain ⟨rfl, -⟩ := ht'
        exact (and_iff_right (isChar_of_starts_number ht)).symm
    | unit u' =>
      obtain ⟨rfl, -⟩ := ht
      cases t' with
      | number n' => exact (and_iff_left (isChar_of_starts_number ht')).symm
      | unit v' =>
        obtain ⟨rfl, -⟩ := ht'
        exact Iff.rfl
  have hfits : Fits (u :: a) (v :: b) ↔ isChar u = true ∧ isChar v = true := by
    rw [Fits, ha, hb, Until, hcompared]
    exact and_iff_left fun heq => absurd heq hdiffer
  have horder : numericOrder (u :: a) (v :: b) = compare u.toNat v.toNat := by
    rw [numericOrder, order, ha, hb, List.compareLex_cons_cons, htokens]
    cases hc : compare u.toNat v.toNat with
    | eq => exact absurd hc hcompare
    | lt => rfl
    | gt => rfl
  rw [Decides, hfits, horder, numericSearch_units h, ← Bool.and_eq_true]
  by_cases hc : (isChar u && isChar v) = true
  · refine ⟨fun _ => ?_, fun hnot => absurd hc hnot⟩
    rw [assert_ok hc, ok_bind]
    cases ho : compare u.toNat v.toNat with
    | eq => exact absurd ho hcompare
    | lt => rfl
    | gt => rfl
  · refine ⟨fun hf => absurd hf hc, fun _ => ⟨.invalidChars, ?_⟩⟩
    rw [Bool.not_eq_true] at hc
    rw [hc]
    rfl

/-- **The loop** gives the numeric order if the tokens that it compares can be compared, and otherwise it panics. -/
theorem numericSearch_spec (h : a.length < fuel) : Decides fuel a b := by
  induction fuel generalizing a b with
  | zero => exact absurd h (Nat.not_lt_zero _)
  | succ fuel ih =>
    cases a with
    | nil =>
      refine ⟨fun _ => ?_, fun hfits => absurd trivial hfits⟩
      cases b with
      | nil => rfl
      | cons v b =>
        obtain ⟨t, rest, hb, -⟩ := tokens_starts v b
        rw [numericOrder, order, hb]
        rfl
    | cons u a =>
      cases b with
      | nil =>
        obtain ⟨t, rest, ha, -⟩ := tokens_starts u a
        refine ⟨fun _ => ?_, fun hfits => ?_⟩
        · rw [numericOrder, order, ha]
          rfl
        · rw [Fits, ha] at hfits
          exact absurd trivial hfits
      | cons v b =>
        have hlength : a.length < fuel := Nat.lt_of_succ_lt_succ h
        cases hu : toDigit u with
        | some n =>
          cases hv : toDigit v with
          | some n' => exact decides_numbers hu hv fun a' b' ha' => ih (ha'.trans_lt hlength)
          | none =>
            refine decides_different (.inr hv) fun heq => ?_
            rw [heq, hv] at hu
            cases hu
        | none =>
          by_cases heq : u = v
          · subst heq
            exact decides_same hu (ih hlength)
          · exact decides_different (.inl hu) heq

/-- **The comparison is a total preorder by numeric value**, which never panics, on exactly those sets of strings in
which any two can be compared: up to the first tokens that differ no surrogates, and no numbers from 2³² on. -/
theorem numeric_preorder_iff (toLowercase : Char → List Char) (S : Set StringHostObject) :
    NumericPreorder S (fun a b => compareOptions toLowercase a b NSNumericSearch) ↔
      ∀ a ∈ S, ∀ b ∈ S, Fits (iterCodeUnits a) (iterCodeUnits b) := by
  have hspec : ∀ a b, Decides ((iterCodeUnits a).length + 1) (iterCodeUnits a) (iterCodeUnits b) := fun a b =>
    numericSearch_spec (Nat.lt_succ_self _)
  have hcompare : ∀ a b, compareOptions toLowercase a b NSNumericSearch =
      numericSearch ((iterCodeUnits a).length + 1) (iterCodeUnits a) (iterCodeUnits b) := fun a b => rfl
  constructor
  · intro h a ha b hb
    obtain ⟨o, ho⟩ := h.total a ha b hb
    by_contra hnot
    obtain ⟨e, he⟩ := (hspec a b).2 hnot
    rw [hcompare, he] at ho
    cases ho
  · intro h
    have hok : ∀ a ∈ S, ∀ b ∈ S, compareOptions toLowercase a b NSNumericSearch =
        .ok (numericOrder (iterCodeUnits a) (iterCodeUnits b)) := fun a ha b hb => (hspec a b).1 (h a ha b hb)
    refine ⟨fun a ha b hb => ⟨_, hok a ha b hb⟩, fun a ha b hb o ho => ?_, fun a ha b hb c hc o o' ho ho' hle hle' => ?_,
      fun a ha b hb p d x d' x' hpa hpb hp hd hd' hlt => ?_⟩
    · rw [hok b hb a ha]
      obtain rfl := Except.ok.inj ((hok a ha b hb).symm.trans ho)
      exact congrArg _ (order_swap _ _)
    · obtain rfl := Except.ok.inj ((hok a ha b hb).symm.trans ho)
      obtain rfl := Except.ok.inj ((hok b hb c hc).symm.trans ho')
      exact ⟨_, hok a ha c hc, order_trans hle hle'⟩
    · rw [hok a ha b hb, hpa, hpb, numericOrder,
        order_numbers hp hd.nonempty hd'.nonempty hd.digits hd'.digits hd.complete hd'.complete, Nat.compare_eq_lt.2 hlt]
      rfl

/-- "4294967296" and "1" -/
theorem large_number_panics : compareOptions (fun c => [c]) (.utf8 "4294967296".toList) (.utf8 ['1']) NSNumericSearch =
    .error .overflow ∧
    compareOptions (fun c => [c]) (.utf16 [0xD83D, 0xDE00]) (.utf8 ['a']) NSNumericSearch = .error .invalidChars := by
  refine ⟨rfl, rfl⟩

end TouchHLE.NumericSearch
