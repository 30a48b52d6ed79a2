/-
Searching in strings (`ns_string.rs`): `componentsSeparatedByString:`,
`stringByReplacingOccurrencesOfString:withString:` and `rangeOfString:`, each with a scan of its own.

- `stripPrefix`, `componentsLoop`, `replaceLoop`: the scans over an iterator. `isMatchAtPosition`, `searchLoop`: the
  scan over indices.
- `searchLoop_spec`: the third finds the first of the indices at which there is an occurrence.
- `separated_strings`: the three agree.

The lower-case mapping of characters is a parameter.
-/
import TouchHLE.Foundation.NumericSearch
import TouchHLE.Lib.Occurrences

namespace TouchHLE.StringSearch

open Machine NSString Occurrences
open NumericSearch (NSCaseInsensitiveSearch NSLiteralSearch isChar)

/-! ## The scans over an iterator -/

/-- `CodeUnitIterator::strip_prefix` -/
def stripPrefix : List UInt16 → List UInt16 → Option (List UInt16)
  | main, [] => some main
  | main, prefixC :: rest => if main.head? = some prefixC then stripPrefix main.tail rest else none

theorem stripPrefix_eq_some {main sep rest : List UInt16} : stripPrefix main sep = some rest ↔ main = sep ++ rest := by
  induction sep generalizing main with
  | nil => exact Option.some_inj
  | cons c sep ih =>
    rw [stripPrefix]
    cases main with
    | nil => simp
    | cons d main =>
      rw [List.cons_append, List.cons.injEq]
      split_ifs with hd
      · cases hd
        exact ih.trans (and_iff_right rfl).symm
      · exact iff_of_false (fun h => by cases h) fun h => hd (congrArg some h.1)

theorem stripPrefix_eq_none {main sep : List UInt16} : stripPrefix main sep = none ↔ ¬sep <+: main := by
  rw [Option.eq_none_iff_forall_ne_some, ← not_exists]
  exact not_congr (exists_congr fun rest => stripPrefix_eq_some.trans eq_comm)

theorem length_of_stripPrefix {main sep rest : List UInt16} (hsep : sep ≠ []) (h : stripPrefix main sep = some rest) :
    rest.length < main.length := by
  rw [stripPrefix_eq_some.1 h, List.length_append]
  exact Nat.lt_add_of_pos_left (List.length_pos_of_ne_nil hsep)

/-- the loop of `componentsSeparatedByString:` -/
def componentsLoop (sep : List UInt16) (hsep : sep ≠ []) (main : List UInt16) (components : List (List UInt16))
    (currentComponent : List UInt16) : List (List UInt16) :=
  match hstrip : stripPrefix main sep with
  | some newMain =>
    have := length_of_stripPrefix hsep hstrip
    componentsLoop sep hsep newMain (components ++ [currentComponent]) []
  | none =>
    match main with
    | [] => components ++ [currentComponent]
    | cur :: main => componentsLoop sep hsep main components (currentComponent ++ [cur])
termination_by main.length

/-- the loop of `stringByReplacingOccurrencesOfString:withString:` -/
def replaceLoop (target : List UInt16) (htarget : target ≠ []) (replacement main result : List UInt16) : List UInt16 :=
  match hstrip : stripPrefix main target with
  | some newMain =>
    have := length_of_stripPrefix htarget hstrip
    replaceLoop target htarget replacement newMain (result ++ replacement)
  | none =>
    match main with
    | [] => result
    | cur :: main => replaceLoop target htarget replacement main (result ++ [cur])
termination_by main.length

section

variable (s : Strings)

/-- the strings of the array -/
def componentsSeparatedByString (this separator : ℕ) : Except Panic (List StringHostObject) := do
  let mainIter := iterCodeUnits (← borrow s this)
  let sepIter := iterCodeUnits (← borrow s separator)
  if hsep : sepIter ≠ [] then pure ((componentsLoop sepIter hsep mainIter [] []).map .utf16)
  else throw .emptySeparator

def stringByReplacingOccurrencesOfString (this target replacement : ℕ) : Except Panic StringHostObject := do
  let mainIter := iterCodeUnits (← borrow s this)
  let targetIter := iterCodeUnits (← borrow s target)
  let replacementIter := iterCodeUnits (← borrow s replacement)
  if htarget : targetIter ≠ [] then pure (.utf16 (replaceLoop targetIter htarget replacementIter mainIter []))
  else throw .emptySeparator

end

/-! ## The scan over indices -/

def NSBackwardsSearch : ℕ := 4

/-- `NSIntegerMax` -/
def NSNotFound : ℕ := 0x7fffffff

/-- `is_match_at_position`, for the indices `js` of the string that is searched for -/
def isMatchAtPosition (compareFn : UInt16 → UInt16 → Except Panic Bool) (theString searchString start len : ℕ) :
    List ℕ → Strings → Except Panic (Bool × Strings)
  | [], s => pure (true, s)
  | j :: js, s => do
    let curr ← add32 start j
    if curr < len then do
      let (aC, s) ← characterAtIndex s theString curr
      let (bC, s) ← characterAtIndex s searchString j
      if ← compareFn aC bC then isMatchAtPosition compareFn theString searchString start len js s
      else pure (false, s)
    else pure (false, s)

/-- the loops of `rangeOfString:options:`, over the indices in their order -/
def searchLoop (compareFn : UInt16 → UInt16 → Except Panic Bool) (this searchString len lenSearch : ℕ) :
    List ℕ → Strings → Except Panic (NSRange × Strings)
  | [], s => pure (⟨NSNotFound, 0⟩, s)
  | i :: is, s => do
    let (isMatch, s) ← isMatchAtPosition compareFn this searchString i len (List.range lenSearch) s
    if isMatch then pure (⟨i, lenSearch⟩, s) else searchLoop compareFn this searchString len lenSearch is s

def equalUnits (a b : UInt16) : Except Panic Bool := pure (a == b)

def equalLowercase (toLowercase : Char → List Char) (a b : UInt16) : Except Panic Bool := do
  assert (isChar a && isChar b) .invalidChars
  pure (toLowercase (Char.ofNat a.toNat) == toLowercase (Char.ofNat b.toNat))

/-- `rangeOfString:options:` -/
def rangeOfStringOptions (toLowercase : Char → List Char) (s : Strings) (this searchString options : ℕ) :
    Except Panic (NSRange × Strings) := do
  let (len, s) ← length s this
  let (lenSearch, s) ← length s searchString
  if lenSearch = 0 then pure (⟨NSNotFound, 0⟩, s)
  else if options = NSLiteralSearch ∨ options =
    0 then searchLoop equalUnits this searchString len lenSearch (List.range len) s
  else if options = NSCaseInsensitiveSearch then
    searchLoop (equalLowercase toLowercase) this searchString len lenSearch (List.range len) s
  else if options = NSBackwardsSearch then
    searchLoop equalUnits this searchString len lenSearch (List.range len).reverse s
  else throw .unimplemented

/-- `rangeOfString:` -/
def rangeOfString (toLowercase : Char → List Char) (s : Strings) (this searchString : ℕ) :
    Except Panic (NSRange × Strings) :=
  rangeOfStringOptions toLowercase s this searchString 0

/-! ## What the scans find -/

variable {s : Strings} {this sep : ℕ} {target main current replacement : List UInt16} {components : List (List UInt16)}
  {best : Set ℕ → ℕ → Prop} {R : ℕ → ℕ → Prop}

/-- **The first two scans** cut a string into the same pieces, also from the middle of a piece. -/
theorem loops_cut (htarget : target ≠ []) (main current : List UInt16) (components : List (List UInt16))
    (hno : ∀ i < current.length, ¬OccursAt target (current ++ main) i) :
    ∃ cs, Cut target (current ++ main) cs ∧ componentsLoop target htarget main components current = components ++ cs ∧
      ∀ replacement done, replaceLoop target htarget replacement main (done ++ current) =
        done ++ replacement.intercalate cs := by
  induction hn : main.length using Nat.strong_induction_on generalizing main current components with
  | _ n ih =>
    cases hstrip : stripPrefix main target with
    | some rest =>
      have hlt := length_of_stripPrefix htarget hstrip
      obtain rfl := stripPrefix_eq_some.1 hstrip
      obtain ⟨cs, hcut, hcomponents, hreplace⟩ := ih rest.length (hn ▸ hlt) rest [] (components ++ [current])
         (fun i hi => absurd hi (Nat.not_lt_zero i)) rfl
      rw [← List.append_assoc] at hno ⊢
      refine ⟨current :: cs, .cons hno hcut, ?_, fun replacement done => ?_⟩
      · rw [componentsLoop]
        split
        · next newMain heq =>
          cases hstrip.symm.trans heq
          rw [hcomponents, List.append_assoc]
          rfl
        · next heq => rw [hstrip] at heq; cases heq
      · have hnext := hreplace replacement (done ++ current ++ replacement)
        rw [List.append_nil] at hnext
        rw [replaceLoop, List.intercalate_cons_of_ne_nil hcut.ne_nil]
        split
        · next newMain heq =>
          cases hstrip.symm.trans heq
          rw [hnext, List.append_assoc, List.append_assoc, List.append_assoc]
        · next heq => rw [hstrip] at heq; cases heq
    | none =>
      have hnot := stripPrefix_eq_none.1 hstrip
      cases main with
      | nil =>
        rw [List.append_nil] at hno ⊢
        refine ⟨[current], .last fun hinfix => ?_, ?_, fun replacement done => ?_⟩
        · obtain ⟨i, hi⟩ := infix_iff.1 hinfix
          exact hno i (hi.lt htarget) hi
        · rw [componentsLoop]
          split
          · next newMain heq => rw [hstrip] at heq; cases heq
          · rfl
        · rw [replaceLoop, List.intercalate_singleton]
          split
          · next newMain heq => rw [hstrip] at heq; cases heq
          · rfl
      | cons c main =>
        have hstep : current ++ c :: main = current ++ [c] ++ main := List.append_cons current c main
        -- there is no occurrence at this unit either
        have hno' : ∀ i < (current ++ [c]).length, ¬OccursAt target (current ++ [c] ++ main) i := by
          intro i hi
          rw [← hstep]
          rw [List.length_append, List.length_singleton] at hi
          rcases Nat.lt_succ_iff_lt_or_eq.1 hi with hi | rfl
          · exact hno i hi
          · rw [OccursAt, List.drop_left]
            exact hnot
        obtain ⟨cs, hcut, hcomponents, hreplace⟩ :=
            ih main.length (by rw [← hn]; exact Nat.lt_succ_self _) main _ components hno' rfl
        refine ⟨cs, hstep ▸ hcut, ?_, fun replacement done => ?_⟩
        · rw [componentsLoop]
          split
          · next newMain heq => rw [hstrip] at heq; cases heq
          · exact hcomponents
        · rw [replaceLoop]
          split
          · next newMain heq => rw [hstrip] at heq; cases heq
          · have hnext := hreplace replacement done
            rw [← List.append_assoc] at hnext
            exact hnext

/-- the comparison of a unit of each string -/
theorem compareUnits_ok {start j : ℕ} (ha : this < (units s).length) (hb : sep < (units s).length)
    (hstart : start < (unitsOf (units s) this).length) (hj : j < (unitsOf (units s) sep).length) :
    ∃ s' s'', characterAtIndex s this start = .ok ((unitsOf (units s) this)[start], s') ∧ units s' = units s ∧
      characterAtIndex s' sep j = .ok ((unitsOf (units s) sep)[j], s'') ∧ units s'' = units s := by
  have hunits := units_set ha
  have hb' : sep < (units (s.set this (.utf16 (unitsOf (units s) this)))).length := by rwa [hunits]
  have hunits' := units_set hb'
  refine ⟨_, _, ?_, hunits, ?_, hunits'.trans hunits⟩
  · rw [characterAtIndex_eq ha, List.getElem?_eq_getElem hstart]
    rfl
  · rw [characterAtIndex_eq hb']
    simp only [hunits, List.getElem?_eq_getElem hj]
    rfl

/-- **The comparison at an index**, from the k-th unit on -/
theorem isMatchAtPosition_spec {k n : ℕ} (start : ℕ) (ha : this < (units s).length) (hb : sep < (units s).length)
    (hlen : (unitsOf (units s) this).length < 2 ^ 32) (hn : k + n = (unitsOf (units s) sep).length)
    (hstart : start + k ≤ (unitsOf (units s) this).length) :
    ∃ s', isMatchAtPosition equalUnits this sep start (unitsOf (units s) this).length (List.range' k n) s =
      .ok (decide ((unitsOf (units s) sep).drop k <+: (unitsOf (units s) this).drop (start + k)), s') ∧ units s' =
        units s := by
  induction n generalizing k s with
  | zero =>
    refine ⟨s, ?_, rfl⟩
    rw [List.drop_eq_nil_of_le (by omega), decide_eq_true List.nil_prefix]
    rfl
  | succ n ih =>
    have hk : k < (unitsOf (units s) sep).length := by omega
    rw [List.range'_succ, isMatchAtPosition, add32_ok (by omega), ok_bind, List.drop_eq_getElem_cons hk]
    split_ifs with hlt
    · obtain ⟨s', s'', hthis, hunits, hsep, hunits'⟩ := compareUnits_ok ha hb hlt hk
      rw [List.drop_eq_getElem_cons hlt, hthis, ok_bind]
      simp only [hsep, ok_bind, equalUnits, pure_eq_ok, List.cons_prefix_cons]
      by_cases heq : (unitsOf (units s) this)[start + k] = (unitsOf (units s) sep)[k]
      · rw [if_pos (beq_iff_eq.2 heq)]
        obtain ⟨s₃, hrun, hunits₃⟩ :=
            ih (s := s'') (k := k + 1) (hunits' ▸ ha) (hunits' ▸ hb) (hunits' ▸ hlen) (by rw [hunits']; omega)
          (by rw [hunits']; omega)
        rw [hunits'] at hrun hunits₃
        refine ⟨s₃, ?_, hunits₃⟩
        rw [hrun, Nat.add_assoc]
        simp only [heq, true_and]
      · rw [if_neg fun h => heq (beq_iff_eq.1 h)]
        refine ⟨s'', ?_, hunits'⟩
        rw [decide_eq_false fun h => heq h.1.symm]
    · refine ⟨s, ?_, rfl⟩
      rw [List.drop_eq_nil_of_le (not_lt.1 hlt), decide_eq_false fun h => List.cons_ne_nil _ _ (List.prefix_nil.1 h)]
      rfl

/-- the range at an index that was found -/
def found (length : ℕ) : Option ℕ → NSRange
  | some i => ⟨i, length⟩
  | none => ⟨NSNotFound, 0⟩

/-- **The third scan** stops at the first of its indices at which there is an occurrence. -/
theorem searchLoop_spec (is : List ℕ) (ha : this < (units s).length) (hb : sep < (units s).length)
    (hlen : (unitsOf (units s) this).length < 2 ^ 32) (his : ∀ i ∈ is, i < (unitsOf (units s) this).length) :
    ∃ s', searchLoop equalUnits this sep (unitsOf (units s) this).length (unitsOf (units s) sep).length is s =
      .ok (found (unitsOf (units s) sep).length (is.find? (OccursAt (unitsOf (units s) sep) (unitsOf (units s) this) ·)),
        s') ∧
      units s' = units s := by
  induction is generalizing s with
  | nil => exact ⟨s, rfl, rfl⟩
  | cons i is ih =>
    obtain ⟨s', hmatch, hunits⟩ := isMatchAtPosition_spec (k := 0) i ha hb hlen (Nat.zero_add _)
      (his i List.mem_cons_self).le
    rw [searchLoop, List.range_eq_range', hmatch, ok_bind]
    rw [List.drop_zero, Nat.add_zero] at *
    by_cases hocc : OccursAt (unitsOf (units s) sep) (unitsOf (units s) this) i
    · refine ⟨s', ?_, hunits⟩
      simp only [List.find?_cons, hocc, decide_true, found]
      exact if_pos (decide_eq_true hocc)
    · obtain ⟨s'', hrun, hunits'⟩ := ih (s := s') (hunits ▸ ha) (hunits ▸ hb) (hunits ▸ hlen)
        fun j hj => hunits ▸ his j (List.mem_cons_of_mem i hj)
      rw [hunits] at hrun hunits'
      refine ⟨s'', ?_, hunits'⟩
      simp only [List.find?_cons, hocc, decide_false]
      rw [← hrun]
      exact if_neg fun h => hocc (of_decide_eq_true h)

/-! ## The three methods together -/

/-- the range of the best occurrence, or `NSNotFound` -/
def Finds (best : Set ℕ → ℕ → Prop) (text sep : List UInt16) (r : NSRange) : Prop :=
  (r = ⟨NSNotFound, 0⟩ ∧ ¬sep <:+: text) ∨ ∃ i, best {i | OccursAt sep text i} i ∧ r = ⟨i, sep.length⟩

/-- **The purpose**: pieces of a string that are joined again, with the separator or another string in its place, and the
first and the last occurrence. -/
structure Agree (toLowercase : Char → List Char) (s : Strings) (this sep : ℕ) (components : List StringHostObject) :
    Prop where
  join : (unitsOf (units s) sep).intercalate (components.map iterCodeUnits) = unitsOf (units s) this
  free : ∀ c ∈ components, ¬unitsOf (units s) sep <:+: iterCodeUnits c
  replaced : ∀ replacement < s.length, ∃ host, stringByReplacingOccurrencesOfString s this sep replacement = .ok host ∧
    iterCodeUnits host = (unitsOf (units s) replacement).intercalate (components.map iterCodeUnits)
  range : ∃ r s', rangeOfString toLowercase s this sep = .ok (r, s') ∧ units s' = units s ∧
    Finds IsLeast (unitsOf (units s) this) (unitsOf (units s) sep) r
  literal : rangeOfStringOptions toLowercase s this sep NSLiteralSearch = rangeOfString toLowercase s this sep
  backwards : ∃ r s', rangeOfStringOptions toLowercase s this sep NSBackwardsSearch = .ok (r, s') ∧ units s' = units s ∧
    Finds IsGreatest (unitsOf (units s) this) (unitsOf (units s) sep) r

/-- the first element with a property, in a list in any order -/
theorem find?_first {β : Type} {R : β → β → Prop} {P : β → Prop} [DecidablePred P] {is : List β} {i : β}
    (hR : is.Pairwise R)
    (h : is.find? (P ·) = some i) : P i ∧ ∀ j ∈ is, P j → j = i ∨ R i j := by
  induction is with
  | nil => cases h
  | cons k is ih =>
    obtain ⟨hk, hR⟩ := List.pairwise_cons.1 hR
    by_cases hP : P k
    · simp only [List.find?_cons, hP, decide_true] at h
      cases h
      refine ⟨hP, fun j hj _ => ?_⟩
      rcases List.mem_cons.1 hj with rfl | hj
      · exact .inl rfl
      · exact .inr (hk j hj)
    · simp only [List.find?_cons, hP, decide_false] at h
      obtain ⟨hi, hfirst⟩ := ih hR h
      refine ⟨hi, fun j hj hPj => ?_⟩
      rcases List.mem_cons.1 hj with rfl | hj
      · exact absurd hPj hP
      · exact hfirst j hj hPj

/-- a scan of all indices, in an order in which the best one comes first -/
theorem finds_of_find? {text sep : List UInt16} {is : List ℕ}
    (hsep : sep ≠ []) (hR : is.Pairwise R) (hall : ∀ i, i < text.length → i ∈ is)
    (hbest : ∀ (S : Set ℕ) i, i ∈ S → (∀ j ∈ S, j = i ∨ R i j) → best S i) :
    Finds best text sep (found sep.length (is.find? (OccursAt sep text ·))) := by
  cases hfind : is.find? (OccursAt sep text ·) with
  | none =>
    refine .inl ⟨rfl, fun hinfix => ?_⟩
    obtain ⟨i, hi⟩ := infix_iff.1 hinfix
    exact absurd (decide_eq_true hi) (List.find?_eq_none.1 hfind i (hall i (hi.lt hsep)))
  | some i =>
    obtain ⟨hi, hfirst⟩ := find?_first hR hfind
    exact .inr ⟨i, hbest _ i hi fun j hj => hfirst j (hall j (OccursAt.lt hj hsep)) hj, rfl⟩

theorem lengths_ok (ha : this < (units s).length) (hb : sep < (units s).length)
    (hla : (unitsOf (units s) this).length < 2 ^ 32) (hlb : (unitsOf (units s) sep).length < 2 ^ 32) :
    ∃ s' s'', length s this = .ok ((unitsOf (units s) this).length, s') ∧
      length s' sep = .ok ((unitsOf (units s) sep).length, s'') ∧ units s'' = units s := by
  have hunits := units_set ha
  have hb' : sep < (units (s.set this (.utf16 (unitsOf (units s) this)))).length := by rwa [hunits]
  have hunits' := units_set hb'
  refine ⟨s.set this (.utf16 (unitsOf (units s) this)), _, ?_, ?_, hunits'.trans hunits⟩
  · rw [length_eq ha, assert_ok (decide_eq_true hla)]
    rfl
  · rw [length_eq hb']
    simp only [hunits, assert_ok (decide_eq_true hlb)]
    rfl

/-- **`rangeOfString:options:`** for an order of the indices -/
theorem rangeOfStringOptions_spec {options : ℕ}
    (is : ℕ → List ℕ) (toLowercase : Char → List Char) (ha : this < (units s).length) (hb : sep < (units s).length)
    (hla : (unitsOf (units s) this).length < 2 ^ 32) (hlb : (unitsOf (units s) sep).length < 2 ^ 32)
    (hne : unitsOf (units s) sep ≠ [])
    (hloop : ∀ len lenSearch (s : Strings),
      (if options = NSLiteralSearch ∨ options = 0 then searchLoop equalUnits this sep len lenSearch (List.range len) s
      else if options = NSCaseInsensitiveSearch then
        searchLoop (equalLowercase toLowercase) this sep len lenSearch (List.range len) s
      else if options = NSBackwardsSearch then
        searchLoop equalUnits this sep len lenSearch (List.range len).reverse s
      else throw .unimplemented) = searchLoop equalUnits this sep len lenSearch (is len) s)
    (hR : ∀ n, (is n).Pairwise R) (hmem : ∀ n i, i ∈ is n ↔ i < n)
    (hbest : ∀ (S : Set ℕ) i, i ∈ S → (∀ j ∈ S, j = i ∨ R i j) → best S i) :
    ∃ r s', rangeOfStringOptions toLowercase s this sep options = .ok (r, s') ∧ units s' = units s ∧
      Finds best (unitsOf (units s) this) (unitsOf (units s) sep) r := by
  obtain ⟨s₁, s₂, hlength, hlengthSearch, hunits⟩ := lengths_ok ha hb hla hlb
  obtain ⟨s', hrun, hunits'⟩ :=
      searchLoop_spec (s := s₂) (is (unitsOf (units s) this).length) (hunits ▸ ha) (hunits ▸ hb)
    (hunits ▸ hla) fun i hi => by rw [hunits]; exact (hmem _ i).1 hi
  rw [hunits] at hrun hunits'
  refine ⟨_, s', ?_, hunits', finds_of_find? hne (hR _) (fun i hi => (hmem _ i).2 hi) hbest⟩
  rw [rangeOfStringOptions, hlength, ok_bind]
  simp only [hlengthSearch, ok_bind]
  rw [if_neg fun hzero => hne (List.length_eq_zero_iff.1 hzero), hloop]
  exact hrun

/-- **Separated strings**: the pieces between the separators, which no piece has in it, make up the string again, or the one
in which they are replaced. The range that is found is that of the first occurrence, or with a backwards search of the
last. -/
theorem separated_strings (toLowercase : Char → List Char) {s : Strings} {this sep : ℕ} (hthis : this < s.length)
    (hsep : sep < s.length) (hne : unitsOf (units s) sep ≠ []) (hlen : ∀ a < s.length, (unitsOf (units s) a).length <
    2 ^ 32) :
    ∃ components, componentsSeparatedByString s this sep = .ok components ∧ Agree toLowercase s this sep components := by
  have hcount : (units s).length = s.length := List.length_map ..
  obtain ⟨host, hborrow, hunits⟩ := borrow_eq (hcount ▸ hthis)
  obtain ⟨hostSep, hborrowSep, hunitsSep⟩ := borrow_eq (hcount ▸ hsep)
  have htarget : iterCodeUnits hostSep ≠ [] := hunitsSep ▸ hne
  obtain ⟨cs, hcut, hcomponents, hreplace⟩ := loops_cut htarget (iterCodeUnits host) [] []
    fun i hi => absurd hi (Nat.not_lt_zero i)
  rw [List.nil_append, hunits, hunitsSep] at hcut
  have hback : (cs.map StringHostObject.utf16).map iterCodeUnits = cs := by
    rw [List.map_map]
    exact List.map_id cs
  refine ⟨cs.map .utf16, ?_, ⟨?_, ?_, ?_, ?_, rfl, ?_⟩⟩
  · rw [componentsSeparatedByString, hborrow, ok_bind, hborrowSep, ok_bind]
    simp only
    rw [dif_pos htarget, hcomponents]
    rfl
  · rw [hback, hcut.join]
  · intro c hc
    obtain ⟨units, hmem, rfl⟩ := List.mem_map.1 hc
    exact hcut.free hne hmem
  · intro replacement hreplacement
    obtain ⟨hostReplacement, hborrowReplacement, hunitsReplacement⟩ := borrow_eq (hcount ▸ hreplacement)
    refine ⟨.utf16 (replaceLoop _ htarget (iterCodeUnits hostReplacement) (iterCodeUnits host) []), ?_, ?_⟩
    · rw [stringByReplacingOccurrencesOfString, hborrow, ok_bind, hborrowSep, ok_bind, hborrowReplacement, ok_bind]
      exact dif_pos htarget
    · rw [hback, ← hunitsReplacement]
      exact hreplace (iterCodeUnits hostReplacement) []
  · refine rangeOfStringOptions_spec (R := (· < ·)) List.range toLowercase (hcount ▸ hthis) (hcount ▸ hsep)
      (hlen this hthis)
      (hlen sep hsep) hne (fun _ _ _ => if_pos (.inr rfl)) (fun n => List.pairwise_lt_range) (fun n i => List.mem_range)
      fun S i hi h => ⟨hi, fun j hj => ?_⟩
    rcases h j hj with rfl | hlt
    · exact le_rfl
    · exact hlt.le
  · refine rangeOfStringOptions_spec (R := (· > ·)) (fun n => (List.range n).reverse) toLowercase (hcount ▸ hthis)
      (hcount ▸ hsep) (hlen this hthis) (hlen sep hsep) hne (fun _ _ _ => rfl)
      (fun n => List.pairwise_reverse.2 List.pairwise_lt_range) (fun n i => by rw [List.mem_reverse, List.mem_range])
      fun S i hi h => ⟨hi, fun j hj => ?_⟩
    rcases h j hj with rfl | hlt
    · exact le_rfl
    · exact hlt.le

/-- "aaab", "aa" and "a" in either representation -/
def samples : Strings := [.utf8 ['a', 'a', 'a', 'b'], .utf16 [0x61, 0x61], .utf8 ['a']]

theorem separated_samples : ∃ components, componentsSeparatedByString samples 0 1 = .ok components ∧
    Agree (fun c => [c]) samples 0 1 components :=
  separated_strings _ (by decide) (by decide) (by decide) (by decide)

end TouchHLE.StringSearch
