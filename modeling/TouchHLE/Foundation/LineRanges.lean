/-
The lines of a string (`line_range_helper` in `ns_string.rs`).

- `startLoop`, `endLoop`, `lineRangeHelper`: the two scans and the function.
- `Boundary`, `IsLine`, `Holds`: the lines of a string, and which of them an index is in.
- `line_at`: from any index the scans find the two ends of the line that it is in. `IsLine.unique`: there is no other.
- `line_ranges`: what the function gives for a range.
-/
import TouchHLE.Foundation.StringViews

namespace TouchHLE.LineRanges

open Machine
open NSString (NSRange)

/-! ## The scans -/

/-- from `start_pos` back to the start of a line -/
def startLoop (string : List UInt16) (rStart : ℕ) : ℕ → Except Panic ℕ
  | 0 => pure 0
  | p + 1 => do
    let c ← unwrap string[p]? .index
    if c ∈ [0x000A, 0x0085, 0x2028, 0x2029] then pure (p + 1)
    else if c = 0x000D then
      if p + 1 = rStart ∧ p + 1 < string.length then do
        let afterCr ← unwrap string[p + 1]? .index
        if afterCr = 0x000A then startLoop string rStart p else pure (p + 1)
      else pure (p + 1)
    else startLoop string rStart p

/-- `cend_pos` and `end_pos` at the end of the loop, for what is left of the string; the second is 0 at the end of it -/
def endLoop (string : List UInt16) : List UInt16 → ℕ → Except Panic (ℕ × ℕ)
  | [], cendPos => pure (cendPos, 0)
  | c :: rest, cendPos =>
    if c ∈ [0x0085, 0x2028, 0x2029] then pure (cendPos, cendPos + 1)
    else if c = 0x000A then
      if 0 < cendPos then do
        let beforeLf ← unwrap string[cendPos - 1]? .index
        if beforeLf = 0x000D then pure (cendPos - 1, cendPos + 1) else pure (cendPos, cendPos + 1)
      else pure (cendPos, cendPos + 1)
    else if c = 0x000D then
      if cendPos < string.length - 1 then do
        let afterCr ← unwrap string[cendPos + 1]? .index
        if afterCr = 0x000A then pure (cendPos, cendPos + 2) else pure (cendPos, cendPos + 1)
      else pure (cendPos, cendPos + 1)
    else endLoop string rest (cendPos + 1)

/-- start, end and end of the contents -/
def lineRangeHelper (string : List UInt16) (range : NSRange) (getStart getEnd : Bool) : Except Panic (ℕ × ℕ × ℕ) := do
  let rEnd ← add32 range.location range.length
  assert (rEnd ≤ string.length) .index
  let startPos ← if getStart then startLoop string range.location range.location else pure 0
  let (cendPos, endPos) ←
    if getEnd then do
      let cendPos := if 0 < range.length then rEnd - 1 else range.location
      let (cendPos, endPos) ← endLoop string (string.drop cendPos) cendPos
      pure (cendPos, if cendPos = string.length then cendPos else endPos)
    else pure (0, 0)
  assert (startPos < 2 ^ 32 && endPos < 2 ^ 32 && cendPos < 2 ^ 32) .conversion
  pure (startPos, endPos, cendPos)

def lineRangeForRange (string : List UInt16) (range : NSRange) : Except Panic NSRange := do
  let (start, «end», _) ← lineRangeHelper string range true true
  let length ← sub32 «end» start
  pure ⟨start, length⟩

/-! ## Lines -/

/-- LF, CR, NEL, LINE SEPARATOR and PARAGRAPH SEPARATOR -/
def IsDelimiter (c : UInt16) : Prop := c ∈ [0x000A, 0x000D, 0x0085, 0x2028, 0x2029]

instance : DecidablePred IsDelimiter := fun c => inferInstanceAs (Decidable (c ∈ _))

/-- between the units of a CR LF pair -/
def SplitsCrLf (s : List UInt16) (k : ℕ) : Prop := 0 < k ∧ s[k - 1]? = some 0x000D ∧ s[k]? = some 0x000A

/-- the beginning of the string, or behind a line terminator -/
def Boundary (s : List UInt16) (k : ℕ) : Prop := k = 0 ∨ (0 < k ∧ (∃ c ∈ s[k - 1]?, IsDelimiter c) ∧ ¬SplitsCrLf s k)

/-- the end of a line whose contents end at `contentsEnd`: that of the string, or the end of a line terminator -/
def Ends (s : List UInt16) (contentsEnd lineEnd : ℕ) : Prop :=
  (contentsEnd = s.length ∧ lineEnd = s.length) ∨ (lineEnd = contentsEnd + 1 ∧ Boundary s lineEnd) ∨
    (lineEnd = contentsEnd + 2 ∧ SplitsCrLf s (contentsEnd + 1))

structure IsLine (s : List UInt16) (start contentsEnd lineEnd : ℕ) : Prop where
  boundary : Boundary s start
  le : start ≤ contentsEnd
  contents : ∀ k, start ≤ k → k < contentsEnd → ∀ c ∈ s[k]?, ¬IsDelimiter c
  ends : Ends s contentsEnd lineEnd

/-- the index is in the line; the end of the string is in a last line without a terminator -/
def Holds (start contentsEnd lineEnd i : ℕ) : Prop := start ≤ i ∧ (i < lineEnd ∨ (i = lineEnd ∧ contentsEnd = lineEnd))

section

variable {s : List UInt16} {b c e b' c' e' k p q rStart : ℕ} {u : UInt16}

theorem boundary_succ : Boundary s (k + 1) ↔ (∃ c ∈ s[k]?, IsDelimiter c) ∧ ¬SplitsCrLf s (k + 1) := by
  refine ⟨fun h => ?_, fun h => .inr ⟨k.succ_pos, h⟩⟩
  rcases h with h | ⟨-, h⟩
  · cases h
  · exact h

theorem splits_succ : SplitsCrLf s (k + 1) ↔ s[k]? = some 0x000D ∧ s[k + 1]? = some 0x000A :=
  and_iff_right k.succ_pos

theorem Boundary.not_splits (h : Boundary s k) : ¬SplitsCrLf s k := by
  rcases h with rfl | ⟨-, -, h⟩
  · exact fun h => absurd h.1 (lt_irrefl 0)
  · exact h

/-- what the first scan looks for -/
theorem delimiter_start : IsDelimiter u ↔ u ∈ [0x000A, 0x0085, 0x2028, 0x2029] ∨ u = 0x000D := by
  simp only [IsDelimiter, List.mem_cons]
  grind

/-- what the second scan looks for -/
theorem delimiter_end : IsDelimiter u ↔ u ∈ [0x0085, 0x2028, 0x2029] ∨ u = 0x000A ∨ u = 0x000D := by
  simp only [IsDelimiter, List.mem_cons]
  grind

/-- behind a terminator of one unit -/
theorem boundary_of_delimiter (hu : s[k]? = some u) (hd : IsDelimiter u) (h : u = 0x000D → s[k + 1]? ≠ some 0x000A) :
    Boundary s (k + 1) := by
  refine boundary_succ.2 ⟨⟨u, hu, hd⟩, fun hsplits => ?_⟩
  obtain ⟨hcr, hlf⟩ := splits_succ.1 hsplits
  exact h (Option.some.inj (hu.symm.trans hcr)) hlf

theorem not_boundary (hu : s[k]? = some u) (hd : ¬IsDelimiter u) : ¬Boundary s (k + 1) := by
  intro h
  obtain ⟨⟨v, hv, hdv⟩, -⟩ := boundary_succ.1 h
  cases hu.symm.trans hv
  exact hd hdv

/-! ## What the scans find -/

/-- **The first scan** goes back to the last boundary. -/
theorem startLoop_spec (hr : rStart ≤ s.length) (hp : p ≤ rStart) (hno : ∀ k, p < k → k ≤ rStart → ¬Boundary s k) :
    ∃ b, startLoop s rStart p = .ok b ∧ Boundary s b ∧ b ≤ p ∧ ∀ k, b < k → k ≤ rStart → ¬Boundary s k := by
  induction p with
  | zero => exact ⟨0, rfl, .inl rfl, le_rfl, hno⟩
  | succ p ih =>
    obtain ⟨u, hu⟩ : ∃ u, s[p]? = some u := ⟨_, List.getElem?_eq_getElem (by omega)⟩
    -- the scan either stops here, at a boundary, or goes on
    have hstop (h : Boundary s (p + 1)) : ∃ b, (Except.ok (p + 1) : Except Panic ℕ) = .ok b ∧ Boundary s b ∧ b ≤ p + 1 ∧
        ∀ k, b < k → k ≤ rStart → ¬Boundary s k := ⟨p + 1, rfl, h, le_rfl, hno⟩
    have hon (h : ¬Boundary s (p + 1)) : ∃ b, startLoop s rStart p = .ok b ∧ Boundary s b ∧ b ≤ p + 1 ∧
        ∀ k, b < k → k ≤ rStart → ¬Boundary s k := by
      obtain ⟨b, hrun, hb, hle, hrest⟩ := ih (by omega) fun k hk hkr => by
        rcases (Nat.succ_le_of_lt hk).lt_or_eq with hlt | rfl
        · exact hno k hlt hkr
        · exact h
      exact ⟨b, hrun, hb, hle.trans (Nat.le_succ p), hrest⟩
    rw [startLoop, hu]
    simp only [unwrap, ok_bind]
    split_ifs with hd hcr hmiddle
    · refine hstop (boundary_of_delimiter hu (delimiter_start.2 (.inl hd)) ?_)
      rintro rfl
      exact absurd hd (by decide)
    · obtain ⟨v, hafter⟩ : ∃ v, s[p + 1]? = some v := ⟨_, List.getElem?_eq_getElem hmiddle.2⟩
      rw [hafter]
      simp only [ok_bind]
      subst hcr
      split_ifs with hlf
      · subst hlf
        exact hon fun h => h.not_splits (splits_succ.2 ⟨hu, hafter⟩)
      · exact hstop (boundary_of_delimiter hu (by decide) fun _ h => hlf (Option.some.inj (hafter.symm.trans h)))
    · refine hstop (boundary_of_delimiter hu (hcr ▸ by decide) fun _ hlf => ?_)
      obtain ⟨hlt, -⟩ := List.getElem?_eq_some_iff.1 hlf
      -- a LF behind this CR would have stopped the scan before
      exact hno (p + 2) (Nat.lt_succ_self _) (by omega) (boundary_of_delimiter hlf (by decide) fun h =>
        absurd h (by decide))
    · exact hon (not_boundary hu fun h => (delimiter_start.1 h).elim hd hcr)

/-- the end of the line, where the second scan stopped -/
def lineEnd (s : List UInt16) (r : ℕ × ℕ) : ℕ := if r.1 = s.length then r.1 else r.2

/-- **The second scan** goes on to the next line terminator, also from its middle. -/
theorem endLoop_spec (hq : q ≤ s.length) : ∃ r, endLoop s (s.drop q) q = .ok r ∧ Ends s r.1 (lineEnd s r) ∧
    ((q ≤ r.1 ∧ ¬SplitsCrLf s q ∧ ∀ k, q ≤ k → k < r.1 → ∀ c ∈ s[k]?, ¬IsDelimiter c) ∨ (r.1 + 1 = q ∧ SplitsCrLf s q)) ∧
    (q < lineEnd s r ∨ (q = lineEnd s r ∧ r.1 = lineEnd s r)) := by
  generalize hrest : s.drop q = rest
  induction rest generalizing q with
  | nil =>
    obtain rfl : q = s.length := le_antisymm hq (List.drop_eq_nil_iff.1 hrest)
    have hnone : s[s.length]? = none := List.getElem?_eq_none le_rfl
    refine ⟨(s.length, 0), rfl, .inl ⟨rfl, if_pos rfl⟩,
      .inl ⟨le_rfl, fun h => ?_, fun k hk hlt => absurd hlt (not_lt.2 hk)⟩,
      .inr ⟨(if_pos rfl).symm, (if_pos rfl).symm⟩⟩
    rw [h.2.2] at hnone
    cases hnone
  | cons u rest ih =>
    have hlt : q < s.length := by
      by_contra hge
      rw [List.drop_eq_nil_of_le (not_lt.1 hge)] at hrest
      cases hrest
    obtain ⟨hget, hrest'⟩ : s[q] = u ∧ s.drop (q + 1) = rest := by
      rw [List.drop_eq_getElem_cons hlt] at hrest
      exact List.cons.inj hrest
    have hu : s[q]? = some u := by rw [List.getElem?_eq_getElem hlt, hget]
    have hnone (k : ℕ) (h : q ≤ k) (h' : k < q) : ∀ c ∈ s[k]?, ¬IsDelimiter c := absurd h (not_le.2 h')
    -- a terminator that begins here
    have hhere (e : ℕ) (hends : Ends s q e) (hsplits : ¬SplitsCrLf s q) (he : q < e) :
        ∃ r, (Except.ok (q, e) : Except Panic (ℕ × ℕ)) = .ok r ∧ Ends s r.1 (lineEnd s r) ∧
          ((q ≤ r.1 ∧ ¬SplitsCrLf s q ∧ ∀ k, q ≤ k → k < r.1 → ∀ c ∈ s[k]?, ¬IsDelimiter c) ∨
          (r.1 + 1 = q ∧ SplitsCrLf s q)) ∧
          (q < lineEnd s r ∨ (q = lineEnd s r ∧ r.1 = lineEnd s r)) := by
      have hend : lineEnd s (q, e) = e := if_neg hlt.ne
      refine ⟨(q, e), rfl, ?_, .inl ⟨le_rfl, hsplits, hnone⟩, .inl ?_⟩
      · rwa [hend]
      · rwa [hend]
    rw [endLoop]
    split_ifs with hd hlf hpos hcr hnext
    · refine hhere (q + 1) (.inr (.inl ⟨rfl, boundary_of_delimiter hu (delimiter_end.2 (.inl hd)) ?_⟩)) ?_ (Nat.lt_succ_self q)
      · rintro rfl
        exact absurd hd (by decide)
      · intro h
        rw [h.2.2] at hu
        cases hu
        exact absurd hd (by decide)
    · subst hlf
      obtain ⟨v, hbefore⟩ : ∃ v, s[q - 1]? = some v := ⟨_, List.getElem?_eq_getElem (by omega)⟩
      rw [hbefore]
      simp only [unwrap, ok_bind]
      split_ifs with hv
      · subst hv
        have hsplits : SplitsCrLf s q := ⟨hpos, hbefore, hu⟩
        have hend : lineEnd s (q - 1, q + 1) = q + 1 := if_neg (by simp only; omega)
        have hq1 : q - 1 + 1 = q := Nat.sub_add_cancel hpos
        refine ⟨(q - 1, q + 1), rfl, ?_, .inr ⟨hq1, hsplits⟩, .inl ?_⟩
        · rw [hend]
          exact .inr (.inr ⟨by simp only; omega, by simp only [hq1]; exact hsplits⟩)
        · rw [hend]
          exact Nat.lt_succ_self q
      · refine hhere (q + 1) (.inr (.inl ⟨rfl, boundary_of_delimiter hu (by decide) fun h => absurd h (by decide)⟩)) ?_
          (Nat.lt_succ_self q)
        intro h
        exact hv (Option.some.inj (hbefore.symm.trans h.2.1))
    · subst hlf
      exact hhere (q + 1) (.inr (.inl ⟨rfl, boundary_of_delimiter hu (by decide) fun h => absurd h (by decide)⟩))
        (fun h => hpos h.1) (Nat.lt_succ_self q)
    · subst hcr
      have hno : ¬SplitsCrLf s q := by
        intro h
        rw [h.2.2] at hu
        cases hu
      obtain ⟨v, hafter⟩ : ∃ v, s[q + 1]? = some v := ⟨_, List.getElem?_eq_getElem (by omega)⟩
      rw [hafter]
      simp only [unwrap, ok_bind]
      split_ifs with hv
      · subst hv
        exact hhere (q + 2) (.inr (.inr ⟨rfl, splits_succ.2 ⟨hu, hafter⟩⟩)) hno (by omega)
      · exact hhere (q + 1) (.inr (.inl ⟨rfl, boundary_of_delimiter hu (by decide) fun _ h =>
          hv (Option.some.inj (hafter.symm.trans h))⟩)) hno (Nat.lt_succ_self q)
    · subst hcr
      have hno : ¬SplitsCrLf s q := by
        intro h
        rw [h.2.2] at hu
        cases hu
      refine hhere (q + 1) (.inr (.inl ⟨rfl, boundary_of_delimiter hu (by decide) fun _ h => ?_⟩)) hno (Nat.lt_succ_self q)
      obtain ⟨hlt', -⟩ := List.getElem?_eq_some_iff.1 h
      omega
    · have hnd : ¬IsDelimiter u := fun h => (delimiter_end.1 h).elim hd fun h => h.elim hlf hcr
      obtain ⟨r, hrun, hends, hcontents, hafter⟩ := ih hlt hrest'
      refine ⟨r, hrun, hends, .inl ?_, ?_⟩
      · rcases hcontents with ⟨hle, -, hfree⟩ | ⟨-, hsplits⟩
        · refine ⟨by omega, fun h => ?_, fun k hk hkr => ?_⟩
          · rw [h.2.2] at hu
            exact hlf (Option.some.inj hu).symm
          · rcases hk.lt_or_eq with hk | rfl
            · exact hfree k hk hkr
            · intro c hc
              rw [hu] at hc
              cases hc
              exact hnd
        · have hcr' := (splits_succ.1 hsplits).1
          rw [hu] at hcr'
          exact absurd (Option.some.inj hcr') hcr
      · omega

/-! ## Lines -/

theorem Ends.le (h : Ends s c e) : c ≤ e ∧ e ≤ s.length := by
  rcases h with ⟨rfl, rfl⟩ | ⟨rfl, hb⟩ | ⟨rfl, hsplits⟩
  · exact ⟨le_rfl, le_rfl⟩
  · obtain ⟨⟨u, hu, -⟩, -⟩ := boundary_succ.1 hb
    obtain ⟨hlt, -⟩ := List.getElem?_eq_some_iff.1 hu
    exact ⟨Nat.le_succ c, hlt⟩
  · obtain ⟨hlt, -⟩ := List.getElem?_eq_some_iff.1 (splits_succ.1 hsplits).2
    exact ⟨Nat.le_add_right c 2, hlt⟩

/-- a line ends behind its terminator, and not inside it -/
theorem Ends.not_splits (h : Ends s c e) : ¬SplitsCrLf s e := by
  rcases h with ⟨-, rfl⟩ | ⟨-, hb⟩ | ⟨rfl, hsplits⟩
  · intro hsplits
    obtain ⟨hlt, -⟩ := List.getElem?_eq_some_iff.1 hsplits.2.2
    exact absurd hlt (lt_irrefl _)
  · exact hb.not_splits
  · intro hsplits'
    have hlf := (splits_succ.1 hsplits).2
    rw [(splits_succ.1 hsplits').1] at hlf
    cases hlf

/-- what is where the contents end -/
theorem Ends.delimiter (h : Ends s c e) (hlt : c < s.length) : ∃ u ∈ s[c]?, IsDelimiter u := by
  rcases h with ⟨rfl, -⟩ | ⟨rfl, hb⟩ | ⟨-, hsplits⟩
  · exact absurd hlt (lt_irrefl _)
  · exact (boundary_succ.1 hb).1
  · exact ⟨_, (splits_succ.1 hsplits).1, by decide⟩

/-- the contents determine the terminator -/
theorem Ends.unique (h : Ends s c e) (h' : Ends s c e') : e = e' := by
  have hmiddle (hb : Boundary s (c + 1)) : ¬SplitsCrLf s (c + 1) := hb.not_splits
  rcases h with ⟨rfl, rfl⟩ | ⟨rfl, hb⟩ | ⟨rfl, hsplits⟩
  · exact le_antisymm h'.le.1 h'.le.2
  · rcases h' with ⟨rfl, rfl⟩ | ⟨rfl, -⟩ | ⟨-, hsplits⟩
    · obtain ⟨⟨u, hu, -⟩, -⟩ := boundary_succ.1 hb
      obtain ⟨hlt, -⟩ := List.getElem?_eq_some_iff.1 hu
      exact absurd hlt (lt_irrefl _)
    · rfl
    · exact absurd hsplits (hmiddle hb)
  · rcases h' with ⟨rfl, rfl⟩ | ⟨rfl, hb⟩ | ⟨rfl, -⟩
    · obtain ⟨hlt, -⟩ := List.getElem?_eq_some_iff.1 (splits_succ.1 hsplits).1
      exact absurd hlt (lt_irrefl _)
    · exact absurd hsplits (hmiddle hb)
    · rfl

/-- there is no boundary inside a line -/
theorem IsLine.no_boundary (h : IsLine s b c e) (hk : b < k) (hke : k < e ∨ k ≤ c) : ¬Boundary s k := by
  intro hb
  obtain ⟨j, rfl⟩ : ∃ j, k = j + 1 := Nat.exists_eq_succ_of_ne_zero (Nat.ne_zero_of_lt hk)
  by_cases hjc : j < c
  · obtain ⟨⟨u, hu, hd⟩, -⟩ := boundary_succ.1 hb
    exact h.contents j (Nat.le_of_lt_succ hk) hjc u hu hd
  · rcases h.ends with ⟨hc, he⟩ | ⟨he, -⟩ | ⟨he, hsplits⟩
    · omega
    · omega
    · obtain rfl : j = c := by omega
      exact hb.not_splits hsplits

/-- **The line of an index** is determined. -/
theorem IsLine.unique (h : IsLine s b c e) (hp : Holds b c e p) (h' : IsLine s b' c' e') (hp' : Holds b' c' e' p) :
    b = b' ∧ c = c' ∧ e = e' := by
  have hstart {b c e b' c' e' : ℕ} (h : IsLine s b c e) (hp : Holds b c e p) (h' : IsLine s b' c' e')
      (hp' : Holds b' c' e' p) :
      b' ≤ b := by
    by_contra hlt
    refine h.no_boundary (not_le.1 hlt) ?_ h'.boundary
    rcases hp.2 with hpe | ⟨rfl, rfl⟩
    · exact .inl (hp'.1.trans_lt hpe)
    · exact .inr hp'.1
  obtain rfl : b = b' := le_antisymm (hstart h' hp' h hp) (hstart h hp h' hp')
  have hcontents {c e c' e' : ℕ} (h : IsLine s b c e) (h' : IsLine s b c' e') : c' ≤ c := by
    by_contra hlt
    obtain ⟨u, hu, hd⟩ := h.ends.delimiter ((not_le.1 hlt).trans_le (h'.ends.le.1.trans h'.ends.le.2))
    exact h'.contents c h.le (not_le.1 hlt) u hu hd
  obtain rfl : c = c' := le_antisymm (hcontents h' h) (hcontents h h')
  exact ⟨rfl, rfl, h.ends.unique h'.ends⟩

theorem IsLine.not_splits (h : IsLine s b c e) : ¬SplitsCrLf s c := by
  intro hsplits
  rcases h.le.eq_or_lt with rfl | hlt
  · exact h.boundary.not_splits hsplits
  · exact h.contents (c - 1) (by omega) (by omega) _ hsplits.2.1 (by decide)

theorem IsLine.holds_start (h : IsLine s b c e) : Holds b c e b := by
  have hle := h.ends.le.1
  have hbc := h.le
  refine ⟨le_rfl, ?_⟩
  omega

/-- **The line of an index**: the scans find its two ends. -/
theorem line_at (hp : p ≤ s.length) : ∃ b r, startLoop s p p = .ok b ∧ endLoop s (s.drop p) p = .ok r ∧
    IsLine s b r.1 (lineEnd s r) ∧ Holds b r.1 (lineEnd s r) p := by
  obtain ⟨b, hstart, hboundary, hbp, hlast⟩ := startLoop_spec hp le_rfl fun k hk hkp => absurd hk (not_lt.2 hkp)
  obtain ⟨r, hend, hends, hcontents, hafter⟩ := endLoop_spec hp
  -- before the index the line has no delimiters, but that it may be the LF of a CR LF pair
  have hfree (k : ℕ) (hbk : b ≤ k) (hkp : k < p) (u : UInt16) (hu : s[k]? = some u) (hd : IsDelimiter u) :
      k + 1 = p ∧ SplitsCrLf s p := by
    have hno := hlast (k + 1) (Nat.lt_succ_of_le hbk) hkp
    rw [boundary_succ, not_and_not_right] at hno
    have hsplits := hno ⟨u, hu, hd⟩
    have hnext := boundary_of_delimiter (splits_succ.1 hsplits).2 (by decide) fun h => absurd h (by decide)
    rcases (Nat.succ_le_of_lt hkp).lt_or_eq with hlt | rfl
    · exact absurd hnext (hlast (k + 2) (by omega) hlt)
    · exact ⟨rfl, hsplits⟩
  refine ⟨b, r, hstart, hend, ⟨hboundary, ?_, fun k hbk hkc u hu hd => ?_, hends⟩, hbp, hafter⟩
  · rcases hcontents with ⟨hle, -⟩ | ⟨heq, hsplits⟩
    · exact hbp.trans hle
    · have hne : b ≠ p := by
        rintro rfl
        exact hboundary.not_splits hsplits
      omega
  · by_cases hkp : k < p
    · obtain ⟨hk, hsplits⟩ := hfree k hbk hkp u hu hd
      rcases hcontents with ⟨-, hno, -⟩ | ⟨heq, -⟩
      · exact hno hsplits
      · omega
    · rcases hcontents with ⟨-, -, hrest⟩ | ⟨heq, -⟩
      · exact hrest k (not_lt.1 hkp) hkc u hu hd
      · omega

end

/-! ## Ranges -/

/-- the index of the last character of a range, or of its place if it is empty -/
def lastIndex (range : NSRange) : ℕ := if 0 < range.length then range.location + range.length - 1 else range.location

/-- what the function is to give: the beginning of the line that the range begins in, and the ends of the one that it
ends in -/
structure Covers (s : List UInt16) (range : NSRange) (start contentsEnd lineEnd : ℕ) : Prop where
  first : ∃ c e, IsLine s start c e ∧ Holds start c e range.location
  last : ∃ b, IsLine s b contentsEnd lineEnd ∧ Holds b contentsEnd lineEnd (lastIndex range)

section

variable {s : List UInt16} {range : NSRange} {start contentsEnd lineEnd : ℕ}

theorem location_le_lastIndex (range : NSRange) : range.location ≤ lastIndex range := by
  unfold lastIndex
  split_ifs <;> omega

theorem lineRangeHelper_covers (hlen : s.length < 2 ^ 32) (hin : range.location + range.length ≤ s.length) :
    ∃ start contentsEnd lineEnd, lineRangeHelper s range true true = .ok (start, lineEnd, contentsEnd) ∧
      Covers s range start contentsEnd lineEnd := by
  have hlast : lastIndex range ≤ s.length := by
    unfold lastIndex
    split_ifs <;> omega
  have hfirst : range.location ≤ s.length := by omega
  obtain ⟨b, r, hstart, -, hline, hholds⟩ := line_at hfirst
  obtain ⟨b', r', -, hend, hline', hholds'⟩ := line_at hlast
  refine ⟨b, r'.1, LineRanges.lineEnd s r', ?_, ⟨_, _, hline, hholds⟩, b', hline', hholds'⟩
  have hb : b < 2 ^ 32 := by
    have hle := hholds.1
    omega
  have he := hline'.ends.le
  rw [lineRangeHelper, add32_ok (by omega), ok_bind, assert_ok (decide_eq_true hin), ok_bind, if_pos rfl, hstart, ok_bind]
  simp only [if_true]
  rw [show (if 0 < range.length then range.location + range.length - 1 else range.location) = lastIndex range from rfl,
    hend]
  simp only [ok_bind, pure_eq_ok]
  rw [show (if r'.1 = s.length then r'.1 else r'.2) = LineRanges.lineEnd s r' from rfl, assert_ok (by simp; omega), ok_bind]

/-- there is only one result -/
theorem Covers.unique {start' contentsEnd' lineEnd' : ℕ} (h : Covers s range start contentsEnd lineEnd)
    (h' : Covers s range start' contentsEnd' lineEnd') : start = start' ∧ contentsEnd = contentsEnd' ∧ lineEnd =
    lineEnd' := by
  obtain ⟨⟨c, e, hfirst, hp⟩, b, hlast, hq⟩ := h
  obtain ⟨⟨c', e', hfirst', hp'⟩, b', hlast', hq'⟩ := h'
  exact ⟨(hfirst.unique hp hfirst' hp').1, (hlast.unique hq hlast' hq').2⟩

/-- the line that a range ends in begins nowhere before the line that it begins in -/
theorem Covers.start_le (h : Covers s range start contentsEnd lineEnd) :
    ∃ b, start ≤ b ∧ IsLine s b contentsEnd lineEnd ∧ Holds b contentsEnd lineEnd (lastIndex range) := by
  obtain ⟨⟨c, e, hfirst, hp⟩, b, hlast, hq⟩ := h
  refine ⟨b, not_lt.1 fun hlt => ?_, hlast, hq⟩
  refine hlast.no_boundary hlt ?_ hfirst.boundary
  have hle := hp.1.trans (location_le_lastIndex range)
  rcases hq.2 with hlt' | ⟨heq, heq'⟩
  · exact .inl (hle.trans_lt hlt')
  · exact .inr (by omega)

/-- the range that is covered is covered by itself -/
theorem Covers.again (h : Covers s range start contentsEnd lineEnd) (hin : range.location + range.length ≤ s.length) :
    Covers s ⟨start, lineEnd - start⟩ start contentsEnd lineEnd := by
  obtain ⟨b, hsb, hlast, hq⟩ := h.start_le
  obtain ⟨⟨c, e, hfirst, hp⟩, -⟩ := h
  refine ⟨⟨c, e, hfirst, hfirst.holds_start⟩, b, hlast, ?_⟩
  unfold lastIndex at hq ⊢
  simp only
  by_cases hlength : 0 < range.length
  · rw [if_pos hlength] at hq
    -- the last character is before the end of the string, and so before the end of its line
    have hlt : range.location + range.length - 1 < lineEnd := by
      rcases hq.2 with hlt | ⟨heq, heq'⟩
      · exact hlt
      · have hfull : lineEnd = s.length := by
          rcases hlast.ends with ⟨-, he⟩ | ⟨he, -⟩ | ⟨he, -⟩ <;> omega
        omega
    have hbq := hq.1
    rw [if_pos (by omega)]
    exact ⟨by omega, .inl (by omega)⟩
  · rw [if_neg hlength] at hq
    obtain ⟨rfl, rfl, rfl⟩ := hfirst.unique hp hlast hq
    split_ifs with hpos
    · exact ⟨by omega, .inl (by omega)⟩
    · exact hfirst.holds_start

/-- **Line ranges**: for every range in a string the function gives the beginning of the line that the range begins in
and the two ends of the one that it ends in, none of them inside a CR LF pair, and the same again for the range between
them. -/
theorem line_ranges (hlen : s.length < 2 ^ 32) (hin : range.location + range.length ≤ s.length) :
    ∃ start contentsEnd lineEnd, lineRangeHelper s range true true = .ok (start, lineEnd, contentsEnd) ∧
      start ≤ contentsEnd ∧ contentsEnd ≤ lineEnd ∧ Covers s range start contentsEnd lineEnd ∧
      (∀ k ∈ [start, contentsEnd, lineEnd], ¬SplitsCrLf s k) ∧
      lineRangeHelper s ⟨start, lineEnd - start⟩ true true = .ok (start, lineEnd, contentsEnd) := by
  obtain ⟨start, contentsEnd, lineEnd, hrun, hcovers⟩ := lineRangeHelper_covers hlen hin
  obtain ⟨b, hsb, hlast, -⟩ := hcovers.start_le
  obtain ⟨c, e, hfirst, -⟩ := hcovers.first
  have hle := hlast.ends.le
  have hbc := hlast.le
  refine ⟨start, contentsEnd, lineEnd, hrun, hsb.trans hbc, hle.1, hcovers, ?_, ?_⟩
  · intro k hk
    simp only [List.mem_cons, List.not_mem_nil, or_false] at hk
    rcases hk with rfl | rfl | rfl
    · exact hfirst.boundary.not_splits
    · exact hlast.not_splits
    · exact hlast.ends.not_splits
  · have hin' : (NSRange.mk start (lineEnd - start)).location + (NSRange.mk start (lineEnd - start)).length ≤ s.length := by
      simp only
      omega
    obtain ⟨start', contentsEnd', lineEnd', hrun', hcovers'⟩ := lineRangeHelper_covers hlen hin'
    obtain ⟨rfl, rfl, rfl⟩ := (hcovers.again hin).unique hcovers'
    exact hrun'

end

/-- "abc", CR, LF, "ab" -/
def crLf : List UInt16 := [0x61, 0x62, 0x63, 0x0D, 0x0A, 0x61, 0x62]

/-- an empty range between the CR and the LF -/
theorem line_ranges_crLf : ∃ start contentsEnd lineEnd, lineRangeHelper crLf ⟨4, 0⟩ true true =
    .ok (start, lineEnd, contentsEnd) ∧
    start ≤ contentsEnd ∧ contentsEnd ≤ lineEnd ∧ Covers crLf ⟨4, 0⟩ start contentsEnd lineEnd ∧
    (∀ k ∈ [start, contentsEnd, lineEnd], ¬SplitsCrLf crLf k) ∧
    lineRangeHelper crLf ⟨start, lineEnd - start⟩ true true = .ok (start, lineEnd, contentsEnd) :=
  line_ranges (by decide) (by decide)

example : lineRangeHelper crLf ⟨4, 0⟩ true true = .ok (0, 5, 3) ∧ lineRangeHelper crLf ⟨4, 2⟩ true true =
  .ok (0, 7, 7) := by
  decide

end TouchHLE.LineRanges
