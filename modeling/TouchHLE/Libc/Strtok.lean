/-
`strtok` (`libc/string.rs`), which keeps where it is between its calls.

- `strtok`: the function; `strtokCalls`: a row of calls with one string of separators.
- `IsToken`, `TokensFrom`: the tokens of a text, stated without the function.
- `strtok_step`: what a call with NULL does where a token may begin. `nullCalls_spec`: a row of them.
- `strtok_iff`: the row of calls is as expected if and only if there are not more calls with NULL than tokens: the call
  that returns NULL forgets the state, which the next one unwraps (`strtok_panics`).
-/
import TouchHLE.Libc.CStrings

namespace TouchHLE.Strtok

open Machine Words

/-! ## Model -/

/-- guest memory, and `env.libc_state.string.strtok` -/
structure Env where
  mem : Mem
  strtok : Option ℕ

/-- the first loop, with so many bytes to the end of memory: a token's start, or none before the end of the string -/
def skipSeparators (m : Mem) (sep : List UInt8) : ℕ → ℕ → Except Panic (Option ℕ)
  | 0, _ => .error .pointer
  | n + 1, tokenStart => do
    m.checkRange tokenStart 1
    if m.bytes tokenStart = 0 then pure none
    else if m.bytes tokenStart ∈ sep then skipSeparators m sep n (tokenStart + 1)
    else pure (some tokenStart)

/-- the second loop: the next token's start, and memory with the token ended -/
def endToken (m : Mem) (sep : List UInt8) : ℕ → ℕ → Except Panic (ℕ × Mem)
  | 0, _ => .error .pointer
  | n + 1, tokenEnd => do
    m.checkRange tokenEnd 1
    if m.bytes tokenEnd ∈ sep then do
      let m ← m.writeBytes tokenEnd [0]
      let nextToken ← Mem.ptrAdd tokenEnd 1 1
      pure (nextToken, m)
    else if m.bytes tokenEnd = 0 then pure (0, m)
    else endToken m sep n (tokenEnd + 1)

def strtok (env : Env) (s sep : ℕ) : Except Panic (ℕ × Env) := do
  let s ← (if s = 0 then unwrap env.strtok .missing else pure s)
  -- the state is null behind the last token
  if s = 0 then pure (0, { env with strtok := none })
  else do
    let sep ← env.mem.cstrAt (2 ^ 32 - sep) sep
    match ← skipSeparators env.mem sep (2 ^ 32 - s) s with
    | none => pure (0, { env with strtok := none })
    | some tokenStart => do
      let (nextToken, m) ← endToken env.mem sep (2 ^ 32 - tokenStart) tokenStart
      pure (tokenStart, ⟨m, some nextToken⟩)

/-- calls with the given strings, one after another, and what they return -/
def strtokCalls (sep : ℕ) : List ℕ → Env → Except Panic (List ℕ × Env)
  | [], env => pure ([], env)
  | s :: calls, env => do
    let (token, env) ← strtok env s sep
    let (tokens, env) ← strtokCalls sep calls env
    pure (token :: tokens, env)

/-! ## Tokens -/

/-- a maximal run of characters that are no separators: where it begins, and its length -/
structure IsToken (sep text : List UInt8) (i n : ℕ) : Prop where
  nonempty : 0 < n
  inside : i + n ≤ text.length
  noSeparator : ∀ j, i ≤ j → j < i + n → text.getD j 0 ∉ sep
  before : i = 0 ∨ text.getD (i - 1) 0 ∈ sep
  behind : i + n = text.length ∨ text.getD (i + n) 0 ∈ sep

/-- the tokens that do not begin before `pos`, in order -/
structure TokensFrom (sep text : List UInt8) (pos : ℕ) (tokens : List (ℕ × ℕ)) : Prop where
  mem : ∀ i n, (i, n) ∈ tokens ↔ IsToken sep text i n ∧ pos ≤ i
  sorted : tokens.Pairwise fun t t' => t.1 < t'.1

variable {sep text : List UInt8} {pos i j n k s sepPtr : ℕ} {tokens : List (ℕ × ℕ)} {bytes : Bytes} {c : List UInt8}
  {t : ℕ × ℕ}

/-- between two tokens there is a separator -/
theorem IsToken.separated {n' : ℕ} (h : IsToken sep text i n) (h' : IsToken sep text j n') (hij : i < j) : i + n < j := by
  have hsep : text.getD (j - 1) 0 ∈ sep := h'.before.resolve_left (by omega)
  have hle : i + n ≤ j := by
    by_contra hlt
    exact h.noSeparator (j - 1) (by omega) (by omega) hsep
  rcases Nat.lt_or_eq_of_le hle with hlt | heq
  · exact hlt
  · have hinside := h'.inside
    have hpos := h'.nonempty
    have hbehind : text.getD (i + n) 0 ∈ sep := h.behind.resolve_left (by omega)
    rw [heq] at hbehind
    exact absurd hbehind (h'.noSeparator j le_rfl (by omega))

namespace TokensFrom

theorem head {t : ℕ × ℕ} (h : TokensFrom sep text pos (t :: tokens)) : IsToken sep text t.1 t.2 ∧ pos ≤ t.1 :=
  (h.mem t.1 t.2).1 List.mem_cons_self

/-- the tokens behind the first one -/
theorem tail {t : ℕ × ℕ} (h : TokensFrom sep text pos (t :: tokens)) : TokensFrom sep text (t.1 + t.2 + 1) tokens := by
  obtain ⟨hfirst, hsorted⟩ := List.pairwise_cons.1 h.sorted
  refine ⟨fun i n => ⟨fun hmem => ?_, fun ⟨htoken, hi⟩ => ?_⟩, hsorted⟩
  · have htoken := ((h.mem i n).1 (List.mem_cons_of_mem t hmem)).1
    exact ⟨htoken, h.head.1.separated htoken (hfirst (i, n) hmem)⟩
  · have hpos := h.head.2
    have hmem := (h.mem i n).2 ⟨htoken, by omega⟩
    rcases List.mem_cons.1 hmem with heq | hmem
    · rw [← heq] at hi
      exact absurd hi (by simp only; omega)
    · exact hmem

theorem eq_nil (h : TokensFrom sep text pos tokens) (hnone : ∀ i n, IsToken sep text i n → ¬pos ≤ i) : tokens = [] := by
  apply List.eq_nil_iff_forall_not_mem.2
  intro t ht
  obtain ⟨htoken, hpos⟩ := (h.mem t.1 t.2).1 ht
  exact hnone t.1 t.2 htoken hpos

/-- the first token is the one that begins first -/
theorem eq_cons (h : TokensFrom sep text pos tokens) (htoken : IsToken sep text i n) (hpos : pos ≤ i)
    (hfirst : ∀ j n', IsToken sep text j n' → pos ≤ j → i ≤ j) : ∃ rest, tokens = (i, n) :: rest := by
  have hmem := (h.mem i n).2 ⟨htoken, hpos⟩
  cases tokens with
  | nil => exact absurd hmem List.not_mem_nil
  | cons t rest =>
    rcases List.mem_cons.1 hmem with heq | hrest
    · exact ⟨rest, by rw [heq]⟩
    · have hlt := (List.pairwise_cons.1 h.sorted).1 (i, n) hrest
      have hle := hfirst t.1 t.2 h.head.1 h.head.2
      exact absurd hlt (Nat.not_lt.2 hle)

end TokensFrom

/-! ## One call -/

/-- from `pos` on, the text is in memory as it was -/
structure HoldsFrom (m : Mem) (s : ℕ) (text : List UInt8) (pos : ℕ) : Prop where
  inRange : m.nullSegmentSize ≤ s
  size : s + text.length < 2 ^ 32
  bytes : ∀ i, pos ≤ i → i ≤ text.length → m.bytes (s + i) = text.getD i 0
  noNul : ∀ c ∈ text, c ≠ 0

theorem getD_ne_zero (h : ∀ x ∈ c, x ≠ 0) (hi : i < c.length) : c.getD i 0 ≠ 0 := by
  rw [List.getD_eq_getElem?_getD, List.getElem?_eq_getElem hi, Option.getD_some]
  exact h _ (List.getElem_mem hi)

theorem getD_length : c.getD c.length 0 = 0 := by
  rw [List.getD_eq_getElem?_getD, List.getElem?_eq_none le_rfl, Option.getD_none]

namespace HoldsFrom

variable {m : Mem}

theorem mono (h : HoldsFrom m s text pos) (hle : pos ≤ i) : HoldsFrom m s text i where
  inRange := h.inRange
  size := h.size
  bytes j hj := h.bytes j (hle.trans hj)
  noNul := h.noNul

theorem checkRange (h : HoldsFrom m s text pos) (hi : i ≤ text.length) : m.checkRange (s + i) 1 = .ok () := by
  have hsize := h.size
  have hnull := h.inRange
  exact Mem.checkRange_ok ⟨by omega, by omega⟩

theorem skipSeparators_spec (h : HoldsFrom m s text pos) (sep : List UInt8) (fuel : ℕ) (hpos : pos ≤ text.length)
    (hf : text.length < pos + fuel) :
    (skipSeparators m sep fuel (s + pos) = .ok none ∧ ∀ j, pos ≤ j → j < text.length → text.getD j 0 ∈ sep) ∨
      ∃ i, pos ≤ i ∧ i < text.length ∧ skipSeparators m sep fuel (s + pos) = .ok (some (s + i)) ∧
        (∀ j, pos ≤ j → j < i → text.getD j 0 ∈ sep) ∧ text.getD i 0 ∉ sep := by
  induction fuel generalizing pos with
  | zero => omega
  | succ fuel ih =>
    rw [skipSeparators, h.checkRange hpos, ok_bind, h.bytes pos le_rfl hpos]
    rcases Nat.eq_or_lt_of_le hpos with heq | hlt
    · left
      rw [heq, if_pos getD_length]
      exact ⟨rfl, fun j hj hj' => absurd hj (by omega)⟩
    · rw [if_neg (getD_ne_zero h.noNul hlt)]
      by_cases hin : text.getD pos 0 ∈ sep
      · rw [if_pos hin]
        have hfrom : ∀ {P : ℕ → Prop}, P pos → (∀ j, pos + 1 ≤ j → P j) → ∀ j, pos ≤ j → P j := by
          intro P hP hrest j hj
          rcases Nat.eq_or_lt_of_le hj with heq | hlt
          · exact heq ▸ hP
          · exact hrest j hlt
        rcases ih (h.mono (Nat.le_succ pos)) hlt (by omega) with ⟨hskip, hall⟩ | ⟨i, hi, hi', hskip, hall, hout⟩
        · exact .inl ⟨hskip, hfrom (fun _ => hin) hall⟩
        · exact .inr ⟨i, by omega, hi', hskip, hfrom (fun _ => hin) hall, hout⟩
      · rw [if_neg hin]
        exact .inr ⟨pos, le_rfl, hlt, rfl, fun j hj hj' => absurd hj (by omega), hin⟩

theorem endToken_spec (h : HoldsFrom m s text pos) (fuel : ℕ) (hpos : pos ≤ text.length) (hf : text.length < pos + fuel)
    (hsep : (0 : UInt8) ∉ sep) :
    ∃ n, pos + n ≤ text.length ∧ (∀ j, pos ≤ j → j < pos + n → text.getD j 0 ∉ sep) ∧
      (pos + n = text.length ∧ endToken m sep fuel (s + pos) = .ok (0, m) ∨
        pos + n < text.length ∧ text.getD (pos + n) 0 ∈ sep ∧ endToken m sep fuel (s + pos) =
          .ok (s + (pos + n) + 1, { m with bytes := store m.bytes (s + (pos + n)) [0] })) := by
  induction fuel generalizing pos with
  | zero => omega
  | succ fuel ih =>
    rw [endToken, h.checkRange hpos, ok_bind, h.bytes pos le_rfl hpos]
    by_cases hin : text.getD pos 0 ∈ sep
    · -- the token ends at a separator
      have hlt : pos < text.length := by
        apply Nat.lt_of_le_of_ne hpos
        intro heq
        rw [heq, getD_length] at hin
        exact hsep hin
      have hsize := h.size
      have hwrite : m.writeBytes (s + pos) [0] = .ok { m with bytes := store m.bytes (s + pos) [0] } := by
        rw [Mem.writeBytes, show [(0 : UInt8)].length = 1 from rfl, h.checkRange hpos, ok_bind, pure_eq_ok]
      have hnext : Mem.ptrAdd (s + pos) 1 1 = .ok (s + pos + 1) := if_pos (by omega)
      refine ⟨0, hpos, fun j hj hj' => absurd hj (by omega), .inr ⟨hlt, hin, ?_⟩⟩
      rw [if_pos hin, hwrite, ok_bind, hnext, ok_bind]
      rfl
    · rw [if_neg hin]
      rcases Nat.eq_or_lt_of_le hpos with heq | hlt
      · refine ⟨0, hpos, fun j hj hj' => absurd hj (by omega), .inl ⟨heq, ?_⟩⟩
        rw [heq, if_pos getD_length, pure_eq_ok]
      · obtain ⟨n, hn, hall, hend⟩ := ih (h.mono (Nat.le_succ pos)) hlt (by omega)
        rw [if_neg (getD_ne_zero h.noNul hlt)]
        have hcomm : pos.succ + n = pos + (n + 1) := by omega
        rw [hcomm] at hn hall hend
        refine ⟨n + 1, hn, fun j hj hj' => ?_, hend⟩
        rcases Nat.eq_or_lt_of_le hj with heq | hlt
        · exact heq ▸ hin
        · exact hall j hlt hj'

end HoldsFrom

/-- a token is ended in place, if it is not the end of the text -/
def terminate (text : List UInt8) (s : ℕ) (bytes : Bytes) (t : ℕ × ℕ) : Bytes :=
  if t.1 + t.2 < text.length then store bytes (s + (t.1 + t.2)) [0] else bytes

/-- where the next call goes on -/
def nextToken (text : List UInt8) (s : ℕ) (t : ℕ × ℕ) : ℕ := if t.1 + t.2 < text.length then s + (t.1 + t.2) + 1 else 0

/-- **A call with NULL** where a token may begin: it returns the first token from there on, or NULL. -/
theorem strtok_step {env : Env} (h : HoldsFrom env.mem s text pos) (hsep : HoldsString env.mem sepPtr sep) (hs : s ≠ 0)
    (hpos : pos ≤ text.length) (hboundary : pos = 0 ∨ text.getD (pos - 1) 0 ∈ sep) (hstate : env.strtok = some (s + pos)) :
    (∀ i n, IsToken sep text i n → ¬pos ≤ i) ∧ strtok env 0 sepPtr = .ok (0, { env with strtok := none }) ∨
      ∃ i n, IsToken sep text i n ∧ pos ≤ i ∧ (∀ j n', IsToken sep text j n' → pos ≤ j → i ≤ j) ∧
        strtok env 0 sepPtr = .ok (s + i, ⟨{ env.mem with bytes := terminate text s env.mem.bytes (i, n) },
          some (nextToken text s (i, n))⟩) := by
  have hsize := h.size
  have hnotNul : (0 : UInt8) ∉ sep := fun hmem => hsep.noNul 0 hmem rfl
  have hunfold : strtok env 0 sepPtr = (do
      match ← skipSeparators env.mem sep (2 ^ 32 - (s + pos)) (s + pos) with
      | none => pure (0, { env with strtok := none })
      | some tokenStart => do
        let (next, m) ← endToken env.mem sep (2 ^ 32 - tokenStart) tokenStart
        pure (tokenStart, ⟨m, some next⟩)) := by
    rw [strtok, if_pos rfl, unwrap_eq_ok.2 hstate, ok_bind, if_neg (by omega), hsep.cstrAt_all, ok_bind]
  rw [hunfold]
  rcases h.skipSeparators_spec sep (2 ^ 32 - (s + pos)) hpos (by omega) with
    ⟨hskip, hall⟩ | ⟨i, hi, hlt, hskip, hall, hout⟩
  · left
    rw [hskip]
    refine ⟨fun i n htoken hi => ?_, rfl⟩
    have hinside := htoken.inside
    have hne := htoken.nonempty
    exact htoken.noSeparator i le_rfl (by omega) (hall i hi (by omega))
  · right
    obtain ⟨n, hn, hrun, hend⟩ := (h.mono hi).endToken_spec (2 ^ 32 - (s + i)) hlt.le (by omega) hnotNul
    have hpositive : 0 < n := by
      by_contra hzero
      obtain rfl : n = 0 := by omega
      rcases hend with ⟨heq, -⟩ | ⟨-, hin, -⟩
      · omega
      · exact hout hin
    have hbefore : i = 0 ∨ text.getD (i - 1) 0 ∈ sep := by
      rcases Nat.eq_or_lt_of_le hi with heq | hgt
      · exact heq ▸ hboundary
      · exact .inr (hall (i - 1) (by omega) (by omega))
    have hbehind : i + n = text.length ∨ text.getD (i + n) 0 ∈ sep := by
      rcases hend with ⟨heq, -⟩ | ⟨-, hin, -⟩
      · exact .inl heq
      · exact .inr hin
    refine ⟨i, n, ⟨hpositive, hn, hrun, hbefore, hbehind⟩, hi, fun j n' htoken hj => ?_, ?_⟩
    · by_contra hji
      have hne := htoken.nonempty
      exact htoken.noSeparator j le_rfl (by omega) (hall j hj (by omega))
    · rw [hskip, ok_bind]
      rcases hend with ⟨heq, hend⟩ | ⟨hlt, -, hend⟩
      · simp only [hend, terminate, nextToken, heq, if_neg (Nat.lt_irrefl _)]
        rfl
      · simp only [hend, terminate, nextToken, if_pos hlt]
        rfl

/-! ## A row of calls -/

/-- between two calls: the next token is looked for at `pos`, or there is none behind the end of the text -/
inductive Between (sep text : List UInt8) (s pos : ℕ) (env : Env) : Prop where
  | inside (hpos : pos ≤ text.length) (hboundary : pos = 0 ∨ text.getD (pos - 1) 0 ∈ sep) (h : HoldsFrom env.mem s text pos)
      (hstate : env.strtok = some (s + pos))
  | behind (hpos : text.length < pos) (hstate : env.strtok = some 0)

theorem terminate_outside {x : ℕ} (h : t.1 + t.2 < text.length → x ≠ s + (t.1 + t.2)) :
    terminate text s bytes t x = bytes x := by
  unfold terminate
  split_ifs with hlt
  · exact store_outside (by simp only [List.length_cons, List.length_nil]; omega)
  · rfl

variable {env : Env} {done : List (ℕ × ℕ)}

/-- a call with NULL, and where the next one goes on -/
theorem Between.step (h : Between sep text s pos env) (hsep : HoldsString env.mem sepPtr sep) (hs : s ≠ 0)
    (hapart : s + text.length < sepPtr ∨ sepPtr + sep.length < s) (htokens : TokensFrom sep text pos tokens) :
    tokens = [] ∧ strtok env 0 sepPtr = .ok (0, { env with strtok := none }) ∨
      ∃ t rest env', tokens = t :: rest ∧ strtok env 0 sepPtr = .ok (s + t.1, env') ∧
        env'.mem = { env.mem with bytes := terminate text s env.mem.bytes t } ∧
        Between sep text s (t.1 + t.2 + 1) env' ∧ HoldsString env'.mem sepPtr sep := by
  cases h with
  | behind hpos hstate =>
    left
    refine ⟨htokens.eq_nil fun i n htoken hi => ?_, ?_⟩
    · have hinside := htoken.inside
      omega
    · rw [strtok, if_pos rfl, unwrap_eq_ok.2 hstate, ok_bind, if_pos rfl, pure_eq_ok]
  | inside hpos hboundary h hstate =>
    rcases strtok_step h hsep hs hpos hboundary hstate with ⟨hnone, hcall⟩ | ⟨i, n, htoken, hi, hfirst, hcall⟩
    · exact .inl ⟨htokens.eq_nil hnone, hcall⟩
    · right
      obtain ⟨rest, rfl⟩ := htokens.eq_cons htoken hi hfirst
      refine ⟨(i, n), rest, _, rfl, hcall, rfl, ?_, hsep.of_bytes rfl fun j hj => terminate_outside fun _ => by omega⟩
      by_cases hlt : i + n < text.length
      · refine .inside hlt (.inr (htoken.behind.resolve_left hlt.ne)) ⟨h.inRange, h.size, fun j hj hj' => ?_, h.noNul⟩ ?_
        · have hkept : terminate text s env.mem.bytes (i, n) (s + j) = env.mem.bytes (s + j) := terminate_outside fun _ => by
            simp only at hj ⊢
            omega
          exact hkept.trans (h.bytes j (by simp only at hj; omega) hj')
        · simp only [nextToken, if_pos hlt]
          rfl
      · refine .behind (by simp only; omega) ?_
        simp only [nextToken, if_neg hlt]

/-- the state is forgotten -/
theorem strtokCalls_none (hstate : env.strtok = none) : strtokCalls sepPtr (List.replicate (k + 1) 0) env = .error .missing := by
  rw [List.replicate_succ, strtokCalls, strtok, if_pos rfl, hstate]
  rfl

theorem nullCalls_spec (h : Between sep text s pos env) (hsep : HoldsString env.mem sepPtr sep) (hs : s ≠ 0)
    (hapart : s + text.length < sepPtr ∨ sepPtr + sep.length < s) (htokens : TokensFrom sep text pos tokens)
    (hk : k ≤ tokens.length + 1) : ∃ env', strtokCalls sepPtr (List.replicate k 0) env =
        .ok ((tokens.map (fun t : ℕ × ℕ => s + t.1) ++ [0]).take k, env') ∧
      env'.mem = { env.mem with bytes := (tokens.take k).foldl (terminate text s) env.mem.bytes } := by
  induction tokens generalizing pos env k with
  | nil =>
    cases k with
    | zero => exact ⟨env, rfl, rfl⟩
    | succ k =>
      obtain rfl : k = 0 := by simpa using hk
      rcases h.step hsep hs hapart htokens with ⟨-, hcall⟩ | ⟨t, rest, env', heq, -⟩
      · refine ⟨{ env with strtok := none }, ?_, rfl⟩
        rw [List.replicate_succ, strtokCalls, hcall]
        rfl
      · exact absurd heq (List.cons_ne_nil t rest).symm
  | cons t rest ih =>
    cases k with
    | zero => exact ⟨env, rfl, rfl⟩
    | succ k =>
      rcases h.step hsep hs hapart htokens with ⟨heq, -⟩ | ⟨t', rest', env', heq, hcall, hmem, hbetween, hsep'⟩
      · exact absurd heq (List.cons_ne_nil t rest)
      · obtain ⟨rfl, rfl⟩ := List.cons.inj heq
        obtain ⟨env'', hcalls, hmem'⟩ := ih hbetween hsep' htokens.tail (Nat.le_of_succ_le_succ hk)
        refine ⟨env'', ?_, ?_⟩
        · simp only [List.replicate_succ, strtokCalls, hcall, ok_bind, hcalls]
          rfl
        · rw [hmem', hmem, List.take_succ_cons, List.foldl_cons]

theorem nullCalls_fails (h : Between sep text s pos env) (hsep : HoldsString env.mem sepPtr sep) (hs : s ≠ 0)
    (hapart : s + text.length < sepPtr ∨ sepPtr + sep.length < s) (htokens : TokensFrom sep text pos tokens)
    (hk : tokens.length + 1 < k) : strtokCalls sepPtr (List.replicate k 0) env = .error .missing := by
  induction tokens generalizing pos env k with
  | nil =>
    obtain ⟨k, rfl⟩ := Nat.exists_eq_add_of_le' hk
    rcases h.step hsep hs hapart htokens with ⟨-, hcall⟩ | ⟨t, rest, env', heq, -⟩
    · rw [List.length_nil, List.replicate_succ, strtokCalls, hcall, ok_bind]
      exact congrArg (· >>= _) (strtokCalls_none rfl)
    · exact absurd heq (List.cons_ne_nil t rest).symm
  | cons t rest ih =>
    obtain ⟨k, rfl⟩ := Nat.exists_eq_succ_of_ne_zero (Nat.ne_of_gt (Nat.zero_lt_of_lt hk))
    rcases h.step hsep hs hapart htokens with ⟨heq, -⟩ | ⟨t', rest', env', heq, hcall, -, hbetween, hsep'⟩
    · exact absurd heq (List.cons_ne_nil t rest)
    · obtain ⟨rfl, rfl⟩ := List.cons.inj heq
      have hcalls := ih hbetween hsep' htokens.tail (Nat.lt_of_succ_lt_succ hk)
      simp only [List.replicate_succ, strtokCalls, hcall, ok_bind, hcalls]
      rfl

/-- the first call is like one with NULL that goes on at the string -/
theorem strtokCalls_first (hs : s ≠ 0) : strtokCalls sepPtr (s :: List.replicate k 0) env =
    strtokCalls sepPtr (List.replicate (k + 1) 0) { env with strtok := some s } := by
  have hcall : strtok env s sepPtr = strtok { env with strtok := some s } 0 sepPtr := by
    simp only [strtok, if_neg hs, if_pos]
    rfl
  rw [List.replicate_succ, strtokCalls, strtokCalls, hcall]

theorem between_first (h : HoldsString env.mem s text) : Between sep text s 0 { env with strtok := some s } :=
  .inside (Nat.zero_le _) (.inl rfl) ⟨h.inRange, h.size, fun i _ => h.bytes i, h.noNul⟩ rfl

/-! ## The result -/

/-- what the first call and `k` calls with NULL are to return, and to do to memory -/
structure Tokenized (sep text : List UInt8) (s : ℕ) (tokens : List (ℕ × ℕ)) (k : ℕ) (m : Mem) (returned : List ℕ) (m' : Mem) :
    Prop where
  /-- the tokens, and NULL in every call behind the last one -/
  returned : returned = (tokens.map (fun t : ℕ × ℕ => s + t.1) ++ List.replicate (k + 1) 0).take (k + 1)
  /-- each returned token is NUL-terminated in place -/
  strings : ∀ t ∈ tokens.take (k + 1), HoldsString m' (s + t.1) ((text.drop t.1).take t.2)
  /-- only separators that end a token are overwritten -/
  overwritten : ∀ x, m'.bytes x ≠ m.bytes x →
    ∃ t ∈ tokens, t.1 + t.2 < text.length ∧ text.getD (t.1 + t.2) 0 ∈ sep ∧ x = s + (t.1 + t.2)
  nullSegmentSize : m'.nullSegmentSize = m.nullSegmentSize

/-- a byte that ends none of the tokens -/
theorem foldl_terminate_outside {x : ℕ} (h : ∀ t ∈ tokens, t.1 + t.2 < text.length → x ≠ s + (t.1 + t.2)) :
    tokens.foldl (terminate text s) bytes x = bytes x := by
  induction tokens generalizing bytes with
  | nil => rfl
  | cons t rest ih =>
    rw [List.foldl_cons, ih fun t' ht' => h t' (List.mem_cons_of_mem t ht')]
    exact terminate_outside (h t List.mem_cons_self)

/-- a byte that ends one of the tokens -/
theorem foldl_terminate_inside (ht : t ∈ tokens) (hlt : t.1 + t.2 < text.length) :
    tokens.foldl (terminate text s) bytes (s + (t.1 + t.2)) = 0 := by
  induction tokens using List.reverseRecOn with
  | nil => exact absurd ht List.not_mem_nil
  | append_singleton rest t' ih =>
    rw [List.foldl_append, List.foldl_cons, List.foldl_nil]
    by_cases hsame : t.1 + t.2 = t'.1 + t'.2
    · rw [terminate, hsame, if_pos (hsame ▸ hlt)]
      exact store_inside (l := [0]) (i := 0) Nat.zero_lt_one
    · rw [terminate_outside fun _ => by omega]
      apply ih
      rcases List.mem_append.1 ht with hmem | hmem
      · exact hmem
      · exact absurd (by rw [List.mem_singleton.1 hmem]) hsame

/-- the characters of a token stay -/
theorem token_stays {m : Mem} (h : HoldsString m s text) (hdone : ∀ t ∈ done, IsToken sep text t.1 t.2)
    (htoken : IsToken sep text i n) (hj : j < n) :
    done.foldl (terminate text s) m.bytes (s + i + j) = ((text.drop i).take n).getD j 0 := by
  have hinside := htoken.inside
  have hchar : ((text.drop i).take n).getD j 0 = text.getD (i + j) 0 := by
    simp only [List.getD_eq_getElem?_getD, List.getElem?_take, if_pos hj, List.getElem?_drop]
  rw [hchar, ← h.bytes (i + j) (by omega), ← Nat.add_assoc]
  apply foldl_terminate_outside
  intro t ht hlt heq
  have hsep : text.getD (t.1 + t.2) 0 ∈ sep := (hdone t ht).behind.resolve_left hlt.ne
  have hsame : t.1 + t.2 = i + j := by omega
  rw [hsame] at hsep
  exact htoken.noSeparator (i + j) (by omega) (by omega) hsep

/-- behind a token that was returned there is a NUL, which was the end of the text before or was written there -/
theorem token_ends {m : Mem} (h : HoldsString m s text) (hdone : ∀ t ∈ done, IsToken sep text t.1 t.2)
    (hmem : (i, n) ∈ done) : done.foldl (terminate text s) m.bytes (s + i + n) = 0 := by
  have hinside := (hdone _ hmem).inside
  rw [Nat.add_assoc]
  by_cases hend : i + n < text.length
  · exact foldl_terminate_inside hmem hend
  · have hlast : i + n = text.length := by
      simp only at hinside
      omega
    calc _ = m.bytes (s + (i + n)) := foldl_terminate_outside fun t' ht' hlt' => by omega
      _ = 0 := by rw [hlast, h.terminator]

/-- memory after the calls -/
theorem tokenized {m : Mem} (h : HoldsString m s text) (htokens : TokensFrom sep text 0 tokens) (hk : k ≤ tokens.length) :
    Tokenized sep text s tokens k m ((tokens.map (fun t : ℕ × ℕ => s + t.1) ++ [0]).take (k + 1))
      { m with bytes := (tokens.take (k + 1)).foldl (terminate text s) m.bytes } := by
  have htoken : ∀ t ∈ tokens, IsToken sep text t.1 t.2 := fun t ht => ((htokens.mem t.1 t.2).1 ht).1
  have hmem : ∀ t ∈ tokens.take (k + 1), t ∈ tokens := fun t => List.mem_of_mem_take
  refine ⟨?_, fun t ht => ?_, fun x hx => ?_, rfl⟩
  · rw [List.take_append, List.take_append, List.take_replicate]
    congr 1
    rcases Nat.eq_or_lt_of_le hk with heq | hlt
    · simp [heq]
    · rw [List.length_map, Nat.sub_eq_zero_of_le hlt]
      rfl
  · have hhere := htoken t (hmem t ht)
    have hinside := hhere.inside
    have hsize := h.size
    have hlength : ((text.drop t.1).take t.2).length = t.2 := by
      rw [List.length_take, List.length_drop]
      omega
    have hdone : ∀ t ∈ tokens.take (k + 1), IsToken sep text t.1 t.2 := fun t ht => htoken t (hmem t ht)
    refine ⟨Nat.le_add_right_of_le h.inRange, by rw [hlength]; omega, fun i hi => ?_, fun c hc => ?_⟩
    · rw [hlength] at hi
      rcases Nat.eq_or_lt_of_le hi with heq | hlt
      · rw [← hlength] at heq
        rw [heq, getD_length, hlength]
        exact token_ends h hdone ht
      · exact token_stays h hdone hhere hlt
    · exact h.noNul c (List.mem_of_mem_drop (List.mem_of_mem_take hc))
  · by_contra hnone
    apply hx
    apply foldl_terminate_outside
    intro t ht hlt heq
    exact hnone ⟨t, hmem t ht, hlt, (htoken t (hmem t ht)).behind.resolve_left hlt.ne, heq⟩

/-- **`strtok`** called with a string, and then with NULL so many times, does what it is to do if and only if there are not
more calls with NULL than tokens, that is, if there is none behind a call that has returned NULL. -/
theorem strtok_iff {env : Env} (htext : HoldsString env.mem s text) (hs : s ≠ 0) (hsep : HoldsString env.mem sepPtr sep)
    (hapart : s + text.length < sepPtr ∨ sepPtr + sep.length < s) (htokens : TokensFrom sep text 0 tokens) (k : ℕ) :
    (∃ returned env', strtokCalls sepPtr (s :: List.replicate k 0) env = .ok (returned, env') ∧
      Tokenized sep text s tokens k env.mem returned env'.mem) ↔ k ≤ tokens.length := by
  have hbetween : Between sep text s 0 { env with strtok := some s } := between_first htext
  rw [strtokCalls_first hs]
  constructor
  · rintro ⟨returned, env', hcalls, -⟩
    by_contra hk
    rw [nullCalls_fails hbetween hsep hs hapart htokens (by omega)] at hcalls
    exact absurd hcalls nofun
  · intro hk
    obtain ⟨env', hcalls, hmem⟩ := nullCalls_spec hbetween hsep hs hapart htokens (Nat.succ_le_succ hk)
    exact ⟨_, env', hcalls, hmem ▸ tokenized htext htokens hk⟩

/-- "a,b" at 4096, and the separator "," behind it -/
def commaText : Env := ⟨⟨store (fun _ => 0) 4096 [97, 44, 98, 0, 44], 4096⟩, none⟩

theorem commaText_holds : HoldsString commaText.mem 4096 [97, 44, 98] := by
  refine ⟨le_rfl, by decide, fun i hi => ?_, by simp⟩
  rw [show [(97 : UInt8), 44, 98].length = 3 from rfl] at hi
  interval_cases i <;> rfl

theorem comma_holds : HoldsString commaText.mem 4100 [44] := by
  refine ⟨by decide, by decide, fun i hi => ?_, by simp⟩
  rw [show [(44 : UInt8)].length = 1 from rfl] at hi
  interval_cases i <;> rfl

theorem commaText_tokens : TokensFrom [44] [97, 44, 98] 0 [(0, 1), (2, 1)] := by
  refine ⟨fun i n => ⟨fun h => ⟨?_, Nat.zero_le i⟩, fun ⟨h, _⟩ => ?_⟩, by decide⟩
  · rcases List.mem_cons.1 h with heq | h
    · obtain ⟨rfl, rfl⟩ := Prod.mk.inj heq
      exact ⟨by decide, by decide, fun j _ hj => by interval_cases j; decide, by decide, by decide⟩
    · obtain ⟨rfl, rfl⟩ := Prod.mk.inj (List.mem_singleton.1 h)
      exact ⟨by decide, by decide, fun j hj hj' => by interval_cases j; decide, by decide, by decide⟩
  · have hinside : i + n ≤ 3 := h.inside
    have hpos := h.nonempty
    have hcomma : ¬(i ≤ 1 ∧ 1 < i + n) := fun ⟨hi, hn⟩ => h.noSeparator 1 hi hn (by decide)
    have hcases : (i = 0 ∧ n = 1) ∨ i = 2 ∧ n = 1 := by omega
    rcases hcases with ⟨rfl, rfl⟩ | ⟨rfl, rfl⟩ <;> decide

theorem strtok_comma : ∃ returned env', strtokCalls 4100 [4096, 0, 0] commaText = .ok (returned, env') ∧
    Tokenized [44] [97, 44, 98] 4096 [(0, 1), (2, 1)] 2 commaText.mem returned env'.mem :=
  (strtok_iff commaText_holds (by decide) comma_holds (by decide) commaText_tokens 2).2 (by decide)

/-- one more call with NULL -/
theorem strtok_panics : strtokCalls 4100 [4096, 0, 0, 0] commaText = .error .missing :=
  (strtokCalls_first (k := 3) (by decide)).trans
    (nullCalls_fails (between_first commaText_holds) comma_holds (by decide) (by decide) commaText_tokens (by decide))

end TouchHLE.Strtok
