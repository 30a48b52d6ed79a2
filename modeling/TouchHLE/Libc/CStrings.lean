/-
C strings in memory and the loops that walk them: `cstr_at` of `mem.rs`, and `strlen` and `strcpy` of `generic_char.rs`.

- `HoldsString.drop`: a string without its first characters. `HoldsString.unique`: memory holds one string at an address.
- `cstrAt`, `holdsString_of_cstrAt`, `strlen`: what the loops return.
- `strcpy_ok`: a copy to a place that does not overlap the string. `strcpy_fails`: one to a place inside the string.
-/
import TouchHLE.Libc.Source

namespace TouchHLE

open Machine Words

namespace Mem

/-- the loop of `strlen`, with so many bytes to the end of memory -/
def strlenLoop (m : Mem) (s : ℕ) : ℕ → ℕ → Except Panic ℕ
  | 0, _ => .error .pointer
  | n + 1, i => do
    m.checkRange (s + i) 1
    if m.bytes (s + i) = 0 then pure i else strlenLoop m s n (i + 1)

def strlen (m : Mem) (s : ℕ) : Except Panic ℕ := m.strlenLoop s (2 ^ 32 - s) 0

/-- the loop of `strcpy`, with room for so many characters -/
def strcpyLoop : (bufsz dest src : ℕ) → Mem → Except Panic Mem
  | 0, _, _, _ => .error .bufferOverrun
  | bufsz + 1, dest, src, m => do
    m.checkRange src 1
    let c := m.bytes src
    let m ← m.writeBytes dest [c]
    if c = 0 then pure m
    else do
      let dest ← ptrAdd dest 1 1
      let src ← ptrAdd src 1 1
      strcpyLoop bufsz dest src m

end Mem

namespace HoldsString

variable {m m' : Mem} {ptr : ℕ} {c : UInt8} {s : List UInt8}

theorem byte (h : HoldsString m ptr s) {i : ℕ} (hi : i < s.length) : m.bytes (ptr + i) = s[i] := by
  rw [h.bytes i hi.le, List.getD_eq_getElem?_getD, List.getElem?_eq_getElem hi, Option.getD_some]

theorem terminator (h : HoldsString m ptr s) : m.bytes (ptr + s.length) = 0 := by
  rw [h.bytes _ le_rfl, List.getD_eq_getElem?_getD, List.getElem?_eq_none le_rfl, Option.getD_none]

theorem checkRange (h : HoldsString m ptr s) {i : ℕ} (hi : i ≤ s.length) : m.checkRange (ptr + i) 1 = .ok () := by
  have hsize := h.size
  have hnull := h.inRange
  exact Mem.checkRange_ok ⟨by omega, by omega⟩

/-- the string is the one that its bytes say -/
theorem of_bytes (h : HoldsString m ptr s) (hnull : m'.nullSegmentSize = m.nullSegmentSize)
    (hbytes : ∀ i ≤ s.length, m'.bytes (ptr + i) = m.bytes (ptr + i)) : HoldsString m' ptr s where
  inRange := hnull ▸ h.inRange
  size := h.size
  bytes i hi := (hbytes i hi).trans (h.bytes i hi)
  noNul := h.noNul

/-- a string without its first characters -/
theorem drop (h : HoldsString m ptr s) {n : ℕ} (hn : n ≤ s.length) : HoldsString m (ptr + n) (s.drop n) where
  inRange := Nat.le_add_right_of_le h.inRange
  size := by
    have hsize := h.size
    rw [List.length_drop]
    omega
  bytes i hi := by
    rw [List.length_drop] at hi
    rw [Nat.add_assoc, h.bytes (n + i) (by omega), List.getD_eq_getElem?_getD, List.getD_eq_getElem?_getD, List.getElem?_drop]
  noNul c hc := h.noNul c (List.mem_of_mem_drop hc)

theorem cstrAt (h : HoldsString m ptr s) {n : ℕ} (hn : s.length < n) : m.cstrAt n ptr = .ok s := by
  induction s generalizing ptr n with
  | nil =>
    obtain ⟨n, rfl⟩ := Nat.exists_eq_succ_of_ne_zero (Nat.ne_of_gt hn)
    have hcheck := h.checkRange (Nat.zero_le _)
    have hzero := h.terminator
    rw [Nat.add_zero] at hcheck
    rw [List.length_nil, Nat.add_zero] at hzero
    rw [Mem.cstrAt, hcheck, ok_bind, if_pos hzero, pure_eq_ok]
  | cons c s ih =>
    obtain ⟨n, rfl⟩ := Nat.exists_eq_succ_of_ne_zero (Nat.ne_of_gt (Nat.zero_lt_of_lt hn))
    have hcheck := h.checkRange (Nat.zero_le _)
    have hbyte := h.byte (Nat.zero_lt_succ s.length)
    rw [Nat.add_zero] at hcheck hbyte
    have hrest := ih (h.drop (n := 1) (Nat.le_add_left 1 s.length)) (n := n) (by rw [List.length_cons] at hn; omega)
    have hne : m.bytes ptr ≠ 0 := by
      rw [hbyte]
      exact h.noNul c List.mem_cons_self
    rw [Mem.cstrAt, hcheck, ok_bind, if_neg hne, hrest, ok_bind, hbyte]
    rfl

/-- `cstr_at` with all of memory -/
theorem cstrAt_all (h : HoldsString m ptr s) : m.cstrAt (2 ^ 32 - ptr) ptr = .ok s := by
  have hsize := h.size
  exact h.cstrAt (by omega)

theorem strlenLoop (h : HoldsString m ptr s) {n i : ℕ} (hi : i ≤ s.length) (hn : s.length < i + n) :
    m.strlenLoop ptr n i = .ok s.length := by
  induction n generalizing i with
  | zero => omega
  | succ n ih =>
    rw [Mem.strlenLoop, h.checkRange hi, ok_bind]
    rcases Nat.eq_or_lt_of_le hi with heq | hlt
    · rw [heq, if_pos h.terminator, pure_eq_ok]
    · have hne : m.bytes (ptr + i) ≠ 0 := by
        rw [h.byte hlt]
        exact h.noNul _ (List.getElem_mem hlt)
      rw [if_neg hne]
      exact ih hlt (by omega)

theorem strlen (h : HoldsString m ptr s) : m.strlen ptr = .ok s.length := by
  have hsize := h.size
  exact h.strlenLoop (Nat.zero_le _) (by omega)

/-- memory holds one string at an address -/
theorem unique {s' : List UInt8} (h : HoldsString m ptr s) (h' : HoldsString m ptr s') : s = s' := by
  have hcstr := h.cstrAt_all
  rw [h'.cstrAt_all] at hcstr
  exact (Except.ok.inj hcstr).symm

end HoldsString

/-- what `cstr_at` returns is there -/
theorem holdsString_of_cstrAt {m : Mem} {n ptr : ℕ} {s : List UInt8} (hn : ptr + n = 2 ^ 32) (h : m.cstrAt n ptr = .ok s) :
    HoldsString m ptr s := by
  induction n generalizing ptr s with
  | zero => exact absurd h nofun
  | succ n ih =>
    obtain ⟨u, hcheck, h⟩ := bind_eq_ok.1 h
    have hrange := Mem.inRange_of_checkRange hcheck
    split_ifs at h with hzero
    · cases h
      refine ⟨hrange.1, by rw [List.length_nil]; omega, fun i hi => ?_, fun c hc => absurd hc List.not_mem_nil⟩
      obtain rfl := Nat.le_zero.1 hi
      exact hzero
    · obtain ⟨rest, hrest, h⟩ := bind_eq_ok.1 h
      cases h
      have htail := ih (by omega) hrest
      have hsize := htail.size
      refine ⟨hrange.1, by rw [List.length_cons]; omega, fun i hi => ?_, fun c hc => ?_⟩
      · cases i with
        | zero => rfl
        | succ i =>
          rw [List.getD_cons_succ, ← htail.bytes i (Nat.le_of_succ_le_succ hi), Nat.add_assoc, Nat.add_comm 1 i]
      · rcases List.mem_cons.1 hc with rfl | hc
        · exact hzero
        · exact htail.noNul c hc

/-- a string that is written -/
theorem holdsString_store {m : Mem} {p : ℕ} {s : List UInt8} (hrange : m.InRange p (s.length + 1)) (hnul : ∀ c ∈ s, c ≠ 0) :
    HoldsString { m with bytes := store m.bytes p (s ++ [0]) } p s := by
  have hhigh := hrange.2
  refine ⟨hrange.1, by omega, fun i hi => ?_, hnul⟩
  have hlt : i < (s ++ [0]).length := by
    rw [List.length_append, List.length_singleton]
    omega
  show store m.bytes p (s ++ [0]) (p + i) = _
  rw [store_inside hlt, List.getD_eq_getElem?_getD]
  rcases Nat.lt_or_eq_of_le hi with hlt' | rfl
  · rw [List.getElem_append_left hlt', List.getElem?_eq_getElem hlt', Option.getD_some]
  · rw [List.getElem_concat_length rfl, List.getElem?_eq_none le_rfl, Option.getD_none]

namespace Mem

variable {m : Mem} {dest src bufsz : ℕ} {s : List UInt8}

theorem writeBytes_singleton (c : UInt8) (h : m.InRange dest 1) :
    m.writeBytes dest [c] = .ok { m with bytes := store m.bytes dest [c] } := by
  rw [writeBytes, show [c].length = 1 from rfl, checkRange_ok h, ok_bind, pure_eq_ok]

theorem strcpyLoop_end (hsrc : m.InRange src 1) (hdest : m.InRange dest 1) (hc : m.bytes src = 0) :
    strcpyLoop (bufsz + 1) dest src m = .ok { m with bytes := store m.bytes dest [0] } := by
  rw [strcpyLoop, checkRange_ok hsrc, ok_bind]
  simp only
  rw [writeBytes_singleton _ hdest, ok_bind, if_pos hc, pure_eq_ok, hc]

theorem strcpyLoop_next (hsrc : m.InRange src 1) (hdest : m.InRange dest 1) (hc : m.bytes src ≠ 0) (hsrc' : src + 1 < 2 ^ 32)
    (hdest' : dest + 1 < 2 ^ 32) : strcpyLoop (bufsz + 1) dest src m =
      strcpyLoop bufsz (dest + 1) (src + 1) { m with bytes := store m.bytes dest [m.bytes src] } := by
  rw [strcpyLoop, checkRange_ok hsrc, ok_bind]
  simp only
  rw [writeBytes_singleton _ hdest, ok_bind, if_neg hc, ptrAdd, if_pos (by omega), ok_bind, ptrAdd, if_pos (by omega), ok_bind]

/-- **A copy** of a string to a place that does not overlap it; an empty string can be copied anywhere. -/
theorem strcpy_ok (h : HoldsString m src s) (hdest : m.InRange dest (s.length + 1)) (hbufsz : s.length < bufsz)
    (hapart : s = [] ∨ src + s.length < dest ∨ dest + s.length < src) :
    strcpyLoop bufsz dest src m = .ok { m with bytes := store m.bytes dest (s ++ [0]) } := by
  obtain ⟨bufsz, rfl⟩ := Nat.exists_eq_succ_of_ne_zero (Nat.ne_of_gt (Nat.zero_lt_of_lt hbufsz))
  have hlow := hdest.1
  have hhigh := hdest.2
  have hsize := h.size
  have hnull := h.inRange
  have hsrc : m.InRange src 1 := ⟨hnull, by omega⟩
  have hdest₁ : m.InRange dest 1 := ⟨hlow, by omega⟩
  induction s generalizing m dest src bufsz with
  | nil =>
    have hzero := h.terminator
    rw [List.length_nil, Nat.add_zero] at hzero
    rw [strcpyLoop_end hsrc hdest₁ hzero, List.nil_append]
  | cons c s ih =>
    have hbyte := h.byte (Nat.zero_lt_succ s.length)
    rw [Nat.add_zero, List.getElem_cons_zero] at hbyte
    have hne : m.bytes src ≠ 0 := by
      rw [hbyte]
      exact h.noNul c List.mem_cons_self
    rw [List.length_cons] at hsize hhigh hbufsz hapart
    have hapart' : src + (s.length + 1) < dest ∨ dest + (s.length + 1) < src := hapart.resolve_left (List.cons_ne_nil c s)
    rw [strcpyLoop_next hsrc hdest₁ hne (by omega) (by omega), hbyte]
    -- the rest of the string is not written to
    have htail : HoldsString { m with bytes := store m.bytes dest [c] } (src + 1) s := by
      refine (h.drop (Nat.le_add_left 1 s.length)).of_bytes rfl fun i hi => store_outside ?_
      rw [List.length_singleton]
      simp only [List.drop_one, List.tail_cons] at hi
      omega
    obtain ⟨bufsz, rfl⟩ := Nat.exists_eq_succ_of_ne_zero (Nat.ne_of_gt (Nat.zero_lt_of_lt (Nat.lt_of_succ_lt_succ hbufsz)))
    rw [ih htail ⟨Nat.le_succ_of_le hlow, by omega⟩ (.inr (by omega)) bufsz (by omega) (Nat.le_succ_of_le hlow)
      (by omega) (by omega) (Nat.le_succ_of_le hnull) ⟨Nat.le_succ_of_le hnull, by omega⟩
      ⟨Nat.le_succ_of_le hlow, by omega⟩]
    have happend : store (store m.bytes dest [c]) (dest + 1) (s ++ [0]) = store m.bytes dest (c :: s ++ [0]) :=
      store_append (l := [c]) (s ++ [0])
    rw [← happend]

/-- a copy of a string to a place inside it does not end: it overwrites the NUL before it comes to it -/
theorem strcpy_fails (hlt : src < dest) (hne : ∀ x, src ≤ x → x < dest → m.bytes x ≠ 0) :
    ∃ e, strcpyLoop bufsz dest src m = .error e := by
  induction bufsz generalizing m dest src with
  | zero => exact ⟨_, rfl⟩
  | succ bufsz ih =>
    cases hloop : strcpyLoop (bufsz + 1) dest src m with
    | error e => exact ⟨e, rfl⟩
    | ok m' =>
      have hc := hne src le_rfl hlt
      have hfirst := hloop
      unfold strcpyLoop at hfirst
      obtain ⟨u, hcheck, hfirst⟩ := bind_eq_ok.1 hfirst
      obtain ⟨m₁, hwrite, hfirst⟩ := bind_eq_ok.1 hfirst
      rw [if_neg hc] at hfirst
      obtain ⟨dest', hdest', hfirst⟩ := bind_eq_ok.1 hfirst
      obtain ⟨src', hsrc', hfirst⟩ := bind_eq_ok.1 hfirst
      unfold ptrAdd at hdest' hsrc'
      split_ifs at hdest' hsrc' with hd hs
      cases hdest'
      cases hsrc'
      obtain ⟨-, rfl⟩ := writeBytes_cases hwrite
      have hnext : ∀ x, src + 1 ≤ x → x < dest + 1 → store m.bytes dest [m.bytes src] x ≠ 0 := by
        intro x hx hx'
        rcases Nat.lt_or_eq_of_le (Nat.le_of_lt_succ hx') with hlt' | rfl
        · rw [store_outside (.inl hlt')]
          exact hne x (by omega) hlt'
        · have hwritten : store m.bytes x [m.bytes src] (x + 0) = m.bytes src :=
            store_inside (l := [m.bytes src]) (i := 0) Nat.zero_lt_one
          rw [Nat.add_zero] at hwritten
          rw [hwritten]
          exact hc
      obtain ⟨e, he⟩ := ih (m := { m with bytes := store m.bytes dest [m.bytes src] }) (by omega) hnext
      simp only [Nat.one_mul] at hfirst
      exact absurd (hfirst.symm.trans he) nofun

end Mem

end TouchHLE
