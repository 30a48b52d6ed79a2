/-
The bounded string functions, for narrow and for wide characters (`generic_char.rs`).

- `Trace`: memory, with a record of the characters that were read and written.
- `strlen`, `strncpy`, `strncat`, `strlcpy`: the functions.
- `HoldsChars`: a terminated string in memory. `Room`: characters that can be accessed. `Apart`: a copy that does not
  run into what it is still to read.
- `Bounded`: what the bounds promise. `bounded_iff`: they hold but for a bound of zero, where `strlcpy` computes `0 - 1`.
-/
import Mathlib.Data.List.GetD
import TouchHLE.Lib.Elements
import TouchHLE.Mem.Memory

namespace TouchHLE.GenericChar

open Machine Words Elements
open Element (size)

/-! ## Model -/

/-- a type of characters; the terminator is its default -/
class CharType (T : Type) extends Element T where
  null : T

open CharType (null)

instance : CharType UInt8 where
  size := 1
  encode c := [c]
  decode l := l.headD 0
  size_pos := Nat.one_pos
  length_encode _ := rfl
  decode_encode _ := rfl
  null := 0

/-- `wchar_t` -/
instance : CharType Int32 where
  size := 4
  encode c := leBytes c.toUInt32
  decode l := (leWord l).toInt32
  size_pos := by norm_num
  length_encode _ := rfl
  decode_encode c := by rw [leWord_leBytes, Int32.toInt32_toUInt32]
  null := 0

/-- memory, and the addresses of the characters that were read and written so far -/
structure Trace where
  mem : Mem
  reads : List ℕ
  writes : List ℕ

variable (T : Type) [CharType T]

/-- `env.mem.read(ptr + i)` -/
def readAt (ptr i : ℕ) (t : Trace) : Except Panic (T × Trace) := do
  let p ← Mem.ptrAdd ptr i (size T)
  t.mem.checkRange p (size T)
  pure (get T t.mem.bytes p, { t with reads := t.reads ++ [p] })

variable {T} in
/-- `env.mem.write(ptr + i, c)` -/
def writeAt (ptr i : ℕ) (c : T) (t : Trace) : Except Panic Trace := do
  let p ← Mem.ptrAdd ptr i (size T)
  t.mem.checkRange p (size T)
  pure { t with mem := { t.mem with bytes := fill t.mem.bytes p [c] }, writes := t.writes ++ [p] }

section

variable [DecidableEq T]

def strlenLoop (s : ℕ) : ℕ → ℕ → Trace → Except Panic (ℕ × Trace)
  | 0, _, _ => .error .pointer
  | fuel + 1, i, t => do
    let (c, t) ← readAt T s i t
    if c = null then pure (i, t) else strlenLoop s fuel (i + 1) t

/-- `strlen`, which leaves memory at the latest after so many characters -/
def strlen (s : ℕ) (t : Trace) : Except Panic (ℕ × Trace) := strlenLoop T s (2 ^ 32) 0 t

/-- the loop of `strncpy` with so many steps to go; after the terminator only terminators are written -/
def strncpyLoop (dest src : ℕ) : (steps i : ℕ) → (ended : Bool) → Trace → Except Panic Trace
  | 0, _, _, t => pure t
  | steps + 1, i, false, t => do
    let (c, t) ← readAt T src i t
    let t ← writeAt dest i c t
    strncpyLoop dest src steps (i + 1) (c = null) t
  | steps + 1, i, true, t => do
    let t ← writeAt dest i (null : T) t
    strncpyLoop dest src steps (i + 1) true t

def strncpy (dest src n : ℕ) (t : Trace) : Except Panic (ℕ × Trace) := do
  let t ← strncpyLoop T dest src n 0 false t
  pure (dest, t)

/-- the loop of `strncat` with so many steps to go, and what comes after it -/
def strncatLoop (s1end s2 : ℕ) : (steps i : ℕ) → Trace → Except Panic Trace
  | 0, i, t => writeAt s1end i (null : T) t
  | steps + 1, i, t => do
    let (c, t) ← readAt T s2 i t
    let t ← writeAt s1end i c t
    if c = null then pure t else strncatLoop s1end s2 steps (i + 1) t

def strncat (s1 s2 n : ℕ) (t : Trace) : Except Panic (ℕ × Trace) := do
  let (len, t) ← strlen T s1 t
  let s1end ← Mem.ptrAdd s1 len (size T)
  let t ← strncatLoop T s1end s2 n 0 t
  pure (s1, t)

/-- the loop of `strlcpy`, whose bound is computed anew in each round -/
def strlcpyLoop (dst src n : ℕ) : ℕ → ℕ → Trace → Except Panic (ℕ × Trace)
  | 0, _, _ => .error .pointer
  | fuel + 1, i, t => do
    let (c, t) ← readAt T src i t
    let last ← if n = 0 then throw .overflow else pure (n - 1)
    let t ← (match compare i last with
      | .lt => writeAt dst i c t
      | .eq => writeAt dst i (null : T) t
      | .gt => pure t : Except Panic Trace)
    if c = null then pure (i, t) else strlcpyLoop dst src n fuel (i + 1) t

def strlcpy (dst src n : ℕ) (t : Trace) : Except Panic (ℕ × Trace) := strlcpyLoop T dst src n (2 ^ 32) 0 t

end

/-- the addresses of so many characters, from the `i`-th on -/
def addrs (ptr i count : ℕ) : List ℕ := (List.range' i count).map fun j => ptr + j * size T

def Room (m : Mem) (ptr count : ℕ) : Prop := ∀ i < count, m.InRange (ptr + i * size T) (size T)

variable {T}

/-- a terminated string at an address -/
structure HoldsChars (m : Mem) (ptr : ℕ) (s : List T) : Prop where
  room : Room T m ptr (s.length + 1)
  chars : ∀ i ≤ s.length, get T m.bytes (ptr + i * size T) = s.getD i null
  noNull : ∀ c ∈ s, c ≠ null

/-- a copy to `dest` that does not run into what it is still to read of the string at `src`; C asks that they do not
overlap at all -/
def Apart (dest src : ℕ) (s : List T) : Prop := dest ≤ src ∨ src + (s.length + 1) * size T ≤ dest

/-- nothing is recorded yet -/
def Trace.start (m : Mem) : Trace := { mem := m, reads := [], writes := [] }

section

variable [DecidableEq T]

/-- `strncpy` writes exactly `n` characters, and reads nothing behind the terminator -/
def StrncpyBounded (m : Mem) (src : ℕ) (s : List T) (n : ℕ) : Prop :=
  ∀ dest, Room T m dest n → Apart dest src s → ∃ t, strncpy T dest src n (.start m) = .ok (dest, t) ∧
    t.writes = addrs T dest 0 n ∧ (∀ p ∈ t.reads, ∃ i ≤ s.length, p = src + i * size T) ∧
    (∀ i < n, get T t.mem.bytes (dest + i * size T) = s.getD i null) ∧
    ∀ x, x < dest ∨ dest + n * size T ≤ x → t.mem.bytes x = m.bytes x

/-- `strncat` writes at most `n` characters and a terminator, from the old terminator on -/
def StrncatBounded (m : Mem) (src : ℕ) (s : List T) (n : ℕ) : Prop :=
  ∀ (s1 : ℕ) (d : List T), HoldsChars m s1 d → Room T m (s1 + d.length * size T) (min n s.length + 1) →
    Apart (s1 + d.length * size T) src s → ∃ t, strncat T s1 src n (.start m) = .ok (s1, t) ∧
    t.writes = addrs T (s1 + d.length * size T) 0 (min n s.length + 1) ∧ HoldsChars t.mem s1 (d ++ s.take n) ∧
    ∀ x, x < s1 + d.length * size T ∨ s1 + d.length * size T + (min n s.length + 1) * size T ≤ x → t.mem.bytes x = m.bytes x

/-- `strlcpy` writes at most `n` characters, the last of them the terminator, and returns the length -/
def StrlcpyBounded (m : Mem) (src : ℕ) (s : List T) (n : ℕ) : Prop :=
  ∀ dst, Room T m dst (min n (s.length + 1)) → Apart dst src s → ∃ t, strlcpy T dst src n (.start m) = .ok (s.length, t) ∧
    t.writes = addrs T dst 0 (min n (s.length + 1)) ∧ (1 ≤ n → HoldsChars t.mem dst (s.take (n - 1))) ∧
    ∀ x, x < dst ∨ dst + min n (s.length + 1) * size T ≤ x → t.mem.bytes x = m.bytes x

/-- **The purpose**: each function writes what its bound allows and no more. -/
structure Bounded (m : Mem) (src : ℕ) (s : List T) (n : ℕ) : Prop where
  strncpy : StrncpyBounded m src s n
  strncat : StrncatBounded m src s n
  strlcpy : StrlcpyBounded m src s n

end

/-! ## Single characters -/

/-- characters that were written, from the `i`-th on -/
def Trace.written (t : Trace) (ptr i : ℕ) (cs : List T) : Trace :=
  { t with mem := { t.mem with bytes := fill t.mem.bytes (ptr + i * size T) cs }, writes :=
    t.writes ++ addrs T ptr i cs.length }

variable (T) in
/-- characters that were read, from the `i`-th on -/
def Trace.noted (t : Trace) (ptr i count : ℕ) : Trace := { t with reads := t.reads ++ addrs T ptr i count }

/-- from the `i`-th character on the string is still there -/
def Left (m : Mem) (src : ℕ) (s : List T) (i : ℕ) : Prop :=
  ∀ j, i ≤ j → j ≤ s.length → m.InRange (src + j * size T) (size T) ∧ get T m.bytes (src + j * size T) = s.getD j null

variable {m : Mem} {t : Trace} {ptr src dest i n steps fuel : ℕ} {c : T} {s cs d : List T}

theorem HoldsChars.left (h : HoldsChars m src s) : Left m src s 0 := fun j _ hj =>
    ⟨h.room j (Nat.lt_succ_of_le hj), h.chars j hj⟩

theorem written_nil (t : Trace) : t.written ptr i ([] : List T) = t := by
  simp [Trace.written, fill_nil, addrs]

theorem written_cons (t : Trace) : (t.written ptr i [c]).written ptr (i + 1) cs = t.written ptr i (c :: cs) := by
  have haddr : ptr + (i + 1) * size T = ptr + i * size T + size T := by
    rw [Nat.succ_mul]
    omega
  have hwrites : t.writes ++ addrs T ptr i 1 ++ addrs T ptr (i + 1) cs.length = t.writes ++ addrs T ptr i
      (cs.length + 1) := by
    rw [List.append_assoc]
    rfl
  rw [Trace.written, Trace.written, Trace.written, haddr, fill_cons, List.length_singleton, hwrites, List.length_cons]

theorem noted_zero (t : Trace) : t.noted T ptr i 0 = t := by
  simp [Trace.noted, addrs]

theorem noted_succ (t : Trace) (count : ℕ) : (t.noted T ptr i 1).noted T ptr (i + 1) count = t.noted T ptr i
    (count + 1) := by
  have hreads : t.reads ++ addrs T ptr i 1 ++ addrs T ptr (i + 1) count = t.reads ++ addrs T ptr i (count + 1) := by
    rw [List.append_assoc]
    rfl
  rw [Trace.noted, Trace.noted, Trace.noted, hreads]

/-- one round and then the others -/
theorem round_cons (t : Trace) (count : ℕ) :
    (((t.noted T src i 1).written dest i [c]).noted T src (i + 1) count).written dest (i + 1) cs =
      (t.noted T src i (count + 1)).written dest i (c :: cs) := by
  rw [← written_cons (t.noted T src i (count + 1)), ← noted_succ t count]
  rfl

theorem ptrAdd_ok (h : m.InRange (ptr + i * size T) (size T)) : Mem.ptrAdd ptr i (size T) = .ok (ptr + i * size T) := by
  have hpos := Element.size_pos (T := T)
  have hend := h.2
  rw [Mem.ptrAdd, if_pos (by omega)]

theorem readAt_ok (h : Left t.mem src s i) (hi : i ≤ s.length) :
    readAt T src i t = .ok (s.getD i null, t.noted T src i 1) := by
  obtain ⟨hrange, hchar⟩ := h i le_rfl hi
  rw [readAt, ptrAdd_ok hrange, ok_bind, Mem.checkRange_ok hrange, ok_bind, hchar]
  rfl

theorem writeAt_ok (h : t.mem.InRange (dest + i * size T) (size T)) : writeAt dest i c t = .ok (t.written dest i [c]) := by
  rw [writeAt, ptrAdd_ok h, ok_bind, Mem.checkRange_ok h, ok_bind]
  rfl

/-- what is written does not touch what is still to be read -/
theorem Left.written (h : Left t.mem src s i) (hapart : Apart dest src s) :
    Left ((t.noted T src i 1).written dest i [c]).mem src s (i + 1) := by
  intro j hij hj
  obtain ⟨hrange, hchar⟩ := h j (by omega) hj
  refine ⟨hrange, ?_⟩
  have hnext : (i + 1) * size T ≤ j * size T := Nat.mul_le_mul_right _ hij
  have hlast : j * size T + size T ≤ (s.length + 1) * size T := by
    rw [← Nat.succ_mul]
    exact Nat.mul_le_mul_right _ (Nat.succ_le_succ hj)
  rw [Nat.succ_mul] at hnext
  refine Eq.trans (get_fill_outside ?_) hchar
  rw [List.length_singleton, Nat.one_mul]
  rcases hapart with hbelow | habove
  · right
    omega
  · left
    omega

/-- a string ends at the first terminator -/
theorem getD_eq_null (hs : ∀ c ∈ s, c ≠ null) (hi : i ≤ s.length) : s.getD i null = (null : T) ↔ i = s.length := by
  constructor
  · intro hnull
    by_contra hne
    rw [List.getD_eq_getElem _ _ (by omega)] at hnull
    exact hs _ (List.getElem_mem (by omega)) hnull
  · intro heq
    exact List.getD_eq_default _ _ heq.ge

/-! ## Loops -/

variable [DecidableEq T]

/-- the characters of a string from the `i`-th on, and then terminators -/
def padded (s : List T) (i steps : ℕ) : List T := (List.range' i steps).map fun j => s.getD j null

theorem strncpyLoop_ok {ended : Bool} (hs : ∀ c ∈ s, c ≠ null) (hended : ended = decide (s.length < i))
    (hleft : Left t.mem src s i)
    (hroom : ∀ j, i ≤ j → j < i + steps → t.mem.InRange (dest + j * size T) (size T)) (hapart : Apart dest src s) :
    strncpyLoop T dest src steps i ended t = .ok ((t.noted T src i (min steps (s.length + 1 - i))).written dest i
    (padded s i steps)) := by
  induction steps generalizing i ended t with
  | zero =>
    rw [Nat.zero_min, noted_zero]
    exact congrArg Except.ok (written_nil t).symm
  | succ steps ih =>
    have hhere := hroom i le_rfl (by omega)
    have hrest : ∀ j, i + 1 ≤ j → j < i + 1 + steps → t.mem.InRange (dest + j * size T) (size T) := fun j h1 h2 =>
      hroom j (by omega) (by omega)
    have hpadded : padded s i (steps + 1) = s.getD i null :: padded s (i + 1) steps := rfl
    by_cases hend : s.length < i
    · rw [decide_eq_true hend] at hended
      subst hended
      have hleft' : Left (t.written dest i [(null : T)]).mem src s (i + 1) := fun j h1 h2 => by omega
      have hnone : ∀ k l, min k (s.length + 1 - i - l) = 0 := fun k l => by omega
      rw [strncpyLoop, writeAt_ok hhere, ok_bind, ih (decide_eq_true (by omega)).symm hleft' hrest, hpadded,
        List.getD_eq_default _ _ hend.le, show s.length + 1 - (i + 1) = s.length + 1 - i - 1 by omega, hnone,
          show s.length + 1 - i = s.length + 1 - i - 0 by omega,
        hnone, noted_zero, noted_zero, written_cons]
    · rw [decide_eq_false hend] at hended
      subst hended
      have hle : i ≤ s.length := Nat.le_of_not_lt hend
      have hnext : (decide (s.getD i null = (null : T))) = decide (s.length < i + 1) := by
        rw [decide_eq_decide, getD_eq_null hs hle]
        omega
      have hwrite : writeAt dest i (s.getD i null) (t.noted T src i 1) = .ok
          ((t.noted T src i 1).written dest i [s.getD i null]) :=
        writeAt_ok hhere
      rw [strncpyLoop, readAt_ok hleft hle, ok_bind]
      change (writeAt dest i (s.getD i null) (t.noted T src i 1) >>= fun t =>
        strncpyLoop T dest src steps (i + 1) (decide (s.getD i null = null)) t) = _
      rw [hwrite, ok_bind, ih hnext (hleft.written hapart) hrest, hpadded, round_cons,
        show min (steps + 1) (s.length + 1 - i) = min steps (s.length + 1 - (i + 1)) + 1 by omega]

theorem strlenLoop_ok (hs : ∀ c ∈ s, c ≠ null) (hleft : Left t.mem src s i) (hi : i ≤ s.length)
    (hfuel : s.length - i < fuel) :
    strlenLoop T src fuel i t = .ok (s.length, t.noted T src i (s.length + 1 - i)) := by
  induction fuel generalizing i t with
  | zero => omega
  | succ fuel ih =>
    rw [strlenLoop, readAt_ok hleft hi, ok_bind]
    change (if s.getD i null = null then pure (i, t.noted T src i 1) else strlenLoop T src fuel (i + 1)
      (t.noted T src i 1)) = _
    by_cases hend : i = s.length
    · rw [if_pos ((getD_eq_null hs hi).2 hend), hend, Nat.add_sub_cancel_left]
      rfl
    · have hleft' : Left (t.noted T src i 1).mem src s (i + 1) := fun j h1 h2 => hleft j (by omega) h2
      rw [if_neg (mt (getD_eq_null hs hi).1 hend), ih hleft' (by omega) (by omega), noted_succ,
        show s.length + 1 - (i + 1) + 1 = s.length + 1 - i by omega]

theorem strncatLoop_ok (hs : ∀ c ∈ s, c ≠ null) (hleft : Left t.mem src s i) (hi : i ≤ s.length)
    (hroom : ∀ j, i ≤ j → j < i + (min steps (s.length - i) + 1) → t.mem.InRange (dest + j * size T) (size T))
    (hapart : Apart dest src s) :
    strncatLoop T dest src steps i t =
      .ok ((t.noted T src i (min steps (s.length + 1 - i))).written dest i ((s.drop i).take steps ++ [null])) := by
  induction steps generalizing i t with
  | zero =>
    rw [strncatLoop, writeAt_ok (hroom i le_rfl (by omega)), Nat.zero_min, noted_zero, List.take_zero, List.nil_append]
  | succ steps ih =>
    have hwrite : writeAt dest i (s.getD i null) (t.noted T src i 1) = .ok
        ((t.noted T src i 1).written dest i [s.getD i null]) :=
      writeAt_ok (hroom i le_rfl (by omega))
    rw [strncatLoop, readAt_ok hleft hi, ok_bind]
    change (writeAt dest i (s.getD i null) (t.noted T src i 1) >>= fun t =>
      if s.getD i null = null then pure t else strncatLoop T dest src steps (i + 1) t) = _
    rw [hwrite, ok_bind]
    by_cases hend : i = s.length
    · rw [if_pos ((getD_eq_null hs hi).2 hend), List.drop_eq_nil_of_le hend.ge, List.take_nil, List.nil_append,
        List.getD_eq_default _ _ hend.ge, show min (steps + 1) (s.length + 1 - i) = 1 by omega]
      rfl
    · have hlt : i < s.length := by omega
      have hdrop : s.drop i = s.getD i null :: s.drop (i + 1) := by
        rw [List.drop_eq_getElem_cons hlt, List.getD_eq_getElem _ _ hlt]
      rw [if_neg (mt (getD_eq_null hs hi).1 hend), ih (hleft.written hapart) hlt fun j h1 h2 => hroom j (by omega)
        (by omega),
        hdrop, List.take_succ_cons, List.cons_append, round_cons,
        show min (steps + 1) (s.length + 1 - i) = min steps (s.length + 1 - (i + 1)) + 1 by omega]

/-- what is written when there is room for so many characters -/
def truncated (s : List T) (room : ℕ) : List T := if room = 0 then [] else s.take (room - 1) ++ [null]

theorem strlcpyLoop_ok (hn : n ≠ 0) (hs : ∀ c ∈ s, c ≠ null) (hleft : Left t.mem src s i) (hi : i ≤ s.length)
    (hroom : ∀ j, i ≤ j → j < i + min (n - i) (s.length + 1 - i) → t.mem.InRange (dest + j * size T) (size T))
    (hapart : Apart dest src s) (hfuel : s.length - i < fuel) :
    strlcpyLoop T dest src n fuel i t =
      .ok (s.length, (t.noted T src i (s.length + 1 - i)).written dest i (truncated (s.drop i) (n - i))) := by
  induction fuel generalizing i t with
  | zero => omega
  | succ fuel ih =>
    -- what one round writes, and what is left to be written
    have hround : ∃ cs : List T, (match compare i (n - 1) with
        | .lt => writeAt dest i (s.getD i null) (t.noted T src i 1)
        | .eq => writeAt dest i (null : T) (t.noted T src i 1)
        | .gt => .ok (t.noted T src i 1)) = .ok ((t.noted T src i 1).written dest i cs) ∧ cs.length ≤ 1 ∧
        (i = s.length → truncated (s.drop i) (n - i) = cs) ∧
        (i < s.length → ∀ t : Trace, t.written dest i (truncated (s.drop i) (n - i)) =
          (t.written dest i cs).written dest (i + 1) (truncated (s.drop (i + 1)) (n - (i + 1)))) := by
      rcases lt_trichotomy i (n - 1) with hlt | heq | hgt
      · refine ⟨[s.getD i null], ?_, le_rfl, fun hend => ?_, fun hlong t => ?_⟩
        · rw [Nat.compare_eq_lt.2 hlt]
          exact writeAt_ok (hroom i le_rfl (by omega))
        · rw [truncated, if_neg (by omega), List.drop_eq_nil_of_le hend.ge, List.take_nil, List.nil_append,
          List.getD_eq_default _ _ hend.ge]
        · rw [written_cons, truncated, truncated, if_neg (by omega), if_neg (by omega), List.drop_eq_getElem_cons hlong,
            List.getD_eq_getElem _ _ hlong, show n - i - 1 = n - (i + 1) - 1 + 1 by omega, List.take_succ_cons,
              List.cons_append]
      · refine ⟨[null], ?_, le_rfl, fun hend => ?_, fun hlong t => ?_⟩
        · rw [Nat.compare_eq_eq.2 heq]
          exact writeAt_ok (hroom i le_rfl (by omega))
        · rw [truncated, if_neg (by omega), List.drop_eq_nil_of_le hend.ge, List.take_nil, List.nil_append]
        · rw [written_cons, truncated, truncated, if_neg (by omega), if_pos (by omega), show n - i - 1 = 0 by omega,
            List.take_zero, List.nil_append]
      · refine ⟨[], ?_, Nat.zero_le _, fun hend => ?_, fun hlong t => ?_⟩
        · rw [Nat.compare_eq_gt.2 hgt, written_nil]
        · rw [truncated, if_pos (by omega)]
        · rw [written_nil, truncated, truncated, if_pos (by omega), if_pos (by omega), written_nil, written_nil]
    obtain ⟨cs, hwrite, hlength, hlast, hnext⟩ := hround
    rw [strlcpyLoop, readAt_ok hleft hi, ok_bind]
    simp only [if_neg hn, pure_eq_ok, ok_bind]
    change (_ >>= fun t => if s.getD i null = null then pure (i, t) else strlcpyLoop T dest src n fuel (i + 1) t) = _
    rw [hwrite, ok_bind]
    by_cases hend : i = s.length
    · rw [if_pos ((getD_eq_null hs hi).2 hend), hlast hend, hend, Nat.add_sub_cancel_left]
      rfl
    · have hlt : i < s.length := by omega
      have hleft' : Left ((t.noted T src i 1).written dest i cs).mem src s (i + 1) := by
        cases cs with
        | nil =>
          rw [written_nil]
          exact fun j h1 h2 => hleft j (by omega) h2
        | cons c cs =>
          obtain rfl : cs = [] := List.length_eq_zero_iff.1 (by rw [List.length_cons] at hlength; omega)
          exact hleft.written hapart
      rw [if_neg (mt (getD_eq_null hs hi).1 hend), ih hleft' hlt (fun j h1 h2 => hroom j (by omega) (by omega)) (by omega),
        hnext hlt, show s.length + 1 - i = s.length + 1 - (i + 1) + 1 by omega, ← noted_succ t (s.length + 1 - (i + 1))]
      rfl

/-! ## Bounds -/

omit [DecidableEq T] in
/-- a string that was written with its terminator, behind characters that were there already -/
theorem holdsChars_append {m' : Mem} (hroom : Room T m ptr (d.length + (cs.length + 1)))
    (hchars : ∀ i < d.length, get T m.bytes (ptr + i * size T) = d.getD i null) (hs : ∀ c ∈ d ++ cs, c ≠ null)
    (hnull : m'.nullSegmentSize = m.nullSegmentSize) (hbytes : m'.bytes = fill m.bytes (ptr + d.length * size T)
    (cs ++ [null])) :
    HoldsChars m' ptr (d ++ cs) where
  room i hi := by
    rw [List.length_append] at hi
    exact ⟨hnull ▸ (hroom i (by omega)).1, (hroom i (by omega)).2⟩
  chars i hi := by
    rw [hbytes]
    by_cases hd : i < d.length
    · have hbelow : ptr + i * size T + size T ≤ ptr + d.length * size T := by
        rw [Nat.add_assoc, ← Nat.succ_mul]
        exact Nat.add_le_add_left (Nat.mul_le_mul_right _ hd) _
      rw [get_fill_outside (.inl hbelow), hchars i hd, List.getD_append _ _ _ _ hd]
    · rw [List.length_append] at hi
      have haddr : ptr + i * size T = ptr + d.length * size T + (i - d.length) * size T := by
        rw [Nat.add_assoc, ← Nat.add_mul, Nat.add_sub_cancel' (Nat.le_of_not_lt hd)]
      have hlt : i - d.length < (cs ++ [(null : T)]).length := by
        rw [List.length_append, List.length_singleton]
        omega
      rw [haddr, get_fill hlt, List.getD_append_right _ _ _ _ (Nat.le_of_not_lt hd)]
      by_cases hc : i - d.length < cs.length
      · rw [List.getElem_append_left hc, List.getD_eq_getElem _ _ hc]
      · rw [List.getElem_append_right (Nat.le_of_not_lt hc), List.getElem_singleton,
          List.getD_eq_default _ _ (Nat.le_of_not_lt hc)]
  noNull := hs

omit [DecidableEq T] in
theorem length_padded : (padded s i n).length = n := by
  rw [padded, List.length_map, List.length_range']

theorem strncpy_ok (h : HoldsChars m src s) (hroom : Room T m dest n) (hapart : Apart dest src s) :
    strncpy T dest src n (.start m) =
      .ok (dest, ((Trace.start m).noted T src 0 (min n (s.length + 1))).written dest 0 (padded s 0 n)) := by
  have hended : false = decide (s.length < 0) := (decide_eq_false (Nat.not_lt_zero s.length)).symm
  have hroom' : ∀ j, 0 ≤ j → j < 0 + n → (Trace.start m).mem.InRange (dest + j * size T) (size T) := fun j _ hj =>
    hroom j (by omega)
  rw [strncpy, strncpyLoop_ok h.noNull hended h.left hroom' hapart]
  rfl

theorem strncat_ok (h : HoldsChars m src s) (hd : HoldsChars m dest d)
    (hroom : Room T m (dest + d.length * size T) (min n s.length + 1)) (hapart : Apart (dest + d.length * size T) src s) :
    strncat T dest src n (.start m) = .ok (dest, (((Trace.start m).noted T dest 0 (d.length + 1)).noted T src 0
      (min n (s.length + 1))).written (dest + d.length * size T) 0 (s.take n ++ [null])) := by
  have hpos := Element.size_pos (T := T)
  have hlength : d.length < 2 ^ 32 := by
    have hend := (hd.room d.length (Nat.lt_succ_self _)).2
    have hmul := Nat.le_mul_of_pos_right d.length hpos
    omega
  have hroom' : ∀ j, 0 ≤ j → j < 0 + (min n (s.length - 0) + 1) →
      ((Trace.start m).noted T dest 0 (d.length + 1)).mem.InRange (dest + d.length * size T + j * size T) (size T) :=
    fun j _ hj => hroom j (by omega)
  rw [strncat, strlen, strlenLoop_ok hd.noNull (t := .start m) hd.left (Nat.zero_le _) (by omega), ok_bind]
  change (Mem.ptrAdd dest d.length (size T) >>= fun s1end => _) = _
  rw [ptrAdd_ok (hd.room d.length (Nat.lt_succ_self _)), ok_bind]
  change (strncatLoop T (dest + d.length * size T) src n 0 ((Trace.start m).noted T dest 0 (d.length + 1)) >>= _) = _
  rw [strncatLoop_ok h.noNull h.left (Nat.zero_le _) hroom' hapart]
  rfl

theorem strlcpy_ok (h : HoldsChars m src s) (hn : n ≠ 0) (hroom : Room T m dest (min n (s.length + 1)))
    (hapart : Apart dest src s) :
    strlcpy T dest src n (.start m) =
      .ok (s.length, ((Trace.start m).noted T src 0 (s.length + 1)).written dest 0 (s.take (n - 1) ++ [null])) := by
  have hpos := Element.size_pos (T := T)
  have hlength : s.length < 2 ^ 32 := by
    have hend := (h.room s.length (Nat.lt_succ_self _)).2
    have hmul := Nat.le_mul_of_pos_right s.length hpos
    omega
  have hroom' : ∀ j, 0 ≤ j → j < 0 + min (n - 0) (s.length + 1 - 0) →
      (Trace.start m).mem.InRange (dest + j * size T) (size T) := fun j _ hj => hroom j (by omega)
  rw [strlcpy, strlcpyLoop_ok hn h.noNull h.left (Nat.zero_le _) hroom' hapart (by omega), List.drop_zero, Nat.sub_zero,
    Nat.sub_zero, truncated, if_neg hn]

/-- with room for nothing the bound of `strlcpy` is `0 - 1` -/
theorem strlcpy_zero (h : HoldsChars m src s) : strlcpy T dest src 0 (.start m) = .error .overflow := by
  have hread := readAt_ok (t := .start m) h.left (Nat.zero_le _)
  have hround : ∀ fuel, strlcpyLoop T dest src 0 (fuel + 1) 0 (.start m) = .error .overflow := by
    intro fuel
    rw [strlcpyLoop, hread]
    rfl
  exact hround (2 ^ 32 - 1)

omit [DecidableEq T] in
theorem written_bytes (t : Trace) : (t.written dest 0 cs).mem.bytes = fill t.mem.bytes dest cs := by
  rw [Trace.written, Nat.zero_mul, Nat.add_zero]

theorem strncpyBounded (h : HoldsChars m src s) (n : ℕ) : StrncpyBounded m src s n := by
  intro dest hroom hapart
  refine ⟨_, strncpy_ok h hroom hapart, ?_, ?_, ?_, ?_⟩
  · exact congrArg (addrs T dest 0) length_padded
  · intro p hp
    obtain ⟨j, hj, rfl⟩ := List.mem_map.1 hp
    rw [List.mem_range'_1] at hj
    exact ⟨j, by omega, rfl⟩
  · intro i hi
    rw [written_bytes, get_fill (by rwa [length_padded])]
    simp [padded]
  · intro x hx
    rw [written_bytes]
    exact fill_outside (by rwa [length_padded])

theorem strncatBounded (h : HoldsChars m src s) (n : ℕ) : StrncatBounded m src s n := by
  intro s1 d hd hroom hapart
  have hlength : (s.take n).length = min n s.length := List.length_take
  have hlength' : (s.take n ++ [(null : T)]).length = min n s.length + 1 := by
    rw [List.length_append, hlength, List.length_singleton]
  have hall : Room T m s1 (d.length + ((s.take n).length + 1)) := by
    intro i hi
    by_cases hfirst : i < d.length
    · exact hd.room i (by omega)
    · have hlast := hroom (i - d.length) (by omega)
      rwa [Nat.add_assoc, ← Nat.add_mul, Nat.add_sub_cancel' (Nat.le_of_not_lt hfirst)] at hlast
  have hnoNull : ∀ c ∈ d ++ s.take n, c ≠ null := by
    intro c hc
    rcases List.mem_append.1 hc with hc | hc
    · exact hd.noNull c hc
    · exact h.noNull c (List.mem_of_mem_take hc)
  refine ⟨_, strncat_ok h hd hroom hapart, ?_, ?_, ?_⟩
  · exact congrArg (addrs T (s1 + d.length * size T) 0) hlength'
  · exact holdsChars_append hall (fun i hi => hd.chars i hi.le) hnoNull rfl (written_bytes _)
  · intro x hx
    rw [written_bytes]
    exact fill_outside (by rwa [hlength'])

theorem strlcpyBounded (h : HoldsChars m src s) (hn : n ≠ 0) : StrlcpyBounded m src s n := by
  intro dst hroom hapart
  have hlength : (s.take (n - 1)).length + 1 = min n (s.length + 1) := by
    rw [List.length_take]
    omega
  have hlength' : (s.take (n - 1) ++ [(null : T)]).length = min n (s.length + 1) := by
    rw [List.length_append, List.length_singleton, hlength]
  refine ⟨_, strlcpy_ok h hn hroom hapart, ?_, fun _ => ?_, ?_⟩
  · exact congrArg (addrs T dst 0) hlength'
  · have hroom' : Room T m dst (([] : List T).length + ((s.take (n - 1)).length + 1)) := by
      rwa [List.length_nil, Nat.zero_add, hlength]
    refine holdsChars_append hroom' (fun i hi => absurd hi (Nat.not_lt_zero i))
      (fun c hc => h.noNull c (List.mem_of_mem_take hc)) rfl ?_
    rw [written_bytes, List.length_nil, Nat.zero_mul, Nat.add_zero]
    rfl
  · intro x hx
    rw [written_bytes]
    exact fill_outside (by rwa [hlength'])

/-- **The bounds** of the three functions hold for every bound but zero, with which `strlcpy` fails whatever it is to
copy. -/
theorem bounded_iff (h : HoldsChars m src s) : Bounded m src s n ↔ n ≠ 0 := by
  constructor
  · intro hbounded hn
    subst hn
    obtain ⟨t, hcopy, -⟩ := hbounded.strlcpy src (fun i hi => by omega) (.inl le_rfl)
    rw [strlcpy_zero h] at hcopy
    cases hcopy
  · intro hn
    exact ⟨strncpyBounded h n, strncatBounded h n, strlcpyBounded h hn⟩

/-- memory with a string of one character at `0x1000` -/
def oneChar (c : T) : Mem where
  bytes := fill (fun _ => 0) 0x1000 [c, null]
  nullSegmentSize := 0x1000

omit [DecidableEq T] in
theorem oneChar_holds (hsize : size T ≤ 4) (hc : c ≠ null) : HoldsChars (oneChar c) 0x1000 [c] where
  room i hi := by
    have hmul : i * size T ≤ 1 * size T := Nat.mul_le_mul_right _ (Nat.le_of_lt_succ hi)
    exact ⟨Nat.le_add_right _ _, by omega⟩
  chars i hi := by
    rw [List.length_singleton] at hi
    interval_cases i
    · exact get_fill (Nat.two_pos : 0 < [c, null].length)
    · exact get_fill (Nat.one_lt_two : 1 < [c, null].length)
  noNull := by
    intro d hd
    rw [List.mem_singleton.1 hd]
    exact hc

/-- an `a` that is narrow and one that is wide, with room for either -/
theorem bounded_iff_a : Bounded (oneChar (97 : UInt8)) 0x1000 ([97] : List UInt8) 2 ∧ Bounded
    (oneChar (97 : Int32)) 0x1000 ([97] : List Int32) 2 :=
  ⟨(bounded_iff (oneChar_holds (by decide) (by decide))).2 (by decide),
    (bounded_iff (oneChar_holds (by decide) (by decide))).2 (by decide)⟩

/-- and without room -/
theorem strlcpy_zero_fails : ¬Bounded (oneChar (97 : UInt8)) 0x1000 ([97] : List UInt8) 0 := by
  intro hbounded
  obtain ⟨t, hcopy, -⟩ := hbounded.strlcpy 0x2000 (fun i hi => absurd hi (Nat.not_lt_zero i)) (.inr (by decide))
  rw [strlcpy_zero (oneChar_holds (by decide) (by decide))] at hcopy
  cases hcopy

end TouchHLE.GenericChar
