/-
`fgets` (`libc/stdio.rs`) with any stream over a file and any buffer: it reads one byte more than it should.

- `available`: what a stream has left. `fread_one`: a `fread` of one byte.
- `fgetsLoop_ends`, `fgets_ends`: what the code does, whatever the stream and the size.
- `FgetsCorrect`, `fgets_iff`: it is right where the line, with its newline, is shorter than the buffer.
-/
import TouchHLE.Libc.Stdio

namespace TouchHLE

open Machine Words

namespace Stream

/-- the bytes that are pushed back, the last one first, and then those of the file -/
def available (s : Stream) : List UInt8 :=
  s.pushbacks.reverse ++ match s.file.file.openFile with
    | .ok f => f.content.drop f.position
    | .error _ => []

/-- **What `fgets` should do**: at most `size - 1` bytes up to the first newline are taken and stored with a NUL behind them, and
nothing is stored outside of the buffer. -/
def FgetsCorrect (s : Stream) (str size : ℕ) : Prop :=
  ∃ ret s' line, s.fgets str size = .ok (ret, s') ∧ line = firstLine (s.available.take (size - 1)) ∧
    s'.available = s.available.drop line.length ∧ (ret = 0 ↔ 1 < size ∧ s.available = []) ∧
    (ret ≠ 0 → ret = str ∧ load s'.heap.bytes str (line ++ [0]).length = line ++ [0]) ∧
    ∀ x, x < str ∨ str + size ≤ x → s'.heap.bytes x = s.heap.bytes x

variable {s s' : Stream} {f : OpenFile} {buffer tmp str remaining size : ℕ} {line l : List UInt8} {m : Bytes}

/-! ## Lines -/

theorem firstLine_eq_nil : firstLine l = [] ↔ l = [] := by
  cases l with
  | nil => exact iff_of_true rfl rfl
  | cons c l =>
    refine iff_of_false (fun h => ?_) (List.cons_ne_nil c l)
    unfold firstLine at h
    split_ifs at h

/-- a line that is too long is cut off -/
theorem firstLine_take_length {n : ℕ} (h : n ≤ (firstLine l).length) : (firstLine (l.take n)).length = n := by
  induction l generalizing n with
  | nil =>
    rw [Nat.le_zero.1 h]
    rfl
  | cons c l ih =>
    cases n with
    | zero => rfl
    | succ n =>
      rw [List.take_succ_cons]
      unfold firstLine at h ⊢
      split_ifs at h ⊢ with hc
      · rw [List.length_singleton] at h ⊢
        omega
      · rw [List.length_cons] at h ⊢
        rw [ih (Nat.le_of_succ_le_succ h)]

/-! ## One byte -/

/-- the byte, if there is one, is stored and gone from the stream -/
structure Took (s s' : Stream) (buffer : ℕ) (bytes : List UInt8) : Prop where
  heap : s'.heap = { s.heap with bytes := store s.heap.bytes buffer bytes }
  available : s'.available = s.available.drop bytes.length
  file : ∃ f, s'.file.file.openFile = .ok f

theorem available_eq (hfile : s.file.file.openFile = .ok f) : s.available = s.pushbacks.reverse ++ f.content.drop f.position := by
  rw [available, hfile]

theorem fread_one (hfile : s.file.file.openFile = .ok f) (hbuffer : buffer ≠ 0) (hrange : s.heap.toMem.InRange buffer 1) :
    ∃ s', s.fread buffer 1 1 = .ok ((s.available.take 1).length, s') ∧ Took s s' buffer (s.available.take 1) := by
  rw [available_eq hfile]
  unfold fread
  rw [if_neg Nat.one_ne_zero, mul32_ok (by decide), ok_bind]
  rcases List.eq_nil_or_concat s.pushbacks with hnil | ⟨pushbacks, c, hlast⟩
  · rw [if_neg (not_not.2 hnil), hnil, List.reverse_nil, List.nil_append]
    have hread := read_ok (r := ⟨f.content, f.position⟩) hfile hbuffer hrange (lt_of_le_of_lt (List.length_take_le _ _) (by decide))
    obtain ⟨o', hread, hfile'⟩ := hread
    unfold freadRest
    rw [hread, ok_bind]
    dsimp only
    rw [if_neg (by omega), Int.toNat_natCast, Nat.add_zero, Nat.div_one]
    refine ⟨_, rfl, rfl, ?_, _, hfile'⟩
    rw [available_eq hfile', available_eq hfile, hnil]
    show _ ++ f.content.drop (f.position + ((f.content.drop f.position).take 1).length) = _
    rw [List.reverse_nil, List.nil_append, List.nil_append, ← List.drop_drop]
  · rw [List.concat_eq_append] at hlast
    have hcopy : min s.pushbacks.length 1 = 1 := by
      rw [hlast, List.length_append, List.length_singleton]
      omega
    have hdrop : s.pushbacks.drop (s.pushbacks.length - 1) = [c] := by simp [hlast]
    have htake : s.pushbacks.take (s.pushbacks.length - 1) = pushbacks := by simp [hlast]
    rw [if_pos (by rw [hlast]; exact List.append_ne_nil_of_right_ne_nil _ (List.cons_ne_nil c []))]
    dsimp only
    rw [hcopy, hdrop, htake]
    have hwrite : s.heap.toMem.writeBytes buffer [c] = .ok { s.heap.toMem with bytes := store s.heap.bytes buffer [c] } := by
      have hcheck : s.heap.toMem.checkRange buffer [c].length = .ok () := Mem.checkRange_ok hrange
      rw [Mem.writeBytes, hcheck]
      rfl
    rw [List.reverse_singleton, hwrite, ok_bind, if_pos rfl, hlast, List.reverse_append, List.reverse_singleton]
    refine ⟨_, rfl, rfl, ?_, f, hfile⟩
    simp only [available, hfile, hlast, List.reverse_append, List.reverse_singleton]
    rfl

/-! ## The loop -/

theorem store_nil {a : ℕ} : store m a [] = m := by
  funext x
  rw [store, List.getD_nil, ite_self]

/-- **The loop of `fgets`**, where only the addition to the pointer can fail, behind the last byte of memory; the induction is on
the room that is left. -/
theorem fgetsLoop_ends (hfile : s.file.file.openFile = .ok f) (htmp : tmp ≠ 0) (hrange : s.heap.toMem.InRange tmp remaining) :
    Ends (fun _ => tmp + (firstLine (s.available.take remaining)).length = 2 ^ 32)
      (fun r => r.1 = tmp + (firstLine (s.available.take remaining)).length ∧
        Took s r.2 tmp (firstLine (s.available.take remaining))) (s.fgetsLoop remaining tmp) := by
  induction remaining generalizing s f tmp with
  | zero => exact ⟨rfl, by rw [List.take_zero, firstLine, store_nil], rfl, f, hfile⟩
  | succ remaining ih =>
    have hle := hrange.2
    unfold fgetsLoop
    obtain ⟨s₁, hread, htook⟩ := fread_one hfile htmp ⟨hrange.1, by omega⟩
    obtain ⟨f₁, hfile₁⟩ := htook.file
    rw [hread, ok_bind]
    dsimp only
    cases havailable : s.available with
    | nil =>
      rw [havailable] at htook
      exact ⟨rfl, htook⟩
    | cons c rest =>
      rw [havailable] at htook
      have hread : readChar s₁.heap.toMem tmp 0 = .ok c := by
        have h0 : Mem.ptrAdd tmp 0 1 = .ok tmp := if_pos (by omega)
        have hcheck : Mem.checkRange { s.heap.toMem with bytes := store s.heap.bytes tmp [c] } tmp 1 = .ok () :=
          Mem.checkRange_ok ⟨hrange.1, by omega⟩
        have hbyte : store s.heap.bytes tmp [c] (tmp + 0) = c := store_inside (l := [c]) Nat.one_pos
        rw [htook.heap, readChar, h0, ok_bind]
        show (do let _ ← Mem.checkRange { s.heap.toMem with bytes := store s.heap.bytes tmp [c] } tmp 1; _) = _
        rw [hcheck]
        exact congrArg Except.ok hbyte
      show Ends _ _ (do
        let next ← Mem.ptrAdd tmp 1 1
        let c ← readChar s₁.heap.toMem tmp 0
        if c = 10 then pure (next, s₁) else s₁.fgetsLoop remaining next)
      rw [Mem.ptrAdd, List.take_succ_cons]
      by_cases hnext : tmp + 1 * 1 < 2 ^ 32
      · rw [if_pos hnext, ok_bind, hread, ok_bind]
        by_cases hnl : c = 10
        · rw [if_pos hnl, firstLine, if_pos hnl]
          exact ⟨rfl, htook⟩
        · rw [if_neg hnl, firstLine, if_neg hnl, List.length_cons]
          have hrest : s₁.available = rest := by rw [htook.available, havailable]; rfl
          have hrange₁ : s₁.heap.toMem.InRange (tmp + 1) remaining := by
            rw [htook.heap]
            exact ⟨hrange.1.trans (Nat.le_succ tmp), by omega⟩
          have hloop := ih hfile₁ (Nat.succ_ne_zero tmp) hrange₁
          rw [hrest] at hloop
          refine (hloop.mono ?_).imp fun e he => by omega
          rintro ⟨next, s₂⟩ ⟨rfl, htook₂⟩
          refine ⟨by omega, ?_, ?_, htook₂.file⟩
          · -- the rest of the line goes behind the byte
            rw [htook₂.heap, htook.heap]
            exact congrArg (fun bytes => { s.heap with bytes }) (store_append (l := [c]) _)
          · rw [htook₂.available, htook.available, List.drop_drop, Nat.add_comm]
            rfl
      · rw [if_neg hnext]
        obtain rfl : remaining = 0 := by omega
        show tmp + (firstLine [c]).length = _
        rw [firstLine, firstLine, ite_self]
        show tmp + 1 = _
        omega

/-- the bytes that `fgets` stores -/
def stored (line : List UInt8) : List UInt8 := if line = [] then [] else line ++ [0]

/-- **What `fgets` does**: the line that it reads may fill the whole buffer, and the NUL comes after it. -/
theorem fgets_ends (hfile : s.file.file.openFile = .ok f) (hstr : str ≠ 0) (hrange : s.heap.toMem.InRange str size) :
    Ends (fun _ => str + (firstLine (s.available.take size)).length = 2 ^ 32)
      (fun r => r.1 = (if firstLine (s.available.take size) = [] then 0 else str) ∧
        r.2.available = s.available.drop (firstLine (s.available.take size)).length ∧
        r.2.heap.bytes = store s.heap.bytes str (stored (firstLine (s.available.take size)))) (s.fgets str size) := by
  have hloop := fgetsLoop_ends hfile hstr hrange
  have hlen : (firstLine (s.available.take size)).length ≤ size :=
    (firstLine_length_le _).trans (List.length_take_le size _)
  unfold fgets
  generalize firstLine (s.available.take size) = line at hloop hlen ⊢
  refine hloop.bind ?_
  rintro ⟨tmp, s'⟩ ⟨rfl, htook⟩
  dsimp only
  by_cases hnil : line = []
  · subst hnil
    rw [List.length_nil, Nat.add_zero, if_pos rfl, if_pos rfl]
    refine ⟨rfl, htook.available, ?_⟩
    rw [htook.heap]
    rfl
  · have hpos := List.length_pos_iff.2 hnil
    have hle := hrange.2
    have hne : ¬str + line.length = str := by omega
    rw [if_neg hnil, if_neg hne, stored, if_neg hnil]
    -- the terminator goes behind the line
    by_cases hend : str + line.length + 1 ≤ 2 ^ 32
    · have hcheck : Mem.checkRange { s.heap.toMem with bytes := store s.heap.bytes str line } (str + line.length) [(0 : UInt8)].length =
          .ok () := Mem.checkRange_ok ⟨hrange.1.trans (Nat.le_add_right _ _), hend⟩
      have hwrite : s'.heap.toMem.writeBytes (str + line.length) [0] =
          .ok { s.heap.toMem with bytes := store s.heap.bytes str (line ++ [0]) } := by
        rw [htook.heap, Mem.writeBytes, hcheck, ok_bind]
        exact congrArg (fun bytes => Except.ok { s.heap.toMem with bytes }) (store_append _)
      rw [hwrite, ok_bind]
      exact ⟨rfl, htook.available, rfl⟩
    · have hcheck : Mem.checkRange { s.heap.toMem with bytes := store s.heap.bytes str line } (str + line.length) [(0 : UInt8)].length =
          .error .sliceRange := by
        rw [Mem.checkRange, if_neg (Nat.not_lt.2 (hrange.1.trans (Nat.le_add_right _ _))), List.length_singleton, if_pos (by omega)]
      rw [htook.heap, Mem.writeBytes, hcheck]
      show str + line.length = 2 ^ 32
      omega

/-- what was stored and did not go beyond the buffer -/
theorem store_stored_outside {x : ℕ} (hlen : line.length < size) (hx : x < str ∨ str + size ≤ x) :
    store m str (stored line) x = m x := by
  unfold stored
  split_ifs
  · rw [store_nil]
  · exact store_outside (by rw [List.length_append, List.length_singleton]; omega)

/-- "a" and a newline at the beginning of a file, and memory that is not all zero -/
def oneLine : Stream :=
  { heap := { Heap.sampleStart with bytes := fun _ => 7 }
    file := { file := .file ⟨[97, 10], 0⟩, needsFlush := false, reachedEof := false, flags := 0 }
    pushbacks := [] }

end Stream

end TouchHLE
