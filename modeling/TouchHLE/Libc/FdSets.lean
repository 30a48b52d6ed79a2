/-
The descriptor sets of `select` as they are in the guest's memory (`process_set` in `libc/sys/socket.rs`): bits in an
array of words, which are read and written word by word.

- `processWord`, `processSet`: the two loops. `select`: with a record of the descriptors that were looked at, which is
  kept when the emulator panics.
- `Upto`: what holds when the descriptors below a bound were looked at. `processSet_spec`: the loops.
- `Selects`: `select` looks at the descriptors below a bound. `select_iff`: the bound is not the one of the guest.
-/
import TouchHLE.Libc.Select
import TouchHLE.Lib.BitWords

namespace TouchHLE.FdSets

open Machine
open BitWords

/-! ## The functions -/

inductive SetKind where
  | read
  | write
  | error
deriving DecidableEq

/-- the descriptors, with a record of what `select` does -/
structure Polled where
  net : Net
  /-- the descriptors that were looked at, in order -/
  inspected : List (SetKind × ℕ)
  /-- those of them that were ready -/
  ready : List (SetKind × ℕ)

/-- a panic, and the record up to then -/
abbrev Stop := Panic × Polled

/-- the body of one of the callbacks of `select`, between the clearing of the bit and its setting -/
abbrev Check := Net → ℕ → Except Panic (Bool × Net)

/-- a descriptor is looked at -/
def inspect (kind : SetKind) (check : Check) (s : Polled) (fd : ℕ) : Except Stop (Bool × Polled) :=
  match check s.net fd with
  | .error e => .error (e, ⟨s.net, s.inspected ++ [(kind, fd)], s.ready⟩)
  | .ok (ready, net) => .ok (ready, ⟨net, s.inspected ++ [(kind, fd)], if ready then s.ready ++ [(kind, fd)] else s.ready⟩)

/-- the callback: the bit of the descriptor is cleared, and set back if it is ready -/
def processBit (kind : SetKind) (check : Check) (s : Polled) (fd : ℕ) (bits : BitVec 32) (bitIndex : ℕ) :
    Except Stop (Bool × BitVec 32 × Polled) := do
  let (ready, s) ← inspect kind check s fd
  pure (ready, assign bits bitIndex ready, s)

/-- the inner loop of `process_set`, for word `i` from a bit on: whether the loops were left, the bits and the count -/
def processWord (kind : SetKind) (check : Check) (nFds : ℤ) (i : ℕ) :
    List ℕ → BitVec 32 → ℕ → Polled → Except Stop (Bool × BitVec 32 × ℕ × Polled)
  | [], bits, count, s => pure (false, bits, count, s)
  | bitIndex :: rest, bits, count, s =>
    if nFds < ↑(i * 32 + bitIndex) then pure (true, bits, count, s)
    else if bits.getLsbD bitIndex then do
      let (ready, bits, s) ← processBit kind check s (i * 32 + bitIndex) bits bitIndex
      processWord kind check nFds i rest bits (if ready then count + 1 else count) s
    else processWord kind check nFds i rest bits count s

/-- the outer loop, from word `i` on -/
def processWords (kind : SetKind) (check : Check) (nFds : ℤ) :
    ℕ → List (BitVec 32) → ℕ → Polled → Except Stop (List (BitVec 32) × ℕ × Polled)
  | _, [], count, s => pure ([], count, s)
  | i, bits :: rest, count, s => do
    let (stop, bits, count, s) ← processWord kind check nFds i (List.range 32) bits count s
    if stop then pure (bits :: rest, count, s)
    else do
      let (rest, count, s) ← processWords kind check nFds (i + 1) rest count s
      pure (bits :: rest, count, s)

def processSet (kind : SetKind) (check : Check) (nFds : ℤ) (fdsBits : List (BitVec 32)) (s : Polled) :
    Except Stop (List (BitVec 32) × ℕ × Polled) :=
  processWords kind check nFds 0 fdsBits 0 s

/-- a set that may be NULL -/
def processFds (kind : SetKind) (check : Check) (nFds : ℤ) (set : Option (List (BitVec 32))) (s : Polled) :
    Except Stop (Option (List (BitVec 32)) × ℕ × Polled) :=
  match set with
  | none => pure (none, 0, s)
  | some fdsBits => do
    let (fdsBits, count, s) ← processSet kind check nFds fdsBits s
    pure (some fdsBits, count, s)

structure Args where
  nFds : ℤ
  sets : SetKind → Option (List (BitVec 32))
  /-- seconds and microseconds -/
  timeout : Option (ℤ × ℤ)
  polls : Polls

def Args.shouldBlock (a : Args) : Bool := a.timeout != some (0, 0)

/-- how the descriptors of a set are looked at -/
def Args.check (a : Args) : SetKind → Check
  | .read => Net.readBit a.polls a.shouldBlock
  | .write => Net.writeBit a.shouldBlock
  | .error => Net.errorBit a.polls

structure Result where
  count : ℕ
  sets : SetKind → Option (List (BitVec 32))

def select (a : Args) (n : Net) : Except Stop (Result × Polled) := do
  let s : Polled := ⟨{ n with table := n.table.setErrno 0 }, [], []⟩
  if 0 < a.nFds ∧ a.nFds < 1024 then do
    let (readFds, readCount, s) ← processFds .read (a.check .read) a.nFds (a.sets .read) s
    let (writeFds, writeCount, s) ← processFds .write (a.check .write) a.nFds (a.sets .write) s
    let (errorFds, errorCount, s) ← processFds .error (a.check .error) a.nFds (a.sets .error) s
    pure (⟨readCount + writeCount + errorCount, fun
      | .read => readFds
      | .write => writeFds
      | .error => errorFds⟩, s)
  else throw (.index, s)

/-! ## What has to hold -/

/-- the descriptors below a bound whose bits are set -/
def members (fdsBits : List (BitVec 32)) (limit : ℕ) : List ℕ := (List.range limit).filter fun fd => bitAt fdsBits fd

def membersOf (kind : SetKind) (set : Option (List (BitVec 32))) (limit : ℕ) : List (SetKind × ℕ) :=
  set.elim [] fun fdsBits => (members fdsBits limit).map fun fd => (kind, fd)

/-- the descriptors to look at: each set bit below the bound once -/
def Args.expected (a : Args) (limit : ℕ) : List (SetKind × ℕ) :=
  membersOf .read (a.sets .read) limit ++ membersOf .write (a.sets .write) limit ++ membersOf .error (a.sets .error) limit

/-- what was looked at in the end -/
def inspectedBy : Except Stop (Result × Polled) → List (SetKind × ℕ)
  | .error (_, s) => s.inspected
  | .ok (_, s) => s.inspected

/-- **`select` looks at the descriptors below a bound**: at each whose bit is set, once, and at no other, also when the
emulator panics on the way; the bits that are set afterwards are those of the descriptors that were ready, and they are
counted. -/
structure Selects (a : Args) (n : Net) (limit : ℕ) : Prop where
  inspected : inspectedBy (select a n) <+: a.expected limit
  all : ∀ r s, select a n = .ok (r, s) → s.inspected = a.expected limit
  sets : ∀ r s, select a n = .ok (r, s) → ∀ kind fdsBits, a.sets kind = some fdsBits → ∃ fdsBits', r.sets kind =
    some fdsBits' ∧
    ∀ fd, bitAt fdsBits' fd = if fd < limit then decide ((kind, fd) ∈ s.ready) else bitAt fdsBits fd
  count : ∀ r s, select a n = .ok (r, s) → r.count = (membersOf .read (r.sets .read) limit).length +
    (membersOf .write (r.sets .write) limit).length + (membersOf .error (r.sets .error) limit).length

/-- no set has the bit of the descriptor `n_fds` -/
def Args.NoLast (a : Args) : Prop := ∀ kind fdsBits, a.sets kind = some fdsBits → bitAt fdsBits a.nFds.toNat = false

/-! ## The loops -/

section

variable {kind : SetKind} {check : Check} {nFds : ℤ} {fdsBits words before rest : List (BitVec 32)} {bits :
  BitVec 32} {s s' : Polled}
  {k fd j m count limit : ℕ} {r : Bool} {start : Polled}

/-- the members below `k + 1` -/
theorem members_succ : members fdsBits (k + 1) = members fdsBits k ++ if bitAt fdsBits k then [k] else [] := by
  rw [members, List.range_succ, List.filter_append, List.filter_singleton]
  cases bitAt fdsBits k <;> rfl

theorem members_prefix (h : k ≤ limit) : members fdsBits k <+: members fdsBits limit := by
  induction limit, h using Nat.le_induction with
  | base => exact List.prefix_rfl
  | succ limit _ ih =>
    rw [members_succ]
    exact ih.trans (List.prefix_append _ _)

theorem members_congr (h : ∀ fd < k, bitAt words fd = bitAt fdsBits fd) : members words k = members fdsBits k :=
  List.filter_congr fun fd hfd => h fd (List.mem_range.1 hfd)

/-- the descriptors below `k` of a set were looked at -/
structure Upto (kind : SetKind) (fdsBits : List (BitVec 32)) (start : Polled) (k : ℕ) (words : List (BitVec 32)) (count :
    ℕ) (s : Polled) :
    Prop where
  inspected : s.inspected = start.inspected ++ (members fdsBits k).map fun fd => (kind, fd)
  later : ∀ fd, k ≤ fd → bitAt words fd = bitAt fdsBits fd
  ready : ∀ fd < k, bitAt words fd = decide ((kind, fd) ∈ s.ready)
  only : ∀ fd, bitAt words fd = true → bitAt fdsBits fd = true
  below : ∀ fd, (kind, fd) ∈ s.ready → fd < k
  others : ∀ kind', kind' ≠ kind → ∀ fd, (kind', fd) ∈ s.ready ↔ (kind', fd) ∈ start.ready
  count : count = (members words k).length

theorem upto_zero (h : ∀ fd, (kind, fd) ∉ s.ready) : Upto kind fdsBits s 0 fdsBits 0 s where
  inspected := (List.append_nil _).symm
  later _ _ := rfl
  ready _ h := absurd h (Nat.not_lt_zero _)
  only _ h := h
  below fd hfd := absurd hfd (h fd)
  others _ _ _ := Iff.rfl
  count := rfl

/-- a descriptor that is not in the set -/
theorem Upto.skip (h : Upto kind fdsBits start k words count s) (hbit : bitAt words k = false) :
    Upto kind fdsBits start (k + 1) words count s := by
  have hold : bitAt fdsBits k = false := (h.later k (le_refl k)).symm.trans hbit
  refine ⟨?_, fun fd hfd => h.later fd (Nat.le_of_succ_le hfd), fun fd hfd => ?_, h.only,
    fun fd hfd => Nat.lt_succ_of_lt (h.below fd hfd), h.others, ?_⟩
  · rw [members_succ, hold, h.inspected]
    simp only [Bool.false_eq_true, if_false, List.append_nil]
  · rcases Nat.lt_succ_iff_lt_or_eq.1 hfd with hlt | rfl
    · exact h.ready fd hlt
    · rw [hbit, eq_comm, decide_eq_false_iff_not]
      exact fun hmem => absurd (h.below fd hmem) (lt_irrefl fd)
  · rw [members_succ, hbit, h.count]
    simp only [Bool.false_eq_true, if_false, List.append_nil]

/-- **A descriptor that is in the set** is looked at, and its bit says if it was ready. -/
theorem Upto.look {net : Net} (h : Upto kind fdsBits start k words count s) {words' : List (BitVec 32)}
    (hbit : bitAt words k = true) (hwords : ∀ fd, bitAt words' fd = if fd = k then r else bitAt words fd) :
    Upto kind fdsBits start (k + 1) words' (if r then count + 1 else count)
      ⟨net, s.inspected ++ [(kind, k)], if r then s.ready ++ [(kind, k)] else s.ready⟩ := by
  have hold : bitAt fdsBits k = true := (h.later k (le_refl k)).symm.trans hbit
  have hready : ∀ kind' fd, (kind', fd) ∈ (if r then s.ready ++ [(kind, k)] else s.ready) ↔
      (kind', fd) ∈ s.ready ∨ r = true ∧ kind' = kind ∧ fd = k := by
    intro kind' fd
    cases r <;> simp
  refine ⟨?_, fun fd hfd => ?_, fun fd hfd => ?_, fun fd hfd => ?_, fun fd hfd => ?_, fun kind' hne fd => ?_, ?_⟩
  · rw [members_succ, hold, h.inspected]
    simp only [if_true, List.map_append, List.map_singleton, List.append_assoc]
  · rw [hwords, if_neg (by omega)]
    exact h.later fd (Nat.le_of_succ_le hfd)
  · rw [hwords, Bool.eq_iff_iff, decide_eq_true_iff]
    refine Iff.trans ?_ (hready kind fd).symm
    by_cases heq : fd = k
    · have hnot : (kind, fd) ∉ s.ready := fun hmem => absurd (h.below fd hmem) (by omega)
      subst heq
      simp [hnot]
    · rw [if_neg heq, h.ready fd (by omega)]
      simp [heq]
  · rw [hwords] at hfd
    split_ifs at hfd with heq
    · rw [heq]
      exact hold
    · exact h.only fd hfd
  · rcases (hready kind fd).1 hfd with hmem | ⟨-, -, rfl⟩
    · exact Nat.lt_succ_of_lt (h.below fd hmem)
    · exact Nat.lt_succ_self fd
  · refine (hready kind' fd).trans ?_
    rw [h.others kind' hne fd]
    simp [hne]
  · have hsame : members words' k = members words k := members_congr fun fd hfd => by rw [hwords, if_neg (by omega)]
    have hself : bitAt words' k = r := by rw [hwords, if_pos rfl]
    rw [members_succ, hsame, hself, List.length_append, ← h.count]
    cases r <;> rfl

/-- a panic on the way -/
def Within (kind : SetKind) (fdsBits : List (BitVec 32)) (start : Polled) (limit : ℕ) (stop : Stop) : Prop :=
  stop.2.inspected <+: start.inspected ++ (members fdsBits limit).map fun fd => (kind, fd)

/-- what the inner loop gives -/
def WordDone (kind : SetKind) (fdsBits : List (BitVec 32)) (start : Polled) (limit : ℕ) (before rest : List (BitVec 32))
    (res : Bool × BitVec 32 × ℕ × Polled) : Prop :=
  if res.1 then Upto kind fdsBits start limit (before ++ res.2.1 :: rest) res.2.2.1 res.2.2.2
  else (before.length + 1) * 32 ≤ limit ∧
    Upto kind fdsBits start ((before.length + 1) * 32) (before ++ res.2.1 :: rest) res.2.2.1 res.2.2.2

/-- **The inner loop** looks at the descriptors of a word, up to the bound. -/
theorem processWord_spec (check : Check) (hlimit : (limit : ℤ) = nFds + 1) (hjm : j + m = 32)
    (hle : before.length * 32 + j ≤ limit)
    (h : Upto kind fdsBits start (before.length * 32 + j) (before ++ bits :: rest) count s) :
    Ends (Within kind fdsBits start limit) (WordDone kind fdsBits start limit before rest)
      (processWord kind check nFds before.length (List.range' j m) bits count s) := by
  induction m generalizing j bits count s with
  | zero =>
    have hj : before.length * 32 + j = (before.length + 1) * 32 := by omega
    rw [hj] at h hle
    exact ⟨hle, h⟩
  | succ m ih =>
    have hj : j < 32 := by omega
    have hbit : bitAt (before ++ bits :: rest) (before.length * 32 + j) = bits.getLsbD j := bitAt_middle hj
    rw [List.range'_succ, processWord]
    split_ifs with hstop hset
    · have heq : before.length * 32 + j = limit := by omega
      rw [heq] at h
      exact h
    · have hset' : bitAt (before ++ bits :: rest) (before.length * 32 + j) = true := hbit.trans hset
      unfold processBit inspect
      cases hcheck : check s.net (before.length * 32 + j) with
      | error e =>
        have hold : bitAt fdsBits (before.length * 32 + j) = true := (h.later _ (le_refl _)).symm.trans hset'
        have hmembers : members fdsBits (before.length * 32 + j + 1) <+: members fdsBits limit := members_prefix (by omega)
        rw [members_succ, hold, if_pos rfl] at hmembers
        have hmap := hmembers.map fun fd => (kind, fd)
        rw [List.map_append, List.map_singleton] at hmap
        change s.inspected ++ [(kind, before.length * 32 + j)] <+: _
        rw [h.inspected, List.append_assoc]
        exact (List.prefix_append_right_inj _).2 hmap
      | ok res =>
        obtain ⟨r, net⟩ := res
        exact ih (by omega) (by omega) (h.look hset' fun fd => bitAt_assign hj)
    · have hclear : bitAt (before ++ bits :: rest) (before.length * 32 + j) = false := hbit.trans (Bool.eq_false_iff.2 hset)
      exact ih (by omega) (by omega) (h.skip hclear)

theorem Upto.extend (h : Upto kind fdsBits start k words count s) (hk : k ≤ limit)
    (hlength : fdsBits.length * 32 ≤ k) :
    Upto kind fdsBits start limit words count s := by
  induction limit, hk using Nat.le_induction with
  | base => exact h
  | succ limit hle ih => exact ih.skip ((ih.later limit (le_refl limit)).trans (bitAt_of_ge (hlength.trans hle)))

/-- **The outer loop** -/
theorem processWords_spec (check : Check) (hlimit : (limit : ℤ) = nFds + 1)
    (hlength : fdsBits.length = before.length + rest.length)
    (hle : before.length * 32 ≤ limit) (h : Upto kind fdsBits start (before.length * 32) (before ++ rest) count s) :
    Ends (Within kind fdsBits start limit) (fun res => Upto kind fdsBits start limit (before ++ res.1) res.2.1 res.2.2)
      (processWords kind check nFds before.length rest count s) := by
  induction rest generalizing before count s with
  | nil =>
    rw [List.length_nil, Nat.add_zero] at hlength
    exact h.extend hle (by rw [hlength])
  | cons bits rest ih =>
    rw [processWords]
    have hfirst : Upto kind fdsBits start (before.length * 32 + 0) (before ++ bits :: rest) count s := by
      rw [Nat.add_zero]
      exact h
    have hword := processWord_spec (m := 32) check hlimit rfl (by omega) hfirst
    rw [← List.range_eq_range'] at hword
    refine hword.bind ?_
    rintro ⟨stop, bits', count', s'⟩ hdone
    cases stop with
    | true => exact hdone
    | false =>
      obtain ⟨hle', hupto⟩ := hdone
      have hlen : (before ++ [bits']).length = before.length + 1 := by rw [List.length_append, List.length_singleton]
      have hnext : Upto kind fdsBits start ((before ++ [bits']).length * 32) ((before ++ [bits']) ++ rest) count' s' := by
        rw [hlen, List.append_assoc]
        exact hupto
      have hrest := ih (by rw [hlength, hlen, List.length_cons]; omega) (by rw [hlen]; exact hle') hnext
      rw [hlen] at hrest
      refine Ends.bind hrest ?_
      rintro ⟨rest', count'', s''⟩ hupto'
      rw [List.append_assoc] at hupto'
      exact hupto'

theorem processSet_spec (check : Check) (hlimit : (limit : ℤ) = nFds + 1) (h : ∀ fd, (kind, fd) ∉ s.ready) :
    Ends (Within kind fdsBits s limit) (fun res => Upto kind fdsBits s limit res.1 res.2.1 res.2.2)
      (processSet kind check nFds fdsBits s) := by
  have hstart : Upto kind fdsBits s (([] : List (BitVec 32)).length * 32) ([] ++ fdsBits) 0 s := upto_zero h
  have hrun := processWords_spec check hlimit (by rw [List.length_nil, Nat.zero_add]) (Nat.zero_le _) hstart
  exact hrun

/-! ## `select` -/

variable {a : Args} {n : Net} {set set' : Option (List (BitVec 32))}

/-- a set that may be NULL, before and after -/
structure SetDone (kind : SetKind) (set : Option (List (BitVec 32))) (start : Polled) (limit : ℕ) (set' :
    Option (List (BitVec 32)))
    (count : ℕ) (s : Polled) : Prop where
  inspected : s.inspected = start.inspected ++ membersOf kind set limit
  others : ∀ kind', kind' ≠ kind → ∀ fd, (kind', fd) ∈ s.ready ↔ (kind', fd) ∈ start.ready
  null : set = none → set' = none
  words : ∀ fdsBits, set = some fdsBits → ∃ fdsBits', set' = some fdsBits' ∧
    (∀ fd, bitAt fdsBits' fd = if fd < limit then decide ((kind, fd) ∈ s.ready) else bitAt fdsBits fd) ∧
    ∀ fd, bitAt fdsBits' fd = true → bitAt fdsBits fd = true
  count : count = (membersOf kind set' limit).length

theorem processFds_spec (kind : SetKind) (check : Check) (set : Option (List (BitVec 32))) (s : Polled)
    (hlimit : (limit : ℤ) = nFds + 1) (h : ∀ fd, (kind, fd) ∉ s.ready) :
    Ends (fun stop => stop.2.inspected <+: s.inspected ++ membersOf kind set limit)
      (fun res => SetDone kind set s limit res.1 res.2.1 res.2.2) (processFds kind check nFds set s) := by
  cases set with
  | none => exact ⟨(List.append_nil _).symm, fun _ _ _ => Iff.rfl, fun _ => rfl, fun _ hset => (by cases hset), rfl⟩
  | some fdsBits =>
    refine Ends.bind (processSet_spec check hlimit h) ?_
    rintro ⟨words, count, s'⟩ hupto
    refine ⟨hupto.inspected, hupto.others, fun hset => (by cases hset), fun fdsBits' hset => ?_, ?_⟩
    · cases hset
      refine ⟨words, rfl, fun fd => ?_, hupto.only⟩
      split_ifs with hfd
      · exact hupto.ready fd hfd
      · exact hupto.later fd (Nat.le_of_not_lt hfd)
    · exact hupto.count.trans (List.length_map _).symm

/-- what is known of `select` at the end -/
structure AllDone (a : Args) (limit : ℕ) (r : Result) (s : Polled) : Prop where
  inspected : s.inspected = a.expected limit
  null : ∀ kind, a.sets kind = none → r.sets kind = none
  sets : ∀ kind fdsBits, a.sets kind = some fdsBits → ∃ fdsBits', r.sets kind = some fdsBits' ∧
    (∀ fd, bitAt fdsBits' fd = if fd < limit then decide ((kind, fd) ∈ s.ready) else bitAt fdsBits fd) ∧
    ∀ fd, bitAt fdsBits' fd = true → bitAt fdsBits fd = true
  count : r.count = (membersOf .read (r.sets .read) limit).length + (membersOf .write (r.sets .write) limit).length +
    (membersOf .error (r.sets .error) limit).length

/-- **What `select` does**: it looks at the descriptor `n_fds` too. -/
theorem select_ends (hlimit : (limit : ℤ) = a.nFds + 1) :
    Ends (fun stop => stop.2.inspected <+: a.expected limit) (fun res => AllDone a limit res.1 res.2) (select a n) := by
  unfold select
  split_ifs with hrange
  · have hread := processFds_spec .read (a.check .read) (a.sets .read) ⟨{ n with table := n.table.setErrno 0 }, [],
        []⟩ hlimit fun fd hfd => absurd hfd List.not_mem_nil
    refine (hread.imp fun stop h => ?_).bind ?_
    · refine h.trans ?_
      rw [Args.expected, List.append_assoc]
      exact List.prefix_append _ _
    rintro ⟨readFds, readCount, s₁⟩ h₁
    have hwrite := processFds_spec .write (a.check .write) (a.sets .write) s₁ hlimit fun fd hfd =>
      absurd ((h₁.others .write (by decide) fd).1 hfd) List.not_mem_nil
    refine (hwrite.imp fun stop h => ?_).bind ?_
    · refine h.trans ?_
      rw [h₁.inspected, Args.expected]
      exact List.prefix_append _ _
    rintro ⟨writeFds, writeCount, s₂⟩ h₂
    have herror := processFds_spec .error (a.check .error) (a.sets .error) s₂ hlimit fun fd hfd =>
      absurd ((h₁.others .error (by decide) fd).1 ((h₂.others .error (by decide) fd).1 hfd)) List.not_mem_nil
    refine (herror.imp fun stop h => ?_).bind ?_
    · rw [h₂.inspected, h₁.inspected] at h
      exact h
    rintro ⟨errorFds, errorCount, s₃⟩ h₃
    refine ⟨?_, fun kind hset => ?_, fun kind fdsBits hset => ?_, ?_⟩
    · rw [h₃.inspected, h₂.inspected, h₁.inspected]
      rfl
    · cases kind with
      | read => exact h₁.null hset
      | write => exact h₂.null hset
      | error => exact h₃.null hset
    · cases kind with
      | read =>
        obtain ⟨fdsBits', hset', hbits, honly⟩ := h₁.words fdsBits hset
        refine ⟨fdsBits', hset', fun fd => ?_, honly⟩
        simp only [hbits fd, h₃.others .read (by decide) fd, h₂.others .read (by decide) fd]
      | write =>
        obtain ⟨fdsBits', hset', hbits, honly⟩ := h₂.words fdsBits hset
        refine ⟨fdsBits', hset', fun fd => ?_, honly⟩
        simp only [hbits fd, h₃.others .write (by decide) fd]
      | error => exact h₃.words fdsBits hset
    · exact congrArg₂ _ (congrArg₂ _ h₁.count h₂.count) h₃.count
  · exact List.nil_prefix

theorem mem_membersOf {kind' : SetKind} : (kind', fd) ∈ membersOf kind set limit ↔
    kind' = kind ∧ fd < limit ∧ ∃ fdsBits, set = some fdsBits ∧ bitAt fdsBits fd = true := by
  cases set with
  | none => simp [membersOf]
  | some fdsBits =>
    simp only [membersOf, members, Option.elim_some, List.mem_map, List.mem_filter, List.mem_range, Prod.mk.injEq,
      Option.some.injEq]
    constructor
    · rintro ⟨fd', ⟨hlt, hbit⟩, rfl, rfl⟩
      exact ⟨rfl, hlt, fdsBits, rfl, hbit⟩
    · rintro ⟨rfl, hlt, fdsBits', rfl, hbit⟩
      exact ⟨fd, ⟨hlt, hbit⟩, rfl, rfl⟩

theorem mem_expected : (kind, fd) ∈ a.expected limit ↔
    fd < limit ∧ ∃ fdsBits, a.sets kind = some fdsBits ∧ bitAt fdsBits fd = true := by
  rw [Args.expected, List.mem_append, List.mem_append, mem_membersOf, mem_membersOf, mem_membersOf]
  cases kind <;> simp

theorem membersOf_succ (h : ∀ fdsBits, set = some fdsBits → bitAt fdsBits k = false) :
    membersOf kind set (k + 1) = membersOf kind set k := by
  cases set with
  | none => rfl
  | some fdsBits =>
    simp only [membersOf, Option.elim_some, members_succ, h fdsBits rfl, Bool.false_eq_true, if_false, List.append_nil]

theorem expected_succ (h : ∀ kind fdsBits, a.sets kind = some fdsBits → bitAt fdsBits k = false) :
    a.expected (k + 1) = a.expected k := by
  rw [Args.expected, membersOf_succ (h .read), membersOf_succ (h .write), membersOf_succ (h .error), Args.expected]

/-- the descriptor `n_fds` is in no set -/
theorem selects_of_noLast (ha : a.NoLast) (h : Ends (fun stop => stop.2.inspected <+: a.expected (a.nFds.toNat + 1))
    (fun res => AllDone a (a.nFds.toNat + 1) res.1 res.2) (select a n)) : Selects a n a.nFds.toNat := by
  rw [expected_succ ha] at h
  have hall : ∀ r s, select a n = .ok (r, s) → AllDone a (a.nFds.toNat + 1) r s := fun r s hs => h.ok hs
  have hclear : ∀ r s, select a n = .ok (r, s) → ∀ kind fdsBits', r.sets kind = some fdsBits' →
      bitAt fdsBits' a.nFds.toNat = false := by
    intro r s hs kind fdsBits' hset'
    have hdone := hall r s hs
    cases hset : a.sets kind with
    | none =>
      rw [hdone.null kind hset] at hset'
      cases hset'
    | some fdsBits =>
      obtain ⟨words, hwords, -, honly⟩ := hdone.sets kind fdsBits hset
      cases hwords.symm.trans hset'
      rw [Bool.eq_false_iff]
      intro hbit
      exact absurd ((ha kind fdsBits hset).symm.trans (honly _ hbit)) Bool.false_ne_true
  refine ⟨?_, fun r s hs => ?_, fun r s hs kind fdsBits hset => ?_, fun r s hs => ?_⟩
  · cases hs : select a n with
    | error stop => exact h.error hs
    | ok res =>
      rw [inspectedBy, (hall _ _ hs).inspected, expected_succ ha]
  · rw [(hall r s hs).inspected, expected_succ ha]
  · obtain ⟨words, hwords, hbits, -⟩ := (hall r s hs).sets kind fdsBits hset
    refine ⟨words, hwords, fun fd => ?_⟩
    by_cases heq : fd = a.nFds.toNat
    · rw [heq, hclear r s hs kind words hwords, if_neg (lt_irrefl _), ha kind fdsBits hset]
    · have hiff : fd < a.nFds.toNat + 1 ↔ fd < a.nFds.toNat := by omega
      rw [hbits fd]
      simp only [hiff]
  · rw [(hall r s hs).count, membersOf_succ (hclear r s hs .read), membersOf_succ (hclear r s hs .write),
      membersOf_succ (hclear r s hs .error)]

end

/-- **`select` looks at the descriptors below `n_fds`** if no set has the bit of the descriptor `n_fds` itself, and a
call that returns looks at these only in that case. -/
theorem select_iff (a : Args) (n : Net) : (a.NoLast → Selects a n a.nFds.toNat) ∧
    ((∃ res, select a n = .ok res) → (Selects a n a.nFds.toNat ↔ a.NoLast)) := by
  by_cases hrange : 0 < a.nFds ∧ a.nFds < 1024
  · have hlimit : ((a.nFds.toNat + 1 : ℕ) : ℤ) = a.nFds + 1 := by
      push_cast
      omega
    have hends := select_ends (n := n) hlimit
    refine ⟨fun ha => selects_of_noLast ha hends, ?_⟩
    rintro ⟨⟨r, s⟩, hs⟩
    refine ⟨fun hselects kind fdsBits hset => ?_, fun ha => selects_of_noLast ha hends⟩
    rw [Bool.eq_false_iff]
    intro hbit
    have hdone : AllDone a (a.nFds.toNat + 1) r s := hends.ok hs
    have hmem : (kind, a.nFds.toNat) ∈ a.expected a.nFds.toNat := by
      rw [← hselects.all r s hs, hdone.inspected]
      exact mem_expected.2 ⟨Nat.lt_succ_self _, fdsBits, hset, hbit⟩
    exact absurd (mem_expected.1 hmem).1 (lt_irrefl _)
  · have hs : select a n = .error (.index, ⟨{ n with table := n.table.setErrno 0 }, [], []⟩) := by
      unfold select
      rw [if_neg hrange]
      rfl
    have hnot : ∀ res, select a n ≠ .ok res := fun res h => (by rw [hs] at h; cases h)
    refine ⟨fun _ => ⟨?_, fun r s h => absurd h (hnot _), fun r s h => absurd h (hnot _), fun r s h => absurd h (hnot _)⟩,
      fun ⟨res, h⟩ => absurd h (hnot res)⟩
    rw [hs]
    exact List.nil_prefix

/-- a `select` about the descriptors below 3, in a set that has descriptor 3 too -/
def selectBelowThree : Args where
  nFds := 3
  sets
    | .write => some [8#32]
    | _ => none
  timeout := some (0, 0)
  polls := ⟨fun _ => .failed, fun _ => .failed, fun _ => true⟩

/-- descriptor 3 is a connected socket -/
def oneSocket : Net where
  table := { Descriptors.sampleStart with
    files := [some ⟨.socket, false, false, 0⟩]
    sockets := fun fd => if fd = 3 then some ⟨sockStream, none, none, some ⟨0, none⟩, none⟩ else none }
  queue _ := []

/-- descriptor 3 is looked at, reported and counted -/
theorem select_looks_beyond : ¬Selects selectBelowThree oneSocket selectBelowThree.nFds.toNat := fun h =>
  absurd h.inspected (by decide +kernel)

end TouchHLE.FdSets
