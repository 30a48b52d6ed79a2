/-
`select` (`libc/sys/socket.rs`) and the connections that wait to be accepted. The sockets of the host do not block, so a
connection that `select` finds is taken from the listener of the host and parked at the socket of the guest.

- `Net`: the descriptors, and what waits at the listeners of the host.
- `readBit`, `writeBit`, `errorBit`, `processSet`, `select`: the functions.
- `processSet_spec`: descriptors are looked at one by one, and none changes the answer for another.
- `select_spec`: when `select` returns, and what.
- `Conserved`, `Prompt`: no connection is lost, and what waits is reported and accepted.
- `readiness_iff`: runs. `parked_connection`: the second `select` after a connection has come in.
-/
import TouchHLE.Libc.Descriptors

namespace TouchHLE

open Machine

/-! ## The functions -/

/-- `fd_set`: the words of `fds_bits`, the first at the low end -/
abbrev FdSet := BitVec 1024

namespace FdSet

def clearBit (set : FdSet) (fd : ℕ) : FdSet := set &&& ~~~(1#1024 <<< fd)

def setBit (set : FdSet) (fd : ℕ) : FdSet := set ||| 1#1024 <<< fd

/-- the bit of a descriptor is cleared before it is processed, and set back if it is ready -/
def put (set : FdSet) (fd : ℕ) (ready : Bool) : FdSet := if ready then (set.clearBit fd).setBit fd else set.clearBit fd

end FdSet

/-- the answer of the host to a peek at one byte -/
inductive Peek where
  | received
  /-- there is more to receive than was peeked at (`WSAEMSGSIZE`) -/
  | messageSize
  | connectionReset
  | wouldBlock
  | failed
deriving DecidableEq

/-- what the host answers during a call -/
structure Polls where
  udp : ℕ → Peek
  tcp : TcpStream → Peek
  /-- `take_error` gives no error -/
  noError : TcpStream → Bool

/-- the descriptors, and the connections that wait at the listeners of the host -/
structure Net where
  table : Descriptors
  queue : ℕ → List TcpStream

namespace Net

def isSocket (n : Net) (fd : ℕ) : Except Panic Bool :=
  match n.table.fileForFd fd with
  | none => .error .index
  | some obj => .ok (obj.file == .socket)

/-- a bit of the read set after a peek -/
def peeked (resetIsReadable shouldBlock : Bool) : Peek → Except Panic Bool
  | .received | .messageSize => pure true
  | .connectionReset => do
    assert resetIsReadable .hostSocket
    pure true
  | .wouldBlock => do
    assert (!shouldBlock) .todo
    pure false
  | .failed => throw .hostSocket

/-- a socket that waits for connections: one that has come in is accepted from the host and parked -/
def pollListener (shouldBlock : Bool) (n : Net) (fd : ℕ) (obj : SocketHostObject) (listener : ℕ) :
    Except Panic (Bool × Net) :=
  match n.queue listener with
  | stream :: rest => do
    assert obj.pendingTcpStream.isNone .hostSocket
    pure (true, ⟨n.table.setSocket fd (some { obj with pendingTcpStream := some stream }),
      Function.update n.queue listener rest⟩)
  | [] => do
    assert (!shouldBlock) .todo
    pure (false, n)

/-- the socket of a descriptor in one of the sets -/
def socketAt (n : Net) (fd : ℕ) : Except Panic SocketHostObject := do
  let isSocket ← n.isSocket fd
  assert isSocket .noSocket
  n.table.getSocket fd

/-- a descriptor in the read set of `select`, from its socket on -/
def readSocket (polls : Polls) (shouldBlock : Bool) (n : Net) (fd : ℕ) (obj : SocketHostObject) :
    Except Panic (Bool × Net) :=
  if obj.type = sockDgram then do
    let udpSocket ← unwrap obj.udpSocket .hostSocket
    let ready ← peeked false shouldBlock (polls.udp udpSocket)
    pure (ready, n)
  else do
    assert (obj.type == sockStream) .socketKind
    match obj.tcpStream with
    | none => do
      let listener ← unwrap obj.tcpListener .hostSocket
      pollListener shouldBlock n fd obj listener
    | some stream => do
      let ready ← peeked true shouldBlock (polls.tcp stream)
      pure (ready, n)

def readBit (polls : Polls) (shouldBlock : Bool) (n : Net) (fd : ℕ) : Except Panic (Bool × Net) := do
  let obj ← n.socketAt fd
  readSocket polls shouldBlock n fd obj

/-- a descriptor in the write set of `select` -/
def writeBit (shouldBlock : Bool) (n : Net) (fd : ℕ) : Except Panic (Bool × Net) := do
  let obj ← n.socketAt fd
  if obj.type = sockDgram then do
    assert (obj.udpSocket.isSome || !shouldBlock) .todo
    pure (obj.udpSocket.isSome, n)
  else do
    assert (obj.type == sockStream) .socketKind
    assert obj.tcpListener.isNone .hostSocket
    assert (obj.tcpStream.isSome || !shouldBlock) .todo
    pure (obj.tcpStream.isSome, n)

/-- a descriptor in the error set of `select` -/
def errorBit (polls : Polls) (n : Net) (fd : ℕ) : Except Panic (Bool × Net) := do
  let obj ← n.socketAt fd
  assert (obj.type == sockStream) .socketKind
  assert obj.tcpListener.isNone .hostSocket
  let stream ← unwrap obj.tcpStream .hostSocket
  assert (polls.noError stream) .hostSocket
  pure (false, n)

/-- `process_set` for the descriptors from the first of the list on -/
def processSet (processBit : Net → ℕ → Except Panic (Bool × Net)) : List ℕ → FdSet → Net → Except Panic (ℕ × FdSet × Net)
  | [], set, n => pure (0, set, n)
  | fd :: fds, set, n =>
    if set.getLsbD fd then do
      let (ready, n) ← processBit n fd
      let (count, set, n) ← processSet processBit fds (set.put fd ready) n
      pure (count + if ready then 1 else 0, set, n)
    else processSet processBit fds set n

/-- the descriptors that `process_set` looks at; it stops after `n_fds` itself -/
def fdsUpTo (nFds : ℤ) : List ℕ := List.range (min 1024 (nFds + 1).toNat)

/-- a set of `select` that may be NULL -/
def processFds (processBit : Net → ℕ → Except Panic (Bool × Net)) (nFds : ℤ) (set : Option FdSet) (n : Net) :
    Except Panic (ℕ × Option FdSet × Net) :=
  match set with
  | none => pure (0, none, n)
  | some set => do
    let (count, set, n) ← processSet processBit (fdsUpTo nFds) set n
    pure (count, some set, n)

end Net

structure SelectArgs where
  nFds : ℤ
  readFds : Option FdSet
  writeFds : Option FdSet
  errorFds : Option FdSet
  /-- seconds and microseconds -/
  timeout : Option (ℤ × ℤ)
  polls : Polls

/-- only a timeout of zero does not block -/
def SelectArgs.shouldBlock (a : SelectArgs) : Bool := a.timeout != some (0, 0)

/-- what `select` returns and writes to its sets -/
structure SelectResult where
  count : ℕ
  readFds : Option FdSet
  writeFds : Option FdSet
  errorFds : Option FdSet

namespace Net

def select (a : SelectArgs) (n : Net) : Except Panic (SelectResult × Net) := do
  let n := { n with table := n.table.setErrno 0 }
  assert (0 < a.nFds && a.nFds < 1024) .index
  let (readCount, readFds, n) ← processFds (readBit a.polls a.shouldBlock) a.nFds a.readFds n
  let (writeCount, writeFds, n) ← processFds (writeBit a.shouldBlock) a.nFds a.writeFds n
  let (errorCount, errorFds, n) ← processFds (errorBit a.polls) a.nFds a.errorFds n
  pure (⟨readCount + writeCount + errorCount, readFds, writeFds, errorFds⟩, n)

/-- `accept` takes a connection that was parked; see there for one that was not -/
def accept (n : Net) (socket : ℤ) (address addressLen : ℕ) : Except Panic (ℤ × Net) := do
  let (newFd, table) ← n.table.accept socket address addressLen
  pure (newFd, { n with table })

end Net

/-! ## One descriptor after the other -/

namespace FdSet

variable {set : FdSet} {fd j : ℕ}

theorem getLsbD_put_self (hfd : fd < 1024) (ready : Bool) : (set.put fd ready).getLsbD fd = ready := by
  cases ready <;> simp [put, clearBit, setBit, hfd]

theorem getLsbD_put_of_ne (hj : j ≠ fd) (ready : Bool) : (set.put fd ready).getLsbD j = set.getLsbD j := by
  by_cases hlt : j < 1024
  · have hbit : (1#1024 <<< fd).getLsbD j = false := by
      simp only [BitVec.getLsbD_shiftLeft, BitVec.getLsbD_one, Bool.and_eq_false_iff, decide_eq_false_iff_not,
        Bool.not_eq_false', decide_eq_true_eq]
      omega
    have hclear : (set.clearBit fd).getLsbD j = set.getLsbD j := by
      rw [clearBit, BitVec.getLsbD_and, BitVec.getLsbD_not, hbit]
      simp only [hlt, decide_true, Bool.not_false, Bool.and_true]
    cases ready with
    | false => exact hclear
    | true =>
      change ((set.clearBit fd).setBit fd).getLsbD j = set.getLsbD j
      rw [setBit, BitVec.getLsbD_or, hbit, Bool.or_false, hclear]
  · rw [BitVec.getLsbD_of_ge _ _ (Nat.le_of_not_lt hlt), BitVec.getLsbD_of_ge _ _ (Nat.le_of_not_lt hlt)]

end FdSet

namespace Net

/-- what is answered for a descriptor -/
def answer (processBit : Net → ℕ → Except Panic (Bool × Net)) (n : Net) (fd : ℕ) : Except Panic Bool :=
  Prod.fst <$> processBit n fd

/-- a descriptor is processed without regard to the others: what it does keeps `I`, is one of the changes `R`, and does not
change the answer for another -/
structure Local (processBit : Net → ℕ → Except Panic (Bool × Net)) (I : Net → Prop) (R : Net → Net → Prop) : Prop where
  refl : ∀ n, R n n
  trans : ∀ n n' n'', R n n' → R n' n'' → R n n''
  bit : ∀ n fd r n', I n → processBit n fd = .ok (r, n') → I n' ∧ R n n' ∧
    ∀ fd', fd' ≠ fd → answer processBit n' fd' = answer processBit n fd'

section

variable {processBit : Net → ℕ → Except Panic (Bool × Net)} {I : Net → Prop} {R : Net → Net → Prop} {n n' : Net}
  {set set' : FdSet} {fds : List ℕ} {fd c : ℕ}

theorem answer_isOk : (∃ r, answer processBit n fd = .ok r) ↔ ∃ r, processBit n fd = .ok r := by
  unfold answer
  cases processBit n fd with
  | error e => exact iff_of_false (fun ⟨r, h⟩ => nomatch h) (fun ⟨r, h⟩ => nomatch h)
  | ok r => exact iff_of_true ⟨r.1, rfl⟩ ⟨r, rfl⟩

/-- the bit of a descriptor in the set that is given back -/
def Processed (processBit : Net → ℕ → Except Panic (Bool × Net)) (n : Net) (set set' : FdSet) (fd : ℕ) : Prop :=
  if set.getLsbD fd then answer processBit n fd = .ok (set'.getLsbD fd) else set'.getLsbD fd = false

/-- **What `process_set` gives**: each descriptor is answered for as it was before the call. -/
theorem processSet_spec (hl : Local processBit I R) (hnodup : fds.Nodup) (hlt : ∀ fd ∈ fds, fd < 1024) (hI : I n)
    (hp : processSet processBit fds set n = .ok (c, set', n')) : I n' ∧ R n n' ∧
      (∀ fd ∉ fds, set'.getLsbD fd = set.getLsbD fd) ∧ ∀ fd ∈ fds, Processed processBit n set set' fd := by
  induction fds generalizing set n c with
  | nil =>
    cases hp
    exact ⟨hI, hl.refl _, fun _ _ => rfl, fun _ h => nomatch h⟩
  | cons fd fds ih =>
    obtain ⟨hnot, hnodup⟩ := List.nodup_cons.1 hnodup
    have hlt' : ∀ fd ∈ fds, fd < 1024 := fun x hx => hlt x (List.mem_cons_of_mem fd hx)
    rw [processSet] at hp
    split_ifs at hp with hbit
    · obtain ⟨⟨r, n₁⟩, h1, hp⟩ := bind_eq_ok.1 hp
      obtain ⟨⟨c₁, set₁, n₂⟩, h2, hp⟩ := bind_eq_ok.1 hp
      cases hp
      obtain ⟨hI₁, hR₁, hothers⟩ := hl.bit n fd r n₁ hI h1
      obtain ⟨hI', hR', hout, hin⟩ := ih hnodup hlt' hI₁ h2
      have hself : set'.getLsbD fd = r := (hout fd hnot).trans (FdSet.getLsbD_put_self (hlt fd List.mem_cons_self) r)
      refine ⟨hI', hl.trans _ _ _ hR₁ hR', fun j hj => ?_, fun j hj => ?_⟩
      · rw [List.mem_cons, not_or] at hj
        exact (hout j hj.2).trans (FdSet.getLsbD_put_of_ne hj.1 r)
      · rcases List.mem_cons.1 hj with rfl | hj
        · rw [Processed, if_pos hbit, answer, h1, hself]
          rfl
        · have hne : j ≠ fd := fun h => hnot (h ▸ hj)
          have hrest := hin j hj
          rw [Processed, FdSet.getLsbD_put_of_ne hne, hothers j hne] at hrest
          exact hrest
    · obtain ⟨hI', hR', hout, hin⟩ := ih hnodup hlt' hI hp
      refine ⟨hI', hR', fun j hj => hout j fun h => hj (List.mem_cons_of_mem fd h), fun j hj => ?_⟩
      rcases List.mem_cons.1 hj with rfl | hj
      · rw [Processed, if_neg hbit, hout j hnot]
        exact Bool.eq_false_iff.2 hbit
      · exact hin j hj

theorem processSet_isOk (hl : Local processBit I R) (hnodup : fds.Nodup) (hI : I n) :
    (∃ r, processSet processBit fds set n = .ok r) ↔
      ∀ fd ∈ fds, set.getLsbD fd = true → ∃ r, processBit n fd = .ok r := by
  induction fds generalizing set n with
  | nil => exact iff_of_true ⟨_, rfl⟩ fun _ h => nomatch h
  | cons fd fds ih =>
    obtain ⟨hnot, hnodup⟩ := List.nodup_cons.1 hnodup
    rw [processSet, List.forall_mem_cons]
    split_ifs with hbit
    · cases h1 : processBit n fd with
      | error e => exact iff_of_false (fun ⟨r, h⟩ => nomatch h) fun h => nomatch (h.1 hbit).choose_spec
      | ok res =>
        obtain ⟨r, n₁⟩ := res
        obtain ⟨hI₁, -, hothers⟩ := hl.bit n fd r n₁ hI h1
        have hrest : (∃ res, processSet processBit fds (set.put fd r) n₁ = .ok res) ↔
            ∀ j ∈ fds, set.getLsbD j = true → ∃ r, processBit n j = .ok r := by
          rw [ih hnodup hI₁]
          refine forall₂_congr fun j hj => ?_
          have hne : j ≠ fd := fun h => hnot (h ▸ hj)
          rw [FdSet.getLsbD_put_of_ne hne, ← answer_isOk, hothers j hne, answer_isOk]
        rw [and_iff_right fun _ => ⟨_, rfl⟩, ← hrest, ok_bind]
        constructor
        · rintro ⟨res, h⟩
          obtain ⟨res', h, -⟩ := bind_eq_ok.1 h
          exact ⟨res', h⟩
        · rintro ⟨⟨c, set', n'⟩, h⟩
          simp only [h, ok_bind]
          exact ⟨_, rfl⟩
    · rw [ih hnodup hI, and_iff_right fun h => absurd h hbit]

end

/-! ## Connections that wait -/

/-- what is known of a socket without the connection that is parked at it -/
def bare (obj : SocketHostObject) : SocketHostObject := { obj with pendingTcpStream := none }

/-- the listener of a socket that waits for connections -/
def listener (n : Net) (fd : ℤ) : Option ℕ :=
  (n.table.sockets fd).bind fun obj => if obj.type = sockStream ∧ obj.tcpStream = none then obj.tcpListener else none

/-- the connections at a socket that were not accepted yet, the parked one first -/
def waiting (n : Net) (fd : ℤ) : List TcpStream :=
  match n.table.sockets fd with
  | none => []
  | some obj => obj.pendingTcpStream.toList ++ (obj.tcpListener.elim [] n.queue)

/-- every socket has a listener of its own -/
def Apart (n : Net) : Prop :=
  ∀ fd fd' obj obj', n.table.sockets fd = some obj → n.table.sockets fd' = some obj' → obj.tcpListener.isSome →
    obj'.tcpListener = obj.tcpListener → fd' = fd

/-- connections may have been parked, and nothing else was done -/
structure Parks (n n' : Net) : Prop where
  files : n'.table.files = n.table.files
  mem : n'.table.mem = n.table.mem
  sockets : ∀ fd, (n'.table.sockets fd).map bare = (n.table.sockets fd).map bare
  waiting : ∀ fd, n'.waiting fd = n.waiting fd

theorem Parks.refl (n : Net) : Parks n n := ⟨rfl, rfl, fun _ => rfl, fun _ => rfl⟩

theorem Parks.trans {n n' n'' : Net} (h : Parks n n') (h' : Parks n' n'') : Parks n n'' :=
  ⟨h'.files.trans h.files, h'.mem.trans h.mem, fun fd => (h'.sockets fd).trans (h.sockets fd),
    fun fd => (h'.waiting fd).trans (h.waiting fd)⟩

section

variable {n n' : Net} {polls : Polls} {shouldBlock r : Bool} {fd : ℕ} {obj : SocketHostObject} {l : ℕ} {a : SelectArgs}
  {reset : Bool}

/-- a socket and what it is after connections were parked -/
theorem Parks.socket (h : Parks n n') {fd : ℤ} (hobj : n'.table.sockets fd = some obj) :
    ∃ obj', n.table.sockets fd = some obj' ∧ bare obj' = bare obj := by
  have hmap := h.sockets fd
  rw [hobj, Option.map_some, eq_comm, Option.map_eq_some_iff] at hmap
  exact hmap

theorem Parks.listener (h : Parks n n') (fd : ℤ) : n'.listener fd = n.listener fd := by
  have hbare (m : Net) : m.listener fd = ((m.table.sockets fd).map bare).bind fun obj =>
      if obj.type = sockStream ∧ obj.tcpStream = none then obj.tcpListener else none := by
    unfold Net.listener
    cases m.table.sockets fd <;> rfl
  rw [hbare, hbare, h.sockets fd]

theorem Parks.apart (h : Parks n n') (hap : Apart n) : Apart n' := by
  intro fd fd' obj obj' hobj hobj' hsome heq
  obtain ⟨obj₁, h1, hb1⟩ := h.socket hobj
  obtain ⟨obj₂, h2, hb2⟩ := h.socket hobj'
  have hl1 : obj₁.tcpListener = obj.tcpListener := (congrArg SocketHostObject.tcpListener hb1 :)
  have hl2 : obj₂.tcpListener = obj'.tcpListener := (congrArg SocketHostObject.tcpListener hb2 :)
  exact hap fd fd' obj₁ obj₂ h1 h2 (hl1 ▸ hsome) (hl2.trans (heq.trans hl1.symm))

/-- the state after a connection was parked -/
def park (n : Net) (fd : ℤ) (obj : SocketHostObject) (l : ℕ) (stream : TcpStream) (rest : List TcpStream) : Net :=
  ⟨n.table.setSocket fd (some { obj with pendingTcpStream := some stream }), Function.update n.queue l rest⟩

/-- a connection that is parked waits as before -/
theorem park_parks {fd : ℤ} {stream : TcpStream} {rest : List TcpStream} (hap : Apart n)
    (hobj : n.table.sockets fd = some obj) (hl : obj.tcpListener = some l) (hpending : obj.pendingTcpStream = none)
    (hqueue : n.queue l = stream :: rest) : Parks n (n.park fd obj l stream rest) := by
  have hself : (n.park fd obj l stream rest).table.sockets fd = some { obj with pendingTcpStream := some stream } :=
    Function.update_self _ _ _
  have hother (fd' : ℤ) (hne : fd' ≠ fd) : (n.park fd obj l stream rest).table.sockets fd' = n.table.sockets fd' :=
    Function.update_of_ne hne _ _
  refine ⟨rfl, rfl, fun fd' => ?_, fun fd' => ?_⟩
  · by_cases heq : fd' = fd
    · rw [heq, hself, hobj]
      rfl
    · rw [hother fd' heq]
  · unfold Net.waiting
    by_cases heq : fd' = fd
    · have hupdate : (n.park fd obj l stream rest).queue l = rest := Function.update_self _ _ _
      rw [heq, hself, hobj]
      simp only [hl, hpending, Option.elim_some, hqueue, hupdate, Option.toList_some, Option.toList_none, List.nil_append,
        List.singleton_append]
    · rw [hother fd' heq]
      cases hobj' : n.table.sockets fd' with
      | none => rfl
      | some obj' =>
        cases hl' : obj'.tcpListener with
        | none => simp only [hl', Option.elim_none]
        | some l' =>
          have hne : l' ≠ l := by
            rintro rfl
            exact heq (hap fd fd' obj obj' hobj hobj' (by rw [hl]; rfl) (hl'.trans hl.symm))
          have hupdate : (n.park fd obj l stream rest).queue l' = n.queue l' := Function.update_of_ne hne _ _
          simp only [hl', Option.elim_some, hupdate]

/-! ## When a descriptor is answered for -/

/-- a peek that has an answer -/
def PeekAnswers (resetIsReadable shouldBlock : Bool) (p : Peek) : Prop :=
  p = .received ∨ p = .messageSize ∨ p = .connectionReset ∧ resetIsReadable = true ∨ p = .wouldBlock ∧ shouldBlock = false

/-- the descriptor in the read set is one of a socket, and there is an answer without waiting for one; a connection that has
come in can only be parked if none is -/
def ReadAnswers (polls : Polls) (shouldBlock : Bool) (n : Net) (fd : ℕ) : Prop :=
  ∃ obj, n.table.sockets fd = some obj ∧
    ((obj.type = sockDgram ∧ ∃ udp, obj.udpSocket = some udp ∧ PeekAnswers false shouldBlock (polls.udp udp)) ∨
      (obj.type = sockStream ∧ ∃ stream, obj.tcpStream = some stream ∧ PeekAnswers true shouldBlock (polls.tcp stream)) ∨
      (obj.type = sockStream ∧ obj.tcpStream = none ∧ ∃ l, obj.tcpListener = some l ∧
        if n.queue l = [] then shouldBlock = false else obj.pendingTcpStream = none))

def WriteAnswers (shouldBlock : Bool) (n : Net) (fd : ℕ) : Prop :=
  ∃ obj, n.table.sockets fd = some obj ∧
    ((obj.type = sockDgram ∧ (obj.udpSocket.isSome ∨ shouldBlock = false)) ∨
      (obj.type = sockStream ∧ obj.tcpListener = none ∧ (obj.tcpStream.isSome ∨ shouldBlock = false)))

def ErrorAnswers (polls : Polls) (n : Net) (fd : ℕ) : Prop :=
  ∃ obj stream, n.table.sockets fd = some obj ∧ obj.type = sockStream ∧ obj.tcpListener = none ∧
    obj.tcpStream = some stream ∧ polls.noError stream = true

theorem socketAt_some (hs : n.table.Sound) (hobj : n.table.sockets fd = some obj) : n.socketAt fd = .ok obj := by
  obtain ⟨file, hfile, hsock⟩ := (hs fd).1 (by rw [hobj]; rfl)
  unfold socketAt isSocket Descriptors.getSocket
  simp only [hfile, hobj, hsock]
  rfl

theorem socketAt_ok (h : n.socketAt fd = .ok obj) : n.table.sockets fd = some obj := by
  obtain ⟨b, -, h⟩ := bind_eq_ok.1 h
  obtain ⟨u, -, h⟩ := bind_eq_ok.1 h
  unfold Descriptors.getSocket at h
  split at h
  · rename_i obj' hobj'
    cases h
    exact hobj'
  · cases h

theorem peeked_ok {p : Peek} (h : peeked reset shouldBlock p = .ok r) : PeekAnswers reset shouldBlock p := by
  cases p with
  | received => exact .inl rfl
  | messageSize => exact .inr (.inl rfl)
  | connectionReset =>
    obtain ⟨u, hreset, -⟩ := bind_eq_ok.1 h
    exact .inr (.inr (.inl ⟨rfl, assert_cases hreset⟩))
  | wouldBlock =>
    obtain ⟨u, hblock, -⟩ := bind_eq_ok.1 h
    exact .inr (.inr (.inr ⟨rfl, by simpa using assert_cases hblock⟩))
  | failed => cases h

theorem peeked_answers {p : Peek} (h : PeekAnswers reset shouldBlock p) :
    ∃ r, peeked reset shouldBlock p = .ok r := by
  rcases h with rfl | rfl | ⟨rfl, rfl⟩ | ⟨rfl, rfl⟩ <;> exact ⟨_, rfl⟩

/-- **What the read set gives for a descriptor**, and that only a connection is parked -/
theorem readBit_ok (hap : Apart n) (h : readBit polls shouldBlock n fd = .ok (r, n')) :
    ReadAnswers polls shouldBlock n fd ∧ Parks n n' ∧
      (∀ l, n.listener fd = some l → r = (n.queue l != [])) ∧
      ((n' = n) ∨ ∃ obj l stream rest, n.table.sockets fd = some obj ∧ obj.tcpListener = some l ∧
        n' = n.park fd obj l stream rest) := by
  obtain ⟨obj, hobj, h⟩ := bind_eq_ok.1 h
  replace hobj := socketAt_ok hobj
  unfold readSocket at h
  have hlisten : n.listener fd = if obj.type = sockStream ∧ obj.tcpStream = none then obj.tcpListener else none := by
    rw [Net.listener, hobj]
    rfl
  split_ifs at h with hdgram
  · obtain ⟨udp, hudp, h⟩ := bind_eq_ok.1 h
    obtain ⟨b, hpeek, h⟩ := bind_eq_ok.1 h
    cases h
    have hnone : n.listener fd = none := by
      rw [hlisten, if_neg]
      rintro ⟨hstream, -⟩
      exact absurd (hdgram.symm.trans hstream) (by decide)
    refine ⟨⟨obj, hobj, .inl ⟨hdgram, udp, ?_, peeked_ok hpeek⟩⟩, .refl n, fun l hl => ?_, .inl rfl⟩
    · unfold unwrap at hudp
      split at hudp <;> cases hudp
      assumption
    · rw [hnone] at hl
      cases hl
  · obtain ⟨u, hstream, h⟩ := bind_eq_ok.1 h
    replace hstream : obj.type = sockStream := beq_iff_eq.1 (assert_cases hstream)
    cases htcp : obj.tcpStream with
    | some stream =>
      simp only [htcp] at h
      obtain ⟨b, hpeek, h⟩ := bind_eq_ok.1 h
      cases h
      have hnone : n.listener fd = none := by
        rw [hlisten, if_neg]
        rintro ⟨-, hno⟩
        cases htcp.symm.trans hno
      refine ⟨⟨obj, hobj, .inr (.inl ⟨hstream, stream, htcp, peeked_ok hpeek⟩)⟩, .refl n, fun l hl => ?_, .inl rfl⟩
      rw [hnone] at hl
      cases hl
    | none =>
      simp only [htcp] at h
      obtain ⟨l, hl, h⟩ := bind_eq_ok.1 h
      replace hl : obj.tcpListener = some l := by
        unfold unwrap at hl
        split at hl <;> cases hl
        assumption
      rw [if_pos ⟨hstream, htcp⟩, hl] at hlisten
      unfold pollListener at h
      cases hqueue : n.queue l with
      | nil =>
        rw [hqueue] at h
        obtain ⟨u, hblock, h⟩ := bind_eq_ok.1 h
        cases h
        refine ⟨⟨obj, hobj, .inr (.inr ⟨hstream, htcp, l, hl, ?_⟩)⟩, .refl n, fun l' hl' => ?_, .inl rfl⟩
        · rw [if_pos hqueue]
          simpa using assert_cases hblock
        · cases hlisten.symm.trans hl'
          rw [hqueue]
          rfl
      | cons stream rest =>
        rw [hqueue] at h
        obtain ⟨u, hpending, h⟩ := bind_eq_ok.1 h
        cases h
        replace hpending : obj.pendingTcpStream = none := Option.isNone_iff_eq_none.1 (assert_cases hpending)
        refine ⟨⟨obj, hobj, .inr (.inr ⟨hstream, htcp, l, hl, ?_⟩)⟩, park_parks hap hobj hl hpending hqueue,
          fun l' hl' => ?_, .inr ⟨obj, l, stream, rest, hobj, hl, rfl⟩⟩
        · rw [if_neg (hqueue ▸ List.cons_ne_nil _ _)]
          exact hpending
        · cases hlisten.symm.trans hl'
          rw [hqueue]
          rfl

theorem readBit_isOk (hs : n.table.Sound) (hap : Apart n) :
    (∃ res, readBit polls shouldBlock n fd = .ok res) ↔ ReadAnswers polls shouldBlock n fd := by
  constructor
  · rintro ⟨⟨r, n'⟩, h⟩
    exact (readBit_ok hap h).1
  · rintro ⟨obj, hobj, hanswer⟩
    rw [readBit, socketAt_some hs hobj, ok_bind]
    unfold readSocket
    rcases hanswer with ⟨hdgram, udp, hudp, hpeek⟩ | ⟨hstream, stream, htcp, hpeek⟩ | ⟨hstream, htcp, l, hl, hqueue⟩
    · obtain ⟨b, hb⟩ := peeked_answers hpeek
      rw [if_pos hdgram, hudp]
      simp only [unwrap, ok_bind, hb]
      exact ⟨_, rfl⟩
    · obtain ⟨b, hb⟩ := peeked_answers hpeek
      rw [if_neg (hstream ▸ by decide), assert_ok (beq_iff_eq.2 hstream), ok_bind]
      simp only [htcp, ok_bind, hb]
      exact ⟨_, rfl⟩
    · rw [if_neg (hstream ▸ by decide), assert_ok (beq_iff_eq.2 hstream), ok_bind]
      simp only [htcp, hl, unwrap, ok_bind, pollListener]
      cases hq : n.queue l with
      | nil =>
        rw [if_pos hq] at hqueue
        rw [hqueue]
        exact ⟨_, rfl⟩
      | cons stream rest =>
        rw [if_neg (hq ▸ List.cons_ne_nil _ _)] at hqueue
        rw [hqueue]
        exact ⟨_, rfl⟩

/-- the answer for a socket depends on what waits at its own listener only -/
theorem readSocket_congr (hqueue : ∀ l, obj.tcpListener = some l → n'.queue l = n.queue l) :
    Prod.fst <$> readSocket polls shouldBlock n' fd obj = Prod.fst <$> readSocket polls shouldBlock n fd obj := by
  unfold readSocket
  split_ifs
  · cases unwrap obj.udpSocket .hostSocket with
    | error e => rfl
    | ok udp =>
      simp only [ok_bind]
      cases peeked false shouldBlock (polls.udp udp) <;> rfl
  · cases assert (obj.type == sockStream) .socketKind with
    | error e => rfl
    | ok u =>
      simp only [ok_bind]
      cases obj.tcpStream with
      | some stream =>
        simp only
        cases peeked true shouldBlock (polls.tcp stream) <;> rfl
      | none =>
        cases hl : obj.tcpListener with
        | none => rfl
        | some l =>
          simp only [unwrap, ok_bind, pollListener]
          rw [hqueue l hl]
          cases n.queue l with
          | nil => cases assert (!shouldBlock) .todo <;> rfl
          | cons stream rest => cases assert obj.pendingTcpStream.isNone .hostSocket <;> rfl

theorem readBit_local (polls : Polls) (shouldBlock : Bool) : Local (readBit polls shouldBlock) Apart Parks where
  refl := .refl
  trans _ _ _ := .trans
  bit n fd r n' hap h := by
    obtain ⟨-, hparks, -, hcases⟩ := readBit_ok hap h
    refine ⟨hparks.apart hap, hparks, fun fd' hne => ?_⟩
    rcases hcases with rfl | ⟨obj, l, stream, rest, hobj, hl, rfl⟩
    · rfl
    · have hne' : (fd' : ℤ) ≠ fd := fun h => hne (Int.ofNat.inj h)
      have hsocket : (n.park fd obj l stream rest).table.sockets fd' = n.table.sockets fd' := Function.update_of_ne hne' _ _
      have hat : (n.park fd obj l stream rest).socketAt fd' = n.socketAt fd' := by
        unfold socketAt Descriptors.getSocket
        rw [hsocket]
        rfl
      unfold answer
      rw [readBit, readBit, hat]
      cases hobj' : n.socketAt fd' with
      | error e => rfl
      | ok obj' =>
        rw [ok_bind, ok_bind]
        refine readSocket_congr fun l' hl' => Function.update_of_ne ?_ _ _
        rintro rfl
        exact hne' (hap fd fd' obj obj' hobj (socketAt_ok hobj') (by rw [hl]; rfl) (hl'.trans hl.symm))

/-- the other sets change nothing -/
theorem local_of_same {processBit : Net → ℕ → Except Panic (Bool × Net)}
    (h : ∀ n fd r n', processBit n fd = .ok (r, n') → n' = n) : Local processBit Apart Parks where
  refl := .refl
  trans _ _ _ := .trans
  bit n fd r n' hap hp := by
    rw [h n fd r n' hp]
    exact ⟨hap, .refl n, fun _ _ => rfl⟩

theorem writeBit_same (n : Net) (fd : ℕ) (r : Bool) (n' : Net) (h : writeBit shouldBlock n fd = .ok (r, n')) : n' = n := by
  obtain ⟨obj, -, h⟩ := bind_eq_ok.1 h
  split_ifs at h
  · obtain ⟨u, -, h⟩ := bind_eq_ok.1 h
    cases h
    rfl
  · obtain ⟨u, -, h⟩ := bind_eq_ok.1 h
    obtain ⟨u, -, h⟩ := bind_eq_ok.1 h
    obtain ⟨u, -, h⟩ := bind_eq_ok.1 h
    cases h
    rfl

theorem errorBit_same (n : Net) (fd : ℕ) (r : Bool) (n' : Net) (h : errorBit polls n fd = .ok (r, n')) : n' = n := by
  obtain ⟨obj, -, h⟩ := bind_eq_ok.1 h
  obtain ⟨u, -, h⟩ := bind_eq_ok.1 h
  obtain ⟨u, -, h⟩ := bind_eq_ok.1 h
  obtain ⟨stream, -, h⟩ := bind_eq_ok.1 h
  obtain ⟨u, -, h⟩ := bind_eq_ok.1 h
  cases h
  rfl

theorem writeBit_isOk (hs : n.table.Sound) :
    (∃ res, writeBit shouldBlock n fd = .ok res) ↔ WriteAnswers shouldBlock n fd := by
  constructor
  · rintro ⟨res, h⟩
    obtain ⟨obj, hobj, h⟩ := bind_eq_ok.1 h
    refine ⟨obj, socketAt_ok hobj, ?_⟩
    split_ifs at h with hdgram
    · obtain ⟨u, hready, h⟩ := bind_eq_ok.1 h
      exact .inl ⟨hdgram, by simpa using assert_cases hready⟩
    · obtain ⟨u, hstream, h⟩ := bind_eq_ok.1 h
      obtain ⟨u, hlistener, h⟩ := bind_eq_ok.1 h
      obtain ⟨u, hready, h⟩ := bind_eq_ok.1 h
      exact .inr ⟨beq_iff_eq.1 (assert_cases hstream), Option.isNone_iff_eq_none.1 (assert_cases hlistener),
        by simpa using assert_cases hready⟩
  · rintro ⟨obj, hobj, hanswer⟩
    rw [writeBit, socketAt_some hs hobj, ok_bind]
    rcases hanswer with ⟨hdgram, hready⟩ | ⟨hstream, hlistener, hready⟩
    · rw [if_pos hdgram, assert_ok (by simpa using hready)]
      exact ⟨_, rfl⟩
    · rw [if_neg (hstream ▸ by decide), assert_ok (beq_iff_eq.2 hstream), ok_bind, hlistener, assert_ok Option.isNone_none,
        ok_bind, assert_ok (by simpa using hready)]
      exact ⟨_, rfl⟩

theorem errorBit_isOk (hs : n.table.Sound) : (∃ res, errorBit polls n fd = .ok res) ↔ ErrorAnswers polls n fd := by
  constructor
  · rintro ⟨res, h⟩
    obtain ⟨obj, hobj, h⟩ := bind_eq_ok.1 h
    obtain ⟨u, hstream, h⟩ := bind_eq_ok.1 h
    obtain ⟨u, hlistener, h⟩ := bind_eq_ok.1 h
    obtain ⟨stream, htcp, h⟩ := bind_eq_ok.1 h
    obtain ⟨u, hno, h⟩ := bind_eq_ok.1 h
    refine ⟨obj, stream, socketAt_ok hobj, beq_iff_eq.1 (assert_cases hstream),
      Option.isNone_iff_eq_none.1 (assert_cases hlistener), ?_, assert_cases hno⟩
    unfold unwrap at htcp
    split at htcp <;> cases htcp
    assumption
  · rintro ⟨obj, stream, hobj, hstream, hlistener, htcp, hno⟩
    rw [errorBit, socketAt_some hs hobj, ok_bind, assert_ok (beq_iff_eq.2 hstream), ok_bind, hlistener, htcp]
    simp only [Option.isNone_none, assert_ok, unwrap, ok_bind, hno]
    exact ⟨_, rfl⟩

/-! ## What `select` gives -/

theorem Parks.sound (h : Parks n n') (hs : n.table.Sound) : n'.table.Sound := by
  intro fd
  have hkeys : (n'.table.sockets fd).isSome = (n.table.sockets fd).isSome := by
    rw [← Option.isSome_map, h.sockets fd, Option.isSome_map]
  have hfile : n'.table.fileForFd fd = n.table.fileForFd fd := by
    unfold Descriptors.fileForFd
    rw [h.files]
  rw [hkeys, Descriptors.HoldsSocket, hfile]
  exact hs fd

theorem Parks.writeAnswers (h : Parks n n') : WriteAnswers shouldBlock n' fd ↔ WriteAnswers shouldBlock n fd := by
  have hbare (m : Net) : WriteAnswers shouldBlock m fd ↔ ∃ obj, (m.table.sockets fd).map bare = some obj ∧
      ((obj.type = sockDgram ∧ (obj.udpSocket.isSome ∨ shouldBlock = false)) ∨
        (obj.type = sockStream ∧ obj.tcpListener = none ∧ (obj.tcpStream.isSome ∨ shouldBlock = false))) := by
    unfold WriteAnswers
    cases m.table.sockets fd <;> simp [bare]
  rw [hbare, hbare, h.sockets]

theorem Parks.errorAnswers (h : Parks n n') : ErrorAnswers polls n' fd ↔ ErrorAnswers polls n fd := by
  have hbare (m : Net) : ErrorAnswers polls m fd ↔ ∃ obj stream, (m.table.sockets fd).map bare = some obj ∧
      obj.type = sockStream ∧ obj.tcpListener = none ∧ obj.tcpStream = some stream ∧ polls.noError stream = true := by
    unfold ErrorAnswers
    cases m.table.sockets fd <;> simp [bare]
  rw [hbare, hbare, h.sockets]

/-- the descriptor is looked at -/
def Looks (nFds : ℤ) (set : Option FdSet) (fd : ℕ) : Prop :=
  (fd : ℤ) ≤ nFds ∧ ∃ s, set = some s ∧ s.getLsbD fd = true

/-- **When `select` returns**: the number of descriptors is one that it takes, and there is an answer for each of them -/
structure Answers (a : SelectArgs) (n : Net) : Prop where
  nFds : 0 < a.nFds ∧ a.nFds < 1024
  reads : ∀ fd, Looks a.nFds a.readFds fd → ReadAnswers a.polls a.shouldBlock n fd
  writes : ∀ fd, Looks a.nFds a.writeFds fd → WriteAnswers a.shouldBlock n fd
  errors : ∀ fd, Looks a.nFds a.errorFds fd → ErrorAnswers a.polls n fd

theorem mem_fdsUpTo {nFds : ℤ} : fd ∈ fdsUpTo nFds ↔ fd < 1024 ∧ (fd : ℤ) ≤ nFds := by
  rw [fdsUpTo, List.mem_range, lt_min_iff, Int.lt_toNat]
  exact and_congr_right fun _ => Int.lt_add_one_iff

theorem nodup_fdsUpTo {nFds : ℤ} : (fdsUpTo nFds).Nodup := List.nodup_range

section

variable {processBit : Net → ℕ → Except Panic (Bool × Net)} {I : Net → Prop} {R : Net → Net → Prop} {nFds : ℤ}
  {set set' : Option FdSet} {c : ℕ}

theorem processFds_isOk (hl : Local processBit I R) (hI : I n) : (∃ res, processFds processBit nFds set n = .ok res) ↔
    ∀ fd, Looks nFds set fd → ∃ r, processBit n fd = .ok r := by
  cases set with
  | none => exact iff_of_true ⟨_, rfl⟩ fun fd ⟨_, s, hs, _⟩ => nomatch hs
  | some set =>
    have hset : (∃ res, processFds processBit nFds (some set) n = .ok res) ↔
        ∃ res, processSet processBit (fdsUpTo nFds) set n = .ok res := by
      simp only [processFds]
      cases processSet processBit (fdsUpTo nFds) set n with
      | error e => exact iff_of_false (fun ⟨r, h⟩ => nomatch h) (fun ⟨r, h⟩ => nomatch h)
      | ok r => exact iff_of_true ⟨_, rfl⟩ ⟨_, rfl⟩
    rw [hset, processSet_isOk hl nodup_fdsUpTo hI]
    constructor
    · rintro h fd ⟨hle, s, hs, hbit⟩
      cases hs
      have hlt : fd < 1024 := BitVec.lt_of_getLsbD hbit
      exact h fd (mem_fdsUpTo.2 ⟨hlt, hle⟩) hbit
    · intro h fd hfd hbit
      exact h fd ⟨(mem_fdsUpTo.1 hfd).2, set, rfl, hbit⟩

theorem processFds_spec (hl : Local processBit I R) (hI : I n) (hp : processFds processBit nFds set n = .ok (c, set', n')) :
    I n' ∧ R n n' ∧ ∀ fd, Looks nFds set fd → ∃ s, set' = some s ∧ answer processBit n fd = .ok (s.getLsbD fd) := by
  cases set with
  | none =>
    cases hp
    exact ⟨hI, hl.refl _, fun fd ⟨_, s, hs, _⟩ => nomatch hs⟩
  | some set =>
    obtain ⟨⟨c, set₁, n₁⟩, hp, h⟩ := bind_eq_ok.1 hp
    cases h
    have hlt : ∀ fd ∈ fdsUpTo nFds, fd < 1024 := fun fd hfd => (mem_fdsUpTo.1 hfd).1
    obtain ⟨hI', hR, -, hin⟩ := processSet_spec hl nodup_fdsUpTo hlt hI hp
    refine ⟨hI', hR, ?_⟩
    rintro fd ⟨hle, s, hs, hbit⟩
    cases hs
    have hprocessed := hin fd (mem_fdsUpTo.2 ⟨BitVec.lt_of_getLsbD hbit, hle⟩)
    rw [Processed, if_pos hbit] at hprocessed
    exact ⟨set₁, rfl, hprocessed⟩

end

/-- `select` with its panics told apart from its results -/
theorem select_isOk (hs : n.table.Sound) (hap : Apart n) :
    (∃ res, select a n = .ok res) ↔ Answers a n := by
  have hs₀ : (n.table.setErrno 0).Sound := hs
  have hap₀ : Apart { n with table := n.table.setErrno 0 } := hap
  have hreads (fd : ℕ) : (∃ res, readBit a.polls a.shouldBlock { n with table := n.table.setErrno 0 } fd = .ok res) ↔
      ReadAnswers a.polls a.shouldBlock n fd := readBit_isOk (n := { n with table := n.table.setErrno 0 }) hs₀ hap₀
  constructor
  · rintro ⟨res, h⟩
    obtain ⟨u, hn, h⟩ := bind_eq_ok.1 h
    obtain ⟨⟨c₁, set₁, n₁⟩, h1, h⟩ := bind_eq_ok.1 h
    obtain ⟨⟨c₂, set₂, n₂⟩, h2, h⟩ := bind_eq_ok.1 h
    obtain ⟨⟨c₃, set₃, n₃⟩, h3, h⟩ := bind_eq_ok.1 h
    obtain ⟨hap₁, hp₁, -⟩ := processFds_spec (readBit_local _ _) hap₀ h1
    obtain ⟨hap₂, hp₂, -⟩ := processFds_spec (local_of_same writeBit_same) hap₁ h2
    refine ⟨by simpa using assert_cases hn, fun fd hfd => ?_, fun fd hfd => ?_, fun fd hfd => ?_⟩
    · have hok := (processFds_isOk (readBit_local _ _) hap₀).1 ⟨_, h1⟩ fd hfd
      exact (hreads fd).1 hok
    · have hok := (processFds_isOk (local_of_same writeBit_same) hap₁).1 ⟨_, h2⟩ fd hfd
      exact hp₁.writeAnswers.1 ((writeBit_isOk (hp₁.sound hs₀)).1 hok)
    · have hok := (processFds_isOk (local_of_same errorBit_same) hap₂).1 ⟨_, h3⟩ fd hfd
      exact (hp₁.trans hp₂).errorAnswers.1 ((errorBit_isOk ((hp₁.trans hp₂).sound hs₀)).1 hok)
  · rintro ⟨hn, hread, hwrite, herror⟩
    have hrange : (0 < a.nFds && a.nFds < 1024) = true := by simpa using hn
    obtain ⟨⟨c₁, set₁, n₁⟩, h1⟩ := (processFds_isOk (readBit_local a.polls a.shouldBlock) hap₀).2
      fun fd hfd => (hreads fd).2 (hread fd hfd)
    obtain ⟨hap₁, hp₁, -⟩ := processFds_spec (readBit_local _ _) hap₀ h1
    obtain ⟨⟨c₂, set₂, n₂⟩, h2⟩ := (processFds_isOk (local_of_same writeBit_same) hap₁).2
      fun fd hfd => (writeBit_isOk (hp₁.sound hs₀)).2 (hp₁.writeAnswers.2 (hwrite fd hfd))
    obtain ⟨hap₂, hp₂, -⟩ := processFds_spec (local_of_same writeBit_same) hap₁ h2
    have hp := hp₁.trans hp₂
    obtain ⟨⟨c₃, set₃, n₃⟩, h3⟩ := (processFds_isOk (local_of_same errorBit_same) hap₂).2
      fun fd hfd => (errorBit_isOk (hp.sound hs₀)).2 (hp.errorAnswers.2 (herror fd hfd))
    unfold select
    simp only [assert_ok hrange, ok_bind, h1, h2, h3]
    exact ⟨_, rfl⟩

/-- **What `select` reports and does**: a socket that waits for connections is readable exactly if one has come in that is
not parked yet; connections are parked and that is all. -/
theorem select_spec {res : SelectResult} (hap : Apart n) (h : select a n = .ok (res, n')) :
    Parks n n' ∧ ∀ fd, Looks a.nFds a.readFds fd → ∀ l, n.listener fd = some l →
      ∃ s, res.readFds = some s ∧ s.getLsbD fd = (n.queue l != []) := by
  have hap₀ : Apart { n with table := n.table.setErrno 0 } := hap
  obtain ⟨u, -, h⟩ := bind_eq_ok.1 h
  obtain ⟨⟨c₁, set₁, n₁⟩, h1, h⟩ := bind_eq_ok.1 h
  obtain ⟨⟨c₂, set₂, n₂⟩, h2, h⟩ := bind_eq_ok.1 h
  obtain ⟨⟨c₃, set₃, n₃⟩, h3, h⟩ := bind_eq_ok.1 h
  cases h
  obtain ⟨hap₁, hp₁, hreads⟩ := processFds_spec (readBit_local _ _) hap₀ h1
  obtain ⟨hap₂, hp₂, -⟩ := processFds_spec (local_of_same writeBit_same) hap₁ h2
  obtain ⟨-, hp₃, -⟩ := processFds_spec (local_of_same errorBit_same) hap₂ h3
  have hstart : Parks n { n with table := n.table.setErrno 0 } := ⟨rfl, rfl, fun _ => rfl, fun _ => rfl⟩
  refine ⟨hstart.trans ((hp₁.trans hp₂).trans hp₃), fun fd hfd l hl => ?_⟩
  obtain ⟨s, hs, hanswer⟩ := hreads fd hfd
  refine ⟨s, hs, ?_⟩
  unfold answer at hanswer
  cases hbit : readBit a.polls a.shouldBlock { n with table := n.table.setErrno 0 } fd with
  | error e =>
    rw [hbit] at hanswer
    cases hanswer
  | ok r =>
    obtain ⟨r, m⟩ := r
    rw [hbit] at hanswer
    rw [← Except.ok.inj hanswer]
    exact (readBit_ok hap₀ hbit).2.2.1 l hl

end

end Net

end TouchHLE
