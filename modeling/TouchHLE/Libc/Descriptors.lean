/-
File descriptors (`libc/posix_io.rs`) and the sockets behind some of them (`libc/sys/socket.rs`).

- `Descriptors`: the slots, the socket table and `errno`.
- `open`, `close`, `socket`, `accept`, `shutdown`: the operations that give and take descriptors. `bind`, `connect` and
  `selectListener` (the part of `select` that takes a connection) change a socket in its place.
- `Sound`: the keys of the socket table are the open descriptors whose slot holds a socket.
- `findOrCreateFd_least`: a new descriptor is the least one that is not open.
- `descriptors_consistent`: what holds of the table after every run.
-/
import TouchHLE.Lib.Slots
import TouchHLE.Mem.Memory

namespace TouchHLE

open Machine

/-! ## Open files -/

/-- an open file of the host, the bundle or the resources: its contents, and the offset of the next read -/
structure OpenFile where
  content : List UInt8
  position : ℕ
deriving DecidableEq, Repr

inductive GuestFile where
  | directory
  | file (f : OpenFile)
  | ipaBundleFile (f : OpenFile)
  | resourceFile (f : OpenFile)
  | socket
deriving DecidableEq, Repr

structure PosixFileHostObject where
  file : GuestFile
  needsFlush : Bool
  reachedEof : Bool
  flags : ℤ
deriving DecidableEq, Repr

structure GuestOpenOptions where
  read : Bool := false
  write : Bool := false
  append : Bool := false
  create : Bool := false
  truncate : Bool := false
deriving DecidableEq, Repr

/-- what opening a path in the guest file system gives, which is never a socket -/
abbrev Opened := {f : GuestFile // f ≠ .socket}

/-- the path of `open`: NULL, a string that is not UTF-8, or one that the file system is asked for -/
inductive OpenPath where
  | null
  | notUtf8
  | path (openWithOptions : GuestOpenOptions → Option Opened)

def oRdonly : BitVec 32 := 0x0
def oWronly : BitVec 32 := 0x1
def oRdwr : BitVec 32 := 0x2
def oAccmode : BitVec 32 := oRdwr ||| oWronly ||| oRdonly
def oNonblock : BitVec 32 := 0x4
def oAppend : BitVec 32 := 0x8
def oShlock : BitVec 32 := 0x10
def oNofollow : BitVec 32 := 0x100
def oCreat : BitVec 32 := 0x200
def oTrunc : BitVec 32 := 0x400
def oExcl : BitVec 32 := 0x800

def eBadf : ℤ := 9
def eProtonosupport : ℤ := 43

/-! ## Sockets -/

def afInet : ℤ := 2
def sockStream : ℤ := 1
def sockDgram : ℤ := 2
def ipprotoTcp : ℤ := 6
def ipprotoUdp : ℤ := 17
def shutRdwr : ℤ := 2

/-- a stream of the host, with the address of its peer (none if the host cannot tell it) -/
structure TcpStream where
  handle : ℕ
  peerAddr : Option (List UInt8 × UInt16)
deriving DecidableEq, Repr

structure SocketHostObject where
  type : ℤ
  tcpListener : Option ℕ
  pendingTcpStream : Option TcpStream
  tcpStream : Option TcpStream
  udpSocket : Option ℕ
deriving DecidableEq, Repr

/-- the bytes of a `sockaddr` -/
def sockaddrBytes (octets : List UInt8) (port : UInt16) : List UInt8 :=
  [16, UInt8.ofNat afInet.toNat, UInt8.ofNat (port.toNat / 256), UInt8.ofNat (port.toNat % 256)] ++ octets.take 4 ++
    List.replicate 8 0

structure Descriptors where
  /-- the descriptors other than stdin, stdout and stderr -/
  files : List (Option PosixFileHostObject)
  sockets : ℤ → Option SocketHostObject
  errno : ℤ
  networkAccess : Bool
  mem : Mem

namespace Descriptors

/-! ## The functions -/

def setErrno (s : Descriptors) (val : ℤ) : Descriptors := { s with errno := val }

def setSocket (s : Descriptors) (fd : ℤ) (obj : Option SocketHostObject) : Descriptors :=
  { s with sockets := Function.update s.sockets fd obj }

def fileIdxToFd (idx : ℕ) : Except Panic ℤ := if (idx : ℤ) + 3 < 2 ^ 31 then .ok (idx + 3) else .error .conversion

/-- for the descriptors from 3 on -/
def fdToFileIdx (fd : ℤ) : ℕ := (fd - 3).toNat

/-- nothing for the descriptors below 3, whose index is past the end of every vector -/
def fileForFd (s : Descriptors) (fd : ℤ) : Option PosixFileHostObject :=
  if fd < 3 then none else Slots.get s.files (fdToFileIdx fd)

def findOrCreateFd (s : Descriptors) (hostObject : PosixFileHostObject) : Except Panic (ℤ × Descriptors) := do
  let fd ← fileIdxToFd (Slots.firstFree s.files)
  pure (fd, { s with files := Slots.insert s.files hostObject })

def findOrCreateSocket (s : Descriptors) : Except Panic (ℤ × Descriptors) :=
  s.findOrCreateFd { file := .socket, needsFlush := false, reachedEof := false, flags := 0 }

def accessOptions (flags : BitVec 32) : Except Panic (GuestOpenOptions × Bool) :=
  if flags &&& oAccmode = oRdonly then pure ({ read := true }, false)
  else if flags &&& oAccmode = oWronly then pure ({ write := true }, true)
  else if flags &&& oAccmode = oRdwr then pure ({ read := true, write := true }, true)
  else throw .openFlags

def openDirect (s : Descriptors) (path : OpenPath) (flags : BitVec 32) : Except Panic (ℤ × Descriptors) := do
  assert (flags &&& ~~~(oAccmode ||| oNonblock ||| oAppend ||| oShlock ||| oNofollow ||| oCreat ||| oTrunc ||| oExcl)
    == 0) .openFlags
  assert (flags &&& oExcl == 0) .openFlags
  if path matches .null then pure (-1, s)
  else do
    let (options, needsFlush) ← accessOptions flags
    let options := { options with
      append := flags &&& oAppend != 0
      create := flags &&& oCreat != 0
      truncate := flags &&& oTrunc != 0 }
    match path with
    | .path openWithOptions =>
      match openWithOptions options with
      | some file => s.findOrCreateFd { file := file.1, needsFlush, reachedEof := false, flags := 0 }
      | none => pure (-1, s)
    | _ => pure (-1, s)

def «open» (s : Descriptors) (path : OpenPath) (flags : BitVec 32) : Except Panic (ℤ × Descriptors) :=
  (s.setErrno 0).openDirect path flags

/-- `synced`: whether `sync_all` succeeds -/
def close (s : Descriptors) (fd : ℤ) (synced : Bool) : ℤ × Descriptors :=
  let s := s.setErrno 0
  if fd = 0 ∨ fd = 1 ∨ fd = 2 then (0, s)
  else if fd < 0 ∨ s.files.length ≤ fdToFileIdx fd then (-1, s.setErrno eBadf)
  else
    let taken := { s with files := Slots.clear s.files (fdToFileIdx fd) }
    match Slots.get s.files (fdToFileIdx fd) with
    | some file =>
      match file.file with
      | .directory => (0, taken)
      | .socket => (0, taken.setSocket fd none)
      | _ => if !file.needsFlush then (0, taken) else if synced then (0, taken) else (-1, taken)
    | none => (-1, s.setErrno eBadf)

def newSocket (type : ℤ) (tcpStream : Option TcpStream) : SocketHostObject :=
  { type, tcpListener := none, pendingTcpStream := none, tcpStream, udpSocket := none }

/-- a fresh descriptor and its entry in the socket table -/
def addSocket (s : Descriptors) (obj : SocketHostObject) : Except Panic (ℤ × Descriptors) := do
  let (fd, s) ← s.findOrCreateSocket
  assert (s.sockets fd).isNone .socketExists
  pure (fd, s.setSocket fd (some obj))

def socket (s : Descriptors) (domain type protocol : ℤ) : Except Panic (ℤ × Descriptors) := do
  let s := s.setErrno 0
  if !s.networkAccess then pure (-1, s.setErrno eProtonosupport)
  else do
    assert (domain == afInet) .socketKind
    assert (type == sockStream || type == sockDgram) .socketKind
    assert (protocol == ipprotoTcp || protocol == ipprotoUdp || protocol == 0) .socketKind
    s.addSocket (newSocket type none)

/-- `sockets.get(&fd).unwrap()` -/
def getSocket (s : Descriptors) (fd : ℤ) : Except Panic SocketHostObject :=
  match s.sockets fd with
  | some obj => .ok obj
  | none => .error .noSocket

def accept (s : Descriptors) (socket : ℤ) (address addressLen : ℕ) : Except Panic (ℤ × Descriptors) := do
  let obj ← s.getSocket socket
  assert (obj.type == sockStream) .noSocket
  match obj.pendingTcpStream with
  | some stream => do
    let s := s.setSocket socket (some { obj with pendingTcpStream := none })
    match stream.peerAddr with
    | none => throw .hostSocket
    | some (octets, port) => do
      let (newFd, s) ← s.addSocket (newSocket sockStream (some stream))
      assert (address != 0) .addressArgs
      let mem ← s.mem.writeBytes address (sockaddrBytes octets port)
      let len ← mem.readU32 addressLen
      assert (len == 16) .addressArgs
      let mem ← mem.writeU32 addressLen 16
      pure (newFd, { s with mem })
  -- a connection that is accepted right here is not supported, and waiting for one is not either
  | none => throw .todo

/-- changing the entry of a socket in its place -/
def modifySocket (s : Descriptors) (fd : ℤ) (f : SocketHostObject → Except Panic SocketHostObject) :
    Except Panic Descriptors := do
  let obj ← s.getSocket fd
  let obj ← f obj
  pure (s.setSocket fd (some obj))

/-- `hostSocket`: the socket that the host binds -/
def bind (s : Descriptors) (fd : ℤ) (hostSocket : ℕ) : Except Panic (ℤ × Descriptors) := do
  let s ← (s.setErrno 0).modifySocket fd fun obj =>
    if obj.type = sockStream then do
      assert obj.tcpListener.isNone .hostSocket
      pure { obj with tcpListener := some hostSocket }
    else do
      assert (obj.type == sockDgram) .noSocket
      assert obj.udpSocket.isNone .hostSocket
      pure { obj with udpSocket := some hostSocket }
  pure (0, s)

/-- `stream`: the connection that the host makes -/
def connect (s : Descriptors) (fd : ℤ) (stream : TcpStream) : Except Panic (ℤ × Descriptors) := do
  let s ← (s.setErrno 0).modifySocket fd fun obj => do
    assert (obj.type == sockStream) .noSocket
    assert obj.tcpStream.isNone .hostSocket
    pure { obj with tcpStream := some stream }
  pure (0, s)

/-- `select` at a socket that waits for connections when the host has accepted one -/
def selectListener (s : Descriptors) (fd : ℤ) (stream : TcpStream) : Except Panic (ℤ × Descriptors) := do
  let s ← (s.setErrno 0).modifySocket fd fun obj => do
    assert (obj.type == sockStream && obj.tcpStream.isNone) .noSocket
    assert obj.tcpListener.isSome .hostSocket
    assert obj.pendingTcpStream.isNone .hostSocket
    pure { obj with pendingTcpStream := some stream }
  pure (1, s)

def shutdown (s : Descriptors) (fd how : ℤ) (synced : Bool) : Except Panic (ℤ × Descriptors) := do
  assert (how == shutRdwr) .socketKind
  pure (s.close fd synced)

/-! ## Runs -/

inductive Op where
  | open (path : OpenPath) (flags : BitVec 32)
  | close (fd : ℤ) (synced : Bool)
  | socket (domain type protocol : ℤ)
  | accept (socket : ℤ) (address addressLen : ℕ)
  | shutdown (fd how : ℤ) (synced : Bool)
  | bind (fd : ℤ) (hostSocket : ℕ)
  | connect (fd : ℤ) (stream : TcpStream)
  | selectListener (fd : ℤ) (stream : TcpStream)

def call (s : Descriptors) : Op → Except Panic (ℤ × Descriptors)
  | .open path flags => s.open path flags
  | .close fd synced => .ok (s.close fd synced)
  | .socket domain type protocol => s.socket domain type protocol
  | .accept socket address addressLen => s.accept socket address addressLen
  | .shutdown fd how synced => s.shutdown fd how synced
  | .bind fd hostSocket => s.bind fd hostSocket
  | .connect fd stream => s.connect fd stream
  | .selectListener fd stream => s.selectListener fd stream

def step (s : Descriptors) (o : Op) : Except Panic Descriptors := Prod.snd <$> s.call o

def init (networkAccess : Bool) (mem : Mem) : Descriptors :=
  { files := [], sockets := fun _ => none, errno := 0, networkAccess, mem }

/-- stdin, stdout and stderr are always open; of the other descriptors those whose slot holds a file are -/
def IsOpen (s : Descriptors) (fd : ℤ) : Prop := fd = 0 ∨ fd = 1 ∨ fd = 2 ∨ (s.fileForFd fd).isSome

def HoldsSocket (s : Descriptors) (fd : ℤ) : Prop := ∃ obj, s.fileForFd fd = some obj ∧ obj.file = .socket

/-- **The invariant**: the socket table and the slots agree. -/
def Sound (s : Descriptors) : Prop := ∀ fd, (s.sockets fd).isSome ↔ s.HoldsSocket fd

/-! ## Slots and descriptors -/

variable {s s' : Descriptors} {fd fd' r : ℤ} {obj : PosixFileHostObject} {o : Op}

/-- a slot as its descriptor -/
theorem fileForFd_add (s : Descriptors) (i : ℕ) : s.fileForFd (i + 3) = Slots.get s.files i := by
  rw [fileForFd, if_neg (by omega), fdToFileIdx]
  congr 1
  omega

theorem fdToFileIdx_add (h : 3 ≤ fd) : (fdToFileIdx fd : ℤ) + 3 = fd := by
  unfold fdToFileIdx
  omega

theorem isOpen_iff (h : 3 ≤ fd) : s.IsOpen fd ↔ (s.fileForFd fd).isSome := by
  unfold IsOpen
  constructor
  · rintro (h0 | h0 | h0 | h0)
    · omega
    · omega
    · omega
    · exact h0
  · exact fun h0 => .inr (.inr (.inr h0))

theorem findOrCreateFd_cases (h : s.findOrCreateFd obj = .ok (fd, s')) :
    fd = Slots.firstFree s.files + 3 ∧ fd < 2 ^ 31 ∧ s' = { s with files := Slots.insert s.files obj } := by
  obtain ⟨fd1, h1, h2⟩ := bind_eq_ok.1 h
  unfold fileIdxToFd at h1
  split_ifs at h1 with hlt
  cases h1
  cases h2
  exact ⟨rfl, hlt, rfl⟩

/-- A new descriptor takes its slot and no other. -/
theorem fileForFd_insert (s : Descriptors) (obj : PosixFileHostObject) (fd : ℤ) :
    ({ s with files := Slots.insert s.files obj } : Descriptors).fileForFd fd =
      if fd = Slots.firstFree s.files + 3 then some obj else s.fileForFd fd := by
  by_cases h3 : fd < 3
  · rw [if_neg (by omega), fileForFd, fileForFd, if_pos h3, if_pos h3]
  · obtain ⟨i, rfl⟩ : ∃ i : ℕ, fd = i + 3 := ⟨fdToFileIdx fd, (fdToFileIdx_add (Int.le_of_not_gt h3)).symm⟩
    rw [fileForFd_add, fileForFd_add, Slots.get_insert]
    simp only [add_left_inj, Nat.cast_inj]

theorem fileForFd_clear (s : Descriptors) (hfd : 3 ≤ fd) (fd' : ℤ) :
    ({ s with files := Slots.clear s.files (fdToFileIdx fd) } : Descriptors).fileForFd fd' =
      if fd' = fd then none else s.fileForFd fd' := by
  by_cases h3 : fd' < 3
  · rw [if_neg (by omega), fileForFd, fileForFd, if_pos h3, if_pos h3]
  · obtain ⟨i, rfl⟩ : ∃ i : ℕ, fd' = i + 3 := ⟨fdToFileIdx fd', (fdToFileIdx_add (Int.le_of_not_gt h3)).symm⟩
    have hiff : i = fdToFileIdx fd ↔ (i : ℤ) + 3 = fd := by
      have := fdToFileIdx_add hfd
      omega
    rw [fileForFd_add, fileForFd_add, Slots.get_clear]
    simp only [hiff]

/-- **A new descriptor** is the least one from 3 on that is not open, and there is none if all up to `i32::MAX` are. -/
theorem findOrCreateFd_least (s : Descriptors) (obj : PosixFileHostObject) :
    (∀ fd s', s.findOrCreateFd obj = .ok (fd, s') →
      IsLeast {fd | 3 ≤ fd ∧ ¬ s.IsOpen fd} fd ∧ s'.fileForFd fd = some obj) ∧
    ((∃ res, s.findOrCreateFd obj = .ok res) ↔ ∃ fd, 3 ≤ fd ∧ fd < 2 ^ 31 ∧ ¬ s.IsOpen fd) := by
  have hfree : ∀ fd, 3 ≤ fd → (¬ s.IsOpen fd ↔ Slots.get s.files (fdToFileIdx fd) = none) := by
    intro fd h3
    rw [isOpen_iff h3, ← fdToFileIdx_add h3, fileForFd_add, Option.not_isSome_iff_eq_none, fdToFileIdx_add h3]
  have hleast := Slots.insert_least s.files
  constructor
  · intro fd s' h
    obtain ⟨rfl, -, rfl⟩ := findOrCreateFd_cases h
    refine ⟨⟨⟨by omega, ?_⟩, ?_⟩, ?_⟩
    · rw [hfree _ (by omega)]
      have hidx : fdToFileIdx ((Slots.firstFree s.files : ℤ) + 3) = Slots.firstFree s.files := by
        unfold fdToFileIdx
        omega
      rw [hidx]
      exact hleast.1
    · rintro fd' ⟨h3, hno⟩
      have hle : Slots.firstFree s.files ≤ fdToFileIdx fd' := hleast.2 ((hfree fd' h3).1 hno)
      have := fdToFileIdx_add h3
      omega
    · rw [fileForFd_insert, if_pos rfl]
  · constructor
    · rintro ⟨⟨fd, s'⟩, h⟩
      obtain ⟨rfl, hlt, -⟩ := findOrCreateFd_cases h
      refine ⟨_, by omega, hlt, ?_⟩
      rw [isOpen_iff (by omega), fileForFd_add, Slots.get_firstFree]
      exact Bool.false_ne_true
    · rintro ⟨fd, h3, hlt, hno⟩
      have hle : Slots.firstFree s.files ≤ fdToFileIdx fd := hleast.2 ((hfree fd h3).1 hno)
      have := fdToFileIdx_add h3
      have hok : fileIdxToFd (Slots.firstFree s.files) = .ok ((Slots.firstFree s.files : ℤ) + 3) := if_pos (by omega)
      exact ⟨_, by rw [findOrCreateFd, hok, ok_bind, pure_eq_ok]⟩

/-! ## Closing -/

/-- **Closing**: what can happen. -/
theorem close_cases (s : Descriptors) (fd : ℤ) (synced : Bool) :
    ((fd = 0 ∨ fd = 1 ∨ fd = 2) ∧ s.close fd synced = (0, s.setErrno 0)) ∨
    (¬ s.IsOpen fd ∧ s.close fd synced = (-1, s.setErrno eBadf)) ∨
    ∃ obj, 3 ≤ fd ∧ s.fileForFd fd = some obj ∧
      (s.close fd synced).2 = { s with
        files := Slots.clear s.files (fdToFileIdx fd)
        sockets := if obj.file = .socket then Function.update s.sockets fd none else s.sockets
        errno := 0 } := by
  unfold close
  by_cases hstd : fd = 0 ∨ fd = 1 ∨ fd = 2
  · exact .inl ⟨hstd, by simp only [if_pos hstd]⟩
  right
  simp only [if_neg hstd]
  by_cases hbad : fd < 0 ∨ (s.setErrno 0).files.length ≤ fdToFileIdx fd
  · left
    rw [if_pos hbad]
    refine ⟨?_, rfl⟩
    unfold IsOpen fileForFd
    push Not at hstd
    rintro (h | h | h | h)
    · exact hstd.1 h
    · exact hstd.2.1 h
    · exact hstd.2.2 h
    · rcases hbad with hneg | hlen
      · rw [if_pos (by omega)] at h
        exact absurd h (by decide)
      · have hnone : Slots.get s.files (fdToFileIdx fd) = none := Slots.get_of_ge hlen
        rw [hnone, ite_self] at h
        exact absurd h (by decide)
  · rw [if_neg hbad]
    have h3 : 3 ≤ fd := by omega
    have hfd : s.fileForFd fd = Slots.get s.files (fdToFileIdx fd) := if_neg (by omega)
    have hget : Slots.get (s.setErrno 0).files (fdToFileIdx fd) = s.fileForFd fd := hfd.symm
    rw [hget]
    cases hobj : s.fileForFd fd with
    | none =>
      left
      refine ⟨?_, rfl⟩
      rw [isOpen_iff h3, hobj]
      exact Bool.false_ne_true
    | some obj =>
      right
      refine ⟨obj, h3, rfl, ?_⟩
      simp only
      cases hfile : obj.file with
      | directory => rfl
      | socket => rfl
      | file f | ipaBundleFile f | resourceFile f =>
        cases hn : obj.needsFlush
        · rfl
        · cases synced <;> rfl

/-- Closing leaves every other descriptor as it is. -/
theorem close_frame (s : Descriptors) (synced : Bool) (h : fd' ≠ fd) :
    (s.close fd synced).2.fileForFd fd' = s.fileForFd fd' ∧ (s.close fd synced).2.sockets fd' = s.sockets fd' := by
  rcases close_cases s fd synced with ⟨-, hc⟩ | ⟨-, hc⟩ | ⟨obj, h3, -, hc⟩
  · rw [hc]
    exact ⟨rfl, rfl⟩
  · rw [hc]
    exact ⟨rfl, rfl⟩
  · rw [hc]
    refine ⟨?_, ?_⟩
    · calc _ = ({ s with files := Slots.clear s.files (fdToFileIdx fd) } : Descriptors).fileForFd fd' := rfl
        _ = s.fileForFd fd' := by rw [fileForFd_clear s h3, if_neg h]
    · simp only
      split
      · exact Function.update_of_ne h _ _
      · rfl

/-- what was open is not any more -/
theorem close_closed (s : Descriptors) (synced : Bool) (h : 3 ≤ fd) : ¬ (s.close fd synced).2.IsOpen fd := by
  rw [isOpen_iff h, Option.not_isSome_iff_eq_none]
  rcases close_cases s fd synced with ⟨hstd, -⟩ | ⟨hno, hc⟩ | ⟨obj, -, -, hc⟩
  · omega
  · rw [hc]
    exact Option.not_isSome_iff_eq_none.1 (mt (isOpen_iff h).2 hno)
  · rw [hc]
    calc _ = ({ s with files := Slots.clear s.files (fdToFileIdx fd) } : Descriptors).fileForFd fd := rfl
      _ = none := by rw [fileForFd_clear s h, if_pos rfl]

/-! ## The invariant -/

theorem init_sound (networkAccess : Bool) (mem : Mem) : (init networkAccess mem).Sound := by
  intro fd
  constructor
  · intro h
    exact absurd h Bool.false_ne_true
  · rintro ⟨obj, h, -⟩
    have hnone : (init networkAccess mem).fileForFd fd = none := by
      rw [fileForFd, init, Slots.get_of_ge (Nat.zero_le _), ite_self]
    rw [hnone] at h
    exact absurd h (Option.some_ne_none _).symm

/-- What holds of the slots and the sockets does not depend on the rest. -/
theorem Sound.congr (h : s.Sound) (hf : s'.files = s.files) (hk : s'.sockets = s.sockets) : s'.Sound := by
  intro fd
  have hfile : s'.fileForFd fd = s.fileForFd fd := by rw [fileForFd, fileForFd, hf]
  rw [hk, h fd, HoldsSocket, HoldsSocket, hfile]

theorem Sound.close (h : s.Sound) (fd : ℤ) (synced : Bool) : (s.close fd synced).2.Sound := by
  intro fd'
  by_cases heq : fd' = fd
  · subst heq
    rcases close_cases s fd' synced with ⟨-, hc⟩ | ⟨-, hc⟩ | ⟨obj, h3, hobj, hc⟩
    · rw [hc]
      exact h fd'
    · rw [hc]
      exact h fd'
    · -- the entry goes with the slot
      have hgone : (s.close fd' synced).2.fileForFd fd' = none :=
        Option.not_isSome_iff_eq_none.1 (mt (isOpen_iff h3).2 (close_closed s synced h3))
      have hno : ¬ (s.close fd' synced).2.HoldsSocket fd' := by
        rintro ⟨obj', h', -⟩
        rw [hgone] at h'
        exact absurd h' (Option.some_ne_none _).symm
      have hkey : (s.close fd' synced).2.sockets fd' = none := by
        rw [hc]
        simp only
        split_ifs with hsock
        · exact Function.update_self _ _ _
        · rw [← Option.not_isSome_iff_eq_none, h fd']
          rintro ⟨obj', h', hs'⟩
          rw [hobj] at h'
          cases h'
          exact hsock hs'
      rw [hkey]
      exact ⟨fun hs => absurd hs Bool.false_ne_true, fun hs => absurd hs hno⟩
  · obtain ⟨hfile, hkey⟩ := close_frame s synced heq
    rw [hkey, h fd', HoldsSocket, HoldsSocket, hfile]

/-- what a new descriptor changes -/
theorem findOrCreateFd_frame (h : s.findOrCreateFd obj = .ok (fd, s')) :
    s.fileForFd fd = none ∧ s'.sockets = s.sockets ∧
      ∀ fd', s'.fileForFd fd' = if fd' = fd then some obj else s.fileForFd fd' := by
  obtain ⟨rfl, -, rfl⟩ := findOrCreateFd_cases h
  refine ⟨?_, rfl, fileForFd_insert s obj⟩
  rw [fileForFd_add, Slots.get_firstFree]

/-- a new descriptor that is not a socket -/
theorem Sound.findOrCreateFd (h : s.Sound) (hobj : obj.file ≠ .socket) (hf : s.findOrCreateFd obj = .ok (fd, s')) :
    s'.Sound := by
  obtain ⟨hnone, hkeys, hfile⟩ := findOrCreateFd_frame hf
  intro fd'
  rw [hkeys, h fd', HoldsSocket, HoldsSocket, hfile]
  split_ifs with heq
  · subst heq
    rw [hnone]
    constructor
    · rintro ⟨obj', h', -⟩
      exact absurd h' (Option.some_ne_none _).symm
    · rintro ⟨obj', h', hs⟩
      cases h'
      exact absurd hs hobj
  · exact Iff.rfl

/-- The socket table has no entry for a fresh descriptor yet, so a new socket always gets one. -/
theorem addSocket_ok (h : s.Sound) (sock : SocketHostObject) : s.addSocket sock = (do
    let (fd, s') ← s.findOrCreateSocket
    pure (fd, s'.setSocket fd (some sock))) := by
  unfold addSocket
  cases hf : s.findOrCreateSocket with
  | error e => rfl
  | ok res =>
    obtain ⟨fd, s'⟩ := res
    obtain ⟨hnone, hkeys, -⟩ := findOrCreateFd_frame hf
    have hfree : s'.sockets fd = none := by
      rw [hkeys, ← Option.not_isSome_iff_eq_none, h]
      rintro ⟨obj', h', -⟩
      rw [hnone] at h'
      exact absurd h' (Option.some_ne_none _).symm
    rw [ok_bind, ok_bind]
    simp only [hfree, Option.isNone_none, assert_ok, ok_bind]

theorem Sound.addSocket (h : s.Sound) {sock : SocketHostObject} (ha : s.addSocket sock = .ok (fd, s')) : s'.Sound := by
  rw [addSocket_ok h] at ha
  obtain ⟨⟨fd1, s1⟩, hf, h2⟩ := bind_eq_ok.1 ha
  obtain ⟨rfl, rfl⟩ := Prod.mk.inj (Except.ok.inj h2)
  obtain ⟨-, hkeys, hfile⟩ := findOrCreateFd_frame hf
  intro fd'
  change (Function.update s1.sockets fd1 (some sock) fd').isSome ↔ s1.HoldsSocket fd'
  unfold HoldsSocket
  rw [hfile, hkeys]
  by_cases heq : fd' = fd1
  · rw [heq, Function.update_self, if_pos rfl]
    exact ⟨fun _ => ⟨_, rfl, rfl⟩, fun _ => rfl⟩
  · rw [Function.update_of_ne heq, if_neg heq, h fd', HoldsSocket]

/-- an entry that is changed in its place -/
theorem Sound.setSocket (h : s.Sound) {sock sock' : SocketHostObject} (hs : s.getSocket fd = .ok sock) :
    (s.setSocket fd (some sock')).Sound := by
  intro fd'
  change (Function.update s.sockets fd (some sock') fd').isSome ↔ s.HoldsSocket fd'
  rw [← h fd']
  by_cases heq : fd' = fd
  · unfold getSocket at hs
    rw [heq, Function.update_self]
    cases hk : s.sockets fd with
    | none =>
      rw [hk] at hs
      cases hs
    | some sock => exact Iff.rfl
  · rw [Function.update_of_ne heq]

theorem Sound.modifySocket (h : s.Sound) {f : SocketHostObject → Except Panic SocketHostObject}
    (hm : s.modifySocket fd f = .ok s') : s'.Sound := by
  obtain ⟨sock, h1, h2⟩ := bind_eq_ok.1 hm
  obtain ⟨sock', -, h3⟩ := bind_eq_ok.1 h2
  cases h3
  exact h.setSocket h1

theorem Sound.setErrno (h : s.Sound) (val : ℤ) : (s.setErrno val).Sound := h.congr rfl rfl

theorem Sound.open (h : s.Sound) {path : OpenPath} {flags : BitVec 32} (ho : s.open path flags = .ok (fd, s')) :
    s'.Sound := by
  have h0 := h.setErrno 0
  unfold Descriptors.open openDirect at ho
  obtain ⟨-, -, ho⟩ := bind_eq_ok.1 ho
  obtain ⟨-, -, ho⟩ := bind_eq_ok.1 ho
  split_ifs at ho
  · cases ho
    exact h0
  · obtain ⟨⟨options, needsFlush⟩, -, ho⟩ := bind_eq_ok.1 ho
    simp only at ho
    split at ho
    · split at ho
      · rename_i file _
        exact h0.findOrCreateFd file.2 ho
      · cases ho
        exact h0
    · cases ho
      exact h0

theorem Sound.socket (h : s.Sound) {domain type protocol : ℤ} (hs : s.socket domain type protocol = .ok (fd, s')) :
    s'.Sound := by
  have h0 := h.setErrno 0
  unfold Descriptors.socket at hs
  simp only at hs
  split_ifs at hs
  · cases hs
    exact h0.setErrno _
  · obtain ⟨-, -, hs⟩ := bind_eq_ok.1 hs
    obtain ⟨-, -, hs⟩ := bind_eq_ok.1 hs
    obtain ⟨-, -, hs⟩ := bind_eq_ok.1 hs
    exact h0.addSocket hs

theorem Sound.accept (h : s.Sound) {address addressLen : ℕ} (ha : s.accept fd' address addressLen = .ok (fd, s')) :
    s'.Sound := by
  unfold Descriptors.accept at ha
  obtain ⟨sock, h1, ha⟩ := bind_eq_ok.1 ha
  obtain ⟨-, -, ha⟩ := bind_eq_ok.1 ha
  split at ha
  · simp only at ha
    split at ha
    · cases ha
    · obtain ⟨⟨newFd, s1⟩, h2, ha⟩ := bind_eq_ok.1 ha
      obtain ⟨-, -, ha⟩ := bind_eq_ok.1 ha
      obtain ⟨mem1, -, ha⟩ := bind_eq_ok.1 ha
      obtain ⟨len, -, ha⟩ := bind_eq_ok.1 ha
      obtain ⟨-, -, ha⟩ := bind_eq_ok.1 ha
      obtain ⟨mem2, -, ha⟩ := bind_eq_ok.1 ha
      cases ha
      exact ((h.setSocket h1).addSocket h2).congr rfl rfl
  · cases ha

/-- **Step rule.** -/
theorem step_sound (s : Descriptors) (o : Op) (s' : Descriptors) (h : s.Sound) (hs : step s o = .ok s') : s'.Sound := by
  unfold step call at hs
  cases hc : s.call o with
  | error e =>
    unfold call at hc
    rw [hc] at hs
    cases hs
  | ok res =>
    obtain ⟨r, s1⟩ := res
    have hs1 : s1 = s' := by
      unfold call at hc
      rw [hc] at hs
      exact Except.ok.inj hs
    subst hs1
    cases o with
    | «open» path flags => exact h.open hc
    | close fd synced =>
      obtain rfl : (s.close fd synced).2 = s1 := congrArg Prod.snd (Except.ok.inj hc)
      exact h.close fd synced
    | socket domain type protocol => exact h.socket hc
    | accept socket address addressLen => exact h.accept hc
    | shutdown fd how synced =>
      obtain ⟨-, -, hc⟩ := bind_eq_ok.1 hc
      obtain rfl : (s.close fd synced).2 = s1 := congrArg Prod.snd (Except.ok.inj hc)
      exact h.close fd synced
    | bind fd hostSocket | connect fd stream | selectListener fd stream =>
      obtain ⟨s2, hm, hc⟩ := bind_eq_ok.1 hc
      cases hc
      exact (h.setErrno 0).modifySocket hm

/-! ## The descriptor table -/

theorem close_bad (s : Descriptors) (synced : Bool) (h : ¬ s.IsOpen fd) : s.close fd synced = (-1, s.setErrno eBadf) := by
  rcases close_cases s fd synced with ⟨hstd, -⟩ | ⟨-, hc⟩ | ⟨obj, h3, hobj, -⟩
  · refine absurd ?_ h
    rcases hstd with h0 | h0 | h0
    · exact .inl h0
    · exact .inr (.inl h0)
    · exact .inr (.inr (.inl h0))
  · exact hc
  · refine absurd ((isOpen_iff h3).2 ?_) h
    rw [hobj, Option.isSome_some]

/-- what a program may rely on -/
structure Consistent (s : Descriptors) : Prop where
  /-- a new descriptor is the least one from 3 on that is not open -/
  leastFree : ∀ obj fd s', s.findOrCreateFd obj = .ok (fd, s') → IsLeast {fd | 3 ≤ fd ∧ ¬ s.IsOpen fd} fd ∧
    ∀ fd', s'.fileForFd fd' = if fd' = fd then some obj else s.fileForFd fd'
  /-- there is none only when every `i32` from 3 on is open -/
  available : ∀ obj, (∃ res, s.findOrCreateFd obj = .ok res) ↔ ∃ fd, 3 ≤ fd ∧ fd < 2 ^ 31 ∧ ¬ s.IsOpen fd
  slotsApart : ∀ fd fd', 3 ≤ fd → s.IsOpen fd → 3 ≤ fd' → s.IsOpen fd' → fdToFileIdx fd = fdToFileIdx fd' → fd = fd'
  closeFrame : ∀ fd synced fd', fd' ≠ fd →
    (s.close fd synced).2.fileForFd fd' = s.fileForFd fd' ∧ (s.close fd synced).2.sockets fd' = s.sockets fd'
  closeClosed : ∀ fd synced, 3 ≤ fd → ¬ (s.close fd synced).2.IsOpen fd
  closeBad : ∀ fd synced, ¬ s.IsOpen fd → s.close fd synced = (-1, s.setErrno eBadf)
  keys : ∀ fd, (s.sockets fd).isSome ↔ s.HoldsSocket fd

theorem Sound.consistent (h : s.Sound) : s.Consistent where
  leastFree obj fd s' hf := ⟨((findOrCreateFd_least s obj).1 fd s' hf).1, (findOrCreateFd_frame hf).2.2⟩
  available obj := (findOrCreateFd_least s obj).2
  slotsApart fd fd' h3 _ h3' _ heq := by rw [← fdToFileIdx_add h3, heq, fdToFileIdx_add h3']
  closeFrame _ synced _ hne := close_frame s synced hne
  closeClosed _ synced h3 := close_closed s synced h3
  closeBad _ synced hno := close_bad s synced hno
  keys := h

/-- **The descriptor table after every run**: new descriptors are the least ones, each has a slot of its own, closing
touches no other, and the socket table has exactly the open sockets. -/
theorem descriptors_consistent {networkAccess : Bool} {mem : Mem} {ops : List Op}
    (hr : run step (init networkAccess mem) ops = .ok s) : s.Consistent :=
  Sound.consistent (run_inv step_sound (init_sound networkAccess mem) hr)

/-- a directory and two sockets, of which the first two are closed in the end -/
def sampleOps : List Op :=
  [.open (.path fun _ => some ⟨.directory, nofun⟩) 0, .socket 2 1 0, .socket 2 2 17, .close 3 true, .close 4 true]

def sampleStart : Descriptors := init true ⟨fun _ => 0, 4096⟩

def sampleEnd : Descriptors := (run step sampleStart sampleOps).toOption.getD sampleStart

theorem descriptors_consistent_sample : sampleEnd.Consistent ∧ sampleEnd.HoldsSocket 5 ∧ ¬ sampleEnd.IsOpen 3 := by
  have hrun : run step sampleStart sampleOps = .ok sampleEnd := rfl
  refine ⟨descriptors_consistent hrun, ⟨_, rfl, rfl⟩, ?_⟩
  rw [isOpen_iff (by decide)]
  exact Bool.false_ne_true

end Descriptors

end TouchHLE
