/-
The functions of `libc/posix_io.rs` that take a descriptor, where it may be one that is not open.

- `HostFiles`: what the host does when one of its files is read, written, sought in, resized or synced.
- `read`, `write`, `lseek`, `pread`, `pwrite`, `fsync`, `ftruncate`, `fcntl`: the functions.
- `FdCall`, `Checked`, `bad_descriptor_iff`: which calls refuse a descriptor that is not open.
-/
import TouchHLE.Libc.Stdio

namespace TouchHLE

open Machine Words

/-! ## The host -/

/-- the kinds of errors that are told apart -/
inductive ErrorKind where
  | invalidInput
  | permissionDenied
  | unsupported
  | interrupted
  | other
deriving DecidableEq, Repr

/-- what the host makes of a file, and what it answers; nothing is an error -/
structure HostFiles where
  read : OpenFile → ℕ → Option (List UInt8) × OpenFile
  write : OpenFile → List UInt8 → Option ℕ × OpenFile
  seek : OpenFile → ℕ → Except ErrorKind Unit
  setLen : OpenFile → ℕ → Option OpenFile
  syncAll : OpenFile → Except ErrorKind Unit

namespace GuestFile

/-- the file that can be written to and resized -/
def hostFile : GuestFile → Except Panic OpenFile
  | .file f => .ok f
  | .ipaBundleFile _ | .resourceFile _ => .error .openOptions
  | .directory => .error .notAFile
  | .socket => .error .unimplemented

def syncAll (host : HostFiles) : GuestFile → Except ErrorKind Unit
  | .file f => host.syncAll f
  | .ipaBundleFile _ | .resourceFile _ | .directory => .ok ()
  | .socket => .error .unsupported

end GuestFile

def eIntr : ℤ := 4
def eIo : ℤ := 5
def eInval : ℤ := 22
def eSpipe : ℤ := 29
def eOverflow : ℤ := 75

def fGetfd : ℤ := 1
def fSetfd : ℤ := 2
def fGetlk : ℤ := 7
def fSetlk : ℤ := 8
def fRdadvise : ℤ := 44
def fNocache : ℤ := 48

def fdCloexec : ℤ := 1

def fRdlck : ℤ := 1
def fUnlck : ℤ := 2
def fWrlck : ℤ := 3

/-- `struct flock` -/
structure Flock where
  start : Int64
  len : Int64
  pid : Int32
  lockType : Int16
  whence : Int16
deriving DecidableEq

namespace Flock

def ofBytes (bytes : List UInt8) : Flock where
  start := Int64.ofNat (leNat (bytes.take 8))
  len := Int64.ofNat (leNat ((bytes.drop 8).take 8))
  pid := Int32.ofNat (leNat ((bytes.drop 16).take 4))
  lockType := Int16.ofNat (leNat ((bytes.drop 20).take 2))
  whence := Int16.ofNat (leNat ((bytes.drop 22).take 2))

def toBytes (lock : Flock) : List UInt8 :=
  leDigits 8 lock.start.toUInt64.toNat ++ leDigits 8 lock.len.toUInt64.toNat ++ leDigits 4 lock.pid.toUInt32.toNat ++
    leDigits 2 lock.lockType.toUInt16.toNat ++ leDigits 2 lock.whence.toUInt16.toNat

end Flock

namespace Descriptors

/-! ## The functions -/

/-- the host object behind a descriptor that is open has changed -/
def setFile (s : Descriptors) (fd : ℤ) (file : PosixFileHostObject) : Descriptors :=
  { s with files := s.files.set (fdToFileIdx fd) (some file) }

section

variable (host : HostFiles) (s : Descriptors) (fd : ℤ)

def read (buffer size : ℕ) : Except Panic (ℤ × Descriptors) :=
  let s := s.setErrno 0
  if buffer = 0 then pure (-1, s)
  else match s.fileForFd fd with
    | none => pure (-1, s)
    | some file => do
      s.mem.checkRange buffer size
      let f ← file.file.openFile
      match host.read f size with
      | (some bytes, f) => do
        -- never more than there is room for
        let bytes := bytes.take size
        let s := s.setFile fd { file with
          file := file.file.withOpenFile f
          reachedEof := file.reachedEof || (bytes.length == 0 && size != 0) }
        assert (bytes.length < 2 ^ 31) .conversion
        pure (bytes.length, { s with mem := { s.mem with bytes := store s.mem.bytes buffer bytes } })
      | (none, f) => pure (-1, s.setFile fd { file with file := file.file.withOpenFile f })

def write (buffer size : ℕ) : Except Panic (ℤ × Descriptors) := do
  let s := s.setErrno 0
  let file ← unwrap (s.fileForFd fd) .missing
  let bytes ← s.mem.readBytes buffer size
  let f ← file.file.hostFile
  match host.write f bytes with
  | (some bytesWritten, f) => do
    assert (bytesWritten < 2 ^ 31) .conversion
    pure (bytesWritten, s.setFile fd { file with file := .file f })
  | (none, f) => pure (-1, s.setFile fd { file with file := .file f })

def lseek (offset whence : ℤ) : Except Panic (ℤ × Descriptors) :=
  match s.fileForFd fd with
  | none => pure (-1, s.setErrno eBadf)
  | some file =>
    if !file.file.isSeekable then pure (-1, s.setErrno eSpipe)
    else do
      match ← file.startPosition whence with
      | none => pure (-1, s.setErrno eInval)
      | some startPosition =>
        let seekPosition := startPosition + offset
        if seekPosition < 0 ∨ 2 ^ 64 ≤ seekPosition then pure (-1, s.setErrno (if 0 ≤ offset then eOverflow else eInval))
        else if 2 ^ 63 - 1 < seekPosition then pure (-1, s.setErrno eOverflow)
        else do
          let f ← file.file.openFile
          match host.seek f seekPosition.toNat with
          | .ok () =>
            pure (seekPosition, s.setFile fd { file with
              file := file.file.withOpenFile { f with position := seekPosition.toNat }
              reachedEof := false })
          | .error .invalidInput => pure (-1, s.setErrno eInval)
          | .error _ => throw .unimplemented

/-- `pread` and `pwrite`: the transfer takes place at an offset, between two seeks -/
def positioned (transfer : Descriptors → Except Panic (ℤ × Descriptors)) (offset : ℤ) : Except Panic (ℤ × Descriptors) := do
  let (originalPosition, s) ← s.lseek host fd 0 1
  if originalPosition = -1 then pure (-1, s)
  else do
    let (seekPosition, s) ← s.lseek host fd offset 0
    if seekPosition = -1 then pure (-1, s)
    else do
      let (transferred, s) ← transfer s
      let (restored, s) ← s.lseek host fd originalPosition 0
      assert (restored != -1) .streamArgs
      pure (transferred, s)

def pread (buffer size : ℕ) (offset : ℤ) : Except Panic (ℤ × Descriptors) :=
  s.positioned host fd (fun s => s.read host fd buffer size) offset

def pwrite (buffer size : ℕ) (offset : ℤ) : Except Panic (ℤ × Descriptors) :=
  s.positioned host fd (fun s => s.write host fd buffer size) offset

def fsync : ℤ × Descriptors :=
  match s.fileForFd fd with
  | none => (-1, s.setErrno eBadf)
  | some file =>
    match file.file.syncAll host with
    | .ok () => (0, s)
    | .error .permissionDenied => (0, s)
    | .error .unsupported => (-1, s.setErrno eInval)
    | .error .interrupted => (-1, s.setErrno eIntr)
    | .error _ => (-1, s.setErrno eIo)

def ftruncate (len : ℤ) : Except Panic (ℤ × Descriptors) := do
  let s := s.setErrno 0
  let file ← unwrap (s.fileForFd fd) .missing
  let f ← file.file.hostFile
  match host.setLen f (len % 2 ^ 64).toNat with
  | some f => pure (0, s.setFile fd { file with file := .file f })
  | none => pure (-1, s)

/-- the result is the error -/
def validateLock (lock : Flock) : Except Panic (Option ℤ) :=
  if lock.lockType.toInt ∉ [fRdlck, fUnlck, fWrlck] then pure (some eInval)
  else if lock.whence.toInt = 0 then pure (if lock.start.toInt < 0 then some eInval else none)
  else if lock.whence.toInt = 1 then do
    let file ← unwrap (s.fileForFd fd) .missing
    let f ← file.file.openFile
    let lockStart ← i64 (f.position + lock.start.toInt)
    pure (if lockStart < 0 then some eInval else none)
  else if lock.whence.toInt = 2 then do
    let file ← unwrap (s.fileForFd fd) .missing
    let f ← file.file.openFile
    let size ← i64 f.content.length
    let lockStart ← i64 (size + lock.start.toInt)
    pure (if lockStart < 0 then some eInval else none)
  else pure (some eInval)

/-- what F_GETLK and F_SETLK do with their lock before they go on -/
def fcntlLock (arg : UInt32) (proceed : Flock → Except Panic (ℤ × Descriptors)) : Except Panic (ℤ × Descriptors) := do
  let lock := Flock.ofBytes (← s.mem.readBytes arg.toNat 24)
  match ← s.validateLock fd lock with
  | some errorCode => pure (-1, s.setErrno errorCode)
  | none => proceed lock

/-- `arg`: the first of the variadic arguments -/
def fcntl (cmd : ℤ) (arg : UInt32) : Except Panic (ℤ × Descriptors) := do
  let s := s.setErrno 0
  if 3 ≤ fd ∧ s.files.length ≤ fdToFileIdx fd then pure (-1, s.setErrno eBadf)
  else if cmd = fGetfd then do
    let file ← unwrap (s.fileForFd fd) .missing
    pure (file.flags, s)
  else if cmd = fSetfd then do
    let flags := arg.toInt32.toInt
    assert (flags == fdCloexec || flags == 0) .openFlags
    let file ← unwrap (s.fileForFd fd) .missing
    pure (0, s.setFile fd { file with flags })
  else if cmd = fGetlk then s.fcntlLock fd arg fun lock => do
    let mem ← s.mem.writeBytes arg.toNat { lock with lockType := Int16.ofInt fUnlck }.toBytes
    pure (0, { s with mem })
  else if cmd = fSetlk then s.fcntlLock fd arg fun _ => pure (0, s)
  else if cmd = fNocache then do
    assert (arg == 1) .openFlags
    pure (0, s)
  else if cmd = fRdadvise then pure (0, s)
  else throw .unimplemented

end

/-! ## Descriptors that are not open -/

/-- a call of one of the functions with a descriptor -/
inductive FdCall where
  | fcntl (cmd : ℤ) (arg : UInt32)
  | read (buffer size : ℕ)
  | write (buffer size : ℕ)
  | pread (buffer size : ℕ) (offset : ℤ)
  | pwrite (buffer size : ℕ) (offset : ℤ)
  | lseek (offset whence : ℤ)
  | fsync
  | ftruncate (len : ℤ)

def callFd (host : HostFiles) (s : Descriptors) (fd : ℤ) : FdCall → Except Panic (ℤ × Descriptors)
  | .fcntl cmd arg => s.fcntl fd cmd arg
  | .read buffer size => s.read host fd buffer size
  | .write buffer size => s.write host fd buffer size
  | .pread buffer size offset => s.pread host fd buffer size offset
  | .pwrite buffer size offset => s.pwrite host fd buffer size offset
  | .lseek offset whence => s.lseek host fd offset whence
  | .fsync => .ok (s.fsync host fd)
  | .ftruncate len => s.ftruncate host fd len

/-- -1, and nothing but `errno` has changed -/
def Refused (s : Descriptors) (result : Except Panic (ℤ × Descriptors)) : Prop := ∃ errno, result = .ok (-1, s.setErrno errno)

/-- a lock that is refused before the descriptor is looked at -/
def Flock.Bad (lock : Flock) : Prop :=
  lock.lockType.toInt ∉ [fRdlck, fUnlck, fWrlck] ∨ lock.whence.toInt ∉ [0, 1, 2] ∨ lock.whence.toInt = 0 ∧ lock.start.toInt < 0

/-- **The calls that check** the descriptor, or fail before they use it. `fcntl` only checks that there is a slot: in an emptied
one it finds out nothing, and only a bad lock keeps it from going on. -/
def Checked (s : Descriptors) (fd : ℤ) : FdCall → Prop
  | .write _ _ | .ftruncate _ => False
  | .fcntl cmd arg => s.files.length ≤ fdToFileIdx fd ∨
      (cmd = fGetlk ∨ cmd = fSetlk) ∧ ∃ bytes, s.mem.readBytes arg.toNat 24 = .ok bytes ∧ Flock.Bad (.ofBytes bytes)
  | _ => True

section

variable {host : HostFiles} {s : Descriptors} {fd : ℤ} {lock : Flock} {arg : UInt32}

theorem fileForFd_setErrno (s : Descriptors) (errno : ℤ) : (s.setErrno errno).fileForFd fd = s.fileForFd fd := rfl

theorem fileForFd_none (h3 : 3 ≤ fd) (hno : ¬s.IsOpen fd) : s.fileForFd fd = none :=
  Option.not_isSome_iff_eq_none.1 (mt (isOpen_iff h3).2 hno)

theorem not_refused_error {e : Panic} : ¬Refused s (.error e) := fun ⟨_, h⟩ => nomatch h

/-- another result -/
theorem not_refused_of_ne {r : ℤ} {s' : Descriptors} (hr : r ≠ -1) : ¬Refused s (.ok (r, s')) := by
  rintro ⟨errno, h⟩
  exact hr (Prod.mk.inj (Except.ok.inj h)).1

theorem positioned_bad {transfer : Descriptors → Except Panic (ℤ × Descriptors)} {offset : ℤ} (hfd : s.fileForFd fd = none) :
    Refused s (s.positioned host fd transfer offset) := by
  refine ⟨eBadf, ?_⟩
  rw [positioned, lseek, hfd]
  rfl

/-- a bad lock is refused without the descriptor -/
theorem validateLock_of_bad (hbad : Flock.Bad lock) : s.validateLock fd lock = .ok (some eInval) := by
  unfold validateLock
  by_cases htype : lock.lockType.toInt ∉ [fRdlck, fUnlck, fWrlck]
  · exact if_pos htype
  · rw [if_neg htype]
    rcases hbad with htype' | hwhence | ⟨hwhence, hstart⟩
    · exact absurd htype' htype
    · simp only [List.mem_cons, List.not_mem_nil, or_false, not_or] at hwhence
      rw [if_neg hwhence.1, if_neg hwhence.2.1, if_neg hwhence.2.2]
      rfl
    · rw [if_pos hwhence, if_pos hstart]
      rfl

/-- a lock that is not bad goes through, or needs the descriptor -/
theorem validateLock_of_not_bad (s : Descriptors) (hfd : s.fileForFd fd = none) (hbad : ¬Flock.Bad lock) :
    s.validateLock fd lock = .ok none ∨ s.validateLock fd lock = .error .missing := by
  unfold Flock.Bad at hbad
  push Not at hbad
  obtain ⟨htype, hwhence, hstart⟩ := hbad
  unfold validateLock
  rw [if_neg (not_not.2 htype), hfd]
  rcases List.mem_cons.1 hwhence with hset | hwhence
  · rw [if_pos hset, if_neg (Int.not_lt.2 (hstart hset))]
    exact .inl rfl
  · rcases List.mem_cons.1 hwhence with hcur | hend
    · rw [hcur, if_neg one_ne_zero, if_pos rfl]
      exact .inr rfl
    · rw [List.mem_singleton.1 hend, if_neg two_ne_zero, if_neg (by decide), if_pos rfl]
      exact .inr rfl

/-- the commands with a lock -/
theorem fcntlLock_refused_iff {proceed : Flock → Except Panic (ℤ × Descriptors)} (hfd : s.fileForFd fd = none)
    (hproceed : ∀ lock, ¬Refused s (proceed lock)) : Refused s ((s.setErrno 0).fcntlLock fd arg proceed) ↔
      ∃ bytes, s.mem.readBytes arg.toNat 24 = .ok bytes ∧ Flock.Bad (.ofBytes bytes) := by
  unfold fcntlLock
  rw [show (s.setErrno 0).mem = s.mem from rfl]
  cases hread : s.mem.readBytes arg.toNat 24 with
  | error e => exact iff_of_false not_refused_error fun ⟨_, h, _⟩ => nomatch h
  | ok bytes =>
    rw [ok_bind]
    by_cases hbad : Flock.Bad (.ofBytes bytes)
    · dsimp only
      rw [validateLock_of_bad hbad]
      exact iff_of_true ⟨eInval, rfl⟩ ⟨bytes, rfl, hbad⟩
    · refine iff_of_false ?_ fun ⟨bytes', h, hbad'⟩ => hbad (Except.ok.inj h ▸ hbad')
      dsimp only
      rcases validateLock_of_not_bad (s.setErrno 0) hfd hbad with h | h
      · rw [h]
        exact hproceed _
      · rw [h]
        exact not_refused_error

theorem fcntl_refused_iff {cmd : ℤ} (h3 : 3 ≤ fd) (hfd : s.fileForFd fd = none) :
    Refused s (s.fcntl fd cmd arg) ↔ Checked s fd (.fcntl cmd arg) := by
  unfold fcntl Checked
  dsimp only
  rw [show (s.setErrno 0).files.length = s.files.length from rfl, fileForFd_setErrno, hfd]
  by_cases hlen : s.files.length ≤ fdToFileIdx fd
  · rw [if_pos ⟨h3, hlen⟩]
    exact iff_of_true ⟨eBadf, rfl⟩ (.inl hlen)
  · rw [if_neg fun h => hlen h.2, or_iff_right hlen]
    by_cases hgetlk : cmd = fGetlk
    · subst hgetlk
      rw [if_neg (by decide), if_neg (by decide), if_pos rfl, and_iff_right (Or.inl rfl)]
      refine fcntlLock_refused_iff hfd fun lock => ?_
      cases (s.setErrno 0).mem.writeBytes arg.toNat { lock with lockType := Int16.ofInt fUnlck }.toBytes with
      | error e => exact not_refused_error
      | ok mem => exact not_refused_of_ne (by decide)
    · by_cases hsetlk : cmd = fSetlk
      · subst hsetlk
        rw [if_neg (by decide), if_neg (by decide), if_neg (by decide), if_pos rfl, and_iff_right (Or.inr rfl)]
        exact fcntlLock_refused_iff hfd fun _ => not_refused_of_ne (by decide)
      · -- no other command returns -1
        refine iff_of_false ?_ fun h => h.1.elim hgetlk hsetlk
        rw [if_neg hgetlk, if_neg hsetlk]
        split_ifs
        · exact not_refused_error
        · cases assert (arg.toInt32.toInt == fdCloexec || arg.toInt32.toInt == 0) Panic.openFlags with
          | error e => exact not_refused_error
          | ok u => exact not_refused_error
        · cases assert (arg == 1) Panic.openFlags with
          | error e => exact not_refused_error
          | ok u => exact not_refused_of_ne (by decide)
        · exact not_refused_of_ne (by decide)
        · exact not_refused_error

end

/-- **A descriptor that is not open** is refused by the calls that check it, and by no other. -/
theorem bad_descriptor_iff (host : HostFiles) (s : Descriptors) {fd : ℤ} (h3 : 3 ≤ fd) (hno : ¬s.IsOpen fd) (call : FdCall) :
    Refused s (s.callFd host fd call) ↔ Checked s fd call := by
  have hfd := fileForFd_none h3 hno
  cases call with
  | fcntl cmd arg => exact fcntl_refused_iff h3 hfd
  | read buffer size =>
    refine iff_of_true ⟨0, ?_⟩ trivial
    rw [callFd, read, fileForFd_setErrno, hfd]
    exact ite_self _
  | write buffer size =>
    refine iff_of_false ?_ fun h => h
    rw [callFd, write, fileForFd_setErrno, hfd]
    exact not_refused_error
  | pread buffer size offset | pwrite buffer size offset =>
    refine iff_of_true ?_ trivial
    simp only [callFd, pread, pwrite]
    exact positioned_bad hfd
  | lseek offset whence =>
    refine iff_of_true ⟨eBadf, ?_⟩ trivial
    rw [callFd, lseek, hfd]
    rfl
  | fsync =>
    refine iff_of_true ⟨eBadf, ?_⟩ trivial
    rw [callFd, fsync, hfd]
  | ftruncate len =>
    refine iff_of_false ?_ fun h => h
    rw [callFd, ftruncate, fileForFd_setErrno, hfd]
    exact not_refused_error

/-- a host with empty files that cannot be changed -/
def emptyHost : HostFiles where
  read f _ := (some [], f)
  write f _ := (none, f)
  seek _ _ := .ok ()
  setLen _ _ := none
  syncAll _ := .ok ()

/-- a file is opened and closed again -/
def closedAgain : List Op := [.open (.path fun _ => some ⟨.file ⟨[], 0⟩, nofun⟩) 0, .close 3 true]

def closedEnd : Descriptors := (run step sampleStart closedAgain).toOption.getD sampleStart

theorem closedEnd_not_open : ¬closedEnd.IsOpen 3 := by
  rw [isOpen_iff (by decide)]
  exact Bool.false_ne_true

theorem bad_descriptor_sample : Refused closedEnd (closedEnd.callFd emptyHost 3 (.pwrite 4096 1 0)) ∧
    ¬Refused closedEnd (closedEnd.callFd emptyHost 3 (.write 4096 1)) :=
  ⟨(bad_descriptor_iff emptyHost closedEnd (by decide) closedEnd_not_open _).2 trivial,
    fun h => (bad_descriptor_iff emptyHost closedEnd (by decide) closedEnd_not_open _).1 h⟩

/-- after this run `write` panics and `fcntl` claims to have turned off the cache -/
theorem closed_descriptor_used : run step sampleStart closedAgain = .ok closedEnd ∧ ¬closedEnd.IsOpen 3 ∧
    closedEnd.callFd emptyHost 3 (.write 4096 1) = .error .missing ∧
    closedEnd.callFd emptyHost 3 (.ftruncate 0) = .error .missing ∧
    closedEnd.callFd emptyHost 3 (.fcntl fGetfd 0) = .error .missing ∧
    closedEnd.callFd emptyHost 3 (.fcntl fNocache 1) = .ok (0, closedEnd) :=
  ⟨rfl, closedEnd_not_open, rfl, rfl, rfl, rfl⟩

end Descriptors

end TouchHLE
