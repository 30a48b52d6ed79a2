/-
Where a file is after `lseek`, `pread` and `pwrite` (`libc/posix_io.rs`).

- `base`: what an offset counts from. `Moved`, `Restores`: what the calls should do.
- `lseek_moves`, `lseek_refused`: `lseek` with a file. `positioned_restores`: a transfer between two seeks.
- `seeking_iff`: directories can be sought in as far as `is_seekable` goes, and seeking in one panics.
-/
import TouchHLE.Libc.PosixIo

namespace TouchHLE

open Machine Words

/-- the host lets its files be at any position that fits -/
def HostFiles.Seeks (host : HostFiles) : Prop := ∀ f position, position < 2 ^ 63 → host.seek f position = .ok ()

namespace Descriptors

/-- the file behind a descriptor -/
def openFileAt (s : Descriptors) (fd : ℤ) : Option OpenFile := (s.fileForFd fd).bind fun file => file.file.openFile.toOption

def position (s : Descriptors) (fd : ℤ) : Option ℕ := (s.openFileAt fd).map OpenFile.position

/-- the place that an offset counts from -/
def base (s : Descriptors) (fd : ℤ) : Whence → Option ℕ
  | .set => some 0
  | .cur => s.position fd
  | .fromEnd => (s.openFileAt fd).map fun f => f.content.length

/-- the position becomes the base and the offset where these fit, and otherwise nothing but `errno` changes -/
def Moved (host : HostFiles) (s : Descriptors) (fd offset : ℤ) (whence : Whence) : Prop :=
  ∃ start : ℕ, s.base fd whence = some start ∧
    if 0 ≤ start + offset ∧ start + offset ≤ 2 ^ 63 - 1 then
      ∃ s', s.lseek host fd offset whence.toInt = .ok (start + offset, s') ∧ s'.position fd = some (start + offset).toNat
    else Refused s (s.lseek host fd offset whence.toInt)

/-- the position is what it was, and only the transfer itself can panic, at the offset and with the same memory -/
def Restores (host : HostFiles) (s : Descriptors) (fd offset : ℤ) (transfer : Descriptors → Except Panic (ℤ × Descriptors)) : Prop :=
  match s.positioned host fd transfer offset with
  | .ok (_, s') => s'.position fd = s.position fd
  | .error e => ∃ f s', s.openFileAt fd = some f ∧ s'.openFileAt fd = some { f with position := offset.toNat } ∧ s'.mem = s.mem ∧
      transfer s' = .error e

section

variable {host : HostFiles} {s s' : Descriptors} {fd offset : ℤ} {o o' : PosixFileHostObject} {f : OpenFile} {whence : Whence}
  {transfer : Descriptors → Except Panic (ℤ × Descriptors)} {start : ℕ}

/-- the host object at another position, and not at the end any more -/
def movedTo (o : PosixFileHostObject) (f : OpenFile) (position : ℕ) : PosixFileHostObject :=
  { o with
    file := o.file.withOpenFile { f with position }
    reachedEof := false }

theorem fileForFd_setFile (hfile : s.fileForFd fd = some o) : (s.setFile fd o').fileForFd fd = some o' := by
  unfold fileForFd at hfile ⊢
  split_ifs at hfile with h3
  have hlt : fdToFileIdx fd < s.files.length := by
    by_contra hge
    rw [Slots.get_of_ge (Nat.le_of_not_lt hge)] at hfile
    cases hfile
  rw [if_neg h3, setFile, Slots.get_set hlt, if_pos rfl]

theorem openFileAt_eq (hfile : s.fileForFd fd = some o) (hopen : o.file.openFile = .ok f) : s.openFileAt fd = some f := by
  rw [openFileAt, hfile, Option.bind_some, hopen]
  rfl

theorem openFileAt_cases (h : s.openFileAt fd = some f) : ∃ o, s.fileForFd fd = some o ∧ o.file.openFile = .ok f := by
  obtain ⟨o, hfile, hopen⟩ := Option.bind_eq_some_iff.1 h
  refine ⟨o, hfile, ?_⟩
  cases hresult : o.file.openFile with
  | error e =>
    rw [hresult] at hopen
    cases hopen
  | ok f' =>
    rw [hresult] at hopen
    rw [Option.some.inj hopen]

theorem openFileAt_movedTo (position : ℕ) (hfile : s.fileForFd fd = some o) (hopen : o.file.openFile = .ok f) :
    (s.setFile fd (movedTo o f position)).openFileAt fd = some { f with position } :=
  openFileAt_eq (fileForFd_setFile hfile) (openFile_withOpenFile hopen)

theorem base_startPosition (hfile : s.fileForFd fd = some o) (hopen : o.file.openFile = .ok f) (whence : Whence) :
    ∃ start, s.base fd whence = some start ∧ o.startPosition whence.toInt = .ok (some start) := by
  have hat := openFileAt_eq hfile hopen
  unfold PosixFileHostObject.startPosition
  rw [hopen]
  cases whence with
  | set => exact ⟨0, rfl, rfl⟩
  | cur => exact ⟨f.position, by rw [base, position, hat, Option.map_some], rfl⟩
  | fromEnd => exact ⟨f.content.length, by rw [base, hat, Option.map_some], rfl⟩

/-! ## Seeking -/

theorem lseek_moves (whence : Whence) (hseeks : host.Seeks) (hfile : s.fileForFd fd = some o) (hopen : o.file.openFile = .ok f)
    (hbase : s.base fd whence = some start) (h0 : 0 ≤ start + offset) (hmax : start + offset ≤ 2 ^ 63 - 1) :
    s.lseek host fd offset whence.toInt = .ok (start + offset, s.setFile fd (movedTo o f (start + offset).toNat)) := by
  obtain ⟨start', hbase', hstart⟩ := base_startPosition hfile hopen whence
  obtain rfl : start = start' := Option.some.inj (hbase.symm.trans hbase')
  rw [lseek, hfile]
  dsimp only
  rw [isSeekable_of_openFile hopen, Bool.not_true, if_neg Bool.false_ne_true, hstart, ok_bind]
  dsimp only
  rw [if_neg (by omega), if_neg (by omega), hopen, ok_bind, hseeks f _ (by omega)]
  rfl

theorem lseek_refused (host : HostFiles) (whence : Whence) (hfile : s.fileForFd fd = some o) (hseekable : o.file.isSeekable)
    (hstart : o.startPosition whence.toInt = .ok (some start)) (hout : ¬(0 ≤ start + offset ∧ start + offset ≤ 2 ^ 63 - 1)) :
    Refused s (s.lseek host fd offset whence.toInt) := by
  rw [lseek, hfile]
  dsimp only
  rw [hseekable, Bool.not_true, if_neg Bool.false_ne_true, hstart, ok_bind]
  dsimp only
  split_ifs with hfits hoffset hmax
  · exact ⟨eOverflow, rfl⟩
  · exact ⟨eInval, rfl⟩
  · exact ⟨eOverflow, rfl⟩
  · omega

theorem lseek_moved (hseeks : host.Seeks) (hfile : s.fileForFd fd = some o) (hopen : o.file.openFile = .ok f) :
    Moved host s fd offset whence := by
  obtain ⟨start, hbase, hstart⟩ := base_startPosition hfile hopen whence
  refine ⟨start, hbase, ?_⟩
  split_ifs with hfits
  · refine ⟨_, lseek_moves whence hseeks hfile hopen hbase hfits.1 hfits.2, ?_⟩
    rw [position, openFileAt_movedTo _ hfile hopen, Option.map_some]
  · exact lseek_refused host whence hfile (isSeekable_of_openFile hopen) hstart hfits

/-! ## Transfers -/

/-- what is a file stays one -/
def KeepsFile (fd : ℤ) (transfer : Descriptors → Except Panic (ℤ × Descriptors)) : Prop :=
  ∀ s f, s.openFileAt fd = some f → Ends (fun _ => True) (fun r => ∃ f', r.2.openFileAt fd = some f') (transfer s)

theorem read_keepsFile (buffer size : ℕ) : KeepsFile fd fun s => s.read host fd buffer size := by
  intro s f hat
  obtain ⟨o, hfile, hopen⟩ := openFileAt_cases hat
  unfold read
  dsimp only
  split_ifs with hnull
  · exact ⟨f, hat⟩
  · rw [fileForFd_setErrno, hfile]
    dsimp only
    cases (s.setErrno 0).mem.checkRange buffer size with
    | error e => exact trivial
    | ok u =>
      rw [ok_bind, hopen, ok_bind]
      rcases hread : host.read f size with ⟨_ | bytes, f'⟩
      · exact ⟨f', openFileAt_eq (fileForFd_setFile hfile) (openFile_withOpenFile hopen)⟩
      · dsimp only
        cases assert (decide ((bytes.take size).length < 2 ^ 31)) Panic.conversion with
        | error e => exact trivial
        | ok u => exact ⟨f', openFileAt_eq (fileForFd_setFile hfile) (openFile_withOpenFile hopen)⟩

theorem write_keepsFile (buffer size : ℕ) : KeepsFile fd fun s => s.write host fd buffer size := by
  intro s f hat
  obtain ⟨o, hfile, hopen⟩ := openFileAt_cases hat
  unfold write
  dsimp only
  rw [fileForFd_setErrno, hfile, unwrap, ok_bind]
  cases (s.setErrno 0).mem.readBytes buffer size with
  | error e => exact trivial
  | ok bytes =>
    rw [ok_bind]
    cases o.file.hostFile with
    | error e => exact trivial
    | ok f₁ =>
      rw [ok_bind]
      rcases hwrite : host.write f₁ bytes with ⟨_ | bytesWritten, f'⟩
      · exact ⟨f', openFileAt_eq (fileForFd_setFile hfile) rfl⟩
      · dsimp only
        cases assert (decide (bytesWritten < 2 ^ 31)) Panic.conversion with
        | error e => exact trivial
        | ok u => exact ⟨f', openFileAt_eq (fileForFd_setFile hfile) rfl⟩

theorem position_setErrno (errno : ℤ) : (s.setErrno errno).position fd = s.position fd := rfl

/-- **Between two seeks**: every transfer that keeps a file a file leaves it where it was. -/
theorem positioned_restores (hseeks : host.Seeks)
    (hkeeps : KeepsFile fd transfer) (hfile : s.fileForFd fd = some o) (hopen : o.file.openFile = .ok f) :
    Restores host s fd offset transfer := by
  have hat := openFileAt_eq hfile hopen
  have hposition : s.position fd = some f.position := by rw [position, hat, Option.map_some]
  unfold Restores positioned
  -- the position itself
  by_cases hlarge : (f.position : ℤ) + 0 ≤ 2 ^ 63 - 1
  · have hcur : s.lseek host fd 0 1 = .ok ((f.position : ℤ) + 0, s.setFile fd (movedTo o f ((f.position : ℤ) + 0).toNat)) :=
      lseek_moves .cur hseeks hfile hopen hposition (by omega) hlarge
    rw [Int.add_zero, Int.toNat_natCast] at hcur
    rw [hcur, ok_bind]
    dsimp only
    rw [if_neg (by omega)]
    have hat₁ := openFileAt_movedTo f.position hfile hopen
    have hmem₁ : (s.setFile fd (movedTo o f f.position)).mem = s.mem := rfl
    generalize s.setFile fd (movedTo o f f.position) = s₁ at hat₁ hmem₁ ⊢
    obtain ⟨o₁, hfile₁, hopen₁⟩ := openFileAt_cases hat₁
    have hposition₁ : s₁.position fd = some f.position := by rw [position, hat₁, Option.map_some]
    by_cases hfits : 0 ≤ ((0 : ℕ) : ℤ) + offset ∧ ((0 : ℕ) : ℤ) + offset ≤ 2 ^ 63 - 1
    · -- the offset
      have hset : s₁.lseek host fd offset 0 = .ok (((0 : ℕ) : ℤ) + offset, s₁.setFile fd (movedTo o₁ f (((0 : ℕ) : ℤ) + offset).toNat)) :=
        lseek_moves .set hseeks hfile₁ hopen₁ rfl hfits.1 hfits.2
      rw [Nat.cast_zero, Int.zero_add] at hset hfits
      rw [hset, ok_bind]
      dsimp only
      rw [if_neg (by omega)]
      have hat₂ := openFileAt_movedTo offset.toNat hfile₁ hopen₁
      have hmem₂ : (s₁.setFile fd (movedTo o₁ f offset.toNat)).mem = s.mem := hmem₁
      generalize s₁.setFile fd (movedTo o₁ f offset.toNat) = s₂ at hat₂ hmem₂ ⊢
      cases htransfer : transfer s₂ with
      | error e => exact ⟨f, s₂, hat, hat₂, hmem₂, htransfer⟩
      | ok r =>
        -- and back
        obtain ⟨f₃, hat₃⟩ := (hkeeps s₂ _ hat₂).ok htransfer
        obtain ⟨o₃, hfile₃, hopen₃⟩ := openFileAt_cases hat₃
        have hback : r.2.lseek host fd f.position 0 =
            .ok (((0 : ℕ) : ℤ) + f.position, r.2.setFile fd (movedTo o₃ f₃ (((0 : ℕ) : ℤ) + f.position).toNat)) :=
          lseek_moves .set hseeks hfile₃ hopen₃ rfl (by omega) (by omega)
        rw [Nat.cast_zero, Int.zero_add, Int.toNat_natCast] at hback
        rw [ok_bind, hback, ok_bind, assert_ok (by simp), ok_bind]
        show position _ fd = _
        rw [position, openFileAt_movedTo _ hfile₃ hopen₃, hposition, Option.map_some]
    · obtain ⟨errno, hset⟩ := lseek_refused host .set hfile₁ (isSeekable_of_openFile hopen₁) rfl hfits
      rw [show s₁.lseek host fd offset 0 = .ok (-1, s₁.setErrno errno) from hset, ok_bind]
      exact hposition₁.trans hposition.symm
  · obtain ⟨start, hbase, hstart⟩ := base_startPosition hfile hopen .cur
    obtain rfl : f.position = start := Option.some.inj (hposition.symm.trans hbase)
    obtain ⟨errno, hcur⟩ := lseek_refused host .cur hfile (isSeekable_of_openFile hopen) hstart fun h => hlarge h.2
    rw [show s.lseek host fd 0 1 = .ok (-1, s.setErrno errno) from hcur, ok_bind]
    rfl

/-! ## Directories -/

theorem openFileAt_directory (hfile : s.fileForFd fd = some o) (hdir : o.file = .directory) : s.openFileAt fd = none := by
  rw [openFileAt, hfile, Option.bind_some, hdir]
  rfl

theorem positioned_directory (hfile : s.fileForFd fd = some o)
    (hdir : o.file = .directory) : ¬Restores host s fd offset transfer := by
  have hpanic : s.positioned host fd transfer offset = .error .notAFile := by
    rw [positioned, lseek, hfile]
    simp only [PosixFileHostObject.startPosition, hdir]
    rfl
  rw [Restores, hpanic]
  rintro ⟨f, s', hat, -⟩
  rw [openFileAt_directory hfile hdir] at hat
  cases hat

/-- a directory is only safe from being sought in by a negative position -/
theorem lseek_directory {offset : Int64} (hfile : s.fileForFd fd = some o) (hdir : o.file = .directory) :
    Moved host s fd offset.toInt whence ↔ whence = .set ∧ offset.toInt < 0 := by
  have hmax := offset.toInt_lt
  constructor
  · rintro ⟨start, hbase, hmoved⟩
    cases whence with
    | cur =>
      rw [base, position, openFileAt_directory hfile hdir] at hbase
      cases hbase
    | fromEnd =>
      rw [base, openFileAt_directory hfile hdir] at hbase
      cases hbase
    | set =>
      obtain rfl : 0 = start := Option.some.inj hbase
      refine ⟨rfl, ?_⟩
      by_contra hneg
      rw [if_pos (by omega)] at hmoved
      obtain ⟨s', hlseek, -⟩ := hmoved
      rw [lseek, hfile] at hlseek
      simp only [PosixFileHostObject.startPosition, hdir, Whence.toInt, if_true, pure_bind] at hlseek
      rw [if_neg (by decide), if_neg (by omega), if_neg (by omega)] at hlseek
      cases hlseek
  · rintro ⟨rfl, hneg⟩
    refine ⟨0, rfl, ?_⟩
    rw [if_neg (by omega)]
    refine lseek_refused host .set hfile ?_ rfl (by omega)
    rw [hdir]
    rfl

end

/-! ## All calls -/

inductive SeekCall where
  | lseek (offset : Int64) (whence : Whence)
  | pread (buffer size : ℕ) (offset : Int64)
  | pwrite (buffer size : ℕ) (offset : Int64)

def Exact (host : HostFiles) (s : Descriptors) (fd : ℤ) : SeekCall → Prop
  | .lseek offset whence => Moved host s fd offset.toInt whence
  | .pread buffer size offset => Restores host s fd offset.toInt fun s => s.read host fd buffer size
  | .pwrite buffer size offset => Restores host s fd offset.toInt fun s => s.write host fd buffer size

theorem directory_ne_socket : GuestFile.directory ≠ .socket := by
  intro h
  cases h

/-- a directory and a file are opened -/
def twoOpened : List Op :=
  [.open (.path fun _ => some ⟨.directory, directory_ne_socket⟩) 0, .open (.path fun _ => some ⟨.file ⟨[1, 2], 1⟩, nofun⟩) 2]

def twoOpenedEnd : Descriptors := (run step sampleStart twoOpened).toOption.getD sampleStart

end Descriptors

end TouchHLE
