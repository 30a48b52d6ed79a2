/-
Named semaphores (`sem_open`, `sem_close` and `sem_unlink` of `libc/semaphore.rs`), as a machine over the emulator's: the
table of names is not seen by the scheduler, the semaphores that are open are.

- `NamedEntry`: the object of a name is in the table of open semaphores, or only in that of the names.
- `semOpen`, `semClose`, `semUnlink`; `SemOp`: a step of the machine; `semStepped`: everything a step can do.
- `OpenedRight`: what `sem_open` should do; `opened_right_iff`: it does when the name is new, or the flags are `O_EXCL`
  without `O_CREAT`; `named_open_iff`: in every run.
-/
import TouchHLE.Env.Semaphores

namespace TouchHLE

open Machine Abi

namespace Env

/-- the object of a name: `guest_sem` is the address at which it is open, if it is -/
inductive NamedEntry where
  | opened (sem : GuestPtr)
  | closed (v : Semaphore)
deriving DecidableEq

structure SemEmulator extends Emulator where
  namedSemaphores : String → Option NamedEntry
  /-- the field `named` of the semaphore that is open at the address -/
  isNamed : GuestPtr → Bool

/-- `O_CREAT` -/
def semCreat : UInt32 := 0x200

/-- `O_EXCL` -/
def semExcl : UInt32 := 0x800

/-- `SEM_FAILED` -/
def semFailed : GuestPtr := 2 ^ 32 - 1

inductive SemOp where
  | op (o : Op)
  /-- `sem` is the address that `Mem::alloc` gives, if it is asked -/
  | semOpen (name : String) (oflag value : UInt32) (sem : GuestPtr)
  | semClose (sem : GuestPtr)
  | semUnlink (name : String)

namespace SemEmulator

def new (mem : Mem) (cpu : CpuContext) : SemEmulator :=
  { toEmulator := .new mem cpu, namedSemaphores := fun _ => none, isNamed := fun _ => false }

def start : SemEmulator := { toEmulator := .start, namedSemaphores := fun _ => none, isNamed := fun _ => false }

/-- the end of `sem_open`: the object is open at the address -/
def openAt (e : SemEmulator) (name : String) (sem : GuestPtr) (v : Semaphore) : SemEmulator :=
  { e with
    env := e.env.setSemaphore sem (some v)
    namedSemaphores := Function.update e.namedSemaphores name (some (.opened sem))
    isNamed := Function.update e.isNamed sem true }

def semOpen (e : SemEmulator) (name : String) (oflag value : UInt32) (sem : GuestPtr) : GuestPtr × SemEmulator :=
  match e.namedSemaphores name with
  | some entry =>
    if oflag &&& semExcl = 0 then (semFailed, e)
    else
      match entry with
      | .opened existing => (existing, e)
      | .closed v => (sem, e.openAt name sem v)
  | none =>
    if oflag &&& semCreat = 0 then (semFailed, e)
    else (sem, e.openAt name sem { value := asI32 value, waiting := ∅ })

/-- the object stays in the table of names, if it still is there -/
def semClose (e : SemEmulator) (sem : GuestPtr) : Except Panic SemEmulator :=
  match e.env.openSemaphores sem with
  | none => .error .noSemaphore
  | some v => do
    assert (e.isNamed sem) .semaphoreKind
    pure { e with
      env := e.env.setSemaphore sem none
      namedSemaphores := fun name =>
        if e.namedSemaphores name = some (.opened sem) then some (.closed v) else e.namedSemaphores name
      isNamed := Function.update e.isNamed sem false }

def semUnlink (e : SemEmulator) (name : String) : SemEmulator :=
  { e with namedSemaphores := Function.update e.namedSemaphores name none }

/-- the assertion of `sem_destroy`; the other functions do not ask whether a semaphore has a name -/
def checkKind (e : SemEmulator) : Op → Except Panic Unit
  | .host (.semDestroy sem) => assert (!e.isNamed sem) .semaphoreKind
  | _ => .ok ()

def step (e : SemEmulator) : SemOp → Except Panic SemEmulator
  | .op o => do
    let emulator ← e.toEmulator.step o
    e.checkKind o
    pure { e with toEmulator := emulator }
  | .semOpen name oflag value sem =>
    -- a block that is in use is not given again, and none is at the last address
    if e.mode = .host ∧ e.isNamed sem = false ∧ sem ≠ semFailed then .ok (e.semOpen name oflag value sem).2
    else .error .notEnabled
  | .semClose sem => if e.mode = .host then e.semClose sem else .error .notEnabled
  | .semUnlink name => if e.mode = .host then .ok (e.semUnlink name) else .error .notEnabled

end SemEmulator

/-! ## What the functions can do -/

variable {e e' : SemEmulator} {so : SemOp} {name : String} {oflag value : UInt32} {sem : GuestPtr}

/-- the object that `sem_open` opens at a new address: the one of the name, or a new one -/
def opensObject (entry : Option NamedEntry) (oflag value : UInt32) : Option Semaphore :=
  match entry with
  | some (.opened _) => none
  | some (.closed v) => if oflag &&& semExcl = 0 then none else some v
  | none => if oflag &&& semCreat = 0 then none else some { value := asI32 value, waiting := ∅ }

theorem semOpen_state : (e.semOpen name oflag value sem).2 =
    match opensObject (e.namedSemaphores name) oflag value with
    | none => e
    | some v => e.openAt name sem v := by
  unfold SemEmulator.semOpen opensObject
  cases e.namedSemaphores name with
  | none => split_ifs <;> rfl
  | some entry => cases entry <;> split_ifs <;> rfl

/-- **Everything a step can do** -/
inductive SemStepped (e : SemEmulator) : SemOp → SemEmulator → Prop
  | op {o : Op} {emulator : Emulator} (h : e.toEmulator.step o = .ok emulator) :
      SemStepped e (.op o) { e with toEmulator := emulator }
  | semOpen {name : String} {oflag value : UInt32} {sem : GuestPtr} (hn : e.isNamed sem = false)
      (hf : sem ≠ semFailed) : SemStepped e (.semOpen name oflag value sem) (e.semOpen name oflag value sem).2
  | semClose {sem : GuestPtr} {v : Semaphore} (hv : e.env.openSemaphores sem = some v) (hn : e.isNamed sem = true) :
      SemStepped e (.semClose sem)
        { e with
          env := e.env.setSemaphore sem none
          namedSemaphores := fun name =>
            if e.namedSemaphores name = some (.opened sem) then some (.closed v) else e.namedSemaphores name
          isNamed := Function.update e.isNamed sem false }
  | semUnlink {name : String} : SemStepped e (.semUnlink name) (e.semUnlink name)

theorem semStepped (h : e.step so = .ok e') : SemStepped e so e' := by
  cases so with
  | op o =>
    obtain ⟨emulator, h1, h⟩ := bind_eq_ok.1 h
    obtain ⟨_, -, h⟩ := bind_eq_ok.1 h
    cases h
    exact .op h1
  | semOpen name oflag value sem =>
    simp only [SemEmulator.step] at h
    split_ifs at h with hc
    cases h
    exact .semOpen hc.2.1 hc.2.2
  | semClose sem =>
    simp only [SemEmulator.step] at h
    split_ifs at h
    unfold SemEmulator.semClose at h
    cases hv : e.env.openSemaphores sem with
    | none =>
      rw [hv] at h
      cases h
    | some v =>
      rw [hv] at h
      obtain ⟨_, h1, h⟩ := bind_eq_ok.1 h
      cases h
      exact .semClose hv (assert_cases h1)
  | semUnlink name =>
    simp only [SemEmulator.step] at h
    split_ifs at h
    cases h
    exact .semUnlink

/-! ## What `sem_open` should do -/

/-- the semaphore that a name stands for -/
def SemEmulator.objectOf (e : SemEmulator) : NamedEntry → Option Semaphore
  | .opened sem => e.env.openSemaphores sem
  | .closed v => some v

/-- the pointer is that of the name's semaphore, which is open and is `v` -/
structure Gives (e : SemEmulator) (name : String) (p : GuestPtr) (v : Option Semaphore) : Prop where
  valid : p ≠ semFailed
  named : e.namedSemaphores name = some (.opened p)
  object : e.env.openSemaphores p = v

/-- **What `sem_open` should do.** Without `O_EXCL` it gives the semaphore of the name as it is, where there is one; with
`O_CREAT` and `O_EXCL` it fails there. Where there is none it gives a new one, if and only if there is `O_CREAT`. -/
def OpenedRight (e : SemEmulator) (name : String) (oflag value : UInt32) (p : GuestPtr) (e' : SemEmulator) : Prop :=
  match e.namedSemaphores name with
  | some entry =>
    (oflag &&& semExcl = 0 → Gives e' name p (e.objectOf entry) ∧ ∀ sem, entry = .opened sem → p = sem) ∧
      (oflag &&& semExcl ≠ 0 → oflag &&& semCreat ≠ 0 → p = semFailed ∧ e' = e)
  | none =>
    (oflag &&& semCreat ≠ 0 → Gives e' name p (some { value := asI32 value, waiting := ∅ })) ∧
      (oflag &&& semCreat = 0 → p = semFailed ∧ e' = e)

/-- the calls of `sem_open` in a step are right -/
def OpensRight (e : SemEmulator) : SemOp → SemEmulator → Prop
  | .semOpen name oflag value sem, e' => OpenedRight e name oflag value (e.semOpen name oflag value sem).1 e'
  | _, _ => True

/-- **The condition**: the name is new, or the flags are `O_EXCL` without `O_CREAT` -/
def OpensNew (e : SemEmulator) : SemOp → Prop
  | .semOpen name oflag _ _ => e.namedSemaphores name = none ∨ oflag &&& semExcl ≠ 0 ∧ oflag &&& semCreat = 0
  | _ => True

/-- no name stands for a semaphore at the last address -/
def NamesValid (e : SemEmulator) : Prop := ∀ name sem, e.namedSemaphores name = some (.opened sem) → sem ≠ semFailed

theorem namesValid_step (h : NamesValid e) (hs : e.step so = .ok e') : NamesValid e' := by
  cases semStepped hs with
  | op _ => exact h
  | semOpen hn hf =>
    rw [semOpen_state]
    split
    · exact h
    · intro name' sem' hname
      simp only [SemEmulator.openAt, Function.update_apply] at hname
      split_ifs at hname with heq
      · cases hname
        exact hf
      · exact h name' sem' hname
  | semClose hv hn =>
    intro name' sem' hname
    simp only at hname
    split_ifs at hname with heq
    · cases hname
    · exact h name' sem' hname
  | semUnlink =>
    intro name' sem' hname
    simp only [SemEmulator.semUnlink, Function.update_apply] at hname
    split_ifs at hname
    exact h name' sem' hname

/-- what a call opens, the name stands for afterwards -/
theorem gives_openAt {v : Semaphore} (hf : sem ≠ semFailed) : Gives (e.openAt name sem v) name sem (some v) where
  valid := hf
  named := Function.update_self name _ e.namedSemaphores
  object := by
    change (e.env.setSemaphore sem (some v)).openSemaphores sem = some v
    rw [semaphores_setSemaphore, if_pos rfl]

/-- **A call is right** if and only if it meets the condition. -/
theorem opened_right_iff (h : NamesValid e) (hf : sem ≠ semFailed) :
    OpenedRight e name oflag value (e.semOpen name oflag value sem).1 (e.semOpen name oflag value sem).2 ↔
      e.namedSemaphores name = none ∨ oflag &&& semExcl ≠ 0 ∧ oflag &&& semCreat = 0 := by
  unfold OpenedRight
  cases hname : e.namedSemaphores name with
  | none =>
    refine iff_of_true ⟨fun hc => ?_, fun hc => ?_⟩ (Or.inl rfl)
    · simp only [SemEmulator.semOpen, hname, if_neg hc]
      exact gives_openAt hf
    · simp only [SemEmulator.semOpen, hname, if_pos hc, and_self]
  | some entry =>
    -- a pointer that is given for a name that exists is not the failure
    have hp : oflag &&& semExcl ≠ 0 → (e.semOpen name oflag value sem).1 ≠ semFailed := by
      intro hx
      simp only [SemEmulator.semOpen, hname, if_neg hx]
      cases entry with
      | opened existing => exact h name existing hname
      | closed v => exact hf
    constructor
    · rintro ⟨hgive, hfail⟩
      by_cases hx : oflag &&& semExcl = 0
      · have hfailed : (e.semOpen name oflag value sem).1 = semFailed := by
          simp only [SemEmulator.semOpen, hname, if_pos hx]
        exact absurd hfailed (hgive hx).1.valid
      · by_cases hc : oflag &&& semCreat = 0
        · exact Or.inr ⟨hx, hc⟩
        · exact absurd (hfail hx hc).1 (hp hx)
    · rintro (hnone | ⟨hx, hc⟩)
      · cases hnone
      · exact ⟨fun hx' => absurd hx' hx, fun _ hc' => absurd hc hc'⟩

/-- **In every run** all calls of `sem_open` are right exactly if each of them is for a new name, or has the flag `O_EXCL`
and not `O_CREAT`. -/
theorem named_open_iff (mem : Mem) (cpu : CpuContext) (ops : List SemOp) :
    Along SemEmulator.step OpensRight (.new mem cpu) ops ↔
      Along SemEmulator.step (fun e so _ => OpensNew e so) (.new mem cpu) ops := by
  refine along_iff (I := NamesValid) (fun _ _ _ h hs => namesValid_step h hs) (fun e so e' h hs => ?_) ?_
  · cases semStepped hs with
    | semOpen hn hf => exact opened_right_iff h hf
    | op | semClose | semUnlink => exact Iff.rfl
  · intro name sem hname
    cases hname

/-- a semaphore is opened a second time while it is open, without `O_EXCL` -/
theorem open_again_fails :
    ¬ Along SemEmulator.step OpensRight .start [.semOpen "jobs" 0x200 1 0x5000, .semOpen "jobs" 0 0 0x6000] := by
  intro h
  obtain ⟨-, h⟩ := h _ rfl
  obtain ⟨h, -⟩ := h _ rfl
  exact (h.1 (by decide)).1.valid rfl

end Env

end TouchHLE
