/-
`NSThread` (`ns_thread.rs`): threads as objects, with the references that they take to their targets and arguments.

- `NSThreadHostObject`, `Body`, `Threads`: the objects, the threads that run them, and the reference counts of all objects.
- `initWithTarget`, `start`, `detachNewThreadSelector`, `currentThread`, `threadDictionary`: the methods.
- `proceed`: `_touchHLE_NSThreadInvocationHelper`, in stages between which other code runs.
- `Op`, `step`, `Guest`: what guest code can do, on any thread.
- `held`: all references that there are. `Served`: what a thread relies on. `Keeps`: when it does.
-/
import TouchHLE.Lib.Assoc
import TouchHLE.Lib.Counted
import TouchHLE.Lib.Machine
import TouchHLE.Panic

namespace TouchHLE.NSThread

open Machine Counted

structure NSThreadHostObject where
  target : Option ℕ
  selector : Option String
  object : Option ℕ
  threadDictionary : Option ℕ
  owned : Bool
  finished : Bool
  /-- the object is of a class that overrides `main` -/
  overridesMain : Bool

/-- how far a thread has come -/
inductive Stage where
  | ready
  /-- `main` is running -/
  | main
  /-- the argument was released, and the target comes next -/
  | releasingTarget (target : Option ℕ) (owned : Bool)
  | removing (owned : Bool)
  | finished
deriving DecidableEq

/-- a thread that runs an `NSThread` -/
structure Body where
  thread : ℕ
  stage : Stage

structure Threads where
  refs : Counts
  /-- the next object -/
  next : ℕ
  /-- the references of the guest -/
  owned : List ℕ
  /-- the objects that are an `NSThread` -/
  objects : List (ℕ × NSThreadHostObject)
  /-- all threads, the main thread first, with those that run an `NSThread` -/
  pthreads : List (Option Body)
  /-- `ns_threads` -/
  nsThreads : List (ℕ × ℕ)
  isMultiThreaded : Bool

section

variable (s : Threads)

def setObject (t : ℕ) (host : NSThreadHostObject) : Threads := { s with objects := Assoc.insert t host s.objects }

def setStage (p t : ℕ) (stage : Stage) : Threads := { s with pthreads := s.pthreads.set p (some ⟨t, stage⟩) }

/-- `retain` -/
def retainObject (r : Option ℕ) : Except Panic Threads := do
  let refs ← unwrap (retain s.refs r) .deallocated
  pure { s with refs }

/-- `release`; the `dealloc` of an `NSThread` releases its dictionary, and nothing else -/
def releaseObject (r : Option ℕ) : Except Panic Threads := do
  let refs ← unwrap (release s.refs r) .deallocated
  match r with
  | none => pure s
  | some o =>
    match s.objects.lookup o with
    | none => pure { s with refs }
    | some host =>
      if refs o = 0 then do
        let refs ← unwrap (release refs host.threadDictionary) .deallocated
        pure (setObject { s with refs } o { host with threadDictionary := none })
      else pure { s with refs }

/-- the host object of an object that is there -/
def borrow (t : ℕ) : Except Panic NSThreadHostObject := do
  assert (s.refs t != 0) .deallocated
  unwrap (s.objects.lookup t) .hostObject

/-- `allocWithZone:` -/
def alloc (overridesMain : Bool) : ℕ × Threads :=
  (s.next, { s with refs := create s.refs s.next, next := s.next + 1,
                    objects := Assoc.insert s.next ⟨none, none, none, none, false, false, overridesMain⟩ s.objects })

/-- an `NSThread` with a target and an argument, which it retains -/
def initWithTarget (t : ℕ) (target : Option ℕ) (selector : String) (object : Option ℕ) : Except Panic Threads := do
  let host ← borrow s t
  let s ← retainObject s target
  let s ← retainObject s object
  pure (setObject s t { host with target, selector := some selector, object })

def start (t : ℕ) : Except Panic Threads := do
  let p := s.pthreads.length
  assert (s.nsThreads.lookup p).isNone .nsThread
  pure { s with pthreads := s.pthreads ++ [some ⟨t, .ready⟩], nsThreads := Assoc.insert p t s.nsThreads, isMultiThreaded := true }

def detachNewThreadSelector (selector : String) (target object : Option ℕ) : Except Panic Threads := do
  let (t, s) := alloc s false
  let s ← initWithTarget s t target selector object
  let host ← borrow s t
  start { setObject s t { host with owned := true } with isMultiThreaded := true } t

/-- `currentThread`, on a thread -/
def currentThread (p : ℕ) : ℕ × Threads :=
  match s.nsThreads.lookup p with
  | some t => (t, s)
  | none =>
    let (t, s) := alloc s false
    (t, { s with nsThreads := Assoc.insert p t s.nsThreads })

/-- `threadDictionary`, which is made when it is first asked for -/
def threadDictionary (t : ℕ) : Except Panic Threads := do
  let host ← borrow s t
  match host.threadDictionary with
  | some _ => pure s
  | none =>
    pure (setObject { s with refs := create s.refs s.next, next := s.next + 1 } t { host with threadDictionary := some s.next })

/-- the default implementation of `main`, up to the message to the target -/
def main (host : NSThreadHostObject) : Except Panic Unit :=
  if host.overridesMain then pure () else do
    let _ ← unwrap host.selector .missing
    assert (!gone s.refs host.target) .deallocated

/-- `_touchHLE_NSThreadInvocationHelper` goes on, up to the next place where other code can run -/
def proceed (p : ℕ) : Except Panic Threads := do
  let ⟨t, stage⟩ ← unwrap (s.pthreads.getD p none) .notEnabled
  match stage with
  | .ready => do
    let host ← borrow s t
    main s host
    pure (setStage s p t .main)
  | .main => do
    let host ← borrow s t
    releaseObject (setStage (setObject s t { host with finished := true }) p t (.releasingTarget host.target host.owned)) host.object
  | .releasingTarget target owned => releaseObject (setStage s p t (.removing owned)) target
  | .removing owned => do
    assert (s.nsThreads.lookup p).isSome .nsThread
    let s := setStage { s with nsThreads := Assoc.erase p s.nsThreads } p t .finished
    if owned then releaseObject s (some t) else pure s
  | .finished => throw .notEnabled

end

inductive Op where
  /-- an object that is no `NSThread` -/
  | create
  | retain (o : ℕ)
  | release (o : ℕ)
  /-- `alloc` and `init` -/
  | new (overridesMain : Bool)
  /-- `alloc` and `initWithTarget:selector:object:` -/
  | newWithTarget (overridesMain : Bool) (target : Option ℕ) (selector : String) (object : Option ℕ)
  | start (t : ℕ)
  | detachNewThreadSelector (selector : String) (target object : Option ℕ)
  | pthreadCreate
  | currentThread (p : ℕ)
  | threadDictionary (t : ℕ)
  | proceed (p : ℕ)

def step (s : Threads) : Op → Except Panic Threads
  | .create => pure { s with refs := Counted.create s.refs s.next, next := s.next + 1, owned := s.next :: s.owned }
  | .retain o => do
    let s ← retainObject s (some o)
    pure { s with owned := o :: s.owned }
  | .release o => releaseObject { s with owned := s.owned.erase o } (some o)
  | .new overridesMain =>
    let (t, s) := alloc s overridesMain
    pure { s with owned := t :: s.owned }
  | .newWithTarget overridesMain target selector object => do
    let (t, s) := alloc s overridesMain
    let s ← initWithTarget s t target selector object
    pure { s with owned := t :: s.owned }
  | .start t => start s t
  | .detachNewThreadSelector selector target object => detachNewThreadSelector s selector target object
  | .pthreadCreate => pure { s with pthreads := s.pthreads ++ [none] }
  | .currentThread p => do
    assert (p < s.pthreads.length) .notEnabled
    pure (currentThread s p).2
  | .threadDictionary t => threadDictionary s t
  | .proceed p => proceed s p

/-- guest code uses objects that are there, sends messages of `NSThread` only to these, and gives back only references of its
own -/
def Guest (s : Threads) : Op → Prop
  | .retain o => gone s.refs (some o) = false
  | .release o => o ∈ s.owned
  | .newWithTarget _ target _ object => gone s.refs target = false ∧ gone s.refs object = false
  | .detachNewThreadSelector _ target object => gone s.refs target = false ∧ gone s.refs object = false
  | .start t => gone s.refs (some t) = false ∧ (s.objects.lookup t).isSome
  | .threadDictionary t => gone s.refs (some t) = false ∧ (s.objects.lookup t).isSome
  | _ => True

instance (s : Threads) (op : Op) : Decidable (Guest s op) :=
  match op with
  | .retain _ => inferInstanceAs (Decidable (_ = _))
  | .release _ => inferInstanceAs (Decidable (_ ∈ _))
  | .newWithTarget .. | .detachNewThreadSelector .. | .start _ | .threadDictionary _ => inferInstanceAs (Decidable (_ ∧ _))
  | .create | .new _ | .pthreadCreate | .currentThread _ | .proceed _ => isTrue trivial

/-- only the main thread -/
def launch : Threads := ⟨fun _ => 0, 0, [], [], [none], [], false⟩

/-! ## References -/

/-- how far the thread that runs an object has come; one that was not started counts as ready -/
def stageOf (s : Threads) (t : ℕ) : Stage :=
  match (s.pthreads.filterMap id).find? fun body => body.thread == t with
  | some body => body.stage
  | none => .ready

/-- the references that a thread has taken and not given back, with the one to itself if it was detached -/
def taken (t : ℕ) (host : NSThreadHostObject) : Stage → List (Option ℕ)
  | .ready | .main => host.object :: host.target :: if host.owned then [some t] else []
  | .releasingTarget target owned => target :: if owned then [some t] else []
  | .removing owned => if owned then [some t] else []
  | .finished => []

/-- a thread runs an `NSThread` and has not removed it from the table -/
def Active (s : Threads) (p : ℕ) : Prop := ∃ body, s.pthreads.getD p none = some body ∧ body.stage ≠ .finished

instance (s : Threads) (p : ℕ) : Decidable (Active s p) :=
  match h : s.pthreads.getD p none with
  | none => isFalse fun ⟨_, hbody, _⟩ => nomatch h.symm.trans hbody
  | some body =>
    decidable_of_iff (body.stage ≠ .finished)
      ⟨fun hstage => ⟨body, h, hstage⟩, fun ⟨_, hbody, hstage⟩ => Option.some.inj (h.symm.trans hbody) ▸ hstage⟩

/-- all references: those of the guest, to dictionaries, of the threads, and those in the table to the objects that were made for
other threads -/
def held (s : Threads) : List (Option ℕ) :=
  s.owned.map some ++ (s.objects.flatMap (fun e => e.2.threadDictionary :: taken e.1 e.2 (stageOf s e.1)) ++
    s.nsThreads.flatMap fun e => if Active s e.1 then [] else [some e.2])

/-- a thread still has to use the object that it runs -/
def Needs (s : Threads) (t : ℕ) : Prop :=
  ∃ p stage, s.pthreads.getD p none = some ⟨t, stage⟩ ∧ (stage = .ready ∨ stage = .main)

/-- the object that a thread gives a reference to back when it goes on -/
def givesBack (s : Threads) (body : Body) : Option ℕ :=
  match body.stage with
  | .main => (s.objects.lookup body.thread).bind NSThreadHostObject.object
  | .releasingTarget target _ => target
  | .removing owned => if owned then some body.thread else none
  | .ready | .finished => none

/-- the object that a step gives a reference to back -/
def releases (s : Threads) : Op → Option ℕ
  | .release o => some o
  | .proceed p => (s.pthreads.getD p none).bind (givesBack s)
  | _ => none

/-- an `NSThread` is started once -/
def StartsOnce (s : Threads) : Op → Prop
  | .start t => ∀ body ∈ s.pthreads.filterMap id, body.thread ≠ t
  | _ => True

instance (s : Threads) (op : Op) : Decidable (StartsOnce s op) :=
  match op with
  | .start _ => inferInstanceAs (Decidable (∀ _ ∈ _, _))
  | .create | .retain _ | .release _ | .new _ | .newWithTarget .. | .detachNewThreadSelector .. | .pthreadCreate | .currentThread _
  | .threadDictionary _ | .proceed _ => isTrue trivial

/-- **The condition**: the last reference to an `NSThread` that was started is not given back before its `main` has returned. -/
def Keeps (s : Threads) (op : Op) : Prop :=
  ∀ t, releases s op = some t → s.refs t = 1 → Needs s t → ∃ p, op = .proceed p ∧ s.pthreads.getD p none = some ⟨t, .main⟩

/-- **The property**: every reference is counted, those included that the threads have taken and not given back. `currentThread` on
a thread is the object that it runs, which is there as long as the thread uses it, with its target and its argument. -/
structure Served (s : Threads) : Prop where
  balanced : Balanced s.refs (held s)
  current : ∀ p t stage, s.pthreads.getD p none = some ⟨t, stage⟩ → stage ≠ .finished → (currentThread s p).1 = t
  running : ∀ p t stage, s.pthreads.getD p none = some ⟨t, stage⟩ → stage = .ready ∨ stage = .main → 0 < s.refs t ∧
    ∃ host, s.objects.lookup t = some host ∧ gone s.refs host.target = false ∧ gone s.refs host.object = false
  releasing : ∀ p t target owned, s.pthreads.getD p none = some ⟨t, .releasingTarget target owned⟩ →
    gone s.refs target = false ∧ (owned = true → 0 < s.refs t)
  removing : ∀ p t, s.pthreads.getD p none = some ⟨t, .removing true⟩ → 0 < s.refs t

end TouchHLE.NSThread
