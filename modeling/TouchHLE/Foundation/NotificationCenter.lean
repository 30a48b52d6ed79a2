/-
`NSNotificationCenter` (`ns_notification_center.rs`): observers, and the posting of notifications to them, where the handlers
of the observers are guest code.

- `Observer`, `Center`: the registrations, the reference counts of all objects, and the calls that are going on.
- `addObserver`, `removeObserversInternal`, `removeObserver`, `postNotification`: the methods. `proceed` is what they do when guest
  code that they have called returns.
- `Op`, `step`, `Guest`: what guest code can do.
- `held`: all references that there are.
-/
import TouchHLE.Lib.Assoc
import TouchHLE.Lib.Counted
import TouchHLE.Lib.Machine
import TouchHLE.Lib.Vec
import TouchHLE.Panic

namespace TouchHLE

open Machine Counted

namespace NotificationCenter

structure Observer where
  observer : Option ℕ
  selector : String
  object : Option ℕ
  /-- tells the registrations apart; the source has no such number -/
  registration : ℕ
deriving DecidableEq

/-- a notification while it is posted -/
structure Post where
  /-- tells the calls of `postNotification:` apart -/
  call : ℕ
  object : Option ℕ
deriving DecidableEq

/-- a method that is waiting for guest code, or will go on -/
inductive Frame where
  /-- `postNotification:`, with the observers that come next, and the one whose handler was called -/
  | posting (post : Post) (observers : List Observer) (handling : Option Observer)
  /-- `removeObserver:name:object:`, with what it has to release -/
  | removing (objects : List (Option ℕ))

inductive Event where
  /-- a notification is posted when these observers are registered for its name -/
  | posted (post : Post) (observers : List Observer)
  /-- a message is sent to the observer of a registration -/
  | sent (call registration : ℕ)
  | finished (call : ℕ)
deriving DecidableEq

structure Center where
  refs : Counts
  /-- the next object -/
  next : ℕ
  /-- the references of the guest -/
  owned : List ℕ
  observers : List (String × List Observer)
  frames : List Frame
  /-- whether guest code is running -/
  running : Bool
  registrations : ℕ
  calls : ℕ
  /-- the last one first -/
  log : List Event

section

variable (s : Center)

def addObserver (bundleIdentifier : String) (observer : Option ℕ) (selector : String) (name : Option String) (object : Option ℕ) :
    Except Panic Center :=
  if name.isNone && "com.chillingo.cuttherope".isPrefixOf bundleIdentifier && selector == "fetchUpdateNotification:" then pure s
  else do
    let name ← unwrap name .missing
    let refs ← unwrap (retain s.refs observer) .deallocated
    let refs ← unwrap (retain refs object) .deallocated
    let observers := (s.observers.lookup name).getD [] ++ [⟨observer, selector, object, s.registrations⟩]
    pure { s with refs, observers := Assoc.insert name observers s.observers, registrations := s.registrations + 1 }

/-- whether a registration is to be removed -/
def isRemoved (observer object : Option ℕ) (r : Observer) : Bool :=
  r.observer == observer && (object.isNone || object == r.object)

/-- the loop of `remove_observers_internal` from an index on, which takes as many rounds as there are observers from there on: the
observers, and those that were removed -/
def removeObserversFrom (observer object : Option ℕ) (rounds i : ℕ) (observers removed : List Observer) :
    List Observer × List Observer :=
  match rounds with
  | 0 => (observers, removed)
  | rounds + 1 =>
    match observers[i]? with
    | none => (observers, removed)
    | some r =>
      if isRemoved observer object r then
        removeObserversFrom observer object rounds i (Vec.swapRemove observers i) (removed ++ [r])
      else removeObserversFrom observer object rounds (i + 1) observers removed

def removeObserversInternal (observer object : Option ℕ) (observers : List Observer) : List Observer × List Observer :=
  removeObserversFrom observer object observers.length 0 observers []

/-- what a removed registration gives back -/
def references (r : Observer) : List (Option ℕ) := [r.observer, r.object]

def removeObserver (observer : Option ℕ) (name : Option String) (object : Option ℕ) : Except Panic Center := do
  assert observer.isSome .missing
  match name with
  | some name =>
    match s.observers.lookup name with
    | none => pure s
    | some observers =>
      let (kept, removed) := removeObserversInternal observer object observers
      pure { s with observers := Assoc.insert name kept s.observers, running := false,
                    frames := .removing (removed.flatMap references) :: s.frames }
  | none =>
    let results := s.observers.map fun e => (e.1, removeObserversInternal observer object e.2)
    pure { s with observers := results.map fun e => (e.1, e.2.1), running := false,
                  frames := .removing ((results.flatMap fun e => e.2.2).flatMap references) :: s.frames }

/-- a call of `postNotification:` with a notification of this name and object -/
def postNotification (name : String) (object : Option ℕ) : Center :=
  match s.observers.lookup name with
  | none => s
  | some observers =>
    { s with frames := .posting ⟨s.calls, object⟩ observers none :: s.frames, running := false, calls := s.calls + 1,
             log := .posted ⟨s.calls, object⟩ observers :: s.log }

/-- whether a notification is for an observer -/
def isFor (post : Post) (r : Observer) : Bool := !(r.object.isSome && post.object != r.object)

/-- a reference is given back; if that deallocates the object, guest code runs -/
def releaseNow (o : Option ℕ) (frames : List Frame) : Except Panic Center := do
  let refs ← unwrap (release s.refs o) .deallocated
  pure { s with refs, frames, running := gone refs o }

/-- the method goes on -/
def proceed : Except Panic Center :=
  match s.frames with
  | [] => throw .notEnabled
  | .posting post observers (some r) :: frames => releaseNow s r.observer (.posting post observers none :: frames)
  | .posting post (r :: observers) none :: frames =>
    if isFor post r then do
      let refs ← unwrap (retain s.refs r.observer) .deallocated
      pure { s with refs, frames := .posting post observers (some r) :: frames, running := true,
                    log := .sent post.call r.registration :: s.log }
    else pure { s with frames := .posting post observers none :: frames, running := false }
  | .posting post [] none :: frames => pure { s with frames, running := true, log := .finished post.call :: s.log }
  | .removing (o :: objects) :: frames => releaseNow s o (.removing objects :: frames)
  | .removing [] :: frames => pure { s with frames, running := true }

end

inductive Op where
  | create
  | retain (o : ℕ)
  | release (o : ℕ)
  | addObserver (observer : Option ℕ) (selector : String) (name : Option String) (object : Option ℕ)
  | removeObserver (observer : Option ℕ) (name : Option String) (object : Option ℕ)
  | postNotification (name : String) (object : Option ℕ)
  | proceed

def step (bundleIdentifier : String) (s : Center) : Op → Except Panic Center
  | .create => do
    assert s.running .notEnabled
    pure { s with refs := Counted.create s.refs s.next, next := s.next + 1, owned := s.next :: s.owned }
  | .retain o => do
    assert s.running .notEnabled
    let refs ← unwrap (Counted.retain s.refs (some o)) .deallocated
    pure { s with refs, owned := o :: s.owned }
  | .release o => do
    assert s.running .notEnabled
    let refs ← unwrap (Counted.release s.refs (some o)) .deallocated
    pure { s with refs, owned := s.owned.erase o }
  | .addObserver observer selector name object => do
    assert s.running .notEnabled
    addObserver s bundleIdentifier observer selector name object
  | .removeObserver observer name object => do
    assert s.running .notEnabled
    removeObserver s observer name object
  | .postNotification name object => do
    assert s.running .notEnabled
    pure (postNotification s name object)
  | .proceed => proceed s

/-- guest code uses objects that are there, and gives back only references of its own -/
def Guest (s : Center) : Op → Prop
  | .retain o => gone s.refs (some o) = false
  | .release o => o ∈ s.owned
  | .addObserver observer _ _ object => gone s.refs observer = false ∧ gone s.refs object = false
  | _ => True

def start : Center := ⟨fun _ => 0, 0, [], [], [], true, 0, 0, []⟩

/-! ## References -/

/-- the references of the registrations -/
def registered (observers : List (String × List Observer)) : List (Option ℕ) :=
  (observers.flatMap Prod.snd).flatMap references

def heldBy : Frame → List (Option ℕ)
  | .posting _ _ (some r) => [r.observer]
  | .posting _ _ none => []
  | .removing objects => objects

/-- all references: those of the guest, one to the observer and one to the object of each registration, one to an observer while it
handles a notification, and those that are about to be released -/
def held (s : Center) : List (Option ℕ) := s.owned.map some ++ (registered s.observers ++ s.frames.flatMap heldBy)

/-- the observers that a post will still send its notification to -/
def pending : Frame → List Observer
  | .posting post observers _ => observers.filter (isFor post)
  | .removing _ => []

/-- the object that a step gives a reference to back -/
def releases (s : Center) : Op → Option ℕ
  | .release o => some o
  | .proceed =>
    match s.frames with
    | .posting _ _ (some r) :: _ => r.observer
    | .removing (o :: _) :: _ => o
    | _ => none
  | _ => none

/-- **The condition**: a step does not give back the last reference to an object that a post has yet to send its notification to. -/
def Keeps (s : Center) (op : Op) : Prop :=
  ∀ o, releases s op = some o → s.refs o = 1 → ∀ f ∈ s.frames, ∀ r ∈ pending f, r.observer ≠ some o

instance (s : Center) (op : Op) : Decidable (Guest s op) :=
  match op with
  | .retain _ => inferInstanceAs (Decidable (_ = _))
  | .release _ => inferInstanceAs (Decidable (_ ∈ _))
  | .addObserver .. => inferInstanceAs (Decidable (_ ∧ _))
  | .create | .removeObserver .. | .postNotification .. | .proceed => isTrue trivial

instance (s : Center) (op : Op) : Decidable (Keeps s op) :=
  match h : releases s op with
  | none => isTrue fun o ho => nomatch h.symm.trans ho
  | some o =>
    decidable_of_iff (s.refs o = 1 → ∀ f ∈ s.frames, ∀ r ∈ pending f, r.observer ≠ some o)
      ⟨fun hk o' ho' => Option.some.inj (h.symm.trans ho') ▸ hk, fun hk => hk o h⟩

end NotificationCenter

end TouchHLE
