/-
Timers and run loops (`ns_timer.rs`, `ns_run_loop.rs`). A run loop goes over a snapshot of its timers; guest code runs
in the middle of it, whenever a timer sends its message, and can add, fire and invalidate timers or run the loop again.

- `NSTimer`, `RunLoops`: the host objects, with a log of what happened.
- `removeTimer`, `addTimer`, `invalidate`, `handleTimer`: the functions.
- `Activity`, `step`: what is in progress, and the messages in any order.
-/
import TouchHLE.Lib.Counted
import TouchHLE.Lib.Machine
import TouchHLE.Lib.Vec
import TouchHLE.Panic

namespace TouchHLE.RunLoops

open Machine Counted

/-- `NSTimerHostObject`; instants and intervals in nanoseconds -/
structure NSTimer where
  rustInterval : ℕ
  target : ℕ
  selector : ℕ
  repeats : Bool
  dueBy : Option ℕ
  isRunningCallback : Bool
  runLoop : Option ℕ

/-- what happened to a timer; `sent` is the message of the run loop, and `fired` that of `fire` -/
inductive TimerEvent where
  | added (runLoop timer : ℕ)
  | sent (timer target selector : ℕ)
  | fired (timer target selector : ℕ)
  | invalidated (timer : ℕ)
deriving DecidableEq

/-- what is in progress: an iteration of a run loop with the timers of the snapshot that are left, perhaps while a timer
runs its callback, or a `fire` -/
inductive Activity where
  | iterating (timers : List ℕ) (sleepUntil : Option ℕ)
  | calling (timer : ℕ) (nextDue : Option ℕ) (timers : List ℕ) (sleepUntil : Option ℕ)
  | firing (timer : ℕ) (repeats : Bool)

structure RunLoops where
  timers : ℕ → NSTimer
  /-- the timers that were created, or deallocated since, are those below -/
  created : ℕ
  runLoops : ℕ → List ℕ
  refs : Counts
  /-- the references of the guest -/
  guest : List ℕ
  activities : List Activity
  log : List TimerEvent

variable (s : RunLoops)

/-- `borrow`, `borrow_mut` -/
def borrow (timer : ℕ) : Except Panic NSTimer :=
  if s.refs timer = 0 then throw .deallocated else pure (s.timers timer)

def retainTimer (timer : ℕ) : Except Panic RunLoops := do
  let refs ← unwrap (retain s.refs (some timer)) .deallocated
  pure { s with refs }

def releaseTimer (timer : ℕ) : Except Panic RunLoops := do
  let refs ← unwrap (release s.refs (some timer)) .deallocated
  pure { s with refs }

def setTimer (timer : ℕ) (hostObject : NSTimer) : RunLoops :=
  { s with timers := Function.update s.timers timer hostObject }

/-- `alloc_object`: a new timer, which the guest has a reference to -/
def allocTimer (hostObject : NSTimer) : RunLoops :=
  { s with
    timers := Function.update s.timers s.created hostObject, created := s.created + 1,
    refs := create s.refs s.created, guest := s.created :: s.guest }

/-- `ns_run_loop::remove_timer`; a nil run loop cannot be borrowed -/
def removeTimer (runLoop : Option ℕ) (timer : ℕ) : Except Panic RunLoops := do
  let runLoop ← unwrap runLoop .missing
  let timers := s.runLoops runLoop
  let (timers, removed) := Vec.removeWhere (· == timer) timers.length 0 timers []
  assert (removed.length = 1) .timerList
  releaseTimer { s with runLoops := Function.update s.runLoops runLoop timers } timer

/-- `addTimer:forMode:`, with the default mode or the common modes -/
def addTimer (runLoop timer : ℕ) (modeHandled : Bool) : Except Panic RunLoops := do
  assert modeHandled .unimplemented
  let s ← retainTimer s timer
  assert (timer ∉ s.runLoops runLoop) .timerList
  let s := { s with runLoops := Function.update s.runLoops runLoop (s.runLoops runLoop ++ [timer]) }
  let hostObject ← borrow s timer
  assert hostObject.runLoop.isNone .timerList
  let s := setTimer s timer { hostObject with runLoop := some runLoop }
  pure { s with log := s.log ++ [.added runLoop timer] }

def invalidate (timer : ℕ) : Except Panic RunLoops := do
  let hostObject ← borrow s timer
  let s := setTimer s timer { hostObject with dueBy := none }
  let s := { s with log := s.log ++ [.invalidated timer] }
  if hostObject.dueBy.isSome then removeTimer s hostObject.runLoop timer else pure s

/-- how many intervals a repeating timer is advanced by that is overdue; the source computes it with floating-point
numbers -/
abbrev Lag := ℕ → ℕ → ℕ

/-- the next firing of a repeating timer -/
def advance (lag : Lag) (hostObject : NSTimer) (dueBy now : ℕ) : Except Panic ℕ := do
  let advanceBy := lag (now - dueBy) hostObject.rustInterval
  assert (advanceBy < 2 ^ 32) .conversion
  pure (dueBy + hostObject.rustInterval * advanceBy)

/-- the new instant when the timer is due: a timer that does not repeat is removed from its run loop -/
def reschedule (lag : Lag) (timer : ℕ) (hostObject : NSTimer) (dueBy now : ℕ) : Except Panic (RunLoops × Option ℕ) :=
  if hostObject.repeats then do
    let newDueBy ← advance lag hostObject dueBy now
    pure (s, some newDueBy)
  else do
    let s ← removeTimer s hostObject.runLoop timer
    pure (s, none)

/-- `handle_timer` for a timer that is due, up to the message -/
def sendMessage (lag : Lag) (timer : ℕ) (hostObject : NSTimer) (dueBy now : ℕ) : Except Panic (RunLoops × Option ℕ) := do
  let s ← retainTimer s timer
  let (s, newDueBy) ← reschedule s lag timer hostObject dueBy now
  let s := setTimer s timer { hostObject with dueBy := newDueBy, isRunningCallback := true }
  pure ({ s with log := s.log ++ [.sent timer hostObject.target hostObject.selector] }, newDueBy)

/-- `handle_timer`, up to the message: the next firing, and whether the message is sent -/
def handleTimer (lag : Lag) (timer now : ℕ) : Except Panic (RunLoops × Option ℕ × Bool) := do
  let hostObject ← borrow s timer
  match hostObject.isRunningCallback, hostObject.dueBy with
  | true, _ => pure (s, none, false)
  | false, none => pure (s, none, false)
  | false, some dueBy =>
    if now < dueBy then pure (s, some dueBy, false)
    else do
      let (s, newDueBy) ← sendMessage s lag timer hostObject dueBy now
      pure (s, newDueBy, true)

/-- `handle_timer` after the message -/
def calledBack (timer : ℕ) : Except Panic RunLoops := do
  let hostObject ← borrow s timer
  let s := setTimer s timer { hostObject with isRunningCallback := false }
  releaseTimer s timer

def limitSleepTime (current new : Option ℕ) : Option ℕ :=
  match new with
  | none => current
  | some new => some (current.elim new fun i => min i new)

def retainAll (s : RunLoops) : List ℕ → Except Panic RunLoops
  | [] => pure s
  | timer :: timers => do
    let s ← retainTimer s timer
    retainAll s timers

/-- the end of `fire` -/
def fireReturned (i : ℕ) : Except Panic RunLoops :=
  match s.activities[i]? with
  | some (.firing timer repeats) =>
    let s := { s with activities := s.activities.eraseIdx i }
    if repeats then pure s else invalidate s timer
  | _ => throw .notEnabled

/-- `run_run_loop`: the timers are copied, and retained in case a timer cancels another one -/
def iterate (runLoop : ℕ) : Except Panic RunLoops := do
  let timers := s.runLoops runLoop
  let s ← retainAll s timers
  pure { s with activities := s.activities ++ [.iterating timers none] }

/-- one round of the loop over the copy, up to the message -/
def handleNext (lag : Lag) (i now : ℕ) : Except Panic RunLoops :=
  match s.activities[i]? with
  | some (.iterating [] _) => pure { s with activities := s.activities.eraseIdx i }
  | some (.iterating (timer :: timers) sleepUntil) => do
    let (s, nextDue, message) ← handleTimer s lag timer now
    if message then pure { s with activities := s.activities.set i (.calling timer nextDue timers sleepUntil) }
    else do
      let s ← releaseTimer s timer
      pure { s with activities := s.activities.set i (.iterating timers (limitSleepTime sleepUntil nextDue)) }
  | _ => throw .notEnabled

/-- the round after the message -/
def callbackReturned (i : ℕ) : Except Panic RunLoops :=
  match s.activities[i]? with
  | some (.calling timer nextDue timers sleepUntil) => do
    let s ← calledBack s timer
    let s ← releaseTimer s timer
    pure { s with activities := s.activities.set i (.iterating timers (limitSleepTime sleepUntil nextDue)) }
  | _ => throw .notEnabled

inductive Op where
  | timerWithTimeInterval (interval target selector now : ℕ) (repeats : Bool)
  | addTimer (runLoop timer : ℕ) (modeHandled : Bool)
  | invalidate (timer : ℕ)
  | fire (timer : ℕ)
  /-- the callback of the `fire` in progress returns -/
  | fired (i : ℕ)
  /-- an iteration starts: the timers are copied -/
  | iterate (runLoop : ℕ)
  /-- the next timer of the iteration in progress is handled -/
  | next (i now : ℕ)
  /-- the callback of the iteration in progress returns -/
  | called (i : ℕ)
  | retain (timer : ℕ)
  | release (timer : ℕ)

def step (lag : Lag) (s : RunLoops) : Op → Except Panic RunLoops
  | .timerWithTimeInterval interval target selector now repeats =>
    let rustInterval := max interval 100000
    pure (allocTimer s ⟨rustInterval, target, selector, repeats, some (now + rustInterval), false, none⟩)
  | .addTimer runLoop timer modeHandled => addTimer s runLoop timer modeHandled
  | .invalidate timer => invalidate s timer
  | .fire timer => do
    let hostObject ← borrow s timer
    pure { s with
      activities := s.activities ++ [.firing timer hostObject.repeats],
      log := s.log ++ [.fired timer hostObject.target hostObject.selector] }
  | .fired i => fireReturned s i
  | .iterate runLoop => iterate s runLoop
  | .next i now => handleNext s lag i now
  | .called i => callbackReturned s i
  | .retain timer => do
    let s ← retainTimer s timer
    pure { s with guest := timer :: s.guest }
  | .release timer => do
    assert (timer ∈ s.guest) .notEnabled
    let s ← releaseTimer s timer
    pure { s with guest := s.guest.erase timer }

/-- there are no timers yet -/
def start : RunLoops := ⟨fun _ => ⟨0, 0, 0, false, none, false, none⟩, 0, fun _ => [], fun _ => 0, [], [], []⟩

end TouchHLE.RunLoops
