/-
Touches (`ui_touch.rs`): how the events of the window become messages to views.

- `UITouchHostObject`, `TouchState`: the touches and the fingers that are down. `Message`: what a view is sent.
- `Guest`: the windows and views of the app, as far as they are asked.
- `handleTouchesDown`, `handleTouchesMove`, `handleTouchesUp`, `handleEvent`: the functions.
-/
import TouchHLE.Lib.Grouping
import TouchHLE.Lib.Machine
import TouchHLE.Panic

namespace TouchHLE

open Machine

/-- a `UITouch`, by the order in which they are made; the sets that they are put in are never released, so that none of them
is deallocated -/
abbrev Touch := ℕ

/-- a `UIView` -/
abbrev View := ℕ

/-- a `UIWindow` -/
abbrev Window := ℕ

inductive Button where
  | dPadLeft
  | dPadUp
  | dPadRight
  | dPadDown
  | start
  | a
  | b
  | x
  | y
  | leftShoulder
deriving DecidableEq

inductive FingerId where
  | mouse
  | touch (n : ℤ)
  | virtualCursor
  | buttonToTouch (button : Button)
  | stickToTouch
  | dpadToTouch
  | pinchFinger1
  | pinchFinger2
deriving DecidableEq

inductive UITouchPhase where
  | began
  | moved
  | stationary
  | ended
deriving DecidableEq

structure UITouchHostObject (Coords Time : Type) where
  view : Option View
  window : Option Window
  location : Coords
  previousLocation : Coords
  timestamp : Time
  phase : UITouchPhase

/-- `touchesBegan:withEvent:` and so on -/
structure Message where
  phase : UITouchPhase
  view : View
  /-- the set of touches, with the phases that they have when it is sent -/
  touches : List (Touch × UITouchPhase)
  /-- the touches of the event -/
  allTouches : List Touch
deriving DecidableEq

structure TouchState (Coords Time : Type) where
  currentTouches : List (FingerId × Touch)
  touch : Touch → UITouchHostObject Coords Time
  /-- the next touch -/
  next : Touch
  /-- the messages that were sent so far -/
  sent : List Message

/-- the order in which a hash map is gone through -/
structure Order (α : Type) where
  order : List α → List α
  perm : ∀ l, (order l).Perm l

/-- what the views of the app answer while an event is handled; an answer can be another one each time, which is why they depend on
the touch -/
structure Guest (Coords : Type) where
  windows : List Window
  convertPoint : Window → Coords → Coords
  pointInside : Touch → Window → Coords → Bool
  hitTest : Touch → Window → Coords → Option View
  isMultipleTouchEnabled : Touch → View → Bool
  allObjects : Order Touch
  viewTouches : Order (Option View × List Touch)

/-- the fingers of an event, in the order in which the hash map is gone through -/
structure FingerMap (Coords : Type) where
  fingers : List (FingerId × Coords)
  nodup : (fingers.map Prod.fst).Nodup

namespace UITouch

open Grouping

variable {Coords Time : Type}

section

variable (s : TouchState Coords Time) (guest : Guest Coords) (now : Time)

def setTouch (touch : Touch) (host : UITouchHostObject Coords Time) : TouchState Coords Time :=
  { s with touch := Function.update s.touch touch host }

/-- the values of `current_touches` -/
def tracked : List Touch := s.currentTouches.map Prod.snd

/-- a message to the view of an entry of `view_touches`; a message to nil does nothing -/
def send (phase : UITouchPhase) (allTouches : List Touch) (e : Option View × List Touch) : TouchState Coords Time :=
  match e.1 with
  | none => s
  | some view => { s with sent := s.sent ++ [⟨phase, view, e.2.map fun t => (t, (s.touch t).phase), allTouches⟩] }

def sendAll (phase : UITouchPhase) (allTouches : List Touch) (viewTouches : List (Option View × List Touch)) :
    TouchState Coords Time :=
  (guest.viewTouches.order viewTouches).foldl (fun s e => send s phase allTouches e) s

/-- a touch moves or ends; a touch that ends is not tracked any more -/
def changeTouch (phase : UITouchPhase) (ends : Bool) (finger : FingerId) (coords : Coords) (touch : Touch) :
    TouchState Coords Time :=
  let host := s.touch touch
  let s := setTouch s touch { host with previousLocation := host.location, location := coords, timestamp := now, phase }
  if ends then { s with currentTouches := Assoc.erase finger s.currentTouches } else s

/-- the loop of `handle_touches_move`, and that of `handle_touches_up` -/
def changeTouches (phase : UITouchPhase) (ends : Bool) (s : TouchState Coords Time)
    (viewTouches : List (Option View × List Touch)) : List (FingerId × Coords) →
      Except Panic (TouchState Coords Time × List (Option View × List Touch))
  | [] => pure (s, viewTouches)
  | (finger, coords) :: map =>
    match s.currentTouches.lookup finger with
    | none => changeTouches phase ends s viewTouches map
    | some touch => do
      assert ((s.touch touch).phase == .stationary) .touchPhase
      changeTouches phase ends (changeTouch s now phase ends finger coords touch) (push (s.touch touch).view touch viewTouches) map

def handleTouchesMove (map : List (FingerId × Coords)) : Except Panic (TouchState Coords Time) := do
  let (s, viewTouches) ← changeTouches now .moved false s [] map
  pure (sendAll s guest .moved (tracked s) viewTouches)

def handleTouchesUp (map : List (FingerId × Coords)) : Except Panic (TouchState Coords Time) := do
  let allTouches := tracked s
  let (s, viewTouches) ← changeTouches now .ended true s [] map
  pure (sendAll s guest .ended allTouches viewTouches)

/-- the window and the view at a place -/
def findView (touch : Touch) (location : Coords) : Option (Window × View) := do
  let (window, locationInWindow) ← guest.windows.reverse.findSome? fun window =>
    let locationInWindow := guest.convertPoint window location
    if guest.pointInside touch window locationInWindow then some (window, locationInWindow) else none
  let view ← guest.hitTest touch window locationInWindow
  pure (window, view)

/-- the second loop of `handle_touches_down`: the view of a new touch, if it gets one -/
def assignView (viewsWithExistingTouches : List (Option View))
    (acc : TouchState Coords Time × List (Option View × List Touch)) (touch : Touch) :
    TouchState Coords Time × List (Option View × List Touch) :=
  match findView guest touch (acc.1.touch touch).location with
  | none => acc
  | some (window, view) =>
    if !guest.isMultipleTouchEnabled touch view &&
        ((group (some view) acc.2).isSome || viewsWithExistingTouches.contains (some view)) then acc
    else (setTouch acc.1 touch { acc.1.touch touch with view := some view, window := some window }, push (some view) touch acc.2)

/-- `handle_touches_down` after its first loop -/
def beginTouches (touches : List Touch) : TouchState Coords Time :=
  let viewsWithExistingTouches := (tracked s).map fun t => (s.touch t).view
  let (s', viewTouches) := (guest.allObjects.order touches).foldl (assignView guest viewsWithExistingTouches) (s, [])
  sendAll s' guest .began (tracked s) viewTouches

/-- a new touch -/
def newTouch (finger : FingerId) (coords : Coords) : TouchState Coords Time :=
  { setTouch s s.next ⟨none, none, coords, coords, now, .began⟩ with
    currentTouches := Assoc.insert finger s.next s.currentTouches, next := s.next + 1 }

/-- the first loop of `handle_touches_down`, and the rest of it; a finger that is down already counts as a movement -/
def handleTouchesDown (s : TouchState Coords Time) (touches : List Touch) :
    List (FingerId × Coords) → Except Panic (TouchState Coords Time)
  | [] => pure (beginTouches s guest touches)
  | (finger, coords) :: map =>
    match s.currentTouches.lookup finger with
    | some _ => do
      assert (s.currentTouches.length == 1) .currentTouches
      handleTouchesMove s guest now [(finger, coords)]
    | none => handleTouchesDown (newTouch s now finger coords) (s.next :: touches) map

/-- all current touches are marked as stationary -/
def markStationary : TouchState Coords Time :=
  { s with touch := fun t => if t ∈ tracked s then { s.touch t with phase := .stationary } else s.touch t }

end

inductive Event (Coords : Type) where
  | touchesDown (map : FingerMap Coords)
  | touchesMove (map : FingerMap Coords)
  | touchesUp (map : FingerMap Coords)

/-- an event, the time at which it is handled, and the app -/
structure Input (Coords Time : Type) where
  event : Event Coords
  now : Time
  guest : Guest Coords

def handleEvent (s : TouchState Coords Time) (i : Input Coords Time) : Except Panic (TouchState Coords Time) :=
  let s := markStationary s
  match i.event with
  | .touchesDown map => handleTouchesDown i.guest i.now s [] map.fingers
  | .touchesMove map => handleTouchesMove s i.guest i.now map.fingers
  | .touchesUp map => handleTouchesUp s i.guest i.now map.fingers

/-- a finger that is down already goes down again only alone in its event and with no other touch active -/
def Downs (s : TouchState Coords Time) (i : Input Coords Time) : Prop :=
  ∀ map, i.event = .touchesDown map → ∀ e ∈ map.fingers, (s.currentTouches.lookup e.1).isSome →
    map.fingers.length = 1 ∧ s.currentTouches.length = 1

end UITouch

end TouchHLE
