/-
Who owns the objects that touches are handled with (`ui_touch.rs`, `ui_event.rs`): the touches, the events, the sets and arrays
of touches, and the autorelease pools of the handlers. What the app does when it is sent a message is not part of this.

- `OwnedTouches`: the objects with their reference counts.
- `releaseTouch`, `releaseSet`, `releaseEvent`, `releasePool`: releasing an object, and what it releases when it is deallocated.
- `handleDown`, `handleMove`, `handleUp`, `handle`: the handlers.
- `handle_event`: every handler makes an event, and none is ever freed.
- `gives_back_iff`: when everything is given back. `tap`: a finger that goes down and up.
-/
import TouchHLE.Lib.Arena
import TouchHLE.UIKit.Touches

namespace TouchHLE.UITouch

open Machine

/-- an object in an autorelease pool -/
inductive Pooled where
  | touch (t : ℕ)
  | event (e : ℕ)

structure OwnedTouches (Coords Time : Type) where
  currentTouches : List (FingerId × ℕ)
  touches : Arena (UITouchHostObject Coords Time)
  /-- the events, by their sets of touches -/
  events : Arena (Option ℕ)
  sets : Arena (List ℕ)
  arrays : Arena (List ℕ)
  pools : Arena (List Pooled)
  /-- the innermost pool first -/
  poolStack : List ℕ
  /-- the reference counts of the views and windows -/
  views : View → ℕ
  windows : Window → ℕ

namespace OwnedTouches

variable {Coords Time : Type} {α : Type}

section

variable (s : OwnedTouches Coords Time)

/-! ## Objects -/

def borrowTouch (t : ℕ) : Except Panic (UITouchHostObject Coords Time) := unwrap (s.touches.get t) .missing

def putTouch (t : ℕ) (host : UITouchHostObject Coords Time) : Except Panic (OwnedTouches Coords Time) := do
  let touches ← unwrap (s.touches.put t host) .missing
  pure { s with touches }

def retainTouch (t : ℕ) : Except Panic (OwnedTouches Coords Time) := do
  let touches ← unwrap (s.touches.retain t) .deallocated
  pure { s with touches }

def retainSet (x : ℕ) : Except Panic (OwnedTouches Coords Time) := do
  let sets ← unwrap (s.sets.retain x) .deallocated
  pure { s with sets }

def retainView (view : View) : Except Panic (OwnedTouches Coords Time) := do
  assert (s.views view != 0) .deallocated
  pure { s with views := Function.update s.views view (s.views view + 1) }

def retainWindow (window : Window) : Except Panic (OwnedTouches Coords Time) := do
  assert (s.windows window != 0) .deallocated
  pure { s with windows := Function.update s.windows window (s.windows window + 1) }

/-- a message to nil does nothing -/
def releaseView : Option View → Except Panic (OwnedTouches Coords Time)
  | none => pure s
  | some view => do
    assert (s.views view != 0) .deallocated
    pure { s with views := Function.update s.views view (s.views view - 1) }

def releaseWindow : Option Window → Except Panic (OwnedTouches Coords Time)
  | none => pure s
  | some window => do
    assert (s.windows window != 0) .deallocated
    pure { s with windows := Function.update s.windows window (s.windows window - 1) }

/-- `release` of a `UITouch`, and its `dealloc` -/
def releaseTouch (t : ℕ) : Except Panic (OwnedTouches Coords Time) := do
  let (touches, dead) ← unwrap (s.touches.release t) .deallocated
  let s := { s with touches }
  match dead with
  | none => pure s
  | some host => do
    let s ← s.releaseView host.view
    let s ← s.releaseWindow host.window
    let touches ← unwrap (s.touches.free t) .missing
    pure { s with touches }

/-- `release` of a set, and its `dealloc` -/
def releaseSet (x : ℕ) : Except Panic (OwnedTouches Coords Time) := do
  let (sets, dead) ← unwrap (s.sets.release x) .deallocated
  let s := { s with sets }
  match dead with
  | none => pure s
  | some elements => do
    let s ← elements.foldlM releaseTouch s
    let sets ← unwrap (s.sets.free x) .missing
    pure { s with sets }

/-- `release` of a `UIEvent`, and its `dealloc`, in which the object is not deallocated -/
def releaseEvent (e : ℕ) : Except Panic (OwnedTouches Coords Time) := do
  let (events, dead) ← unwrap (s.events.release e) .deallocated
  let s := { s with events }
  match dead with
  | some (some touches) => s.releaseSet touches
  | _ => pure s

def releasePooled : Pooled → Except Panic (OwnedTouches Coords Time)
  | .touch t => s.releaseTouch t
  | .event e => s.releaseEvent e

/-! ## Autorelease pools -/

/-- `[NSAutoreleasePool new]` -/
def newPool : OwnedTouches Coords Time × ℕ :=
  let (pools, p) := s.pools.make []
  ({ s with pools, poolStack := p :: s.poolStack }, p)

/-- without a pool, the object is leaked -/
def autorelease (object : Pooled) : Except Panic (OwnedTouches Coords Time) :=
  match s.poolStack with
  | [] => pure s
  | p :: _ => do
    let objects ← unwrap (s.pools.get p) .missing
    let pools ← unwrap (s.pools.put p (objects ++ [object])) .missing
    pure { s with pools }

/-- a step of the loop of `dealloc` of a pool: the objects of a pool that is dropped are released -/
def dropPool (this : ℕ) (p : ℕ) : Except Panic (OwnedTouches Coords Time) := do
  let objects ← unwrap (s.pools.get p) .missing
  let pools ← unwrap (s.pools.put p []) .missing
  let pools ← unwrap (pools.free this) .missing
  objects.foldlM releasePooled { s with pools }

/-- `release` of a pool, and its `dealloc`: the pools above it are dropped, too -/
def releasePool (p : ℕ) : Except Panic (OwnedTouches Coords Time) := do
  let (pools, dead) ← unwrap (s.pools.release p) .deallocated
  let s := { s with pools }
  match dead with
  | none => pure s
  | some _ => do
    assert (s.poolStack.contains p) .badPool
    let above := s.poolStack.takeWhile (· ≠ p)
    (above ++ [p]).foldlM (fun s p' => s.dropPool p p') { s with poolStack := s.poolStack.drop (above.length + 1) }

/-! ## Sets, arrays and events -/

/-- `[NSMutableSet allocWithZone:NULL]` -/
def newSet : OwnedTouches Coords Time × ℕ :=
  let (sets, x) := s.sets.make []
  ({ s with sets }, x)

/-- `addObject:` of a set: the object is retained also if the set has it -/
def addObject (x t : ℕ) : Except Panic (OwnedTouches Coords Time) := do
  let s ← s.retainTouch t
  let elements ← unwrap (s.sets.get x) .missing
  let sets ← unwrap (s.sets.put x (if t ∈ elements then elements else elements ++ [t])) .missing
  pure { s with sets }

/-- `allObjects` of a set: a new array, which does not retain its elements -/
def allObjects (order : Order Touch) (x : ℕ) : Except Panic (OwnedTouches Coords Time × List ℕ) := do
  let elements ← unwrap (s.sets.get x) .missing
  let (arrays, _) := s.arrays.make (order.order elements)
  pure ({ s with arrays }, order.order elements)

/-- the set of all current touches -/
def allTouches : Except Panic (OwnedTouches Coords Time × ℕ) := do
  let (s, x) := s.newSet
  let s ← (s.currentTouches.map Prod.snd).foldlM (fun s t => s.addObject x t) s
  pure (s, x)

/-- `new_event` -/
def newEvent (touches : ℕ) : Except Panic (OwnedTouches Coords Time × ℕ) := do
  let (events, event) := s.events.make none
  let s ← { s with events }.retainSet touches
  let events ← unwrap (s.events.put event (some touches)) .missing
  pure ({ s with events }, event)

/-- an event for the set, which belongs to the current pool -/
def autoreleasedEvent (touches : ℕ) : Except Panic (OwnedTouches Coords Time) := do
  let (s, event) ← s.newEvent touches
  s.autorelease (.event event)

/-- `view_touches.entry(key)`: the set of the view, a new one if it has none -/
def viewSet (key : Option View) (viewTouches : List (Option View × ℕ)) :
    OwnedTouches Coords Time × List (Option View × ℕ) × ℕ :=
  match viewTouches.lookup key with
  | some x => (s, viewTouches, x)
  | none =>
    let (s, x) := s.newSet
    (s, viewTouches ++ [(key, x)], x)

/-! ## The handlers -/

variable (guest : Guest Coords) (now : Time)

/-- a touch that moves or ends -/
def changeTouch (phase : UITouchPhase) (touches : ℕ) (coords : Coords) (viewTouches : List (Option View × ℕ)) (t : ℕ) :
    Except Panic (OwnedTouches Coords Time × List (Option View × ℕ)) := do
  let host ← s.borrowTouch t
  assert (host.phase == .stationary) .touchPhase
  let s ← s.putTouch t { host with previousLocation := host.location, location := coords, timestamp := now, phase }
  let s ← s.addObject touches t
  let (s, viewTouches, x) := s.viewSet host.view viewTouches
  let s ← s.addObject x t
  pure (s, viewTouches)

/-- a step of the loop of `handle_touches_move` -/
def moveTouch (touches : ℕ) (acc : OwnedTouches Coords Time × List (Option View × ℕ)) (e : FingerId × Coords) :
    Except Panic (OwnedTouches Coords Time × List (Option View × ℕ)) :=
  match acc.1.currentTouches.lookup e.1 with
  | none => pure acc
  | some t => acc.1.changeTouch now .moved touches e.2 acc.2 t

def handleMove (map : List (FingerId × Coords)) : Except Panic (OwnedTouches Coords Time) := do
  let (s, pool) := s.newPool
  let (s, touches) := s.newSet
  let (s, _) ← map.foldlM (moveTouch now touches) (s, [])
  let (s, all) ← s.allTouches
  let s ← s.autoreleasedEvent all
  s.releasePool pool

/-- a step of the loop of `handle_touches_up` -/
def endTouch (touches : ℕ) (acc : OwnedTouches Coords Time × List (Option View × ℕ)) (e : FingerId × Coords) :
    Except Panic (OwnedTouches Coords Time × List (Option View × ℕ)) :=
  match acc.1.currentTouches.lookup e.1 with
  | none => pure acc
  | some t => do
    let (s, viewTouches) ← acc.1.changeTouch now .ended touches e.2 acc.2 t
    let s ← { s with currentTouches := Assoc.erase e.1 s.currentTouches }.releaseTouch t
    pure (s, viewTouches)

def handleUp (map : List (FingerId × Coords)) : Except Panic (OwnedTouches Coords Time) := do
  let (s, pool) := s.newPool
  let (s, touches) := s.newSet
  let (s, all) ← s.allTouches
  let (s, _) ← map.foldlM (endTouch now touches) (s, [])
  let s ← s.autoreleasedEvent all
  s.releasePool pool

/-- a step of the second loop of `handle_touches_down`: the view of a new touch, if it gets one -/
def giveView (viewsWithExistingTouches : List (Option View)) (acc : OwnedTouches Coords Time × List (Option View × ℕ))
    (t : ℕ) : Except Panic (OwnedTouches Coords Time × List (Option View × ℕ)) := do
  let host ← acc.1.borrowTouch t
  match findView guest t host.location with
  | none => pure acc
  | some (window, view) =>
    if !guest.isMultipleTouchEnabled t view &&
        ((acc.2.lookup (some view)).isSome || viewsWithExistingTouches.contains (some view)) then pure acc
    else do
      let (s, viewTouches, x) := acc.1.viewSet (some view) acc.2
      let s ← s.addObject x t
      let s ← s.retainView view
      let s ← s.retainWindow window
      let host ← s.borrowTouch t
      let s ← s.putTouch t { host with view := some view, window := some window }
      pure (s, viewTouches)

/-- `handle_touches_down` after its first loop -/
def beginDown (pool touches : ℕ) : Except Panic (OwnedTouches Coords Time) := do
  let (s, all) ← s.allTouches
  let s ← s.autoreleasedEvent all
  let hosts ← (s.currentTouches.map Prod.snd).mapM s.borrowTouch
  let (s, array) ← s.allObjects guest.allObjects touches
  let (s, _) ← array.foldlM (giveView guest (hosts.map UITouchHostObject.view)) (s, [])
  s.releasePool pool

/-- a new touch, which belongs to the current pool, the set of touches and the current touches -/
def newTouch (touches : ℕ) (finger : FingerId) (coords : Coords) : Except Panic (OwnedTouches Coords Time) := do
  let (arena, t) := s.touches.make ⟨none, none, coords, coords, now, .began⟩
  let s ← { s with touches := arena }.autorelease (.touch t)
  let s ← s.addObject touches t
  { s with currentTouches := Assoc.insert finger t s.currentTouches }.retainTouch t

/-- the first loop of `handle_touches_down`, and the rest of it; a finger that is down already counts as a movement -/
def downTouches (pool touches : ℕ) : List (FingerId × Coords) → OwnedTouches Coords Time →
    Except Panic (OwnedTouches Coords Time)
  | [], s => s.beginDown guest pool touches
  | (finger, coords) :: map, s =>
    match s.currentTouches.lookup finger with
    | some _ => do
      assert (s.currentTouches.length == 1) .currentTouches
      s.handleMove now [(finger, coords)]
    | none => do
      let s ← s.newTouch now touches finger coords
      downTouches pool touches map s

def handleDown (map : List (FingerId × Coords)) : Except Panic (OwnedTouches Coords Time) :=
  let (s, pool) := s.newPool
  let (s, touches) := s.newSet
  s.downTouches guest now pool touches map

def setStationary (t : ℕ) : Except Panic (OwnedTouches Coords Time) := do
  let host ← s.borrowTouch t
  s.putTouch t { host with phase := .stationary }

end

/-- `handle_event` -/
def handle (s : OwnedTouches Coords Time) (i : Input Coords Time) : Except Panic (OwnedTouches Coords Time) := do
  let s ← (s.currentTouches.map Prod.snd).foldlM setStationary s
  match i.event with
  | .touchesDown map => s.handleDown i.guest i.now map.fingers
  | .touchesMove map => s.handleMove i.now map.fingers
  | .touchesUp map => s.handleUp i.now map.fingers

/-- the innermost pools that are left are drained, one after the other -/
def drainLeft : ℕ → OwnedTouches Coords Time → Except Panic (OwnedTouches Coords Time)
  | 0, s => pure s
  | n + 1, s =>
    match s.poolStack with
    | [] => pure s
    | p :: _ => do
      let s ← s.releasePool p
      drainLeft n s

/-! ## Events -/

theorem ends_any (x : Except Panic α) : Ends (fun _ => True) (fun _ => True) x := by
  cases x <;> trivial

/-- no event is freed -/
def Keeps (s : OwnedTouches Coords Time) (x : Except Panic (OwnedTouches Coords Time)) : Prop :=
  Ends (fun _ => True) (fun s' => Arena.Kept s.events s'.events) x

variable {s s' : OwnedTouches Coords Time} {x : Except Panic (OwnedTouches Coords Time)}
  {f : OwnedTouches Coords Time → Except Panic (OwnedTouches Coords Time)} {viewTouches : List (Option View × ℕ)} {now : Time}
  {s₁ : OwnedTouches Coords Time} {e : Panic}

theorem Keeps.of_kept (h : Arena.Kept s.events s'.events) (hx : Keeps s' x) : Keeps s x :=
  hx.mono fun _ h' => h.trans h'

theorem Keeps.bind (hx : Keeps s x) (hf : ∀ s', Keeps s' (f s')) : Keeps s (x >>= f) :=
  Ends.bind hx fun s' h => (hf s').of_kept h

theorem keeps_foldlM {g : OwnedTouches Coords Time → α → Except Panic (OwnedTouches Coords Time)}
    (h : ∀ s a, Keeps s (g s a)) (l : List α) (s : OwnedTouches Coords Time) : Keeps s (l.foldlM g s) :=
  ends_foldlM (fun s' h' a _ => (h s' a).of_kept h') (Arena.Kept.refl _)

/-- an operation on other objects than events -/
theorem keeps_unwrap {β : Type} {o : Option β} {g : β → Except Panic (OwnedTouches Coords Time)}
    (h : ∀ b, Keeps s (g b)) : Keeps s (unwrap o e >>= g) := by
  cases o with
  | none => trivial
  | some b => exact h b

theorem keeps_assert {p : Bool} {g : Unit → Except Panic (OwnedTouches Coords Time)} (h : Keeps s (g ())) :
    Keeps s (assert p e >>= g) := by
  cases p with
  | false => trivial
  | true => exact h

theorem keeps_pure (h : s'.events = s.events) : Keeps s (pure s') := by
  change Arena.Kept _ _
  rw [h]
  exact Arena.Kept.refl _

theorem putTouch_keeps (s : OwnedTouches Coords Time) (t : ℕ) (host : UITouchHostObject Coords Time) :
    Keeps s (s.putTouch t host) := keeps_unwrap fun _ => keeps_pure rfl

theorem retainTouch_keeps (s : OwnedTouches Coords Time) (t : ℕ) : Keeps s (s.retainTouch t) :=
  keeps_unwrap fun _ => keeps_pure rfl

theorem retainSet_keeps (s : OwnedTouches Coords Time) (x : ℕ) : Keeps s (s.retainSet x) :=
  keeps_unwrap fun _ => keeps_pure rfl

theorem retainView_keeps (s : OwnedTouches Coords Time) (view : View) : Keeps s (s.retainView view) :=
  keeps_assert (keeps_pure rfl)

theorem retainWindow_keeps (s : OwnedTouches Coords Time) (window : Window) : Keeps s (s.retainWindow window) :=
  keeps_assert (keeps_pure rfl)

theorem releaseView_keeps (s : OwnedTouches Coords Time) (view : Option View) : Keeps s (s.releaseView view) := by
  cases view with
  | none => exact keeps_pure rfl
  | some view => exact keeps_assert (keeps_pure rfl)

theorem releaseWindow_keeps (s : OwnedTouches Coords Time) (window : Option Window) : Keeps s (s.releaseWindow window) := by
  cases window with
  | none => exact keeps_pure rfl
  | some window => exact keeps_assert (keeps_pure rfl)

theorem releaseTouch_keeps (s : OwnedTouches Coords Time) (t : ℕ) : Keeps s (s.releaseTouch t) := by
  apply keeps_unwrap
  intro r
  obtain ⟨touches, dead | host⟩ := r
  · exact keeps_pure rfl
  · refine Keeps.of_kept (Arena.Kept.refl _ : Arena.Kept s.events { s with touches }.events) ?_
    apply (releaseView_keeps _ _).bind
    intro s'
    apply (releaseWindow_keeps _ _).bind
    intro s'
    exact keeps_unwrap fun _ => keeps_pure rfl

theorem releaseSet_keeps (s : OwnedTouches Coords Time) (x : ℕ) : Keeps s (s.releaseSet x) := by
  apply keeps_unwrap
  intro r
  obtain ⟨sets, dead | elements⟩ := r
  · exact keeps_pure rfl
  · refine Keeps.of_kept (Arena.Kept.refl _ : Arena.Kept s.events { s with sets }.events) ?_
    apply (keeps_foldlM releaseTouch_keeps elements _).bind
    intro s'
    exact keeps_unwrap fun _ => keeps_pure rfl

/-- **Events** are released, but not freed. -/
theorem releaseEvent_keeps (s : OwnedTouches Coords Time) (e : ℕ) : Keeps s (s.releaseEvent e) := by
  unfold releaseEvent
  cases h : s.events.release e with
  | none => trivial
  | some r =>
    obtain ⟨events, dead⟩ := r
    have hkept : Arena.Kept s.events ({ s with events } : OwnedTouches Coords Time).events := Arena.release_kept h
    cases dead with
    | none => exact hkept
    | some touches =>
      cases touches with
      | none => exact hkept
      | some x => exact (releaseSet_keeps _ x).of_kept hkept

theorem releasePooled_keeps (s : OwnedTouches Coords Time) (object : Pooled) : Keeps s (s.releasePooled object) := by
  cases object with
  | touch t => exact releaseTouch_keeps s t
  | event e => exact releaseEvent_keeps s e

theorem dropPool_keeps (s : OwnedTouches Coords Time) (this p : ℕ) : Keeps s (s.dropPool this p) := by
  apply keeps_unwrap
  intro objects
  apply keeps_unwrap
  intro pools
  apply keeps_unwrap
  intro pools
  exact (keeps_foldlM releasePooled_keeps objects _).of_kept (Arena.Kept.refl _)

theorem releasePool_keeps (s : OwnedTouches Coords Time) (p : ℕ) : Keeps s (s.releasePool p) := by
  apply keeps_unwrap
  intro r
  obtain ⟨pools, dead | objects⟩ := r
  · exact keeps_pure rfl
  · apply keeps_assert
    exact (keeps_foldlM (fun s p' => dropPool_keeps s p p') _ _).of_kept (Arena.Kept.refl _)

theorem autorelease_keeps (s : OwnedTouches Coords Time) (object : Pooled) : Keeps s (s.autorelease object) := by
  unfold autorelease
  cases s.poolStack with
  | nil => exact keeps_pure rfl
  | cons p stack => exact keeps_unwrap fun _ => keeps_unwrap fun _ => keeps_pure rfl

theorem addObject_keeps (s : OwnedTouches Coords Time) (x t : ℕ) : Keeps s (s.addObject x t) :=
  (retainTouch_keeps s t).bind fun _ => keeps_unwrap fun _ => keeps_unwrap fun _ => keeps_pure rfl

theorem viewSet_events (s : OwnedTouches Coords Time) (key : Option View) (viewTouches : List (Option View × ℕ)) :
    (s.viewSet key viewTouches).1.events = s.events := by
  unfold viewSet
  cases viewTouches.lookup key <;> rfl

theorem drainLeft_keeps (n : ℕ) (s : OwnedTouches Coords Time) : Keeps s (drainLeft n s) := by
  induction n generalizing s with
  | zero => exact keeps_pure rfl
  | succ n ih =>
    unfold drainLeft
    cases s.poolStack with
    | nil => exact keeps_pure rfl
    | cons p stack => exact (releasePool_keeps s p).bind ih

theorem allTouches_keeps (s : OwnedTouches Coords Time) :
    Ends (fun _ => True) (fun r => Arena.Kept s.events r.1.events) s.allTouches := by
  unfold allTouches
  apply Ends.bind (keeps_foldlM (fun s' t => addObject_keeps s' s.sets.length t) _ _)
  intro s' h
  exact h

theorem allObjects_keeps (s : OwnedTouches Coords Time) (order : Order Touch) (x : ℕ) :
    Ends (fun _ => True) (fun r => Arena.Kept s.events r.1.events) (s.allObjects order x) := by
  unfold allObjects
  cases s.sets.get x with
  | none => trivial
  | some elements => exact Arena.Kept.refl _

theorem changeTouch_keeps (s : OwnedTouches Coords Time) (phase : UITouchPhase) (touches : ℕ) (coords : Coords) (t : ℕ) :
    Ends (fun _ => True) (fun r => Arena.Kept s.events r.1.events) (s.changeTouch now phase touches coords viewTouches t) := by
  unfold changeTouch
  apply Ends.bind (P := fun _ => True) (ends_any _)
  intro host _
  apply Ends.bind (P := fun _ => True) (ends_any _)
  intro u _
  apply Ends.bind (putTouch_keeps s t _)
  intro s₁ h₁
  apply Ends.bind (addObject_keeps s₁ touches t)
  intro s₂ h₂
  have hset := viewSet_events s₂ host.view viewTouches
  generalize s₂.viewSet host.view viewTouches = r at hset
  obtain ⟨s₃, viewTouches', x⟩ := r
  apply Ends.bind (addObject_keeps s₃ x t)
  intro s₄ h₄
  have h₃ : Arena.Kept s.events s₃.events := by
    rw [show s₃.events = s₂.events from hset]
    exact h₁.trans h₂
  exact h₃.trans h₄

/-- an event was made, and it is still there -/
structure Makes (s s' : OwnedTouches Coords Time) : Prop where
  kept : Arena.Kept s.events s'.events
  event : ∃ e, s.events.length ≤ e ∧ (s'.events.entry e).isSome

theorem Makes.of_kept (h : Makes s₁ s') (hs : Arena.Kept s.events s₁.events) : Makes s s' := by
  obtain ⟨e, he, hentry⟩ := h.event
  exact ⟨hs.trans h.kept, e, hs.length.trans he, hentry⟩

theorem Makes.keeps (h : Makes s s₁) (hs : Arena.Kept s₁.events s'.events) : Makes s s' := by
  obtain ⟨e, he, hentry⟩ := h.event
  exact ⟨h.kept.trans hs, e, he, hs.entry e hentry⟩

theorem newEvent_makes (s : OwnedTouches Coords Time) (touches : ℕ) :
    Ends (fun _ => True) (fun r => Makes s r.1) (s.newEvent touches) := by
  unfold newEvent
  have hmade : Makes s { s with events := (s.events.make none).1 } := by
    refine ⟨Arena.make_kept _ _, s.events.length, le_rfl, ?_⟩
    have hentry := Arena.make_entry s.events none
    change (Arena.entry _ _).isSome
    rw [show s.events.length = (s.events.make none).2 from rfl, hentry]
    rfl
  apply Ends.bind (retainSet_keeps _ touches)
  intro s₁ h₁
  cases hput : s₁.events.put s.events.length (some touches) with
  | none => trivial
  | some events => exact hmade.keeps (h₁.trans (Arena.put_kept hput))

theorem autoreleasedEvent_makes (s : OwnedTouches Coords Time) (touches : ℕ) :
    Ends (fun _ => True) (Makes s) (s.autoreleasedEvent touches) := by
  apply Ends.bind (newEvent_makes s touches)
  intro r hr
  exact (autorelease_keeps r.1 _).mono fun s' h => hr.keeps h

theorem handleMove_makes (s : OwnedTouches Coords Time) (map : List (FingerId × Coords)) :
    Ends (fun _ => True) (Makes s) (s.handleMove now map) := by
  unfold handleMove
  refine Ends.bind (P := fun r => Arena.Kept s.events r.1.events) (ends_foldlM (fun acc hacc e _ => ?_) (Arena.Kept.refl _)) ?_
  · unfold moveTouch
    cases acc.1.currentTouches.lookup e.1 with
    | none => exact hacc
    | some t => exact (changeTouch_keeps acc.1 _ _ _ t).mono fun r hr => hacc.trans hr
  · intro r hr
    apply (allTouches_keeps r.1).bind
    intro r' hr'
    apply (autoreleasedEvent_makes r'.1 r'.2).bind
    intro s₁ h₁
    exact (releasePool_keeps s₁ _).mono fun s' h => (h₁.keeps h).of_kept (hr.trans hr')

theorem handleUp_makes (s : OwnedTouches Coords Time) (map : List (FingerId × Coords)) :
    Ends (fun _ => True) (Makes s) (s.handleUp now map) := by
  unfold handleUp
  apply (allTouches_keeps _).bind
  intro r hr
  refine Ends.bind (P := fun r => Arena.Kept s.events r.1.events) (ends_foldlM (fun acc hacc e _ => ?_) hr) ?_
  · unfold endTouch
    cases acc.1.currentTouches.lookup e.1 with
    | none => exact hacc
    | some t =>
      apply (changeTouch_keeps acc.1 _ _ _ t).bind
      intro r' hr'
      apply Ends.bind (releaseTouch_keeps _ t)
      intro s' h'
      exact hacc.trans (hr'.trans h')
  · intro r' hr'
    apply (autoreleasedEvent_makes r'.1 r.2).bind
    intro s₁ h₁
    exact (releasePool_keeps s₁ _).mono fun s' h => (h₁.keeps h).of_kept hr'

theorem giveView_keeps (guest : Guest Coords) (existing : List (Option View))
    (acc : OwnedTouches Coords Time × List (Option View × ℕ)) (t : ℕ) :
    Ends (fun _ => True) (fun r => Arena.Kept acc.1.events r.1.events) (giveView guest existing acc t) := by
  unfold giveView
  apply Ends.bind (P := fun _ => True) (ends_any _)
  intro host _
  cases findView guest t host.location with
  | none => exact Arena.Kept.refl _
  | some found =>
    obtain ⟨window, view⟩ := found
    dsimp only
    split_ifs
    · exact Arena.Kept.refl _
    · have hset := viewSet_events acc.1 (some view) acc.2
      generalize acc.1.viewSet (some view) acc.2 = r at hset
      obtain ⟨s₁, viewTouches', x⟩ := r
      dsimp only at hset ⊢
      rw [← hset]
      apply Ends.bind (addObject_keeps s₁ x t)
      intro s₂ h₂
      apply Ends.bind (retainView_keeps s₂ view)
      intro s₃ h₃
      apply Ends.bind (retainWindow_keeps s₃ window)
      intro s₄ h₄
      apply Ends.bind (P := fun _ => True) (ends_any _)
      intro host' _
      apply Ends.bind (putTouch_keeps s₄ t _)
      intro s₅ h₅
      exact h₂.trans (h₃.trans (h₄.trans h₅))

theorem beginDown_makes (s : OwnedTouches Coords Time) (guest : Guest Coords) (pool touches : ℕ) :
    Ends (fun _ => True) (Makes s) (s.beginDown guest pool touches) := by
  apply (allTouches_keeps s).bind
  intro r hr
  apply (autoreleasedEvent_makes r.1 r.2).bind
  intro s₁ h₁
  apply Ends.bind (P := fun _ => True) (ends_any _)
  intro hosts _
  apply (allObjects_keeps s₁ _ _).bind
  intro r' hr'
  refine Ends.bind (P := fun r => Arena.Kept s₁.events r.1.events) (ends_foldlM (fun acc hacc t _ => ?_) hr') ?_
  · exact (giveView_keeps guest _ acc t).mono fun _ h => hacc.trans h
  · intro r'' hr''
    exact (releasePool_keeps r''.1 pool).mono fun s' h => (h₁.keeps (hr''.trans h)).of_kept hr

theorem newTouch_keeps (s : OwnedTouches Coords Time) (touches : ℕ) (finger : FingerId) (coords : Coords) :
    Keeps s (s.newTouch now touches finger coords) := by
  have hsame : Arena.Kept s.events
      { s with touches := (s.touches.make ⟨none, none, coords, coords, now, .began⟩).1 }.events := Arena.Kept.refl _
  refine Keeps.of_kept hsame ?_
  apply (autorelease_keeps _ _).bind
  intro s₁
  apply (addObject_keeps s₁ _ _).bind
  intro s₂
  exact (retainTouch_keeps _ _).of_kept (Arena.Kept.refl _)

theorem downTouches_makes (guest : Guest Coords) (pool touches : ℕ) (map : List (FingerId × Coords))
    (s : OwnedTouches Coords Time) : Ends (fun _ => True) (Makes s) (downTouches guest now pool touches map s) := by
  induction map generalizing s with
  | nil => exact beginDown_makes s guest pool touches
  | cons e map ih =>
    obtain ⟨finger, coords⟩ := e
    unfold downTouches
    cases s.currentTouches.lookup finger with
    | some t =>
      apply Ends.bind (P := fun _ => True) (ends_any _)
      intro _ _
      exact handleMove_makes s _
    | none =>
      apply Ends.bind (newTouch_keeps s touches finger coords)
      intro s₁ h₁
      exact (ih s₁).mono fun s' h => h.of_kept h₁

/-- **Every event of the window** leaves a `UIEvent` that is not freed. -/
theorem handle_makes (s : OwnedTouches Coords Time) (i : Input Coords Time) :
    Ends (fun _ => True) (Makes s) (handle s i) := by
  apply Ends.bind (keeps_foldlM (fun s t => ?_) _ s)
  · intro s₁ h₁
    cases i.event with
    | touchesDown map => exact (downTouches_makes i.guest _ _ map.fingers _).mono fun s' h => h.of_kept h₁
    | touchesMove map => exact (handleMove_makes s₁ map.fingers).mono fun s' h => h.of_kept h₁
    | touchesUp map => exact (handleUp_makes s₁ map.fingers).mono fun s' h => h.of_kept h₁
  · exact keeps_unwrap fun host => putTouch_keeps s t _

theorem run_kept {inputs : List (Input Coords Time)} (h : run handle s inputs = .ok s') : Arena.Kept s.events s'.events := by
  apply run_inv (P := fun s' : OwnedTouches Coords Time => Arena.Kept s.events s'.events) ?_ (Arena.Kept.refl _) h
  intro s₁ i s₂ h₁ h₂
  exact h₁.trans ((handle_makes s₁ i).ok h₂).kept

/-! ## What is left -/

/-- everything that was made is freed, and the counts and the depth of the stack are what they were -/
structure GivenBack (s s' : OwnedTouches Coords Time) : Prop where
  touches : ∀ t, s.touches.length ≤ t → s'.touches.entry t = none
  events : ∀ e, s.events.length ≤ e → s'.events.entry e = none
  sets : ∀ x, s.sets.length ≤ x → s'.sets.entry x = none
  views : s'.views = s.views
  windows : s'.windows = s.windows
  depth : s'.poolStack.length = s.poolStack.length

/-- the inputs lead to a state in which every finger is up, and the pools that are left are drained -/
def EndsUp (s : OwnedTouches Coords Time) (inputs : List (Input Coords Time)) (s' : OwnedTouches Coords Time) : Prop :=
  ∃ t, run handle s inputs = .ok t ∧ t.currentTouches = [] ∧
    drainLeft (t.poolStack.length - s.poolStack.length) t = .ok s'

theorem entry_none_of_length (a : Arena α) (i : ℕ) (h : a.length ≤ i) : a.entry i = none := by
  rw [Arena.entry, List.getElem?_eq_none h]
  rfl

/-- **Everything is given back** only if nothing happened. -/
theorem gives_back_iff {s s' : OwnedTouches Coords Time} {inputs : List (Input Coords Time)} (h : EndsUp s inputs s') :
    GivenBack s s' ↔ inputs = [] := by
  obtain ⟨t, hrun, -, hdrain⟩ := h
  cases inputs with
  | nil =>
    obtain rfl := Except.ok.inj hrun
    rw [Nat.sub_self] at hdrain
    obtain rfl := Except.ok.inj hdrain
    refine iff_of_true ⟨?_, ?_, ?_, rfl, rfl, rfl⟩ rfl
    · exact entry_none_of_length _
    · exact entry_none_of_length _
    · exact entry_none_of_length _
  | cons i inputs =>
    refine iff_of_false (fun hback => ?_) (List.cons_ne_nil _ _)
    obtain ⟨s₁, hfirst, hrest⟩ := run_cons_ok.1 hrun
    -- the event that was made first is still there
    have hmakes := ((handle_makes s i).ok hfirst).keeps ((run_kept hrest).trans ((drainLeft_keeps _ t).ok hdrain))
    obtain ⟨e, he, hentry⟩ := hmakes.event
    rw [hback.events e he] at hentry
    cases hentry

/-- one window with one view -/
def tapGuest : Guest Unit :=
  ⟨[0], fun _ c => c, fun _ _ _ => true, fun _ _ _ => some 0, fun _ _ => false, ⟨id, List.Perm.refl⟩, ⟨id, List.Perm.refl⟩⟩

def tapMap : FingerMap Unit := ⟨[(.mouse, ())], List.nodup_singleton _⟩

/-- the finger goes down and up -/
def tapInputs : List (Input Unit Unit) := [⟨.touchesDown tapMap, (), tapGuest⟩, ⟨.touchesUp tapMap, (), tapGuest⟩]

def tapStart : OwnedTouches Unit Unit := ⟨[], [], [], [], [], [], [], fun _ => 1, fun _ => 1⟩

theorem tap_endsUp : ∃ s', EndsUp tapStart tapInputs s' ∧ s'.events.entry 0 = some (0, some 1) :=
  ⟨_, ⟨_, rfl, rfl, rfl⟩, rfl⟩

theorem gives_back_iff_tap : ∃ s', EndsUp tapStart tapInputs s' ∧ (GivenBack tapStart s' ↔ tapInputs = []) := by
  obtain ⟨s', hends, -⟩ := tap_endsUp
  exact ⟨s', hends, gives_back_iff hends⟩

/-- **A tap** leaves its event. -/
theorem tap : ¬∀ (s s' : OwnedTouches Unit Unit) (inputs : List (Input Unit Unit)), EndsUp s inputs s' → GivenBack s s' := by
  intro hall
  obtain ⟨s', hends, hentry⟩ := tap_endsUp
  have hnone := (hall tapStart s' tapInputs hends).events 0 (Nat.zero_le _)
  rw [hentry] at hnone
  cases hnone

end OwnedTouches

end TouchHLE.UITouch
