/-
The references of Core Animation (`ca_transaction.rs`, `ca_media_timing_function.rs`, `ca_animation.rs`,
`ca_layer.rs`). Transactions, animations and layers keep the objects that they are given, each by its own rules, and
the last release of an object deallocates it, which releases what it kept.

- `HostObject`, `Transaction`, `World`: the objects, and the references to them that the guest, the autorelease pools
  and the named functions have. `retained`, `released`: the log of what transactions, animations and layers do.
- `releaseAll`: objects are released one after the other, with what each deallocation releases.
- `functionWithName`, `storeField`, `setValue`, `commit`, `addAnimation`, `removeAnimationForKey`: the methods.
- `step`: what the guest can do.
-/
import TouchHLE.Lib.Assoc
import TouchHLE.Lib.Counted
import TouchHLE.Lib.Machine
import TouchHLE.Panic

namespace TouchHLE.CoreAnimation

open Machine

/-! ## Objects -/

inductive AnimationClass where
  /-- `CAAnimation` -/
  | animation
  | propertyAnimation
  | basicAnimation
  | transition
deriving DecidableEq

/-- the properties of animations that are objects -/
inductive Field where
  | timingFunction
  | delegate
  | keyPath
  | fromValue
  | toValue
  | byValue
deriving DecidableEq

/-- whether instances of the class have the property -/
def AnimationClass.responds : AnimationClass → Field → Bool
  | _, .timingFunction => true
  | _, .delegate => true
  | .propertyAnimation, .keyPath => true
  | .basicAnimation, _ => true
  | _, _ => false

/-- `CAAnimationHostObject`, with the fields of `CAPropertyAnimationHostObject` and `CABasicAnimationHostObject` -/
structure AnimationHostObject where
  isa : AnimationClass
  timingFunction : Option ℕ
  delegate : Option ℕ
  duration : ℚ
  keyPath : Option ℕ
  fromValue : Option ℕ
  toValue : Option ℕ
  byValue : Option ℕ

namespace AnimationHostObject

def get (a : AnimationHostObject) : Field → Option ℕ
  | .timingFunction => a.timingFunction
  | .delegate => a.delegate
  | .keyPath => a.keyPath
  | .fromValue => a.fromValue
  | .toValue => a.toValue
  | .byValue => a.byValue

def set (a : AnimationHostObject) (value : Option ℕ) : Field → AnimationHostObject
  | .timingFunction => { a with timingFunction := value }
  | .delegate => { a with delegate := value }
  | .keyPath => { a with keyPath := value }
  | .fromValue => { a with fromValue := value }
  | .toValue => { a with toValue := value }
  | .byValue => { a with byValue := value }

/-- what the `dealloc` methods of the class and its superclasses release, in order -/
def releases (a : AnimationHostObject) : List ℕ :=
  match a.isa with
  | .animation | .transition => a.delegate.toList ++ a.timingFunction.toList
  | .propertyAnimation => a.keyPath.toList ++ a.delegate.toList ++ a.timingFunction.toList
  | .basicAnimation => a.fromValue.toList ++ a.toValue.toList ++ a.keyPath.toList ++ a.delegate.toList ++
    a.timingFunction.toList

/-- what they do not release -/
def leaks (a : AnimationHostObject) : List ℕ := if a.isa = .basicAnimation then a.byValue.toList else []

end AnimationHostObject

/-- `CALayerHostObject` -/
structure LayerHostObject where
  animations : List (String × ℕ)
  anonymousAnimations : List ℕ

inductive HostObject where
  | animation (a : AnimationHostObject)
  | layer (l : LayerHostObject)
  /-- `CAMediaTimingFunction` -/
  | timingFunction
  | string (isMutable : Bool)
  | number (value : ℚ)
  /-- of any other class -/
  | object

namespace HostObject

/-- what `dealloc` releases -/
def releases : HostObject → List ℕ
  | .animation a => a.releases
  | _ => []

/-- what it does not release: a by value, and the animations of a layer -/
def leaks : HostObject → List ℕ
  | .animation a => a.leaks
  | .layer l => (l.animations.flatMap fun e => [e.2]) ++ l.anonymousAnimations
  | _ => []

/-- the objects that were given to the object -/
def kept (h : HostObject) : List ℕ := h.releases ++ h.leaks

end HostObject

def kCAMediaTimingFunctionDefault : String := "default"

/-- the names of timing functions -/
def functionNames : List String := [kCAMediaTimingFunctionDefault, "easeIn", "easeInEaseOut", "easeOut", "linear"]

def kCATransactionAnimationDuration : String := "animationDuration"
def kCATransactionDisableActions : String := "disableActions"
def kCATransactionAnimationTimingFunction : String := "animationTimingFunction"
def kCATransactionCompletionBlock : String := "completionBlock"

structure Transaction where
  disableActions : Bool
  animationDuration : ℚ
  animationTimingFunction : Option ℕ
  data : List (String × Option ℕ)
  /-- layers with their animations; nothing in the source adds to them -/
  animations : List (ℕ × ℕ)

/-- the youngest of the explicit transactions first -/
structure ThreadState where
  implicitTransaction : Option Transaction
  explicitTransactions : List Transaction

structure World where
  refs : Counted.Counts
  objects : List (ℕ × HostObject)
  /-- no object has the address of an earlier one -/
  created : ℕ
  namedFunctions : List (String × ℕ)
  transactions : List (ℕ × ThreadState)
  /-- the pools of each thread with the objects in them, the youngest first -/
  poolStacks : List (ℕ × List (List ℕ))
  /-- the references that the guest has -/
  guest : List ℕ
  /-- the references that were autoreleased without a pool -/
  leaked : List ℕ
  /-- the log: what was retained for a transaction, an animation or a layer -/
  retained : List ℕ
  /-- the log: what was released by one -/
  released : List ℕ

namespace World

variable (s : World)

/-! ## References -/

def put (o : ℕ) (h : HostObject) : World := { s with objects := Assoc.insert o h s.objects }

/-- `alloc_object` -/
def alloc (h : HostObject) : ℕ × World :=
  (s.created, { s.put s.created h with refs := Counted.create s.refs s.created, created := s.created + 1 })

def retain (o : Option ℕ) : Except Panic World := do
  let refs ← unwrap (Counted.retain s.refs o) .deallocated
  pure { s with refs }

/-- `retain` by a transaction, an animation or a layer -/
def keep (o : Option ℕ) : Except Panic World := do
  let s ← s.retain o
  pure { s with retained := o.toList ++ s.retained }

/-- to the current pool of the thread -/
def autorelease (thread o : ℕ) : World :=
  match s.poolStacks.lookup thread with
  | some (pool :: pools) => { s with poolStacks := Assoc.insert thread ((pool ++ [o]) :: pools) s.poolStacks }
  | _ => { s with leaked := o :: s.leaked }

/-- the `dealloc` method: what is to be released -/
def dealloc (o : ℕ) : Except Panic (List ℕ × World) := do
  let h ← unwrap (s.objects.lookup o) .missing
  pure (h.releases, { s with objects := Assoc.erase o s.objects, released := h.releases ++ s.released })

/-- the objects are released in order, and after each of them what its deallocation releases, for so many releases -/
def releaseAll : ℕ → List ℕ → World → Except Panic World
  | _, [], s => pure s
  | 0, _ :: _, _ => throw .tooDeep
  | n + 1, o :: os, s => do
    let refs ← unwrap (Counted.release s.refs (some o)) .deallocated
    if refs o = 0 then do
      let (fields, s) ← { s with refs }.dealloc o
      releaseAll n (fields ++ os) s
    else releaseAll n os { s with refs }

/-- there are no more references to release than the objects have -/
def release (os : List ℕ) : Except Panic World :=
  releaseAll (os.length + (s.objects.flatMap fun e => e.2.releases).length) os s

/-- `release` by a transaction, an animation or a layer -/
def drop (os : List ℕ) : Except Panic World := { s with released := os ++ s.released }.release os

/-- `copy`, for an animation: a string that cannot change is retained -/
def copy : Option ℕ → Except Panic (Option ℕ × World)
  | none => pure (none, s)
  | some o =>
    match s.objects.lookup o with
    | some (.string false) => do
      let s ← s.keep (some o)
      pure (some o, s)
    | some (.string true) =>
      let (new, s) := s.alloc (.string false)
      pure (some new, { s with retained := new :: s.retained })
    | _ => throw .doesNotRespond

/-! ## Timing functions -/

def functionWithControlPoints (thread : ℕ) : ℕ × World :=
  let (f, s) := s.alloc .timingFunction
  (f, s.autorelease thread f)

/-- a function is made once for each name, and the named functions have a reference to it -/
def functionWithName (thread : ℕ) (name : String) : Except Panic (ℕ × World) :=
  match s.namedFunctions.lookup name with
  | some f => pure (f, s)
  | none => do
    assert (functionNames.contains name) .functionName
    let (f, s) := s.functionWithControlPoints thread
    let s ← { s with namedFunctions := Assoc.insert name f s.namedFunctions }.retain (some f)
    pure (f, s)

/-! ## Animations -/

/-- `borrow::<CAAnimationHostObject>` -/
def borrowAnimation (a : ℕ) : Except Panic AnimationHostObject :=
  match s.objects.lookup a with
  | some (.animation h) => pure h
  | some _ => throw .hostObject
  | none => throw .missing

/-- the setters: the value replaces the old one and is retained -/
def storeField (field : Field) (a : ℕ) (value : Option ℕ) : Except Panic World := do
  let h ← s.borrowAnimation a
  assert (h.isa.responds field) .doesNotRespond
  (s.put a (.animation (h.set value field))).keep value

def setTimingFunction (a : ℕ) (timingFunction : Option ℕ) : Except Panic World :=
  s.storeField .timingFunction a timingFunction

def setDelegate (a : ℕ) (delegate : Option ℕ) : Except Panic World := s.storeField .delegate a delegate

def setFromValue (a : ℕ) (value : Option ℕ) : Except Panic World := s.storeField .fromValue a value

def setToValue (a : ℕ) (value : Option ℕ) : Except Panic World := s.storeField .toValue a value

def setByValue (a : ℕ) (value : Option ℕ) : Except Panic World := s.storeField .byValue a value

def setKeyPath (a : ℕ) (path : Option ℕ) : Except Panic World := do
  let h ← s.borrowAnimation a
  assert (h.isa.responds .keyPath) .doesNotRespond
  let (pathCopy, s) ← s.copy path
  pure (s.put a (.animation (h.set pathCopy .keyPath)))

/-- the setter of a property -/
def setField : Field → ℕ → Option ℕ → Except Panic World
  | .timingFunction => s.setTimingFunction
  | .delegate => s.setDelegate
  | .keyPath => s.setKeyPath
  | .fromValue => s.setFromValue
  | .toValue => s.setToValue
  | .byValue => s.setByValue

def setDuration (a : ℕ) (duration : ℚ) : Except Panic World := do
  let h ← s.borrowAnimation a
  pure (s.put a (.animation { h with duration }))

/-- `allocWithZone:` -/
def allocAnimation (isa : AnimationClass) : ℕ × World := s.alloc (.animation ⟨isa, none, none, 0, none, none, none, none⟩)

/-- `init` -/
def initAnimation (thread a : ℕ) : Except Panic World := do
  let (f, s) ← s.functionWithName thread kCAMediaTimingFunctionDefault
  s.setTimingFunction a (some f)

/-- `animation` -/
def animation (thread : ℕ) (isa : AnimationClass) : Except Panic World := do
  let (a, s) := s.allocAnimation isa
  let s ← s.initAnimation thread a
  pure (s.autorelease thread a)

def animationWithKeyPath (thread : ℕ) (isa : AnimationClass) (path : Option ℕ) : Except Panic World := do
  let (a, s) := s.allocAnimation isa
  let s ← s.initAnimation thread a
  let s ← s.setKeyPath a path
  pure (s.autorelease thread a)

/-! ## Transactions and layers -/

def threadState (thread : ℕ) : ThreadState := (s.transactions.lookup thread).getD ⟨none, []⟩

def setThreadState (thread : ℕ) (t : ThreadState) : World := { s with transactions := Assoc.insert thread t s.transactions }

/-- the youngest explicit transaction, or else the implicit one -/
def currentTransaction (thread : ℕ) : Except Panic Transaction :=
  match s.threadState thread with
  | ⟨_, t :: _⟩ => pure t
  | ⟨some t, []⟩ => pure t
  | ⟨none, []⟩ => throw .missing

def setCurrentTransaction (thread : ℕ) (t : Transaction) : World :=
  match s.threadState thread with
  | ⟨implicit, _ :: ts⟩ => s.setThreadState thread ⟨implicit, t :: ts⟩
  | ⟨_, []⟩ => s.setThreadState thread ⟨some t, []⟩

/-- `Transaction::new` -/
def newTransaction (thread : ℕ) : Except Panic (Transaction × World) := do
  let (f, s) ← s.functionWithName thread kCAMediaTimingFunctionDefault
  pure (⟨false, 1 / 4, some f, [], []⟩, s)

/-- `begin` -/
def beginTransaction (thread : ℕ) : Except Panic World := do
  let (t, s) ← s.newTransaction thread
  let state := s.threadState thread
  pure (s.setThreadState thread { state with explicitTransactions := t :: state.explicitTransactions })

/-- `doubleValue`, which is zero for nil -/
def doubleValue : Option ℕ → Except Panic ℚ
  | none => pure 0
  | some o =>
    match s.objects.lookup o with
    | some (.number value) => pure value
    | _ => throw .doesNotRespond

/-- `setValue:forKey:` -/
def setValue (thread : ℕ) (value : Option ℕ) (key : String) : Except Panic World :=
  if key = kCATransactionAnimationDuration then do
    let animationDuration ← s.doubleValue value
    let t ← s.currentTransaction thread
    pure (s.setCurrentTransaction thread { t with animationDuration })
  else if key = kCATransactionDisableActions then do
    -- `boolValue`
    let value ← s.doubleValue value
    let t ← s.currentTransaction thread
    pure (s.setCurrentTransaction thread { t with disableActions := value ≠ 0 })
  else if key = kCATransactionAnimationTimingFunction then do
    let t ← s.currentTransaction thread
    let s ← (s.setCurrentTransaction thread { t with animationTimingFunction := value }).keep value
    s.drop t.animationTimingFunction.toList
  else if key = kCATransactionCompletionBlock then throw .unimplemented
  else do
    let t ← s.currentTransaction thread
    let s ← (s.setCurrentTransaction thread { t with data := Assoc.insert key value t.data }).keep value
    s.drop (t.data.lookup key).join.toList

/-- `borrow::<CALayerHostObject>` -/
def borrowLayer (layer : ℕ) : Except Panic LayerHostObject :=
  match s.objects.lookup layer with
  | some (.layer l) => pure l
  | some _ => throw .hostObject
  | none => throw .missing

/-- a duration of zero becomes the `animationDuration` of CATransaction -/
def adjustDuration (thread anim : ℕ) : Except Panic World := do
  let h ← s.borrowAnimation anim
  if h.duration = 0 then do
    let t ← s.currentTransaction thread
    s.setDuration anim t.animationDuration
  else pure s

/-- `addAnimation:forKey:` -/
def addAnimation (thread layer anim : ℕ) (key : Option String) : Except Panic World := do
  let s ← s.adjustDuration thread anim
  let l ← s.borrowLayer layer
  match key with
  | none => do
    assert (!l.anonymousAnimations.contains anim) .duplicateKey
    (s.put layer (.layer { l with anonymousAnimations := anim :: l.anonymousAnimations })).keep (some anim)
  | some key => (s.put layer (.layer { l with animations := Assoc.insert key anim l.animations })).keep (some anim)

/-- a layer loses the animation that it has for a key -/
def takeAnimation (layer : ℕ) (l : LayerHostObject) (key : String) : World :=
  s.put layer (.layer { l with animations := Assoc.erase key l.animations })

def removeAnimationForKey (layer : ℕ) (key : String) : Except Panic World := do
  let l ← s.borrowLayer layer
  match l.animations.lookup key with
  | some anim => (s.takeAnimation layer l key).drop [anim]
  | none => pure s

/-- an animation of a transaction starts, unless actions are disabled -/
def act (thread : ℕ) (t : Transaction) (layer animation : ℕ) : Except Panic World :=
  if t.disableActions then pure s
  else do
    let s ← s.setDuration animation t.animationDuration
    let s ← s.setTimingFunction animation t.animationTimingFunction
    s.addAnimation thread layer animation none

/-- the first loop of `Transaction::commit` -/
def commitAnimations (thread : ℕ) (t : Transaction) : List (ℕ × ℕ) → World → Except Panic World
  | [], s => pure s
  | (layer, animation) :: animations, s => do
    let s ← s.act thread t layer animation
    let s ← s.drop [layer]
    let s ← s.drop [animation]
    commitAnimations thread t animations s

/-- `commit`; the timing function of the transaction is not released -/
def commit (thread : ℕ) : Except Panic World :=
  match s.threadState thread with
  | ⟨_, []⟩ => throw .missing
  | ⟨implicit, t :: ts⟩ => do
    let s ← commitAnimations thread t t.animations (s.setThreadState thread ⟨implicit, ts⟩)
    s.drop (t.data.flatMap fun e => e.2.toList)

/-! ## What the guest does -/

/-- a new object of the guest -/
def own (a : ℕ × World) : World := { a.2 with guest := a.1 :: a.2.guest }

def guestRetain (o : ℕ) : Except Panic World := do
  let s ← s.retain (some o)
  pure { s with guest := o :: s.guest }

def guestRelease (o : ℕ) : Except Panic World := { s with guest := s.guest.erase o }.release [o]

def guestAutorelease (thread o : ℕ) : World := { s with guest := s.guest.erase o }.autorelease thread o

def newPool (thread : ℕ) : World :=
  { s with poolStacks := Assoc.insert thread ([] :: (s.poolStacks.lookup thread).getD []) s.poolStacks }

/-- the youngest pool of the thread -/
def drainPool (thread : ℕ) : Except Panic World :=
  match s.poolStacks.lookup thread with
  | some (pool :: pools) => { s with poolStacks := Assoc.insert thread pools s.poolStacks }.release pool
  | _ => throw .badPool

end World

inductive Op where
  | newObject
  | newString (isMutable : Bool)
  | newNumber (value : ℚ)
  | newLayer
  | allocAnimation (isa : AnimationClass)
  | initAnimation (thread a : ℕ)
  | animation (thread : ℕ) (isa : AnimationClass)
  | animationWithKeyPath (thread : ℕ) (isa : AnimationClass) (path : Option ℕ)
  | setField (field : Field) (a : ℕ) (value : Option ℕ)
  | setDuration (a : ℕ) (duration : ℚ)
  | functionWithName (thread : ℕ) (name : String)
  | functionWithControlPoints (thread : ℕ)
  | beginTransaction (thread : ℕ)
  | setValue (thread : ℕ) (value : Option ℕ) (key : String)
  | commit (thread : ℕ)
  | addAnimation (thread layer anim : ℕ) (key : Option String)
  | removeAnimationForKey (layer : ℕ) (key : String)
  | retain (o : ℕ)
  | release (o : ℕ)
  | autorelease (thread o : ℕ)
  | newPool (thread : ℕ)
  | drainPool (thread : ℕ)

def step (s : World) : Op → Except Panic World
  | .newObject => pure (World.own (s.alloc .object))
  | .newString isMutable => pure (World.own (s.alloc (.string isMutable)))
  | .newNumber value => pure (World.own (s.alloc (.number value)))
  | .newLayer => pure (World.own (s.alloc (.layer ⟨[], []⟩)))
  | .allocAnimation isa => pure (World.own (s.allocAnimation isa))
  | .initAnimation thread a => s.initAnimation thread a
  | .animation thread isa => s.animation thread isa
  | .animationWithKeyPath thread isa path => s.animationWithKeyPath thread isa path
  | .setField field a value => s.setField field a value
  | .setDuration a duration => s.setDuration a duration
  | .functionWithName thread name => Prod.snd <$> s.functionWithName thread name
  | .functionWithControlPoints thread => pure (s.functionWithControlPoints thread).2
  | .beginTransaction thread => s.beginTransaction thread
  | .setValue thread value key => s.setValue thread value key
  | .commit thread => s.commit thread
  | .addAnimation thread layer anim key => s.addAnimation thread layer anim key
  | .removeAnimationForKey layer key => s.removeAnimationForKey layer key
  | .retain o => s.guestRetain o
  | .release o => s.guestRelease o
  | .autorelease thread o => pure (s.guestAutorelease thread o)
  | .newPool thread => pure (s.newPool thread)
  | .drainPool thread => s.drainPool thread

end TouchHLE.CoreAnimation
