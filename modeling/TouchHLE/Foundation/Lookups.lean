/-
Calls on one dictionary while others are in progress (`ns_dictionary.rs`). A call takes the host object out of the object
table, runs guest code (`hash`, `isEqual:`, `copy`), and puts it back; meanwhile the dictionary is an empty one.

- `step`: a call starts, a call finishes, or `count` is asked, in any order. With `lookupTakes` the lookups do what they do;
  without, they leave the dictionary where it is, which is what a lookup should do.
- `Apart`: what may happen while a lookup is in progress.
- `Undisturbed`: the same answers, and the same dictionary in the end.
- `apart_step`: the two kinds of lookups stay in step. `lookups_undisturbed`: runs. `lookups_disturb`: four ways to disturb.
-/
import TouchHLE.Foundation.Dictionary
import TouchHLE.Lib.Simulation

namespace TouchHLE

open Machine

/-- the calls whose host object is elsewhere while they are in progress -/
inductive DictionaryCall where
  | objectForKey (key : ℕ)
  | setObject (object key : ℕ)
  | removeObjectForKey (key : ℕ)
deriving DecidableEq

def DictionaryCall.isLookup : DictionaryCall → Bool
  | .objectForKey _ => true
  | _ => false

/-- `Default::default()`, which `mem::take` leaves -/
def DictionaryHostObject.default : DictionaryHostObject := ⟨[], 0⟩

structure CallInProgress where
  call : DictionaryCall
  hostObj : DictionaryHostObject

def CallInProgress.isLookup (c : CallInProgress) : Bool := c.call.isLookup

/-- a dictionary, the calls in progress on it in the order they started, and the answers that were given -/
structure DictionaryInUse where
  hostObj : DictionaryHostObject
  refs : References
  calls : List CallInProgress
  answers : List ℕ
  counts : List ℕ

namespace DictionaryInUse

inductive Event where
  | start (call : DictionaryCall)
  | finish (i : ℕ)
  | count

/-- what is asserted before the host object is taken -/
def checkArguments : DictionaryCall → Except Panic Unit
  | .objectForKey _ => pure ()
  | .setObject object key => do
    assert (object ≠ nil) .nilArgument
    assert (key ≠ nil) .nilArgument
  | .removeObjectForKey key => assert (key ≠ nil) .nilArgument

variable (m : KeyMessages) (lookupTakes : Bool)

/-- the calls, from `mem::take` to the assignment at their end -/
def step (s : DictionaryInUse) : Event → Except Panic DictionaryInUse
  | .start call => do
    checkArguments call
    let hostObj := if call.isLookup && !lookupTakes then s.hostObj else .default
    pure { s with hostObj, calls := s.calls ++ [⟨call, s.hostObj⟩] }
  | .finish i =>
    match s.calls[i]? with
    | none => pure s
    | some c => do
      let s := { s with calls := s.calls.eraseIdx i }
      match c.call with
      | .objectForKey key =>
        let hostObj := if lookupTakes then c.hostObj else s.hostObj
        pure { s with hostObj, answers := s.answers ++ [c.hostObj.lookup m key] }
      | .setObject object key => do
        let (hostObj, refs) ← c.hostObj.insert m s.refs key object true
        pure { s with hostObj, refs }
      | .removeObjectForKey key => do
        let (hostObj, refs) ← c.hostObj.remove m s.refs key
        pure { s with hostObj, refs }
  | .count => pure { s with counts := s.counts ++ [s.hostObj.count] }

/-- no call is in progress -/
def start (hostObj : DictionaryHostObject) (refs : References) : DictionaryInUse := ⟨hostObj, refs, [], [], []⟩

def lookups (s : DictionaryInUse) : List CallInProgress := s.calls.filter CallInProgress.isLookup

/-- While a lookup is in progress, no object is set or removed, the keys that are looked up have no value, and the
dictionary is only counted if it is empty; what is looked up inside a lookup is found before it. -/
def Apart (s : DictionaryInUse) : Event → Prop
  | .start (.objectForKey key) => ∀ c ∈ s.lookups.head?, c.hostObj.lookup m key = nil
  | .start _ => s.lookups = []
  | .finish i => ∀ c ∈ s.calls[i]?,
    (c.isLookup = true → ∀ c' ∈ s.calls.drop (i + 1), c'.isLookup = false) ∧ (c.isLookup = false → s.lookups = [])
  | .count => ∀ c ∈ s.lookups.head?, c.hostObj.count = 0

instance decidableApart (m : KeyMessages) (s : DictionaryInUse) : ∀ event, Decidable (Apart m s event)
  | .start (.objectForKey key) => inferInstanceAs (Decidable (∀ c ∈ s.lookups.head?, c.hostObj.lookup m key = nil))
  | .start (.setObject _ _) => inferInstanceAs (Decidable (s.lookups = []))
  | .start (.removeObjectForKey _) => inferInstanceAs (Decidable (s.lookups = []))
  | .finish i => inferInstanceAs (Decidable (∀ c ∈ s.calls[i]?,
    (c.isLookup = true → ∀ c' ∈ s.calls.drop (i + 1), c'.isLookup = false) ∧ (c.isLookup = false → s.lookups = [])))
  | .count => inferInstanceAs (Decidable (∀ c ∈ s.lookups.head?, c.hostObj.count = 0))

/-- a call in progress that will give the same answer, or change the dictionary in the same way -/
def SameCall (c c' : CallInProgress) : Prop :=
  c.call = c'.call ∧
    match c.call with
    | .objectForKey key => c.hostObj.lookup m key = c'.hostObj.lookup m key
    | _ => c.hostObj = c'.hostObj

/-- **The lookups do not show**: the answers are the same, those of the calls in progress too, and so is the dictionary
once no lookup is in progress. -/
structure Undisturbed (s s' : DictionaryInUse) : Prop where
  answers : s.answers = s'.answers
  counts : s.counts = s'.counts
  refs : s.refs = s'.refs
  calls : List.Forall₂ (SameCall m) s.calls s'.calls
  hostObj : s.lookups = [] → s.hostObj = s'.hostObj

/-! ## What the lookups in progress hold -/

/-- the oldest lookup holds the dictionary, and the others an empty one, which is what is left in the object table -/
def Holds (truth hostObj : DictionaryHostObject) : List CallInProgress → Prop
  | [] => hostObj = truth
  | c :: rest => c.hostObj = truth ∧ hostObj = .default ∧ ∀ c' ∈ rest, c'.hostObj = .default

variable {m} {truth hostObj : DictionaryHostObject} {l : List CallInProgress} {c : CallInProgress}
  {s s' : DictionaryInUse} {event : Event} {call : DictionaryCall} {i key : ℕ}

theorem Holds.start (h : Holds truth hostObj l) : Holds truth .default (l ++ [⟨call, hostObj⟩]) := by
  cases l with
  | nil => exact ⟨h, rfl, fun c' hc' => absurd hc' List.not_mem_nil⟩
  | cons c rest =>
    refine ⟨h.1, rfl, fun c' hc' => ?_⟩
    rcases List.mem_append.1 hc' with hc' | hc'
    · exact h.2.2 c' hc'
    · rw [List.mem_singleton.1 hc']
      exact h.2.1

theorem Holds.finish (h : Holds truth hostObj (l ++ [c])) : Holds truth c.hostObj l := by
  cases l with
  | nil => exact h.1
  | cons c' rest =>
    refine ⟨h.1, h.2.2 c (List.mem_append_right _ (List.mem_singleton.2 rfl)), fun c'' hc'' => ?_⟩
    exact h.2.2 c'' (List.mem_append_left _ hc'')

/-- what is there looks the same, if what the oldest lookup holds looks like an empty dictionary -/
theorem Holds.same {α : Type} {f : DictionaryHostObject → α} (h : Holds truth hostObj l)
    (hf : ∀ c ∈ l.head?, f c.hostObj = f .default) : f hostObj = f truth := by
  cases l with
  | nil => exact congrArg f h
  | cons c rest =>
    have hc := hf c rfl
    rw [h.1] at hc
    rw [h.2.1, hc]

theorem lookup_default : DictionaryHostObject.default.lookup m key = nil := rfl

/-- what is the same in the two runs -/
structure InStep (m : KeyMessages) (s s' : DictionaryInUse) : Prop where
  answers : s.answers = s'.answers
  counts : s.counts = s'.counts
  refs : s.refs = s'.refs
  calls : List.Forall₂ (SameCall m) s.calls s'.calls
  holds : Holds s'.hostObj s.hostObj s.lookups

theorem InStep.undisturbed (h : InStep m s s') : Undisturbed m s s' := by
  refine ⟨h.answers, h.counts, h.refs, h.calls, fun hl => ?_⟩
  have hh := h.holds
  rw [hl] at hh
  exact hh

theorem inStep_start {refs : References} : InStep m (start hostObj refs) (start hostObj refs) where
  answers := rfl
  counts := rfl
  refs := rfl
  calls := .nil
  holds := rfl

/-- the call in progress in the other run -/
theorem same_getElem? {l l' : List CallInProgress} (h : List.Forall₂ (SameCall m) l l') :
    (l[i]? = none ∧ l'[i]? = none) ∨ ∃ c c', l[i]? = some c ∧ l'[i]? = some c' ∧ SameCall m c c' := by
  induction h generalizing i with
  | nil => exact .inl ⟨rfl, rfl⟩
  | cons hc _ ih =>
    cases i with
    | zero => exact .inr ⟨_, _, rfl, rfl, hc⟩
    | succ i => exact ih

theorem same_eraseIdx {l l' : List CallInProgress} (h : List.Forall₂ (SameCall m) l l') :
    List.Forall₂ (SameCall m) (l.eraseIdx i) (l'.eraseIdx i) := by
  rw [List.eraseIdx_eq_take_drop_succ, List.eraseIdx_eq_take_drop_succ]
  exact List.rel_append (List.forall₂_take i h) (List.forall₂_drop (i + 1) h)

/-- the last of the lookups is no longer in progress -/
theorem lookups_finish (hc : s.calls[i]? = some c) (hl : c.isLookup = true)
    (hlast : ∀ c' ∈ s.calls.drop (i + 1), c'.isLookup = false) :
    s.lookups = (s.calls.eraseIdx i).filter CallInProgress.isLookup ++ [c] := by
  have hsplit : s.calls = s.calls.take i ++ c :: s.calls.drop (i + 1) := by
    obtain ⟨hi, rfl⟩ := List.getElem?_eq_some_iff.1 hc
    rw [List.getElem_cons_drop, List.take_append_drop]
  have hrest : (s.calls.drop (i + 1)).filter CallInProgress.isLookup = [] := by
    rw [List.filter_eq_nil_iff]
    intro c' hc'
    rw [hlast c' hc']
    exact Bool.false_ne_true
  rw [List.eraseIdx_eq_take_drop_succ, List.filter_append, hrest, List.append_nil, lookups]
  conv_lhs => rw [hsplit]
  rw [List.filter_append, List.filter_cons_of_pos hl, hrest]

/-- a call that is no lookup -/
theorem lookups_eraseIdx (hc : s.calls[i]? = some c) (hl : c.isLookup = false) :
    (s.calls.eraseIdx i).filter CallInProgress.isLookup = s.lookups := by
  have hsplit : s.calls = s.calls.take i ++ c :: s.calls.drop (i + 1) := by
    obtain ⟨hi, rfl⟩ := List.getElem?_eq_some_iff.1 hc
    rw [List.getElem_cons_drop, List.take_append_drop]
  rw [List.eraseIdx_eq_take_drop_succ, List.filter_append, lookups]
  conv_rhs => rw [hsplit]
  rw [List.filter_append, List.filter_cons_of_neg (by rw [hl]; exact Bool.false_ne_true)]

/-! ## The runs -/

theorem lookups_start (hl : c.isLookup = true) :
    ({ s with hostObj, calls := s.calls ++ [c] } : DictionaryInUse).lookups = s.lookups ++ [c] := by
  rw [lookups, lookups, List.filter_append, List.filter_cons_of_pos hl, List.filter_nil]

theorem lookups_start_update (hl : c.isLookup = false) :
    ({ s with hostObj, calls := s.calls ++ [c] } : DictionaryInUse).lookups = s.lookups := by
  rw [lookups, lookups, List.filter_append, List.filter_cons_of_neg (by rw [hl]; exact Bool.false_ne_true), List.filter_nil,
    List.append_nil]

/-- a call starts: an object is only set or removed while no lookup is in progress -/
theorem apart_start (h : InStep m s s') (hapart : Apart m s (.start call)) :
    Alike (InStep m) (step m true s (.start call)) (step m false s' (.start call)) := by
  have hcalls : SameCall m ⟨call, s.hostObj⟩ ⟨call, s'.hostObj⟩ →
      List.Forall₂ (SameCall m) (s.calls ++ [⟨call, s.hostObj⟩]) (s'.calls ++ [⟨call, s'.hostObj⟩]) :=
    fun hc => List.rel_append h.calls (.cons hc .nil)
  have hupdate : s.lookups = [] → s.hostObj = s'.hostObj := fun hl => by
    have hh := h.holds
    rwa [hl] at hh
  refine Alike.of_eq fun _ _ => ?_
  cases call with
  | objectForKey key =>
    have hsame : s.hostObj.lookup m key = s'.hostObj.lookup m key := h.holds.same (f := fun d => d.lookup m key) hapart
    refine ⟨h.answers, h.counts, h.refs, hcalls ⟨rfl, hsame⟩, ?_⟩
    rw [lookups_start rfl]
    exact h.holds.start
  | setObject object key =>
    refine ⟨h.answers, h.counts, h.refs, hcalls ⟨rfl, hupdate hapart⟩, ?_⟩
    rw [lookups_start_update rfl, show s.lookups = [] from hapart]
    rfl
  | removeObjectForKey key =>
    refine ⟨h.answers, h.counts, h.refs, hcalls ⟨rfl, hupdate hapart⟩, ?_⟩
    rw [lookups_start_update rfl, show s.lookups = [] from hapart]
    rfl

/-- a call finishes: a lookup before those it was started in, and an object is only set or removed while no lookup is in
progress -/
theorem apart_finish (h : InStep m s s') (hapart : Apart m s (.finish i)) :
    Alike (InStep m) (step m true s (.finish i)) (step m false s' (.finish i)) := by
  unfold step
  rcases same_getElem? (i := i) h.calls with ⟨hc, hc'⟩ | ⟨c, c', hc, hc', hcall, hsame⟩
  · simp only [hc, hc']
    exact h
  · obtain ⟨hlast, hupdate⟩ := hapart c hc
    simp only [hc, hc', ← hcall]
    have hcalls := same_eraseIdx (i := i) h.calls
    cases hkind : c.call with
    | objectForKey key =>
      have hl : c.isLookup = true := by rw [CallInProgress.isLookup, hkind]; rfl
      rw [hkind] at hsame
      refine ⟨congrArg₂ (fun l a => l ++ [a]) h.answers hsame, h.counts, h.refs, hcalls, ?_⟩
      have hh := h.holds
      rw [lookups_finish hc hl (hlast hl)] at hh
      exact hh.finish
    | setObject _ _ | removeObjectForKey _ =>
      have hl : c.isLookup = false := by rw [CallInProgress.isLookup, hkind]; rfl
      rw [hkind] at hsame
      dsimp only at hsame ⊢
      rw [hsame, h.refs]
      refine Alike.of_eq fun r _ => ⟨h.answers, h.counts, rfl, hcalls, ?_⟩
      rw [lookups, lookups_eraseIdx hc hl, hupdate hl]
      rfl

/-- **One event** that is apart from the lookups in progress. -/
theorem apart_step (h : InStep m s s') (hapart : Apart m s event) :
    Alike (InStep m) (step m true s event) (step m false s' event) := by
  cases event with
  | start call => exact apart_start h hapart
  | finish i => exact apart_finish h hapart
  | count =>
    have hsame : s.hostObj.count = s'.hostObj.count := h.holds.same (f := DictionaryHostObject.count) hapart
    exact ⟨h.answers, congrArg₂ (fun l n => l ++ [n]) h.counts hsame, h.refs, h.calls, h.holds⟩

/-- **A lookup does not disturb** the dictionary, if what happens meanwhile keeps away from it. -/
theorem lookups_undisturbed {refs : References} {events : List Event}
    (hapart : LegalRun (step m true) (Apart m) (start hostObj refs) events) :
    Alike (Undisturbed m) (run (step m true) (start hostObj refs) events)
      (run (step m false) (start hostObj refs) events) := by
  have hstep : ∀ s s' o, InStep m s s' → Apart m s o → Alike (InStep m) (step m true s o) (step m false s' o) :=
    fun s s' o h hapart => apart_step h hapart
  exact (run_alike hstep hapart inStep_start).mono fun _ _ h => h.undisturbed

/-- keys that are the same if they are the same object -/
def plainKeys : KeyMessages := ⟨id, fun a b => a == b, fun _ key => key⟩

/-- a dictionary with one pair -/
def onePair : DictionaryInUse := start ⟨[(5, [(5, 7)])], 1⟩ ⟨0, [], []⟩

/-- a key without a value is looked up inside a lookup, and then the dictionary is changed -/
def nestedEvents : List Event :=
  [.start (.objectForKey 5), .start (.objectForKey 6), .finish 1, .finish 0, .start (.setObject 8 6), .finish 0, .count]

theorem lookups_undisturbed_sample :
    Alike (Undisturbed plainKeys) (run (step plainKeys true) onePair nestedEvents)
      (run (step plainKeys false) onePair nestedEvents) :=
  lookups_undisturbed (by decide)

/-- the run goes otherwise than with lookups that leave the dictionary where it is -/
def Disturbs (events : List Event) : Prop :=
  ¬Alike (Undisturbed plainKeys) (run (step plainKeys true) onePair events) (run (step plainKeys false) onePair events)

/-- Inside a lookup, a key is not found; inside a lookup, the dictionary is empty; an object is set inside a lookup, and
lost; two lookups overlap, and everything is lost. -/
theorem lookups_disturb :
    Disturbs [.start (.objectForKey 5), .start (.objectForKey 5), .finish 1, .finish 0] ∧
    Disturbs [.start (.objectForKey 5), .count, .finish 0] ∧
    Disturbs [.start (.objectForKey 5), .start (.setObject 9 6), .finish 1, .finish 0] ∧
    Disturbs [.start (.objectForKey 6), .start (.objectForKey 6), .finish 0, .finish 0] := by
  refine ⟨fun h => ?_, fun h => ?_, fun h => ?_, fun h => ?_⟩
  · have hanswers := Undisturbed.answers h
    exact absurd hanswers (by decide)
  · have hcounts := Undisturbed.counts h
    exact absurd hcounts (by decide)
  · have hobject := congrArg DictionaryHostObject.count (Undisturbed.hostObj h rfl)
    exact absurd hobject (by decide)
  · have hobject := congrArg DictionaryHostObject.count (Undisturbed.hostObj h rfl)
    exact absurd hobject (by decide)

end DictionaryInUse

end TouchHLE
