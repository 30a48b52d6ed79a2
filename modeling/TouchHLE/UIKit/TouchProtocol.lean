/-
What a view can rely on when it is sent touches.

- `history`: the messages about a touch. `Active`: it has begun and not ended.
- `Changed`, `Made`: what the loops of the handlers do to the touches and to the groups of them.
- `Inv`: the history of a touch follows from whether it is tracked. `handleEvent_inv`: every event keeps this.
- `touch_protocol`: runs.
-/
import TouchHLE.UIKit.Touches

namespace TouchHLE.UITouch

open Machine Grouping

/-! ## Messages -/

/-- the messages about a touch, and the views that they were sent to -/
def history (log : List Message) (t : Touch) : List (UITouchPhase × View) :=
  log.filterMap fun m => if t ∈ m.touches.map Prod.fst then some (m.phase, m.view) else none

/-- every touch of the set has the phase of the message -/
def Coherent (m : Message) : Prop := ∀ e ∈ m.touches, e.2 = m.phase

variable {Coords Time : Type} {s s' : TouchState Coords Time} {guest : Guest Coords} {now : Time}
  {phase : UITouchPhase} {ends : Bool} {allTouches : List Touch} {viewTouches viewTouches' : List (Option View × List Touch)}
  {f f' : Touch → Option (Option View)} {map : List (FingerId × Coords)} {t : Touch} {log log' : List Message} {view : View}
  {finger : FingerId}

theorem history_append : history (log ++ log') t = history log t ++ history log' t := List.filterMap_append

/-- the message that is sent for an entry -/
def message (touch : Touch → UITouchHostObject Coords Time) (phase : UITouchPhase) (allTouches : List Touch)
    (e : Option View × List Touch) : Option Message :=
  e.1.map fun view => ⟨phase, view, e.2.map fun t => (t, (touch t).phase), allTouches⟩

theorem send_eq (e : Option View × List Touch) :
    send s phase allTouches e = { s with sent := s.sent ++ (message s.touch phase allTouches e).toList } := by
  obtain ⟨view | view, ts⟩ := e
  · rw [send, message, Option.map_none, Option.toList_none, List.append_nil]
  · rfl

theorem foldl_send (es : List (Option View × List Touch)) : es.foldl (fun s e => send s phase allTouches e) s =
    { s with sent := s.sent ++ es.filterMap (message s.touch phase allTouches) } := by
  induction es generalizing s with
  | nil => rw [List.foldl_nil, List.filterMap_nil, List.append_nil]
  | cons e es ih =>
    rw [List.foldl_cons, send_eq, ih, List.append_assoc, List.filterMap_cons]
    cases message s.touch phase allTouches e <;> rfl

variable (guest allTouches) in
/-- **The messages of an event** are about the touches that have a view in the groups. -/
theorem sendAll_spec (hg : Grouped viewTouches f) (hphase : ∀ t, f t ≠ none → (s.touch t).phase = phase) :
    ∃ new, sendAll s guest phase allTouches viewTouches = { s with sent := s.sent ++ new } ∧
      (∀ m ∈ new, m.phase = phase ∧ Coherent m) ∧ ∀ t, history new t = ((f t).join.map (phase, ·)).toList := by
  have hperm := guest.viewTouches.perm viewTouches
  refine ⟨_, foldl_send _, fun m hm => ?_, fun t => ?_⟩
  · obtain ⟨e, he, hm⟩ := List.mem_filterMap.1 hm
    obtain ⟨view, hview, rfl⟩ := Option.map_eq_some_iff.1 hm
    refine ⟨rfl, fun p hp => ?_⟩
    obtain ⟨t, ht, rfl⟩ := List.mem_map.1 hp
    refine hphase t ?_
    rw [(hg.mem_entry (hperm.mem_iff.1 he)).1 ht]
    exact nofun
  · have hentries := hg.filterMap (t := t) hperm fun k => k.map (phase, ·)
    rw [history, List.filterMap_filterMap]
    have hsame (e : Option View × List Touch) : ((message s.touch phase allTouches e).bind fun m =>
        if t ∈ m.touches.map Prod.fst then some (m.phase, m.view) else none) = if t ∈ e.2 then e.1.map (phase, ·) else none := by
      obtain ⟨view | view, ts⟩ := e
      · exact (ite_self none).symm
      · rw [message, Option.map_some, Option.bind_some, List.map_map]
        simp
    rw [funext hsame, hentries]
    cases f t with
    | none => rfl
    | some view => rfl

/-! ## Touches that move or end -/

/-- a finger of the event is down, and this is its touch -/
def Hit (s : TouchState Coords Time) (map : List (FingerId × Coords)) (t : Touch) : Prop :=
  ∃ e ∈ map, (e.1, t) ∈ s.currentTouches

/-- a hash map of touches that belong to one finger each -/
structure OneEach (s : TouchState Coords Time) : Prop where
  fingers : (s.currentTouches.map Prod.fst).Nodup
  touches : (tracked s).Nodup

theorem OneEach.finger_eq (h : OneEach s) {finger finger' : FingerId} (ht : (finger, t) ∈ s.currentTouches)
    (ht' : (finger', t) ∈ s.currentTouches) : finger = finger' :=
  (Prod.mk.inj (List.inj_on_of_nodup_map h.touches ht ht' rfl)).1

theorem OneEach.sublist (h : OneEach s) (hs : s'.currentTouches.Sublist s.currentTouches) : OneEach s' :=
  ⟨h.fingers.sublist (hs.map _), h.touches.sublist (hs.map _)⟩

theorem mem_tracked : t ∈ tracked s ↔ ∃ finger, (finger, t) ∈ s.currentTouches := by
  rw [tracked, List.mem_map]
  constructor
  · rintro ⟨⟨finger, t'⟩, he, rfl⟩
    exact ⟨finger, he⟩
  · rintro ⟨finger, he⟩
    exact ⟨_, he, rfl⟩

/-- **What the loop does**: the touches of the event get the new phase, are grouped by their views, and are tracked no more if they
end. -/
structure Changed (phase : UITouchPhase) (ends : Bool) (map : List (FingerId × Coords)) (s : TouchState Coords Time)
    (f : Touch → Option (Option View)) (s' : TouchState Coords Time) (f' : Touch → Option (Option View)) : Prop where
  hit : ∀ t, Hit s map t → f' t = some (s.touch t).view ∧ (s'.touch t).phase = phase ∧ (s'.touch t).view = (s.touch t).view
  other : ∀ t, ¬Hit s map t → f' t = f t ∧ s'.touch t = s.touch t
  next : s'.next = s.next
  sent : s'.sent = s.sent
  sublist : s'.currentTouches.Sublist s.currentTouches
  mem : ∀ e, e ∈ s'.currentTouches ↔ e ∈ s.currentTouches ∧ ¬(ends = true ∧ e.1 ∈ map.map Prod.fst)

theorem changeTouch_spec {coords : Coords} {touch : Touch}
    (h : changeTouch s now phase ends finger coords touch = s') :
    ((s'.touch touch).phase = phase ∧ (s'.touch touch).view = (s.touch touch).view) ∧ (∀ t, t ≠ touch → s'.touch t = s.touch t) ∧
      s'.next = s.next ∧ s'.sent = s.sent ∧ s'.currentTouches.Sublist s.currentTouches ∧
      ∀ e, e ∈ s'.currentTouches ↔ e ∈ s.currentTouches ∧ ¬(ends = true ∧ e.1 = finger) := by
  rw [← h]
  unfold changeTouch setTouch
  cases ends with
  | false => exact ⟨by simp, fun t ht => Function.update_of_ne ht .., rfl, rfl, List.Sublist.refl _, by simp⟩
  | true => exact ⟨by simp, fun t ht => Function.update_of_ne ht .., rfl, rfl, List.filter_sublist, by simp [Assoc.erase]⟩

variable (now phase ends) in
theorem changeTouches_spec (hmap : (map.map Prod.fst).Nodup) (hone : OneEach s)
    (hstationary : ∀ t, Hit s map t → (s.touch t).phase = .stationary) (hg : Grouped viewTouches f)
    (hnew : ∀ t, Hit s map t → f t = none) :
    ∃ s' viewTouches' f', changeTouches now phase ends s viewTouches map = .ok (s', viewTouches') ∧
      Grouped viewTouches' f' ∧ Changed phase ends map s f s' f' := by
  induction map generalizing s viewTouches f with
  | nil =>
    refine ⟨s, viewTouches, f, rfl, hg, ?_, fun _ _ => ⟨rfl, rfl⟩, rfl, rfl, List.Sublist.refl _, ?_⟩
    · rintro t ⟨e, he, -⟩
      cases he
    · simp
  | cons e map ih =>
    obtain ⟨finger, coords⟩ := e
    rw [List.map_cons, List.nodup_cons] at hmap
    rw [changeTouches]
    cases hlookup : s.currentTouches.lookup finger with
    | none =>
      -- the finger is not down
      have hfinger (t : Touch) : (finger, t) ∉ s.currentTouches := by
        intro ht
        rw [Assoc.lookup_of_mem hone.fingers ht] at hlookup
        cases hlookup
      have hhit (t : Touch) : Hit s ((finger, coords) :: map) t ↔ Hit s map t := by
        simp only [Hit, List.exists_mem_cons_iff, hfinger, false_or]
      obtain ⟨s', viewTouches', f', hrun, hg', hc⟩ := ih hmap.2 hone (fun t ht => hstationary t ((hhit t).2 ht)) hg
        fun t ht => hnew t ((hhit t).2 ht)
      refine ⟨s', viewTouches', f', hrun, hg', fun t ht => hc.hit t ((hhit t).1 ht), fun t ht => hc.other t (mt (hhit t).2 ht), hc.next,
        hc.sent, hc.sublist, fun e => ?_⟩
      rw [hc.mem e, and_congr_right_iff]
      intro he
      have hne : e.1 ≠ finger := by
        rintro rfl
        exact hfinger e.2 he
      simp [hne]
    | some touch =>
      have htouch : (finger, touch) ∈ s.currentTouches := Assoc.mem_of_lookup hlookup
      have hfirst : Hit s ((finger, coords) :: map) touch := ⟨_, List.mem_cons_self, htouch⟩
      dsimp only
      rw [assert_ok (by rw [hstationary touch hfirst]; rfl), ok_bind]
      generalize hs₁ : changeTouch s now phase ends finger coords touch = s₁
      obtain ⟨hself, hother, hnext₁, hsent₁, hsub₁, hmem₁⟩ := changeTouch_spec hs₁
      have hrest (t : Touch) : Hit s₁ map t ↔ Hit s map t := by
        refine exists_congr fun e => and_congr_right fun he => ?_
        rw [hmem₁, and_iff_left_iff_imp]
        rintro - ⟨-, rfl⟩
        exact hmap.1 (List.mem_map.2 ⟨e, he, rfl⟩)
      have hhit (t : Touch) : Hit s ((finger, coords) :: map) t ↔ t = touch ∨ Hit s map t := by
        simp only [Hit, List.exists_mem_cons_iff]
        refine or_congr_left ⟨fun ht => ?_, fun ht => ht ▸ htouch⟩
        exact congrArg Prod.snd (List.inj_on_of_nodup_map hone.fingers ht htouch rfl)
      have hnot : ¬Hit s map touch := by
        rintro ⟨e, he, ht⟩
        rw [← hone.finger_eq ht htouch] at hmap
        exact hmap.1 (List.mem_map.2 ⟨e, he, rfl⟩)
      have hne {t : Touch} (ht : Hit s map t) : t ≠ touch := fun heq => hnot (heq ▸ ht)
      obtain ⟨s', viewTouches', f', hrun, hg', hc⟩ := ih hmap.2 (hone.sublist hsub₁)
        (fun t ht => by
          rw [hrest] at ht
          rw [hother _ (hne ht)]
          exact hstationary t ((hhit t).2 (.inr ht)))
        (hg.push (Function.update_self touch (some (s.touch touch).view) f) (hnew touch hfirst)
          fun t ht => Function.update_of_ne ht ..)
        (fun t ht => by
          rw [hrest] at ht
          rw [Function.update_of_ne (hne ht)]
          exact hnew t ((hhit t).2 (.inr ht)))
      refine ⟨s', viewTouches', f', hrun, hg', fun t ht => ?_, fun t ht => ?_, ?_, ?_, hc.sublist.trans hsub₁, fun e => ?_⟩
      · rcases (hhit t).1 ht with rfl | ht
        · obtain ⟨hf', hs'⟩ := hc.other t (mt (hrest t).1 hnot)
          rw [hf', hs', Function.update_self]
          exact ⟨rfl, hself⟩
        · have hfound := hc.hit t ((hrest t).2 ht)
          rwa [hother t (hne ht)] at hfound
      · rw [hhit, not_or] at ht
        obtain ⟨hf', hs'⟩ := hc.other t (mt (hrest t).1 ht.2)
        rw [hf', hs', Function.update_of_ne ht.1, hother t ht.1]
        exact ⟨rfl, rfl⟩
      · rw [hc.next, hnext₁]
      · rw [hc.sent, hsent₁]
      · rw [hc.mem, hmem₁, List.map_cons, List.mem_cons]
        tauto

/-! ## Touches that begin -/

/-- the touches that are new -/
def New (s s' : TouchState Coords Time) (t : Touch) : Prop := s.next ≤ t ∧ t < s'.next

/-- **What the first loop does** with fingers that are not down: each has a new touch, without a view. -/
structure Made (map : List (FingerId × Coords)) (s s' : TouchState Coords Time) : Prop where
  next_le : s.next ≤ s'.next
  fresh : ∀ t, New s s' t → (s'.touch t).view = none ∧ (s'.touch t).phase = .began
  old : ∀ t, t < s.next → s'.touch t = s.touch t
  sent : s'.sent = s.sent
  one : OneEach s'
  tracked : ∀ t, t ∈ tracked s' ↔ t ∈ tracked s ∨ New s s' t
  fingers : ∀ finger, finger ∈ s'.currentTouches.map Prod.fst ↔
    finger ∈ s.currentTouches.map Prod.fst ∨ finger ∈ map.map Prod.fst

theorem newTouch_made (now : Time) (coords : Coords) (hone : OneEach s) (hold : ∀ t ∈ tracked s, t < s.next)
    (hfinger : finger ∉ s.currentTouches.map Prod.fst) : Made [(finger, coords)] s (newTouch s now finger coords) := by
  have hcurrent : (newTouch s now finger coords).currentTouches = (finger, s.next) :: s.currentTouches := by
    rw [newTouch, Assoc.insert, List.filter_eq_self.2]
    intro e he
    exact decide_eq_true fun heq => hfinger (List.mem_map.2 ⟨e, he, heq⟩)
  have hnew (t : Touch) : New s (newTouch s now finger coords) t ↔ t = s.next := by
    show s.next ≤ t ∧ t < s.next + 1 ↔ t = s.next
    rw [Nat.lt_succ_iff]
    exact ⟨fun h => le_antisymm h.2 h.1, fun h => ⟨h.ge, h.le⟩⟩
  refine ⟨Nat.le_succ _, fun t ht => ?_, fun t ht => Function.update_of_ne ht.ne .., rfl, ⟨?_, ?_⟩, fun t => ?_, fun finger' => ?_⟩
  · rw [(hnew t).1 ht]
    simp [newTouch, setTouch]
  · rw [hcurrent]
    exact List.nodup_cons.2 ⟨hfinger, hone.fingers⟩
  · rw [tracked, hcurrent]
    exact List.nodup_cons.2 ⟨fun h => lt_irrefl _ (hold _ h), hone.touches⟩
  · rw [hnew, tracked, hcurrent, List.map_cons, List.mem_cons, or_comm]
    rfl
  · rw [hcurrent, List.map_cons, List.mem_cons, or_comm, List.map_singleton, List.mem_singleton]

theorem Made.trans {e : FingerId × Coords} {s₁ : TouchState Coords Time} (h : Made [e] s s₁) (h' : Made map s₁ s') :
    Made (e :: map) s s' := by
  have hnew (t : Touch) : New s s' t ↔ New s s₁ t ∨ New s₁ s' t := by
    constructor
    · rintro ⟨hle, hlt⟩
      rcases lt_or_ge t s₁.next with ht | ht
      · exact .inl ⟨hle, ht⟩
      · exact .inr ⟨ht, hlt⟩
    · rintro (⟨hle, hlt⟩ | ⟨hle, hlt⟩)
      · exact ⟨hle, hlt.trans_le h'.next_le⟩
      · exact ⟨h.next_le.trans hle, hlt⟩
  refine ⟨h.next_le.trans h'.next_le, fun t ht => ?_, fun t ht => ?_, h'.sent.trans h.sent, h'.one, fun t => ?_, fun finger => ?_⟩
  · rcases (hnew t).1 ht with ht | ht
    · rw [h'.old t ht.2]
      exact h.fresh t ht
    · exact h'.fresh t ht
  · rw [h'.old t (ht.trans_le h.next_le), h.old t ht]
  · rw [h'.tracked, h.tracked, hnew, or_assoc]
  · rw [h'.fingers, h.fingers]
    simp only [List.map_cons, List.map_nil, List.mem_cons, List.not_mem_nil, or_false, or_assoc]

variable (guest now) in
theorem handleTouchesDown_made {touches : List Touch} (hmap : (map.map Prod.fst).Nodup) (hone : OneEach s)
    (hold : ∀ t ∈ tracked s, t < s.next) (hfingers : ∀ e ∈ map, e.1 ∉ s.currentTouches.map Prod.fst)
    (htouches : touches.Nodup) (hless : ∀ t ∈ touches, t < s.next) :
    ∃ s' touches', handleTouchesDown guest now s touches map = .ok (beginTouches s' guest touches') ∧ Made map s s' ∧ touches'.Nodup ∧
      ∀ t, t ∈ touches' ↔ t ∈ touches ∨ New s s' t := by
  induction map generalizing s touches with
  | nil =>
    have hnew (t : Touch) : ¬New s s t := fun h => absurd h.2 h.1.not_gt
    refine ⟨s, touches, rfl, ⟨le_rfl, fun t ht => absurd ht (hnew t), fun _ _ => rfl, rfl, hone, fun t => ?_, fun _ => ?_⟩, htouches,
      fun t => ?_⟩
    · rw [or_iff_left (hnew t)]
    · simp
    · rw [or_iff_left (hnew t)]
  | cons e map ih =>
    obtain ⟨finger, coords⟩ := e
    rw [List.map_cons, List.nodup_cons] at hmap
    have hfinger := hfingers _ List.mem_cons_self
    have hlookup : s.currentTouches.lookup finger = none := by
      rw [List.lookup_eq_none_iff]
      intro e he
      rw [bne_iff_ne]
      rintro rfl
      exact hfinger (List.mem_map_of_mem he)
    have hfirst := newTouch_made now coords hone hold hfinger
    have hold₁ : ∀ t ∈ tracked (newTouch s now finger coords), t < (newTouch s now finger coords).next := by
      intro t ht
      rcases (hfirst.tracked t).1 ht with ht | ht
      · exact (hold t ht).trans_le hfirst.next_le
      · exact ht.2
    have hfingers₁ : ∀ e ∈ map, e.1 ∉ (newTouch s now finger coords).currentTouches.map Prod.fst := by
      intro e he h
      rcases (hfirst.fingers e.1).1 h with h | h
      · exact hfingers e (List.mem_cons_of_mem _ he) h
      · rw [List.map_singleton, List.mem_singleton] at h
        exact hmap.1 (List.mem_map.2 ⟨e, he, h⟩)
    have hless₁ : ∀ t ∈ s.next :: touches, t < s.next + 1 := by
      intro t ht
      rcases List.mem_cons.1 ht with rfl | ht
      · exact Nat.lt_succ_self _
      · exact (hless t ht).trans (Nat.lt_succ_self _)
    obtain ⟨s', touches', hrun, hmade, hnodup, hmem⟩ := ih hmap.2 hfirst.one hold₁ hfingers₁
      (List.nodup_cons.2 ⟨fun h => lt_irrefl _ (hless _ h), htouches⟩) hless₁
    refine ⟨s', touches', ?_, hfirst.trans hmade, hnodup, fun t => ?_⟩
    · rw [handleTouchesDown, hlookup]
      exact hrun
    · have hle := hmade.next_le
      have hnext : (newTouch s now finger coords).next = s.next + 1 := rfl
      rw [hmem, List.mem_cons]
      unfold New
      rw [hnext] at hle ⊢
      constructor
      · rintro ((rfl | ht) | ⟨h1, h2⟩)
        · exact .inr ⟨le_rfl, hle⟩
        · exact .inl ht
        · exact .inr ⟨(Nat.le_succ _).trans h1, h2⟩
      · rintro (ht | ⟨h1, h2⟩)
        · exact .inl (.inr ht)
        · rcases h1.eq_or_lt with rfl | h1
          · exact .inl (.inl rfl)
          · exact .inr ⟨h1, h2⟩

/-- **What the second loop does**: touches are grouped by the views that they get; a view without multiple touch gets one only, and none
if it has one already. -/
structure Assigned (guest : Guest Coords) (existing : List (Option View)) (ts : List Touch) (s : TouchState Coords Time)
    (f : Touch → Option (Option View)) (s' : TouchState Coords Time) (f' : Touch → Option (Option View)) : Prop where
  same : s' = { s with touch := s'.touch }
  other : ∀ t, t ∉ ts → f' t = f t ∧ s'.touch t = s.touch t
  each : ∀ t ∈ ts, (s'.touch t).phase = (s.touch t).phase ∧
    (f' t = none ∧ (s'.touch t).view = (s.touch t).view ∨ ∃ view, f' t = some (some view) ∧ (s'.touch t).view = some view)
  alone : ∀ view, (∀ t, guest.isMultipleTouchEnabled t view = false) →
    (∀ t t', f t = some (some view) → f t' = some (some view) → t' = t) →
      (∀ t t', f' t = some (some view) → f' t' = some (some view) → t' = t) ∧
        ∀ t ∈ ts, f' t = some (some view) → some view ∉ existing

theorem assignView_spec {existing : List (Option View)} (hg : Grouped viewTouches f) (ht : f t = none) :
    ∃ s' viewTouches' f', assignView guest existing (s, viewTouches) t = (s', viewTouches') ∧ Grouped viewTouches' f' ∧
      Assigned guest existing [t] s f s' f' := by
  have hrefused : Assigned guest existing [t] s f s f := by
    refine ⟨rfl, fun _ _ => ⟨rfl, rfl⟩, fun t' ht' => ?_, fun view _ halone => ⟨halone, fun t' ht' hf => ?_⟩⟩
    · rw [List.mem_singleton.1 ht', ht]
      exact ⟨rfl, .inl ⟨rfl, rfl⟩⟩
    · rw [List.mem_singleton.1 ht', ht] at hf
      cases hf
  unfold assignView
  cases findView guest t (s.touch t).location with
  | none => exact ⟨s, viewTouches, f, rfl, hg, hrefused⟩
  | some found =>
    obtain ⟨window, view⟩ := found
    dsimp only
    split_ifs with hrefuse
    · exact ⟨s, viewTouches, f, rfl, hg, hrefused⟩
    · have hother {t' : Touch} (hne : t' ≠ t) : Function.update f t (some (some view)) t' = f t' := Function.update_of_ne hne ..
      have hself : Function.update f t (some (some view)) t = some (some view) := Function.update_self ..
      refine ⟨_, _, Function.update f t (some (some view)), rfl, hg.push hself ht fun _ => hother,
        rfl, fun t' ht' => ?_, fun t' ht' => ?_, fun view' hflag halone => ?_⟩
      · rw [List.mem_singleton] at ht'
        exact ⟨hother ht', Function.update_of_ne ht' ..⟩
      · rw [List.mem_singleton.1 ht', hself]
        simp [setTouch]
      · -- the view that is without multiple touch
        have hfree : view' = view → (∀ t', f t' ≠ some (some view')) ∧ some view' ∉ existing := by
          rintro rfl
          rw [hflag t] at hrefuse
          simp only [Bool.not_false, Bool.true_and, Bool.or_eq_true, not_or, Bool.not_eq_true, List.contains_eq_mem,
            decide_eq_false_iff_not] at hrefuse
          refine ⟨fun t' hf => ?_, hrefuse.2⟩
          obtain ⟨ts, hts⟩ := hg.has t' _ hf
          obtain ⟨hnone, -⟩ := hrefuse
          rw [hts] at hnone
          cases hnone
        have hview {t' : Touch} (hf : Function.update f t (some (some view)) t' = some (some view')) :
            t' = t ∧ view' = view ∨ t' ≠ t ∧ f t' = some (some view') := by
          by_cases hne : t' = t
          · rw [hne, hself] at hf
            exact .inl ⟨hne, (Option.some.inj (Option.some.inj hf)).symm⟩
          · rw [hother hne] at hf
            exact .inr ⟨hne, hf⟩
        refine ⟨fun t₁ t₂ h₁ h₂ => ?_, fun t' ht' hf => ?_⟩
        · rcases hview h₁ with ⟨h₁, heq⟩ | ⟨-, h₁⟩ <;> rcases hview h₂ with ⟨h₂, heq'⟩ | ⟨-, h₂⟩
          · rw [h₁, h₂]
          · exact absurd h₂ ((hfree heq).1 t₂)
          · exact absurd h₁ ((hfree heq').1 t₁)
          · exact halone t₁ t₂ h₁ h₂
        · rcases hview hf with ⟨-, heq⟩ | ⟨hne, -⟩
          · exact (hfree heq).2
          · exact absurd (List.mem_singleton.1 ht') hne

theorem assignViews_spec {ts : List Touch} (guest : Guest Coords) (existing : List (Option View)) (hts : ts.Nodup) (hg : Grouped viewTouches f)
    (hf : ∀ t ∈ ts, f t = none) : ∃ s' viewTouches' f', ts.foldl (assignView guest existing) (s, viewTouches) = (s', viewTouches') ∧
      Grouped viewTouches' f' ∧ Assigned guest existing ts s f s' f' := by
  induction ts generalizing s viewTouches f with
  | nil => exact ⟨s, viewTouches, f, rfl, hg, rfl, fun _ _ => ⟨rfl, rfl⟩, nofun, fun _ _ halone => ⟨halone, nofun⟩⟩
  | cons t ts ih =>
    rw [List.nodup_cons] at hts
    obtain ⟨s₁, viewTouches₁, f₁, hrun₁, hg₁, h₁⟩ := @assignView_spec _ _ s guest viewTouches f t existing hg
      (hf t List.mem_cons_self)
    have hne {t' : Touch} (ht' : t' ∈ ts) : t' ∉ [t] := by
      rw [List.mem_singleton]
      rintro rfl
      exact hts.1 ht'
    obtain ⟨s', viewTouches', f', hrun, hg', h'⟩ := ih hts.2 hg₁ fun t' ht' => by
      rw [(h₁.other t' (hne ht')).1]
      exact hf t' (List.mem_cons_of_mem _ ht')
    refine ⟨s', viewTouches', f', by rw [List.foldl_cons, hrun₁, hrun], hg', ?_, fun t' ht' => ?_, fun t' ht' => ?_,
      fun view hflag halone => ?_⟩
    · rw [h'.same, h₁.same]
    · rw [List.mem_cons, not_or] at ht'
      have hfirst := h₁.other t' (by rw [List.mem_singleton]; exact ht'.1)
      rw [(h'.other t' ht'.2).1, (h'.other t' ht'.2).2]
      exact hfirst
    · rcases List.mem_cons.1 ht' with rfl | ht'
      · rw [(h'.other t' hts.1).1, (h'.other t' hts.1).2]
        exact h₁.each t' List.mem_cons_self
      · rw [← (h₁.other t' (hne ht')).2]
        exact h'.each t' ht'
    · obtain ⟨halone₁, hexisting₁⟩ := h₁.alone view hflag halone
      obtain ⟨halone', hexisting⟩ := h'.alone view hflag halone₁
      refine ⟨halone', fun t' ht' hf' => ?_⟩
      rcases List.mem_cons.1 ht' with rfl | ht'
      · rw [(h'.other t' hts.1).1] at hf'
        exact hexisting₁ t' List.mem_cons_self hf'
      · exact hexisting t' ht' hf'

/-! ## Events -/

/-- **What an event does**: it sends messages of one phase, about the touches that `P` says. -/
structure Outcome (phase : UITouchPhase) (P : Touch → Prop) (s s' : TouchState Coords Time) (new : List Message) : Prop where
  sent : s'.sent = s.sent ++ new
  coherent : ∀ m ∈ new, m.phase = phase ∧ Coherent m
  told : ∀ t, P t → history new t = ((s'.touch t).view.map (phase, ·)).toList
  untold : ∀ t, ¬P t → history new t = []
  view : ∀ t, t < s.next → (s'.touch t).view = (s.touch t).view
  one : OneEach s'

/-- the state before an event: what is tracked is old -/
structure Ready (s : TouchState Coords Time) : Prop where
  one : OneEach s
  old : ∀ t ∈ tracked s, t < s.next

theorem Ready.hit_tracked (ht : Hit s map t) : t ∈ tracked s := by
  obtain ⟨e, -, he⟩ := ht
  exact mem_tracked.2 ⟨e.1, he⟩

variable (guest now phase ends) in
theorem changeTouches_outcome (hs : Ready s) (hstationary : ∀ t ∈ tracked s, (s.touch t).phase = .stationary)
    (hmap : (map.map Prod.fst).Nodup) :
    ∃ s' viewTouches, changeTouches now phase ends s [] map = .ok (s', viewTouches) ∧ s'.next = s.next ∧
      (∀ e, e ∈ s'.currentTouches ↔ e ∈ s.currentTouches ∧ ¬(ends = true ∧ e.1 ∈ map.map Prod.fst)) ∧
      ∀ allTouches, ∃ new, sendAll s' guest phase allTouches viewTouches = { s' with sent := s.sent ++ new } ∧
        Outcome phase (Hit s map) s { s' with sent := s.sent ++ new } new := by
  obtain ⟨s', viewTouches, f, hrun, hg, hc⟩ := changeTouches_spec now phase ends hmap hs.one
    (fun t ht => hstationary t (Ready.hit_tracked ht)) Grouped.nil fun _ _ => rfl
  refine ⟨s', viewTouches, hrun, hc.next, hc.mem, fun allTouches => ?_⟩
  have hphase (t : Touch) (hf : f t ≠ none) : (s'.touch t).phase = phase := by
    by_cases ht : Hit s map t
    · exact (hc.hit t ht).2.1
    · exact absurd (hc.other t ht).1 hf
  obtain ⟨new, hsend, hnew, hhistory⟩ := sendAll_spec guest allTouches hg hphase
  rw [hc.sent] at hsend
  refine ⟨new, hsend, rfl, hnew, fun t ht => ?_, fun t ht => ?_, fun t _ => ?_, hs.one.sublist hc.sublist⟩
  · rw [hhistory, (hc.hit t ht).1, Option.join_some, (hc.hit t ht).2.2]
  · rw [hhistory, (hc.other t ht).1]
    rfl
  · by_cases ht : Hit s map t
    · exact (hc.hit t ht).2.2
    · exact congrArg UITouchHostObject.view (hc.other t ht).2

variable (guest now) in
/-- **`touchesMoved:`** -/
theorem handleTouchesMove_spec (hs : Ready s) (hstationary : ∀ t ∈ tracked s, (s.touch t).phase = .stationary)
    (hmap : (map.map Prod.fst).Nodup) : ∃ s' new, handleTouchesMove s guest now map = .ok s' ∧ Outcome .moved (Hit s map) s s' new ∧
      s'.next = s.next ∧ ∀ e, e ∈ s'.currentTouches ↔ e ∈ s.currentTouches := by
  obtain ⟨s', viewTouches, hrun, hnext, hmem, hsend⟩ := changeTouches_outcome guest now .moved false hs hstationary hmap
  obtain ⟨new, hsend, houtcome⟩ := hsend (tracked s')
  refine ⟨_, new, ?_, houtcome, hnext, fun e => ?_⟩
  · rw [handleTouchesMove, hrun, ok_bind]
    exact congrArg Except.ok hsend
  · rw [hmem]
    simp

variable (guest now) in
/-- **`touchesEnded:`** -/
theorem handleTouchesUp_spec (hs : Ready s) (hstationary : ∀ t ∈ tracked s, (s.touch t).phase = .stationary)
    (hmap : (map.map Prod.fst).Nodup) : ∃ s' new, handleTouchesUp s guest now map = .ok s' ∧ Outcome .ended (Hit s map) s s' new ∧
      s'.next = s.next ∧ ∀ e, e ∈ s'.currentTouches ↔ e ∈ s.currentTouches ∧ e.1 ∉ map.map Prod.fst := by
  obtain ⟨s', viewTouches, hrun, hnext, hmem, hsend⟩ := changeTouches_outcome guest now .ended true hs hstationary hmap
  obtain ⟨new, hsend, houtcome⟩ := hsend (tracked s)
  refine ⟨_, new, ?_, houtcome, hnext, fun e => ?_⟩
  · rw [handleTouchesUp, hrun, ok_bind]
    exact congrArg Except.ok hsend
  · rw [hmem]
    simp

/-- what a view without multiple touch is spared -/
def Alone (guest : Guest Coords) (s s' : TouchState Coords Time) : Prop :=
  ∀ view, (∀ t, guest.isMultipleTouchEnabled t view = false) → ∀ t, New s s' t → (s'.touch t).view = some view →
    ∀ t' ∈ tracked s', (s'.touch t').view = some view → t' = t

variable (guest now) in
/-- **`touchesBegan:`** -/
theorem handleTouchesDown_spec (hs : Ready s) (hmap : (map.map Prod.fst).Nodup)
    (hfingers : ∀ e ∈ map, e.1 ∉ s.currentTouches.map Prod.fst) :
    ∃ s' new, handleTouchesDown guest now s [] map = .ok s' ∧ Outcome .began (New s s') s s' new ∧ s.next ≤ s'.next ∧
      (∀ t, t ∈ tracked s' ↔ t ∈ tracked s ∨ New s s' t) ∧ Alone guest s s' ∧
      ∀ finger, finger ∈ s'.currentTouches.map Prod.fst ↔ finger ∈ s.currentTouches.map Prod.fst ∨ finger ∈ map.map Prod.fst := by
  obtain ⟨s₁, touches, hrun, hmade, hnodup, hmem⟩ := handleTouchesDown_made guest now hmap hs.one hs.old hfingers
    List.nodup_nil nofun
  have hperm := guest.allObjects.perm touches
  have hmem' (t : Touch) : t ∈ guest.allObjects.order touches ↔ New s s₁ t := by
    rw [hperm.mem_iff, hmem, or_iff_right List.not_mem_nil]
  obtain ⟨s', viewTouches, f, hassign, hg, ha⟩ := assignViews_spec (s := s₁) guest
    ((tracked s₁).map fun t => (s₁.touch t).view) (hperm.nodup_iff.2 hnodup) Grouped.nil fun _ _ => rfl
  have hold {t : Touch} (ht : ¬New s s₁ t) : f t = none ∧ s'.touch t = s₁.touch t := ha.other t (mt (hmem' t).1 ht)
  have heach {t : Touch} (ht : New s s₁ t) : (s'.touch t).phase = .began ∧ f t = (s'.touch t).view.map some := by
    obtain ⟨hphase, hview⟩ := ha.each t ((hmem' t).2 ht)
    obtain ⟨hview₁, hphase₁⟩ := hmade.fresh t ht
    rw [hphase, hphase₁]
    refine ⟨rfl, ?_⟩
    rcases hview with ⟨hf, hview⟩ | ⟨view, hf, hview⟩
    · rw [hf, hview, hview₁]
      rfl
    · rw [hf, hview]
      rfl
  have hphase (t : Touch) (hf : f t ≠ none) : (s'.touch t).phase = .began := by
    by_cases ht : New s s₁ t
    · exact (heach ht).1
    · exact absurd (hold ht).1 hf
  obtain ⟨new, hsend, hnew, hhistory⟩ := sendAll_spec guest (tracked s₁) hg hphase
  rw [ha.same] at hsend
  -- the state afterwards
  have hlast : handleTouchesDown guest now s [] map = .ok { s₁ with touch := s'.touch, sent := s.sent ++ new } := by
    rw [hrun, beginTouches, hassign]
    dsimp only
    rw [ha.same, hsend, hmade.sent]
  refine ⟨_, new, hlast, ⟨rfl, hnew, fun t ht => ?_, fun t ht => ?_, fun t ht => ?_, ⟨hmade.one.fingers, hmade.one.touches⟩⟩,
    hmade.next_le, hmade.tracked, fun view hflag t ht hview t' ht' hview' => ?_, hmade.fingers⟩
  · rw [hhistory, (heach ht).2]
    cases (s'.touch t).view <;> rfl
  · rw [hhistory, (hold ht).1]
    rfl
  · have hnot : ¬New s s₁ t := fun h => absurd ht h.1.not_gt
    rw [(hold hnot).2, hmade.old t ht]
  · obtain ⟨halone, hexisting⟩ := ha.alone view hflag nofun
    have hf : f t = some (some view) := by
      rw [(heach ht).2]
      exact congrArg (Option.map some) hview
    by_cases hnew' : New s s₁ t'
    · refine halone t t' hf ?_
      rw [(heach hnew').2]
      exact congrArg (Option.map some) hview'
    · -- the view has a touch already
      refine absurd (List.mem_map.2 ⟨t', ht', ?_⟩) (hexisting t ((hmem' t).2 ht) hf)
      rw [← (hold hnew').2]
      exact hview'

/-! ## The invariant -/

/-- what a touch with this view has been told about -/
def Delivered (log : List Message) (t : Touch) (isTracked : Prop) [Decidable isTracked] (view : Option View) : Prop :=
  match view with
  | none => history log t = []
  | some view => ∃ n, history log t =
      (.began, view) :: (List.replicate n (.moved, view) ++ if isTracked then [] else [(.ended, view)])

/-- **The invariant**: every message has touches of its phase only, and the messages about a touch are those that the protocol
says. -/
structure Inv (s : TouchState Coords Time) : Prop extends Ready s where
  coherent : ∀ m ∈ s.sent, Coherent m
  fresh : ∀ t, s.next ≤ t → history s.sent t = []
  delivered : ∀ t, t < s.next → Delivered s.sent t (t ∈ tracked s) (s.touch t).view

variable {new : List Message} {P : Touch → Prop} {i : Input Coords Time} {s₀ : TouchState Coords Time}
  {inputs : List (Input Coords Time)}

theorem markStationary_view : ((markStationary s).touch t).view = (s.touch t).view := by
  unfold markStationary
  dsimp only
  split_ifs <;> rfl

theorem markStationary_phase (ht : t ∈ tracked (markStationary s)) : ((markStationary s).touch t).phase = .stationary := by
  have ht' : t ∈ tracked s := ht
  unfold markStationary
  dsimp only
  rw [if_pos ht']

theorem Inv.markStationary (hs : Inv s) : Inv (markStationary s) := by
  refine ⟨⟨⟨hs.one.fingers, hs.one.touches⟩, hs.old⟩, hs.coherent, hs.fresh, fun t ht => ?_⟩
  rw [markStationary_view]
  exact hs.delivered t ht

theorem Outcome.coherent_all (h : Outcome phase P s s' new) (hs : Inv s) : ∀ m ∈ s'.sent, Coherent m := by
  intro m hm
  rw [h.sent] at hm
  rcases List.mem_append.1 hm with hm | hm
  · exact hs.coherent m hm
  · exact (h.coherent m hm).2

theorem Outcome.history_untold (h : Outcome phase P s s' new) (ht : ¬P t) : history s'.sent t = history s.sent t := by
  rw [h.sent, history_append, h.untold t ht, List.append_nil]

theorem Outcome.history_told (h : Outcome phase P s s' new) (ht : P t) :
    history s'.sent t = history s.sent t ++ ((s'.touch t).view.map (phase, ·)).toList := by
  rw [h.sent, history_append, h.told t ht]

theorem Delivered.congr {isTracked isTracked' : Prop} [Decidable isTracked] [Decidable isTracked'] {v v' : Option View}
    (h : Delivered log t isTracked v) (hlog : history log' t = history log t) (htracked : isTracked' ↔ isTracked) (hv : v' = v) :
    Delivered log' t isTracked' v' := by
  rw [hv]
  cases v with
  | none => exact hlog.trans h
  | some view =>
    obtain ⟨n, hn⟩ := h
    refine ⟨n, ?_⟩
    rw [hlog, hn]
    simp only [htracked]

/-- the same touches are tracked if the fingers have the same touches -/
theorem tracked_congr (h : ∀ e, e ∈ s'.currentTouches ↔ e ∈ s.currentTouches) : t ∈ tracked s' ↔ t ∈ tracked s := by
  simp only [mem_tracked, h]

theorem Inv.moved (hs : Inv s) (h : Outcome .moved (Hit s map) s s' new) (hnext : s'.next = s.next)
    (hmem : ∀ e, e ∈ s'.currentTouches ↔ e ∈ s.currentTouches) : Inv s' := by
  have htracked (t : Touch) : t ∈ tracked s' ↔ t ∈ tracked s := tracked_congr hmem
  refine ⟨⟨h.one, fun t ht => ?_⟩, h.coherent_all hs, fun t ht => ?_, fun t ht => ?_⟩
  · rw [hnext]
    exact hs.old t ((htracked t).1 ht)
  · rw [hnext] at ht
    rw [h.history_untold fun hit => absurd (hs.old t (Ready.hit_tracked hit)) ht.not_gt, hs.fresh t ht]
  · rw [hnext] at ht
    have hold := hs.delivered t ht
    by_cases hit : Hit s map t
    · -- one more movement
      have hin := Ready.hit_tracked hit
      have hhistory := h.history_told hit
      rw [h.view t ht] at hhistory ⊢
      cases hview : (s.touch t).view with
      | none =>
        rw [hview] at hold hhistory
        rw [Delivered, hhistory, Option.map_none, Option.toList_none, List.append_nil]
        exact hold
      | some view =>
        rw [hview] at hold hhistory
        obtain ⟨n, hn⟩ := hold
        refine ⟨n + 1, ?_⟩
        rw [hhistory, hn, if_pos hin, if_pos ((htracked t).2 hin), List.replicate_succ']
        simp
    · exact hold.congr (h.history_untold hit) (htracked t) (h.view t ht)

theorem Inv.ended (hs : Inv s) (h : Outcome .ended (Hit s map) s s' new) (hnext : s'.next = s.next)
    (hmem : ∀ e, e ∈ s'.currentTouches ↔ e ∈ s.currentTouches ∧ e.1 ∉ map.map Prod.fst) : Inv s' := by
  have htracked (t : Touch) : t ∈ tracked s' ↔ t ∈ tracked s ∧ ¬Hit s map t := by
    rw [mem_tracked, mem_tracked]
    constructor
    · rintro ⟨finger, he⟩
      obtain ⟨hin, hnot⟩ := (hmem _).1 he
      refine ⟨⟨finger, hin⟩, ?_⟩
      rintro ⟨e, hemap, hcurrent⟩
      exact hnot (List.mem_map.2 ⟨e, hemap, hs.one.finger_eq hcurrent hin⟩)
    · rintro ⟨⟨finger, hin⟩, hnot⟩
      refine ⟨finger, (hmem _).2 ⟨hin, fun hfinger => hnot ?_⟩⟩
      obtain ⟨e, he, rfl⟩ := List.mem_map.1 hfinger
      exact ⟨e, he, hin⟩
  refine ⟨⟨h.one, fun t ht => ?_⟩, h.coherent_all hs, fun t ht => ?_, fun t ht => ?_⟩
  · rw [hnext]
    exact hs.old t ((htracked t).1 ht).1
  · rw [hnext] at ht
    rw [h.history_untold fun hit => absurd (hs.old t (Ready.hit_tracked hit)) ht.not_gt, hs.fresh t ht]
  · rw [hnext] at ht
    have hold := hs.delivered t ht
    by_cases hit : Hit s map t
    · -- the end
      have hin := Ready.hit_tracked hit
      have hout : t ∉ tracked s' := fun h' => ((htracked t).1 h').2 hit
      have hhistory := h.history_told hit
      rw [h.view t ht] at hhistory ⊢
      cases hview : (s.touch t).view with
      | none =>
        rw [hview] at hold hhistory
        rw [Delivered, hhistory, Option.map_none, Option.toList_none, List.append_nil]
        exact hold
      | some view =>
        rw [hview] at hold hhistory
        obtain ⟨n, hn⟩ := hold
        refine ⟨n, ?_⟩
        rw [hhistory, hn, if_pos hin, if_neg hout]
        simp
    · refine hold.congr (h.history_untold hit) ?_ (h.view t ht)
      rw [htracked, and_iff_left hit]

theorem Inv.began (hs : Inv s) (h : Outcome .began (New s s') s s' new) (hnext : s.next ≤ s'.next)
    (htracked : ∀ t, t ∈ tracked s' ↔ t ∈ tracked s ∨ New s s' t) : Inv s' := by
  refine ⟨⟨h.one, fun t ht => ?_⟩, h.coherent_all hs, fun t ht => ?_, fun t ht => ?_⟩
  · rcases (htracked t).1 ht with ht | ht
    · exact (hs.old t ht).trans_le hnext
    · exact ht.2
  · rw [h.history_untold fun hnew => absurd hnew.2 ht.not_gt, hs.fresh t (hnext.trans ht)]
  · by_cases hnew : New s s' t
    · -- the beginning
      have hin : t ∈ tracked s' := (htracked t).2 (.inr hnew)
      have hhistory := h.history_told hnew
      rw [hs.fresh t hnew.1, List.nil_append] at hhistory
      cases hview : (s'.touch t).view with
      | none =>
        rw [hview] at hhistory
        exact hhistory
      | some view =>
        rw [hview] at hhistory
        refine ⟨0, ?_⟩
        rw [hhistory, if_pos hin]
        rfl
    · have hlt : t < s.next := by
        by_contra hge
        exact hnew ⟨not_lt.1 hge, ht⟩
      refine (hs.delivered t hlt).congr (h.history_untold hnew) ?_ (h.view t hlt)
      rw [htracked, or_iff_left hnew]

/-- which fingers are down after an event -/
def downAfter (down : FingerId → Prop) (i : Input Coords Time) (finger : FingerId) : Prop :=
  match i.event with
  | .touchesDown map => down finger ∨ finger ∈ map.fingers.map Prod.fst
  | .touchesMove _ => down finger
  | .touchesUp map => down finger ∧ finger ∉ map.fingers.map Prod.fst

/-- **Every event** succeeds and keeps the invariant. -/
theorem handleEvent_inv (hs : Inv s) (hd : Downs s i) : ∃ s' phase P new, handleEvent s i = .ok s' ∧ Inv s' ∧ Outcome phase P s s' new ∧
    s.next ≤ s'.next ∧ (∀ t ∈ tracked s', t ∈ tracked s ∨ New s s' t) ∧ Alone i.guest s s' ∧
      ∀ finger, finger ∈ s'.currentTouches.map Prod.fst ↔
        downAfter (fun finger => finger ∈ s.currentTouches.map Prod.fst) i finger := by
  have hm := hs.markStationary
  have hphase (t : Touch) (ht : t ∈ tracked (markStationary s)) := markStationary_phase ht
  have hfrom {s' : TouchState Coords Time} {phase} {P} {new} (h : Outcome phase P (markStationary s) s' new) : Outcome phase P s s' new :=
    ⟨h.sent, h.coherent, h.told, h.untold, fun t ht => (h.view t ht).trans markStationary_view, h.one⟩
  have halone {s' : TouchState Coords Time} (h : s'.next = s.next) : Alone i.guest s s' := by
    intro view _ t ht
    exact absurd (h ▸ ht.2) ht.1.not_gt
  have hkeys {s' : TouchState Coords Time} (h : ∀ e, e ∈ s'.currentTouches ↔ e ∈ s.currentTouches) (finger : FingerId) :
      finger ∈ s'.currentTouches.map Prod.fst ↔ finger ∈ s.currentTouches.map Prod.fst := by
    simp only [List.mem_map, h]
  obtain ⟨event, now, guest⟩ := i
  cases event with
  | touchesDown map =>
    by_cases hagain : ∃ e ∈ map.fingers, e.1 ∈ s.currentTouches.map Prod.fst
    · -- a finger that is down already
      obtain ⟨e, he, hfinger⟩ := hagain
      obtain ⟨⟨finger, touch⟩, hin, rfl⟩ := List.mem_map.1 hfinger
      have hlookup := Assoc.lookup_of_mem hs.one.fingers hin
      obtain ⟨hlength, hsingle⟩ := hd map rfl e he (by rw [hlookup]; rfl)
      obtain ⟨e', he'⟩ := List.length_eq_one_iff.1 hlength
      obtain rfl : e = e' := by
        rw [he'] at he
        exact List.mem_singleton.1 he
      obtain ⟨s', new, hrun, houtcome, hnext, hmem⟩ := handleTouchesMove_spec guest now hm.toReady hphase
        (show ([e].map Prod.fst).Nodup from List.nodup_singleton _)
      refine ⟨s', _, _, new, ?_, hm.moved houtcome hnext hmem, hfrom houtcome, hnext.ge,
        fun t ht => .inl ((tracked_congr hmem).1 ht), halone hnext, fun finger' => ?_⟩
      · rw [handleEvent]
        dsimp only
        rw [he', handleTouchesDown]
        have hlookup' : (markStationary s).currentTouches.lookup e.1 = some touch := hlookup
        have hsingle' : (markStationary s).currentTouches.length = 1 := hsingle
        rw [hlookup']
        dsimp only
        rw [assert_ok (beq_iff_eq.2 hsingle'), ok_bind]
        exact hrun
      · rw [hkeys hmem, downAfter]
        dsimp only
        rw [he', List.map_singleton, List.mem_singleton, or_iff_left_of_imp]
        rintro rfl
        exact hfinger
    · have hfingers : ∀ e ∈ map.fingers, e.1 ∉ (markStationary s).currentTouches.map Prod.fst := fun e he h => hagain ⟨e, he, h⟩
      obtain ⟨s', new, hrun, houtcome, hnext, htracked, hal, hkeys'⟩ := handleTouchesDown_spec guest now hm.toReady
        map.nodup hfingers
      exact ⟨s', _, _, new, hrun, hm.began houtcome hnext htracked, hfrom houtcome, hnext,
        fun t ht => (htracked t).1 ht, hal, hkeys'⟩
  | touchesMove map =>
    obtain ⟨s', new, hrun, houtcome, hnext, hmem⟩ := handleTouchesMove_spec guest now hm.toReady hphase map.nodup
    exact ⟨s', _, _, new, hrun, hm.moved houtcome hnext hmem, hfrom houtcome, hnext.ge,
      fun t ht => .inl ((tracked_congr hmem).1 ht), halone hnext, hkeys hmem⟩
  | touchesUp map =>
    obtain ⟨s', new, hrun, houtcome, hnext, hmem⟩ := handleTouchesUp_spec guest now hm.toReady hphase map.nodup
    refine ⟨s', _, _, new, hrun, hm.ended houtcome hnext hmem, hfrom houtcome, hnext.ge,
      fun t ht => ?_, halone hnext, fun finger => ?_⟩
    · obtain ⟨finger, he⟩ := mem_tracked.1 ht
      exact .inl (mem_tracked.2 ⟨finger, ((hmem _).1 he).1⟩)
    simp only [List.mem_map, hmem, downAfter]
    constructor
    · rintro ⟨e, ⟨he, hnot⟩, rfl⟩
      exact ⟨⟨e, he, rfl⟩, hnot⟩
    · rintro ⟨⟨e, he, rfl⟩, hnot⟩
      exact ⟨e, ⟨he, hnot⟩, rfl⟩

/-! ## Runs -/

/-- the touch has begun at the view and not ended -/
def Active (log : List Message) (view : View) (t : Touch) : Prop :=
  (.began, view) ∈ history log t ∧ (.ended, view) ∉ history log t

theorem mem_history (h : (phase, view) ∈ history log t) : ∃ m ∈ log, m.phase = phase := by
  obtain ⟨m, hm, hmem⟩ := List.mem_filterMap.1 h
  split_ifs at hmem
  exact ⟨m, hm, (Prod.mk.inj (Option.some.inj hmem)).1⟩

theorem Inv.active_iff (hs : Inv s) : Active s.sent view t ↔ t ∈ tracked s ∧ (s.touch t).view = some view := by
  constructor
  · rintro ⟨hbegan, hended⟩
    have hlt : t < s.next := by
      by_contra hge
      rw [hs.fresh t (not_lt.1 hge)] at hbegan
      cases hbegan
    have hd := hs.delivered t hlt
    cases hview : (s.touch t).view with
    | none =>
      rw [hview] at hd
      rw [show history s.sent t = [] from hd] at hbegan
      cases hbegan
    | some view' =>
      rw [hview] at hd
      obtain ⟨n, hn⟩ := hd
      rw [hn] at hbegan hended
      by_cases ht : t ∈ tracked s
      · rw [if_pos ht, List.append_nil, List.mem_cons, List.mem_replicate] at hbegan
        rcases hbegan with heq | ⟨-, heq⟩
        · exact ⟨ht, congrArg some (Prod.mk.inj heq).2.symm⟩
        · cases heq
      · rw [if_neg ht, List.mem_cons, List.mem_append, List.mem_replicate, List.mem_singleton] at hbegan hended
        rcases hbegan with heq | ⟨-, heq⟩ | heq
        · obtain rfl := (Prod.mk.inj heq).2
          exact absurd (.inr (.inr rfl)) hended
        · cases heq
        · cases heq
  · rintro ⟨ht, hview⟩
    have hd := hs.delivered t (hs.old t ht)
    rw [hview] at hd
    obtain ⟨n, hn⟩ := hd
    rw [Active, hn, if_pos ht]
    simp

/-- while the messages of an event are sent, no more touches are active than before it or than after it -/
theorem Outcome.active (h : Outcome phase P s s' new) (hlog : s.sent <+: log) (hlog' : log <+: s'.sent) :
    (∀ t, Active log view t → Active s.sent view t) ∨ ∀ t, Active log view t → Active s'.sent view t := by
  obtain ⟨sent, rfl⟩ := hlog
  obtain ⟨rest, hrest⟩ := hlog'
  have hnew : new = sent ++ rest := by
    rw [h.sent, List.append_assoc] at hrest
    exact (List.append_cancel_left hrest).symm
  by_cases hphase : phase = .ended
  · left
    rintro t ⟨hbegan, hended⟩
    rw [history_append, List.mem_append] at hbegan hended
    rcases hbegan with hbegan | hbegan
    · exact ⟨hbegan, fun h' => hended (.inl h')⟩
    · obtain ⟨m, hm, hm'⟩ := mem_history hbegan
      have hm'' := (h.coherent m (hnew ▸ List.mem_append_left _ hm)).1
      rw [hm', hphase] at hm''
      cases hm''
  · right
    rintro t ⟨hbegan, hended⟩
    rw [← hrest]
    refine ⟨?_, fun h' => ?_⟩
    · rw [history_append]
      exact List.mem_append_left _ hbegan
    · rw [history_append] at h'
      rcases List.mem_append.1 h' with h' | h'
      · exact hended h'
      · obtain ⟨m, hm, hm'⟩ := mem_history h'
        exact hphase ((h.coherent m (hnew ▸ List.mem_append_right _ hm)).1.symm.trans hm')

/-- since a state, no touch of the view that began later was active together with another one -/
structure AloneSince (view : View) (s₀ s : TouchState Coords Time) : Prop extends Inv s where
  next_le : s₀.next ≤ s.next
  sent : s₀.sent <+: s.sent
  view_eq : ∀ t, t < s₀.next → (s.touch t).view = (s₀.touch t).view
  alone : ∀ log, s₀.sent <+: log → log <+: s.sent → ∀ t t', s₀.next ≤ t → Active log view t → Active log view t' → t' = t

theorem AloneSince.refl (view : View) (hs : Inv s) : AloneSince view s s := by
  refine ⟨hs, le_rfl, List.prefix_rfl, fun _ _ => rfl, fun log hlog hlog' t t' ht hactive => ?_⟩
  rw [(hlog'.eq_of_length_le hlog.length_le), hs.active_iff] at hactive
  exact absurd (hs.old t hactive.1) ht.not_gt

theorem AloneSince.step (hs : AloneSince view s₀ s) (hd : Downs s i)
    (hflag : ∀ t, i.guest.isMultipleTouchEnabled t view = false) (h : handleEvent s i = .ok s') : AloneSince view s₀ s' := by
  obtain ⟨s'', phase, P, new, hrun, hinv, houtcome, hnext, htracked, halone, -⟩ := handleEvent_inv hs.toInv hd
  obtain rfl : s'' = s' := Except.ok.inj (hrun.symm.trans h)
  have hsent : s.sent <+: s''.sent := houtcome.sent ▸ List.prefix_append _ _
  refine ⟨hinv, hs.next_le.trans hnext, hs.sent.trans hsent, fun t ht => ?_, fun log hlog hlog' t t' ht hactive hactive' => ?_⟩
  · rw [houtcome.view t (ht.trans_le hs.next_le), hs.view_eq t ht]
  · rcases List.prefix_or_prefix_of_prefix hlog' hsent with hbefore | hafter
    · exact hs.alone log hlog hbefore t t' ht hactive hactive'
    rcases houtcome.active hafter hlog' with hthen | hnow
    · exact hs.alone s.sent hs.sent List.prefix_rfl t t' ht (hthen t hactive) (hthen t' hactive')
    · obtain ⟨hin, hview⟩ := hinv.active_iff.1 (hnow t hactive)
      obtain ⟨hin', hview'⟩ := hinv.active_iff.1 (hnow t' hactive')
      rcases htracked t hin with hold | hnew
      · rcases htracked t' hin' with hold' | hnew'
        · -- both were active before the event
          have hbefore {t : Touch} (hold : t ∈ tracked s) (hview : (s''.touch t).view = some view) : Active s.sent view t := by
            rw [hs.active_iff, ← houtcome.view t (hs.old t hold)]
            exact ⟨hold, hview⟩
          exact hs.alone s.sent hs.sent List.prefix_rfl t t' ht (hbefore hold hview) (hbefore hold' hview')
        · exact (halone view hflag t' hnew' hview' t hin hview).symm
      · exact halone view hflag t hnew hview t' hin' hview'

theorem AloneSince.run (hs : AloneSince view s₀ s)
    (hl : LegalRun handleEvent Downs s inputs) (hflag : ∀ i ∈ inputs, ∀ t, i.guest.isMultipleTouchEnabled t view = false)
    (h : Machine.run handleEvent s inputs = .ok s') : AloneSince view s₀ s' := by
  induction inputs generalizing s with
  | nil =>
    cases h
    exact hs
  | cons i inputs ih =>
    obtain ⟨s₁, h1, h2⟩ := run_cons_ok.1 h
    exact ih (hs.step hl.1 (hflag i List.mem_cons_self) h1) (hl.2 s₁ h1) (fun i hi => hflag i (List.mem_cons_of_mem _ hi)) h2

/-- a touch that began later is a later touch -/
theorem AloneSince.later (hs : AloneSince view s₀ s) (h₀ : Inv s₀) (hlog : log <+: s.sent)
    (hnone : history s₀.sent t = []) (hactive : Active log view t) : s₀.next ≤ t := by
  by_contra hlt
  rw [not_le] at hlt
  have hview : (s₀.touch t).view = none := by
    have hd := h₀.delivered t hlt
    cases hview : (s₀.touch t).view with
    | none => rfl
    | some view' =>
      rw [hview] at hd
      obtain ⟨n, hn⟩ := hd
      rw [hnone] at hn
      cases hn
  have hd := hs.delivered t (hlt.trans_le hs.next_le)
  rw [hs.view_eq t hlt, hview] at hd
  obtain ⟨rest, hrest⟩ := hlog
  have hall : history s.sent t = [] := hd
  rw [← hrest, history_append] at hall
  have hbegan := hactive.1
  rw [(List.append_eq_nil_iff.1 hall).1] at hbegan
  cases hbegan

/-- the beginning -/
def start (blank : UITouchHostObject Coords Time) : TouchState Coords Time := ⟨[], fun _ => blank, 0, []⟩

theorem start_inv (blank : UITouchHostObject Coords Time) : Inv (start blank) :=
  ⟨⟨⟨List.nodup_nil, List.nodup_nil⟩, nofun⟩, nofun, fun _ _ => rfl, fun _ h => absurd h (Nat.not_lt_zero _)⟩

/-- the invariant, and which fingers are down -/
theorem run_invariant (down : FingerId → Prop) (hs : Inv s)
    (hdown : ∀ finger, finger ∈ s.currentTouches.map Prod.fst ↔ down finger) (hl : LegalRun handleEvent Downs s inputs) :
    ∃ s', run handleEvent s inputs = .ok s' ∧ Inv s' ∧
      ∀ finger, finger ∈ s'.currentTouches.map Prod.fst ↔ inputs.foldl downAfter down finger := by
  induction inputs generalizing s down with
  | nil => exact ⟨s, rfl, hs, hdown⟩
  | cons i inputs ih =>
    obtain ⟨s₁, phase, P, new, hrun, hinv, -, -, -, -, hkeys⟩ := handleEvent_inv hs hl.1
    rw [funext fun finger => propext (hdown finger)] at hkeys
    obtain ⟨s', hrest, hinv', hkeys'⟩ := ih _ hinv hkeys (hl.2 s₁ hrun)
    exact ⟨s', run_cons_ok.2 ⟨s₁, hrun, hrest⟩, hinv', hkeys'⟩

/-- **The protocol of touches.** No event fails. A touch is not told about at all, or it begins once at a view, moves, and has ended once
at this view exactly if its finger is down no more; every touch of a set has the phase of the message. While a view is without
multiple touch, no touch that begins there is ever active together with another one. -/
theorem touch_protocol (blank : UITouchHostObject Coords Time) (inputs : List (Input Coords Time))
    (hl : LegalRun handleEvent Downs (start blank) inputs) : ∃ s, run handleEvent (start blank) inputs = .ok s ∧
      (∀ t, history s.sent t = [] ∨ ∃ view n, history s.sent t =
        (.began, view) :: (List.replicate n (.moved, view) ++ if t ∈ tracked s then [] else [(.ended, view)])) ∧
      (∀ finger, finger ∈ s.currentTouches.map Prod.fst ↔ inputs.foldl downAfter (fun _ => False) finger) ∧
      (∀ m ∈ s.sent, Coherent m) ∧
      ∀ before after s₀ view, inputs = before ++ after → run handleEvent (start blank) before = .ok s₀ →
        (∀ i ∈ after, ∀ t, i.guest.isMultipleTouchEnabled t view = false) → ∀ log, s₀.sent <+: log → log <+: s.sent →
          ∀ t t', history s₀.sent t = [] → Active log view t → Active log view t' → t' = t := by
  obtain ⟨s, hrun, hinv, hdown⟩ := run_invariant (fun _ => False) (start_inv blank) (fun _ => iff_of_false nofun id) hl
  refine ⟨s, hrun, fun t => ?_, hdown, hinv.coherent, ?_⟩
  · rcases lt_or_ge t s.next with hlt | hge
    · have hd := hinv.delivered t hlt
      cases hview : (s.touch t).view with
      | none =>
        rw [hview] at hd
        exact .inl hd
      | some view =>
        rw [hview] at hd
        obtain ⟨n, hn⟩ := hd
        exact .inr ⟨view, n, hn⟩
    · exact .inl (hinv.fresh t hge)
  · rintro before after s₀ view rfl hbefore hflag log hlog hlog' t t' hnone hactive hactive'
    obtain ⟨hl₀, hrest⟩ := LegalRun.append hl
    obtain ⟨s₁, hrun₁, h₀, -⟩ := run_invariant (fun _ => False) (start_inv blank) (fun _ => iff_of_false nofun id) hl₀
    obtain rfl : s₁ = s₀ := Except.ok.inj (hrun₁.symm.trans hbefore)
    obtain ⟨s₂, hrun₂, hafter⟩ := run_append_ok.1 hrun
    obtain rfl : s₂ = s₁ := Except.ok.inj (hrun₂.symm.trans hrun₁)
    have hsince := (AloneSince.refl view h₀).run (hrest s₂ hrun₂) hflag hafter
    exact hsince.alone log hlog hlog' t t' (hsince.later h₀ hlog' hnone hactive) hactive hactive'

/-- an app with one view -/
def oneView : Guest ℕ where
  windows := [0]
  convertPoint _ p := p
  pointInside _ _ _ := true
  hitTest _ _ _ := some 7
  isMultipleTouchEnabled _ _ := false
  allObjects := ⟨id, fun _ => List.Perm.refl _⟩
  viewTouches := ⟨id, fun _ => List.Perm.refl _⟩

def oneFinger : FingerMap ℕ := ⟨[(.mouse, 5)], List.nodup_singleton _⟩

def tap : List (Input ℕ ℕ) := [⟨.touchesDown oneFinger, 0, oneView⟩, ⟨.touchesMove oneFinger, 1, oneView⟩,
  ⟨.touchesUp oneFinger, 2, oneView⟩]

theorem touch_protocol_tap : ∃ s, run handleEvent (start ⟨none, none, 0, 0, 0, .began⟩) tap = .ok s ∧
    ∀ m ∈ s.sent, Coherent m := by
  have hlegal : LegalRun handleEvent Downs (start ⟨none, none, 0, 0, 0, .began⟩) tap :=
    ⟨fun _ _ _ _ h => (nomatch h), fun _ _ => ⟨fun _ h => (nomatch h), fun _ _ => ⟨fun _ h => (nomatch h), fun _ _ => trivial⟩⟩⟩
  obtain ⟨s, hrun, -, -, hcoherent, -⟩ := touch_protocol ⟨none, none, 0, 0, 0, .began⟩ tap hlegal
  exact ⟨s, hrun, hcoherent⟩

end TouchHLE.UITouch
