/-
Runs of a machine whose steps can fail. A machine is a step function `S → O → Except E S`: an operation `o` in a
state `s` gives the next state or stops the run with an error. Nothing here names the program being modelled.

- `Ends`: a computation fails in some ways only, and gives what has a property.
- `run`: the operations in order; the first failing one stops the run.
- `run_inv`: a property kept by every step is kept by every run. `run_ends`: also with how the run can fail.
- `Throughout`: a property of every state that a run visits.
- `Along`: a property of every step of a run.
- `tally`, `tally_balance`: what the steps of a run add up to.
- `LegalRun`: every operation of a run meets a precondition in the state it is applied in.
- `legalRun_iff`, `throughout_iff_along`: when a property of all states of a run is the same as a condition on its steps.
- `LegalRun.error`: how a legal run can fail.
- `legal_run_cases`: if a legal step from an invariant state either succeeds and keeps the invariant or is stopped for
  a known cause, then a legal run either completes in an invariant state or is stopped for that cause.
-/
import Mathlib.Tactic

namespace TouchHLE.Machine

universe u v

variable {S α β : Type u} {O E : Type v}

/-! ## Peeling a computation apart -/

theorem bind_eq_ok {x : Except E α} {f : α → Except E β} {b : β} :
    (x >>= f) = .ok b ↔ ∃ a, x = .ok a ∧ f a = .ok b := by
  cases x <;> simp [bind, Except.bind]

@[simp] theorem ok_bind (a : α) (f : α → Except E β) : ((Except.ok a : Except E α) >>= f) = f a := (rfl)

@[simp] theorem error_bind (e : E) (f : α → Except E β) : ((Except.error e : Except E α) >>= f) = .error e := rfl

@[simp] theorem pure_eq_ok (a : α) : (pure a : Except E α) = .ok a := rfl

@[simp] theorem throw_eq_error (e : E) : (throw e : Except E α) = .error e := rfl

theorem eq_ok_of_toOption {x : Except E α} {d : α} (h : x.toOption.isSome = true) : x = .ok (x.toOption.getD d) := by
  cases x with
  | error e => cases h
  | ok a => rfl

/-! ## Computations that fail in some ways only -/

/-- the computation fails only as `F` says, and what it gives has the property -/
def Ends (F : E → Prop) (P : α → Prop) : Except E α → Prop
  | .ok a => P a
  | .error e => F e

section

variable {F : E → Prop} {P P' : α → Prop} {Q : β → Prop} {x : Except E α} {f : α → Except E β}

theorem Ends.bind (hx : Ends F P x) (hf : ∀ a, P a → Ends F Q (f a)) : Ends F Q (x >>= f) := by
  cases x with
  | error e => exact hx
  | ok a => exact hf a hx

theorem Ends.mono (hx : Ends F P x) (h : ∀ a, P a → P' a) : Ends F P' x := by
  cases x with
  | error e => exact hx
  | ok a => exact h a hx

theorem Ends.imp {F' : E → Prop} (hx : Ends F P x) (h : ∀ e, F e → F' e) : Ends F' P x := by
  cases x with
  | error e => exact h e hx
  | ok a => exact hx

theorem Ends.ok {a : α} (hx : Ends F P x) (h : x = .ok a) : P a := by
  subst h
  exact hx

theorem Ends.error {e : E} (hx : Ends F P x) (h : x = .error e) : F e := by
  subst h
  exact hx

/-- also with what is known of the result -/
theorem Ends.of_ok (hx : Ends F (fun _ => True) x) (h : ∀ a, x = .ok a → P a) : Ends F P x := by
  cases x with
  | error e => exact hx
  | ok a => exact h a rfl

/-- the steps of a loop -/
theorem ends_foldlM {γ : Type v} {P : β → Prop} {f : β → γ → Except E β} {l : List γ} {b : β}
    (hstep : ∀ b, P b → ∀ x ∈ l, Ends F P (f b x)) (hb : P b) : Ends F P (l.foldlM f b) := by
  induction l generalizing b with
  | nil => exact hb
  | cons x l ih =>
    rw [List.foldlM_cons]
    apply (hstep b hb x List.mem_cons_self).bind
    intro b' hb'
    exact ih (fun b hb x hx => hstep b hb x (List.mem_cons_of_mem _ hx)) hb'

end

/-! ## Runs -/

/-- the operations in order; the first failing one stops the run -/
def run (step : S → O → Except E S) : S → List O → Except E S
  | s, [] => .ok s
  | s, o :: ops => step s o >>= fun s' => run step s' ops

variable {step : S → O → Except E S} {s t : S} {o : O} {ops : List O} {I : S → Prop} {R : S → O → S → Prop}
  {legal : S → O → Prop} {a b : List O}

@[simp] theorem run_nil : run step s [] = .ok s := rfl

theorem run_cons : run step s (o :: ops) = step s o >>= fun s' => run step s' ops := rfl

theorem run_cons_ok : run step s (o :: ops) = .ok t ↔ ∃ s', step s o = .ok s' ∧ run step s' ops = .ok t := by
  rw [run_cons, bind_eq_ok]

theorem run_append (a b : List O) : run step s (a ++ b) = run step s a >>= fun s' => run step s' b := by
  induction a generalizing s with
  | nil => rfl
  | cons o a ih =>
    rw [List.cons_append, run_cons, run_cons]
    cases step s o with
    | error e => rfl
    | ok s' => exact ih

theorem run_append_ok :
    run step s (a ++ b) = .ok t ↔ ∃ s', run step s a = .ok s' ∧ run step s' b = .ok t := by
  rw [run_append, bind_eq_ok]

/-- **Run rule.** A property that every step keeps is kept by every run. -/
theorem run_inv {P : S → Prop} (hstep : ∀ s o s', P s → step s o = .ok s' → P s') (hs : P s)
    (hr : run step s ops = .ok t) : P t := by
  induction ops generalizing s with
  | nil => cases hr; exact hs
  | cons o ops ih =>
    obtain ⟨s', h1, h2⟩ := run_cons_ok.1 hr
    exact ih (hstep s o s' hs h1) h2

/-- the run rule for steps that fail in some ways only -/
theorem run_ends {Q : O → Prop} {F : E → Prop} (hstep : ∀ s o, Q o → I s → Ends F I (step s o)) (hs : I s)
    (hops : ∀ o ∈ ops, Q o) : Ends F I (run step s ops) := by
  induction ops generalizing s with
  | nil => exact hs
  | cons o ops ih =>
    rw [run_cons]
    apply (hstep s o (hops o List.mem_cons_self) hs).bind
    intro s' hs'
    exact ih hs' fun o' ho' => hops o' (List.mem_cons_of_mem o ho')

/-- the run rule with a side condition on the operations of the run -/
theorem run_inv_mem {P : S → Prop} {Q : O → Prop} (hstep : ∀ s o s', Q o → P s → step s o = .ok s' → P s') (hs : P s)
    (hops : ∀ o ∈ ops, Q o) (hr : run step s ops = .ok t) : P t := by
  induction ops generalizing s with
  | nil => cases hr; exact hs
  | cons o ops ih =>
    obtain ⟨s', h1, h2⟩ := run_cons_ok.1 hr
    exact ih (hstep s o s' (hops o List.mem_cons_self) hs h1) (fun o' ho' => hops o' (List.mem_cons_of_mem o ho')) h2

/-- `P` in every state that the run visits, the first and the last included -/
def Throughout (step : S → O → Except E S) (P : S → Prop) : S → List O → Prop
  | s, [] => P s
  | s, o :: ops => P s ∧ ∀ s', step s o = .ok s' → Throughout step P s' ops

theorem Throughout.first {P : S → Prop} (h : Throughout step P s ops) : P s := by
  cases ops with
  | nil => exact h
  | cons o ops => exact h.1

/-- the run rule for a run whose states are known to have the property `P` -/
theorem Throughout.inv {P I : S → Prop} (hstep : ∀ s o s', P s → P s' → I s → step s o = .ok s' → I s')
    (ht : Throughout step P s ops) (hs : I s) (hr : run step s ops = .ok t) : P t ∧ I t := by
  induction ops generalizing s with
  | nil =>
    cases hr
    exact ⟨ht, hs⟩
  | cons o ops ih =>
    obtain ⟨s', h1, h2⟩ := run_cons_ok.1 hr
    have htail := ht.2 s' h1
    exact ih htail (hstep s o s' ht.1 htail.first hs h1) h2

/-- `R` of every step that the run makes -/
def Along (step : S → O → Except E S) (R : S → O → S → Prop) : S → List O → Prop
  | _, [] => True
  | s, o :: ops => ∀ s', step s o = .ok s' → R s o s' ∧ Along step R s' ops

/-- **Two properties of steps** that are the same for the steps from invariant states are the same along runs. -/
theorem along_iff {R R' : S → O → S → Prop} (hinv : ∀ s o s', I s → step s o = .ok s' → I s')
    (hstep : ∀ s o s', I s → step s o = .ok s' → (R s o s' ↔ R' s o s')) (hs : I s) :
    Along step R s ops ↔ Along step R' s ops := by
  induction ops generalizing s with
  | nil => exact Iff.rfl
  | cons o ops ih =>
    refine forall_congr' fun s' => forall_congr' fun h => ?_
    rw [hstep s o s' hs h, ih (hinv s o s' hs h)]

/-- the property of a step in the middle of the run -/
theorem Along.at {s' : S} (pre post : List O) (h : Along step R s (pre ++ o :: post))
    (hr : run step s pre = .ok t) (ho : step t o = .ok s') : R t o s' := by
  induction pre generalizing s with
  | nil =>
    cases hr
    exact (h s' ho).1
  | cons o' pre ih =>
    obtain ⟨s1, h1, h2⟩ := run_cons_ok.1 hr
    exact ih (h s1 h1).2 h2

/-- the sum of what each step of the run counts for -/
def tally {M : Type*} [AddCommMonoid M] (step : S → O → Except E S) (f : S → O → S → M) : S → List O → M
  | _, [] => 0
  | s, o :: ops =>
    match step s o with
    | .ok s' => f s o s' + tally step f s' ops
    | .error _ => 0

/-- **Balance rule.** If in every step a quantity gains what `f` counts and loses what `g` counts, then it does so over
the run. -/
theorem tally_balance {M : Type*} [AddCommMonoid M] {f g : S → O → S → M} {q : S → M} {Q : O → Prop}
    (hinv : ∀ s o s', Q o → I s → step s o = .ok s' → I s')
    (hstep : ∀ s o s', Q o → I s → step s o = .ok s' → q s' + g s o s' = q s + f s o s') (hs : I s)
    (hops : ∀ o ∈ ops, Q o) (hr : run step s ops = .ok t) : q t + tally step g s ops = q s + tally step f s ops := by
  induction ops generalizing s with
  | nil =>
    cases hr
    rfl
  | cons o ops ih =>
    obtain ⟨s', h1, h2⟩ := run_cons_ok.1 hr
    have hq := hops o List.mem_cons_self
    have hrest := ih (hinv s o s' hq hs h1) (fun o' ho' => hops o' (List.mem_cons_of_mem o ho')) h2
    simp only [tally, h1]
    calc q t + (g s o s' + tally step g s' ops)
        = (q t + tally step g s' ops) + g s o s' := by rw [add_comm (g s o s'), add_assoc]
      _ = (q s' + g s o s') + tally step f s' ops := by rw [hrest, add_right_comm]
      _ = q s + (f s o s' + tally step f s' ops) := by rw [hstep s o s' hq hs h1, add_assoc]

/-! ## Legal runs -/

/-- every operation meets its precondition in the state it is applied in -/
def LegalRun (step : S → O → Except E S) (legal : S → O → Prop) : S → List O → Prop
  | _, [] => True
  | s, o :: ops => legal s o ∧ ∀ s', step s o = .ok s' → LegalRun step legal s' ops

instance decidableLegalRun {legal : S → O → Prop} [∀ s o, Decidable (legal s o)] :
    ∀ (ops : List O) (s : S), Decidable (LegalRun step legal s ops)
  | [], _ => isTrue trivial
  | o :: ops, s =>
    have : Decidable (∀ s', step s o = .ok s' → LegalRun step legal s' ops) :=
      match step s o with
      | .ok s' =>
        match decidableLegalRun ops s' with
        | isTrue hl => isTrue fun t ht => by cases ht; exact hl
        | isFalse hl => isFalse fun hall => hl (hall s' rfl)
      | .error _ => isTrue fun _ ht => nomatch ht
    inferInstanceAs (Decidable (_ ∧ _))

/-- the run rule for steps that meet a precondition -/
theorem LegalRun.inv {P : S → O → Prop} (hinv : ∀ s o s', I s → P s o → step s o = .ok s' → I s')
    (hl : LegalRun step P s ops) (hs : I s) (hr : run step s ops = .ok t) : I t := by
  induction ops generalizing s with
  | nil =>
    cases hr
    exact hs
  | cons o ops ih =>
    obtain ⟨s', h1, h2⟩ := run_cons_ok.1 hr
    exact ih (hl.2 s' h1) (hinv s o s' hs hl.1 h1) h2

/-- a property of the steps that meet a precondition -/
theorem LegalRun.along {P : S → O → Prop}
    (hstep : ∀ s o s', I s → P s o → step s o = .ok s' → I s' ∧ R s o s') (hl : LegalRun step P s ops) (hs : I s) :
    Along step R s ops := by
  induction ops generalizing s with
  | nil => trivial
  | cons o ops ih =>
    intro s' h
    obtain ⟨hs', hR⟩ := hstep s o s' hs hl.1 h
    exact ⟨hR, ih (hl.2 s' h) hs'⟩

/-- the two parts of a legal run -/
theorem LegalRun.append {P : S → O → Prop} (hl : LegalRun step P s (a ++ b)) :
    LegalRun step P s a ∧ ∀ s', run step s a = .ok s' → LegalRun step P s' b := by
  induction a generalizing s with
  | nil =>
    refine ⟨trivial, fun s' h => ?_⟩
    cases h
    exact hl
  | cons o a ih =>
    refine ⟨⟨hl.1, fun s₁ h1 => (ih (hl.2 s₁ h1)).1⟩, fun s' h => ?_⟩
    obtain ⟨s₁, h1, h2⟩ := run_cons_ok.1 h
    exact (ih (hl.2 s₁ h1)).2 s' h2

/-- two preconditions -/
theorem LegalRun.and {P Q : S → O → Prop} (hp : LegalRun step P s ops) (hq : LegalRun step Q s ops) :
    LegalRun step (fun s o => P s o ∧ Q s o) s ops := by
  induction ops generalizing s with
  | nil => trivial
  | cons o ops ih => exact ⟨⟨hp.1, hq.1⟩, fun s' h => ih (hp.2 s' h) (hq.2 s' h)⟩

/-- a precondition that holds in every state with an invariant -/
theorem legalRun_of_inv {P : S → O → Prop} (hinv : ∀ s o s', I s → step s o = .ok s' → I s')
    (h : ∀ s o, I s → P s o) (hs : I s) : LegalRun step P s ops := by
  induction ops generalizing s with
  | nil => trivial
  | cons o ops ih => exact ⟨h s o hs, fun s' h' => ih (hinv s o s' hs h')⟩

/-- a precondition that holds in every state -/
theorem LegalRun.always {P : S → O → Prop} (h : ∀ s o, P s o) : LegalRun step P s ops :=
  legalRun_of_inv (I := fun _ => True) (fun _ _ _ _ _ => trivial) (fun s o _ => h s o) trivial

/-- preconditions that are the same in every invariant state are the same along runs, if the steps that meet them keep
the invariant -/
theorem legalRun_congr_of_kept {P Q : S → O → Prop}
    (hinv : ∀ s o s', I s → P s o → step s o = .ok s' → I s') (h : ∀ s o, I s → (P s o ↔ Q s o)) (hs : I s) :
    LegalRun step P s ops ↔ LegalRun step Q s ops := by
  induction ops generalizing s with
  | nil => exact Iff.rfl
  | cons o ops ih =>
    refine ⟨fun ⟨hp, hl⟩ => ⟨(h s o hs).1 hp, fun s' h' => (ih (hinv s o s' hs hp h')).1 (hl s' h')⟩, fun ⟨hq, hl⟩ => ?_⟩
    have hp := (h s o hs).2 hq
    exact ⟨hp, fun s' h' => (ih (hinv s o s' hs hp h')).2 (hl s' h')⟩

/-- preconditions that are the same in every invariant state are the same along runs -/
theorem legalRun_congr_of_inv {P Q : S → O → Prop} (hinv : ∀ s o s', I s → step s o = .ok s' → I s')
    (h : ∀ s o, I s → (P s o ↔ Q s o)) (hs : I s) : LegalRun step P s ops ↔ LegalRun step Q s ops :=
  legalRun_congr_of_kept (fun s o s' hs _ h' => hinv s o s' hs h') h hs

/-- preconditions that are the same in every state are the same along runs -/
theorem legalRun_congr {P Q : S → O → Prop} (h : ∀ s o, P s o ↔ Q s o) : LegalRun step P s ops ↔ LegalRun step Q s ops :=
  legalRun_congr_of_inv (I := fun _ => True) (fun _ _ _ _ _ => trivial) (fun s o _ => h s o) trivial

/-- **A property of the states, of the steps and a condition on the steps** are the same along legal runs, if from invariant
states with the property a legal step meets the condition exactly when it is as it should be and leads to such a state. -/
theorem legalRun_iff_of_legal {P I : S → Prop} {Q C legal : S → O → Prop}
    (hinv : ∀ s o s', legal s o → I s → P s → step s o = .ok s' → P s' → I s')
    (hstep : ∀ s o, legal s o → I s → P s → (C s o ↔ Q s o ∧ ∀ s', step s o = .ok s' → P s')) (hl : LegalRun step legal s ops)
    (hs : I s) (hP : P s) : Throughout step P s ops ∧ LegalRun step Q s ops ↔ LegalRun step C s ops := by
  induction ops generalizing s with
  | nil => exact ⟨fun _ => trivial, fun _ => ⟨hP, trivial⟩⟩
  | cons o ops ih =>
    constructor
    · rintro ⟨⟨-, hth⟩, hq, hrest⟩
      refine ⟨(hstep s o hl.1 hs hP).2 ⟨hq, fun s' h => (hth s' h).first⟩, fun s' h => ?_⟩
      have hP' := (hth s' h).first
      exact (ih (hl.2 s' h) (hinv s o s' hl.1 hs hP h hP') hP').1 ⟨hth s' h, hrest s' h⟩
    · rintro ⟨hc, hrest⟩
      obtain ⟨hq, hnext⟩ := (hstep s o hl.1 hs hP).1 hc
      have hall := fun s' h => (ih (hl.2 s' h) (hinv s o s' hl.1 hs hP h (hnext s' h)) (hnext s' h)).2 (hrest s' h)
      exact ⟨⟨hP, fun s' h => (hall s' h).1⟩, hq, fun s' h => (hall s' h).2⟩

/-- the same for all runs -/
theorem legalRun_iff_of_kept {P I : S → Prop} {Q C : S → O → Prop}
    (hinv : ∀ s o s', I s → P s → step s o = .ok s' → P s' → I s')
    (hstep : ∀ s o, I s → P s → (C s o ↔ Q s o ∧ ∀ s', step s o = .ok s' → P s')) (hs : I s) (hP : P s) :
    Throughout step P s ops ∧ LegalRun step Q s ops ↔ LegalRun step C s ops :=
  legalRun_iff_of_legal (fun s o s' _ hs hP h hP' => hinv s o s' hs hP h hP') (fun s o _ hs hP => hstep s o hs hP)
    (LegalRun.always fun _ _ => trivial) hs hP

/-- the same with an invariant that every step keeps -/
theorem legalRun_iff {P I : S → Prop} {Q C : S → O → Prop} (hinv : ∀ s o s', I s → step s o = .ok s' → I s')
    (hstep : ∀ s o, I s → P s → (C s o ↔ Q s o ∧ ∀ s', step s o = .ok s' → P s')) (hs : I s) (hP : P s) :
    Throughout step P s ops ∧ LegalRun step Q s ops ↔ LegalRun step C s ops :=
  legalRun_iff_of_kept (fun s o s' hs _ h _ => hinv s o s' hs h) hstep hs hP

/-- **A property of the states and one of the steps** are the same along runs, if a legal step from an invariant state
with the first leads to such a state exactly when it has the second. The invariant is kept as long as the property is. -/
theorem throughout_iff_along_of_kept {P I : S → Prop}
    (hstep : ∀ s o s', legal s o → I s → P s → step s o = .ok s' → (P s' ↔ R s o s') ∧ (P s' → I s'))
    (hl : LegalRun step legal s ops) (hs : I s) (hP : P s) : Throughout step P s ops ↔ Along step R s ops := by
  induction ops generalizing s with
  | nil => exact ⟨fun _ => trivial, fun _ => hP⟩
  | cons o ops ih =>
    constructor
    · rintro ⟨-, hth⟩ s' h
      have hP' := (hth s' h).first
      obtain ⟨hiff, hkept⟩ := hstep s o s' hl.1 hs hP h
      exact ⟨hiff.1 hP', (ih (hl.2 s' h) (hkept hP') hP').1 (hth s' h)⟩
    · intro hal
      refine ⟨hP, fun s' h => ?_⟩
      obtain ⟨hR, hrest⟩ := hal s' h
      obtain ⟨hiff, hkept⟩ := hstep s o s' hl.1 hs hP h
      exact (ih (hl.2 s' h) (hkept (hiff.2 hR)) (hiff.2 hR)).2 hrest

/-- the same with an invariant that every legal step keeps -/
theorem throughout_iff_along {P I : S → Prop}
    (hinv : ∀ s o s', legal s o → I s → step s o = .ok s' → I s')
    (hstep : ∀ s o s', legal s o → I s → P s → step s o = .ok s' → (P s' ↔ R s o s')) (hl : LegalRun step legal s ops)
    (hs : I s) (hP : P s) : Throughout step P s ops ↔ Along step R s ops :=
  throughout_iff_along_of_kept
    (fun s o s' hl hs hP h => ⟨hstep s o s' hl hs hP h, fun _ => hinv s o s' hl hs h⟩) hl hs hP

/-- the same without a precondition, for steps from invariant states with the property -/
theorem throughout_iff_along_of_inv {P I : S → Prop}
    (hstep : ∀ s o s', I s → P s → step s o = .ok s' → I s' ∧ (P s' ↔ R s o s')) (hs : I s) (hP : P s) :
    Throughout step P s ops ↔ Along step R s ops :=
  throughout_iff_along_of_kept (fun s o s' _ hs hP h => ⟨(hstep s o s' hs hP h).2, fun _ => (hstep s o s' hs hP h).1⟩)
    (LegalRun.always fun _ _ => trivial) hs hP

/-- **Error rule.** A legal run fails only as the legal steps from its states do. -/
theorem LegalRun.error {P I : S → Prop} {F : E → Prop} {e : E}
    (hstep : ∀ s o, legal s o → I s → P s → Ends F I (step s o)) (hl : LegalRun step legal s ops)
    (ht : Throughout step P s ops) (hs : I s) (hr : run step s ops = .error e) : F e := by
  induction ops generalizing s with
  | nil => cases hr
  | cons o ops ih =>
    have hends := hstep s o hl.1 hs ht.first
    rw [run_cons] at hr
    cases h : step s o with
    | error e' =>
      rw [h] at hr hends
      cases hr
      exact hends
    | ok s' =>
      rw [h] at hr hends
      exact ih (hl.2 s' h) (ht.2 s' h) hends hr

/-- **Progress rule.** If a legal step from an invariant state either succeeds and keeps the invariant or is stopped for
the cause `Stop`, then a legal run either completes in an invariant state, or it reaches an invariant state in which
its next operation is stopped for that cause. -/
theorem legal_run_cases {P : S → Prop} {legal Stop : S → O → Prop}
    (hstep : ∀ s o, P s → legal s o → (∃ s', step s o = .ok s' ∧ P s') ∨ Stop s o) (hs : P s)
    (hl : LegalRun step legal s ops) :
    (∃ t, run step s ops = .ok t ∧ P t) ∨
      ∃ pre o post t, ops = pre ++ o :: post ∧ run step s pre = .ok t ∧ P t ∧ Stop t o := by
  induction ops generalizing s with
  | nil => exact Or.inl ⟨s, rfl, hs⟩
  | cons o ops ih =>
    rcases hstep s o hs hl.1 with ⟨s', h1, h2⟩ | hstop
    · rcases ih h2 (hl.2 s' h1) with ⟨t, h3, h4⟩ | ⟨pre, o', post, t, h3, h4, h5, h6⟩
      · exact Or.inl ⟨t, run_cons_ok.2 ⟨s', h1, h3⟩, h4⟩
      · exact Or.inr ⟨o :: pre, o', post, t, by rw [h3]; rfl, run_cons_ok.2 ⟨s', h1, h4⟩, h5, h6⟩
    · exact Or.inr ⟨[], o, ops, s, rfl, rfl, hs, hstop⟩

end TouchHLE.Machine
