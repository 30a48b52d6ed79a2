/-
Two machines in step: what one does, the other does too. Nothing here names the program being modelled.

- `Alike`: two computations that both fail in the same way, or whose results are related.
- `run_alike`: machines whose steps are alike as long as a condition is met have runs that are alike.
-/
import TouchHLE.Lib.Machine

namespace TouchHLE.Machine

variable {E S S' O α α' β β' γ : Type}

/-- both fail in the same way, or both give results that are related -/
def Alike (R : α → α' → Prop) : Except E α → Except E α' → Prop
  | .ok a, .ok a' => R a a'
  | .error e, .error e' => e = e'
  | _, _ => False

variable {R : α → α' → Prop} {Q : β → β' → Prop} {x : Except E α} {x' : Except E α'}

theorem Alike.mono {R' : α → α' → Prop} (h : Alike R x x') (hR : ∀ a a', R a a' → R' a a') : Alike R' x x' := by
  cases x <;> cases x'
  case ok.ok a a' => exact hR a a' h
  all_goals exact h

/-- the same computation before -/
theorem Alike.of_eq {x : Except E γ} {f : γ → Except E β} {f' : γ → Except E β'}
    (h : ∀ c, x = .ok c → Alike Q (f c) (f' c)) :
    Alike Q (x >>= f) (x >>= f') := by
  cases x with
  | error e => exact rfl
  | ok c => exact h c rfl

/-- **Simulation rule.** -/
theorem run_alike {R : S → S' → Prop} {step : S → O → Except E S} {step' : S' → O → Except E S'} {C : S → O → Prop}
    {s : S} {s' : S'} {ops : List O} (hstep : ∀ s s' o, R s s' → C s o → Alike R (step s o) (step' s' o))
    (hl : LegalRun step C s ops)
    (h : R s s') : Alike R (run step s ops) (run step' s' ops) := by
  induction ops generalizing s s' with
  | nil => exact h
  | cons o ops ih =>
    rw [run_cons, run_cons]
    have hfirst := hstep s s' o h hl.1
    cases hs : step s o with
    | error e =>
      rw [hs] at hfirst
      cases hs' : step' s' o with
      | error e' =>
        rw [hs'] at hfirst
        exact hfirst
      | ok t' =>
        rw [hs'] at hfirst
        exact hfirst.elim
    | ok t =>
      rw [hs] at hfirst
      cases hs' : step' s' o with
      | error e' =>
        rw [hs'] at hfirst
        exact hfirst.elim
      | ok t' =>
        rw [hs'] at hfirst
        exact ih (hl.2 t hs) hfirst

end TouchHLE.Machine
