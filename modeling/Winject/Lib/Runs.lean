/-!
# Runs of a state machine

A machine is a function `step : σ → ε → σ`, and a run from `s` is the list of its
events.  `Steps` says something about every step of a run, with the state in
front of it; `States` says something about every state of a run, the first and
the last included.

## Main results

* `foldl_invariant` — what every step preserves, every run preserves.
* `states_of_steps` — an invariant that the steps of a run preserve holds in all
  of its states.
* `steps_of_states` — a property of states that every bad step breaks.
* `steps_iff`, `steps_iff_while`, `steps_iff_along` — two properties of steps that agree
  under an invariant.
* `throughout_of_calls`, `calls_iff`, `throughout_iff_calls` — the same for steps that
  need not have a result.
-/

namespace Winject.Lib.Runs

variable {σ ε : Type} {step : σ → ε → σ}

/-- Every step of the run meets `P`. -/
def Steps (step : σ → ε → σ) (P : σ → ε → Prop) : σ → List ε → Prop
  | _, [] => True
  | s, e :: es => P s e ∧ Steps step P (step s e) es

/-- Every state of the run satisfies `Q`. -/
def States (step : σ → ε → σ) (Q : σ → Prop) : σ → List ε → Prop
  | s, [] => Q s
  | s, e :: es => Q s ∧ States step Q (step s e) es

theorem foldl_invariant (Inv : σ → Prop) (hstep : ∀ s e, Inv s → Inv (step s e))
    (es : List ε) (s : σ) (h : Inv s) : Inv (es.foldl step s) := by
  induction es generalizing s with
  | nil => exact h
  | cons e es ih => exact ih (step s e) (hstep s e h)

/-- What holds of every event of a run holds of its steps. -/
theorem steps_of_mem {R : ε → Prop} {es : List ε} (h : ∀ e ∈ es, R e) {s : σ} :
    Steps step (fun _ e => R e) s es := by
  induction es generalizing s with
  | nil => trivial
  | cons e es ih =>
      exact ⟨h e (List.mem_cons_self ..), ih (fun f hf => h f (List.mem_cons_of_mem _ hf))⟩

theorem Steps.and {P R : σ → ε → Prop} {es : List ε} {s : σ} (h : Steps step P s es)
    (h' : Steps step R s es) : Steps step (fun s e => P s e ∧ R s e) s es := by
  induction es generalizing s with
  | nil => trivial
  | cons e es ih => exact ⟨⟨h.1, h'.1⟩, ih h.2 h'.2⟩

/-- Two runs, one behind the other. -/
theorem Steps.append {P : σ → ε → Prop} {es es' : List ε} {s : σ} (h : Steps step P s es)
    (h' : Steps step P (es.foldl step s) es') : Steps step P s (es ++ es') := by
  induction es generalizing s with
  | nil => exact h'
  | cons e es ih => exact ⟨h.1, ih h.2 h'⟩

theorem States.first {Q : σ → Prop} {s : σ} {es : List ε} (h : States step Q s es) : Q s := by
  cases es with
  | nil => exact h
  | cons e es => exact h.1

theorem States.last {Q : σ → Prop} {s : σ} {es : List ε} (h : States step Q s es) :
    Q (es.foldl step s) := by
  induction es generalizing s with
  | nil => exact h
  | cons e es ih => exact ih h.2

theorem States.mono {Q Q' : σ → Prop} (hQ : ∀ s, Q s → Q' s) {s : σ} {es : List ε}
    (h : States step Q s es) : States step Q' s es := by
  induction es generalizing s with
  | nil => exact hQ s h
  | cons e es ih => exact ⟨hQ s h.1, ih h.2⟩

/-- Two runs, one behind the other. -/
theorem States.append {Q : σ → Prop} {s : σ} {es es' : List ε} (h : States step Q s es)
    (h' : States step Q (es.foldl step s) es') : States step Q s (es ++ es') := by
  induction es generalizing s with
  | nil => exact h'
  | cons e es ih => exact ⟨h.1, ih h.2 h'⟩

/-- The steps of a run keep `Inv` when they meet `P`. -/
theorem states_of_steps {P : σ → ε → Prop} {Inv : σ → Prop}
    (hstep : ∀ s e, Inv s → P s e → Inv (step s e)) {es : List ε} {s : σ} (h : Inv s)
    (hsteps : Steps step P s es) : States step Inv s es := by
  induction es generalizing s with
  | nil => exact h
  | cons e es ih => exact ⟨h, ih (hstep s e h hsteps.1) hsteps.2⟩

/-- A step behind which `Q` holds meets `P`. -/
theorem steps_of_states {P : σ → ε → Prop} {Q : σ → Prop}
    (hstep : ∀ s e, Q (step s e) → P s e) {es : List ε} {s : σ}
    (hstates : States step Q s es) : Steps step P s es := by
  induction es generalizing s with
  | nil => trivial
  | cons e es ih => exact ⟨hstep s e hstates.2.first, ih hstates.2⟩

/-- The events of a run at which two properties agree where `Inv` holds. -/
theorem steps_iff_of_mem {P P' : σ → ε → Prop} {Inv : σ → Prop}
    (hstep : ∀ s e, Inv s → Inv (step s e)) (es : List ε)
    (hiff : ∀ s, ∀ e ∈ es, Inv s → (P s e ↔ P' s e)) {s : σ} (h : Inv s) :
    Steps step P s es ↔ Steps step P' s es := by
  induction es generalizing s with
  | nil => exact Iff.rfl
  | cons e es ih =>
      exact and_congr (hiff s e (List.mem_cons_self ..) h)
        (ih (fun t f hf => hiff t f (List.mem_cons_of_mem _ hf)) (hstep s e h))

/-- Steps that agree where `Inv` holds. -/
theorem steps_iff {P P' : σ → ε → Prop} {Inv : σ → Prop}
    (hstep : ∀ s e, Inv s → Inv (step s e)) (hiff : ∀ s e, Inv s → (P s e ↔ P' s e))
    (es : List ε) {s : σ} (h : Inv s) : Steps step P s es ↔ Steps step P' s es :=
  steps_iff_of_mem hstep es (fun s e _ => hiff s e) h

/-- Steps that agree as long as `Inv` holds, where a step that meets them keeps it. -/
theorem steps_iff_while {A P P' : σ → ε → Prop} {Inv : σ → Prop}
    (hstep : ∀ s e, Inv s → A s e → P s e → Inv (step s e))
    (hiff : ∀ s e, Inv s → A s e → (P s e ↔ P' s e)) (es : List ε) {s : σ} (h : Inv s)
    (hsteps : Steps step A s es) : Steps step P s es ↔ Steps step P' s es := by
  induction es generalizing s with
  | nil => exact Iff.rfl
  | cons e es ih =>
      have hfirst := hiff s e h hsteps.1
      constructor
      · rintro ⟨hp, hrest⟩
        exact ⟨hfirst.mp hp, (ih (hstep s e h hsteps.1 hp) hsteps.2).mp hrest⟩
      · rintro ⟨hp, hrest⟩
        have hp := hfirst.mpr hp
        exact ⟨hp, (ih (hstep s e h hsteps.1 hp) hsteps.2).mpr hrest⟩

/-- Steps that agree along a run that keeps `Inv`. -/
theorem steps_iff_along {A P P' : σ → ε → Prop} {Inv : σ → Prop}
    (hstep : ∀ s e, Inv s → A s e → Inv (step s e))
    (hiff : ∀ s e, Inv s → A s e → (P s e ↔ P' s e)) (es : List ε) {s : σ} (h : Inv s)
    (hsteps : Steps step A s es) : Steps step P s es ↔ Steps step P' s es :=
  steps_iff_while (fun s e h ha _ => hstep s e h ha) hiff es h hsteps

/-! ## Steps that need not have a result

The machine is `call : σ → ε → Option σ`; a run ends with a step that has no result. -/

section Partial

variable {call : σ → ε → Option σ}

/-- Every step of the run meets `P`. -/
def Calls (call : σ → ε → Option σ) (P : σ → ε → Prop) : σ → List ε → Prop
  | _, [] => True
  | s, e :: es => P s e ∧ ∀ s', call s e = some s' → Calls call P s' es

/-- Every state of the run satisfies `Q`. -/
def Throughout (call : σ → ε → Option σ) (Q : σ → Prop) : σ → List ε → Prop
  | s, [] => Q s
  | s, e :: es => Q s ∧ ∀ s', call s e = some s' → Throughout call Q s' es

theorem Throughout.first {Q : σ → Prop} {s : σ} {es : List ε} (h : Throughout call Q s es) :
    Q s := by
  cases es with
  | nil => exact h
  | cons e es => exact h.1

theorem Throughout.mono {Q Q' : σ → Prop} (hQ : ∀ s, Q s → Q' s) {es : List ε} {s : σ}
    (h : Throughout call Q s es) : Throughout call Q' s es := by
  induction es generalizing s with
  | nil => exact hQ s h
  | cons e es ih => exact ⟨hQ s h.1, fun s' hs' => ih (h.2 s' hs')⟩

/-- The steps of a run keep `I` when they meet `P`. -/
theorem throughout_of_calls {P : σ → ε → Prop} {I : σ → Prop}
    (hstep : ∀ s e s', I s → P s e → call s e = some s' → I s') {es : List ε} {s : σ}
    (h : I s) (hcalls : Calls call P s es) : Throughout call I s es := by
  induction es generalizing s with
  | nil => exact h
  | cons e es ih =>
      exact ⟨h, fun s' hs' => ih (hstep s e s' h hcalls.1 hs') (hcalls.2 s' hs')⟩

/-- Steps that agree where `I` holds. -/
theorem calls_iff {P R : σ → ε → Prop} {I : σ → Prop}
    (hstep : ∀ s e s', I s → call s e = some s' → I s')
    (hiff : ∀ s e, I s → (P s e ↔ R s e)) {es : List ε} {s : σ} (h : I s) :
    Calls call P s es ↔ Calls call R s es := by
  induction es generalizing s with
  | nil => exact Iff.rfl
  | cons e es ih =>
      refine and_congr (hiff s e h) ?_
      exact forall_congr' fun s' => imp_congr_right fun hs' => ih (hstep s e s' h hs')

/-- A property of states that a step keeps iff it meets `P`. -/
theorem throughout_iff_calls {P : σ → ε → Prop} {I Q : σ → Prop}
    (hstep : ∀ s e s', I s → call s e = some s' → I s')
    (hiff : ∀ s e s', I s → Q s → call s e = some s' → (Q s' ↔ P s e))
    (hnone : ∀ s e, call s e = none → P s e) {es : List ε} {s : σ} (h : I s) (hs : Q s) :
    Throughout call Q s es ↔ Calls call P s es := by
  induction es generalizing s with
  | nil => exact ⟨fun _ => trivial, fun _ => hs⟩
  | cons e es ih =>
      constructor
      · intro hall
        cases hcall : call s e with
        | none => exact ⟨hnone s e hcall, fun s' hs' => by rw [hcall] at hs'; cases hs'⟩
        | some t =>
            have hrest := hall.2 t hcall
            refine ⟨(hiff s e t h hs hcall).mp hrest.first, fun s' hs' => ?_⟩
            rw [hcall] at hs'
            cases hs'
            exact (ih (hstep s e t h hcall) hrest.first).mp hrest
      · rintro ⟨hfirst, hrest⟩
        refine ⟨hs, fun s' hs' => ?_⟩
        exact (ih (hstep s e s' h hs') ((hiff s e s' h hs hs').mpr hfirst)).mpr (hrest s' hs')

end Partial

end Winject.Lib.Runs
