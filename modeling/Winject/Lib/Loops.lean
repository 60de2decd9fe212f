/-!
# Loops

A loop is a function `step : σ → Option σ` that is iterated until it answers
`none`.  `Visits` are the states at the start of an iteration, and `Ends` says that
the loop is left after finitely many of them.

## Main results

* `ends_of_measure` — a loop ends when every iteration lowers a measure.
* `ends_of_stages` — a loop ends when its iterations go through finitely many stages.
* `not_ends_of_trap` — a loop that comes into a set of states which no iteration
  leaves does not end.
* `progresses_iff` — a loop whose iterations lower a measure need not be shown to end.
-/

namespace Winject.Lib.Loops

variable {σ τ : Type} {step : σ → Option σ}

/-- The states at the start of an iteration of the loop from `s` on. -/
inductive Visits (step : σ → Option σ) (s : σ) : σ → Prop
  | start : Visits step s s
  | next {t t' : σ} : Visits step s t → step t = some t' → Visits step s t'

/-- The loop is left. -/
def Ends (step : σ → Option σ) (s : σ) : Prop := ∃ t, Visits step s t ∧ step t = none

theorem Visits.trans {s t u : σ} (hst : Visits step s t) (htu : Visits step t u) :
    Visits step s u := by
  induction htu with
  | start => exact hst
  | next _ hstep ih => exact ih.next hstep

/-- The first iteration comes first. -/
theorem Visits.head {s s' t : σ} (hstep : step s = some s') (h : Visits step s' t) :
    Visits step s t :=
  (Visits.start.next hstep).trans h

theorem Visits.cases_head {s t : σ} (h : Visits step s t) :
    t = s ∨ ∃ s', step s = some s' ∧ Visits step s' t := by
  induction h with
  | start => exact Or.inl rfl
  | next hvisit hstep ih =>
      right
      rcases ih with rfl | ⟨s', hs', hvisit'⟩
      · exact ⟨_, hstep, Visits.start⟩
      · exact ⟨s', hs', hvisit'.next hstep⟩

/-- Of two visited states, the loop comes to one from the other. -/
theorem Visits.linear {s t u : σ} (ht : Visits step s t) (hu : Visits step s u) :
    Visits step t u ∨ Visits step u t := by
  induction hu with
  | start => exact Or.inr ht
  | next hvisit hstep ih =>
      rcases ih with htu | hut
      · exact Or.inl (htu.next hstep)
      · rcases hut.cases_head with rfl | ⟨s', hs', hvisit'⟩
        · exact Or.inl (Visits.start.next hstep)
        · rw [hstep] at hs'
          cases hs'
          exact Or.inr hvisit'

/-- What the first state satisfies and every iteration keeps. -/
theorem Visits.invariant {P : σ → Prop} (hstep : ∀ t t', P t → step t = some t' → P t')
    {s t : σ} (h : Visits step s t) (hs : P s) : P t := by
  induction h with
  | start => exact hs
  | next _ hs' ih => exact hstep _ _ ih hs'

/-- A loop whose iterations all lower a measure. -/
theorem ends_of_measure (m : σ → Nat) {s : σ}
    (h : ∀ t t', Visits step s t → step t = some t' → m t' < m t) : Ends step s := by
  induction hm : m s using Nat.strongRecOn generalizing s with
  | _ n ih =>
      cases hs : step s with
      | none => exact ⟨s, Visits.start, hs⟩
      | some s' =>
          have hlt : m s' < n := hm ▸ h s s' Visits.start hs
          obtain ⟨t, hvisit, hnone⟩ :=
            ih (m s') hlt (fun t t' ht => h t t' (ht.head hs)) rfl
          exact ⟨t, hvisit.head hs, hnone⟩

/-- A loop that goes through stages and is left at the `n`-th. -/
theorem ends_of_stages {P : Nat → σ → Prop} (n : Nat)
    (hstep : ∀ k t t', P k t → step t = some t' → P (k + 1) t')
    (hlast : ∀ t, P n t → step t = none) {s : σ} (hs : P 0 s) : Ends step s := by
  suffices h : ∀ m k t, k + m = n → P k t → Ends step t from h n 0 s (Nat.zero_add n) hs
  intro m
  induction m with
  | zero =>
      intro k t hk ht
      exact ⟨t, Visits.start, hlast t (hk ▸ ht)⟩
  | succ m ih =>
      intro k t hk ht
      cases hnext : step t with
      | none => exact ⟨t, Visits.start, hnext⟩
      | some t' =>
          obtain ⟨u, hvisit, hnone⟩ := ih (k + 1) t' (by omega) (hstep k t t' ht hnext)
          exact ⟨u, hvisit.head hnext, hnone⟩

/-- A loop that comes to a state from which no iteration leaves `P`. -/
theorem not_ends_of_trap {P : σ → Prop} (hP : ∀ t, P t → ∃ t', step t = some t' ∧ P t')
    {s t : σ} (hvisit : Visits step s t) (ht : P t) : ¬ Ends step s := by
  rintro ⟨u, hu, hnone⟩
  have hin : P u := by
    rcases hvisit.linear hu with htu | hut
    · refine htu.invariant (fun v v' hv hstep => ?_) ht
      obtain ⟨v'', hv'', hP''⟩ := hP v hv
      rw [hstep] at hv''
      cases hv''
      exact hP''
    · rcases hut.cases_head with rfl | ⟨s', hs', -⟩
      · exact ht
      · rw [hnone] at hs'
        cases hs'
  obtain ⟨u', hu', -⟩ := hP u hin
  rw [hnone] at hu'
  cases hu'

/-! ## Progress -/

/-- The loop is left, and every iteration that does not leave it lowers the measure. -/
def Progresses (step : σ → Option σ) (m : σ → Nat) (s : σ) : Prop :=
  Ends step s ∧ ∀ t t', Visits step s t → step t = some t' → m t' < m t

/-- That the loop is left follows from the rest. -/
theorem progresses_iff {m : σ → Nat} {s : σ} :
    Progresses step m s ↔ ∀ t t', Visits step s t → step t = some t' → m t' < m t :=
  ⟨fun h => h.2, fun h => ⟨ends_of_measure m h, h⟩⟩

theorem progresses_of_none {m : σ → Nat} {s : σ} (h : step s = none) :
    Progresses step m s := by
  rw [progresses_iff]
  intro t t' hvisit hstep
  rcases hvisit.cases_head with rfl | ⟨s', hs', -⟩
  · rw [h] at hstep
    cases hstep
  · rw [h] at hs'
    cases hs'

theorem progresses_of_some {m : σ → Nat} {s s' : σ} (h : step s = some s') :
    Progresses step m s ↔ m s' < m s ∧ Progresses step m s' := by
  rw [progresses_iff, progresses_iff]
  constructor
  · intro hall
    exact ⟨hall s s' Visits.start h, fun t t' hvisit => hall t t' (hvisit.head h)⟩
  · rintro ⟨hfirst, hall⟩ t t' hvisit hstep
    rcases hvisit.cases_head with rfl | ⟨s'', hs'', hvisit'⟩
    · rw [h] at hstep
      cases hstep
      exact hfirst
    · rw [h] at hs''
      cases hs''
      exact hall t t' hvisit' hstep

end Winject.Lib.Loops
