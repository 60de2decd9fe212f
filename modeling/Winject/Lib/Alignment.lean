import Mathlib.Data.List.Basic
import Mathlib.Order.Interval.Finset.Nat

/-!
# Aligned layouts

`alignUp a n` is the first multiple of `a` from `n` on.  `places` puts fields behind each
other, each at the first place that suits its alignment.

A layout may be computed from an absolute position `c` with the sizes and alignments that
a machine has, and be meant from an offset `n` with the ones that a format states.
`Moved` says that the first is the second, moved by the base.

## Main results

* `alignUp_eq_iff` — the only multiple in reach.
* `alignUp_add_iff` — when a base does not disturb the alignment.
* `moved_cons` — two layouts compared field by field.
-/

namespace Winject.Lib.Alignment

/-! ## Rounding up -/

/-- The first multiple of `a` from `n` on. -/
def alignUp (a n : Nat) : Nat := n + (a - n % a) % a

theorem le_alignUp (a n : Nat) : n ≤ alignUp a n := Nat.le_add_right _ _

theorem alignUp_lt {a : Nat} (ha : 0 < a) (n : Nat) : alignUp a n < n + a :=
  Nat.add_lt_add_left (Nat.mod_lt _ ha) n

theorem dvd_alignUp {a : Nat} (ha : 0 < a) (n : Nat) : a ∣ alignUp a n := by
  have hmod := Nat.mod_lt n ha
  apply Nat.dvd_of_mod_eq_zero
  by_cases hzero : n % a = 0
  · rw [alignUp, hzero, Nat.sub_zero, Nat.mod_self, Nat.add_zero, hzero]
  · rw [alignUp, Nat.mod_eq_of_lt (show a - n % a < a by omega), Nat.add_mod,
      Nat.mod_eq_of_lt (show a - n % a < a by omega),
      show n % a + (a - n % a) = a by omega, Nat.mod_self]

/-- The only multiple within `a` places. -/
theorem alignUp_eq_iff {a : Nat} (ha : 0 < a) {n m : Nat} :
    alignUp a n = m ↔ n ≤ m ∧ m < n + a ∧ a ∣ m := by
  constructor
  · rintro rfl
    exact ⟨le_alignUp a n, alignUp_lt ha n, dvd_alignUp ha n⟩
  · rintro ⟨hle, hlt, hdvd⟩
    have hmod : alignUp a n % a = m % a := by
      rw [Nat.mod_eq_zero_of_dvd (dvd_alignUp ha n), Nat.mod_eq_zero_of_dvd hdvd]
    exact Nat.mod_injOn_Ico n a
      (Finset.mem_coe.mpr (Finset.mem_Ico.mpr ⟨le_alignUp a n, alignUp_lt ha n⟩))
      (Finset.mem_coe.mpr (Finset.mem_Ico.mpr ⟨hle, hlt⟩)) hmod

theorem alignUp_of_dvd {a n : Nat} (ha : 0 < a) (h : a ∣ n) : alignUp a n = n :=
  (alignUp_eq_iff ha).mpr ⟨Nat.le_refl n, Nat.lt_add_of_pos_right ha, h⟩

/-- **Rounding behind a base** is rounding by itself iff the base is aligned. -/
theorem alignUp_add_iff {a : Nat} (ha : 0 < a) (b n : Nat) :
    alignUp a (b + n) = b + alignUp a n ↔ a ∣ b := by
  have hle := le_alignUp a n
  have hlt := alignUp_lt ha n
  rw [alignUp_eq_iff ha, Nat.dvd_add_left (dvd_alignUp ha n)]
  constructor
  · rintro ⟨-, -, h⟩
    exact h
  · intro h
    exact ⟨by omega, by omega, h⟩

/-! ## Layouts -/

/-- What a field takes. -/
structure Shape where
  size : Nat
  align : Nat
  deriving DecidableEq, Repr

variable {φ : Type}

/-- Where the fields are from `n` on. -/
def places (shape : φ → Shape) (n : Nat) : List φ → List (φ × Nat)
  | [] => []
  | f :: fs =>
      let offset := alignUp (shape f).align n
      (f, offset) :: places shape (offset + (shape f).size) fs

/-- Where the fields end. -/
def placesEnd (shape : φ → Shape) (n : Nat) : List φ → Nat
  | [] => n
  | f :: fs => placesEnd shape (alignUp (shape f).align n + (shape f).size) fs

theorem placesEnd_append (shape : φ → Shape) (n : Nat) (fs gs : List φ) :
    placesEnd shape n (fs ++ gs) = placesEnd shape (placesEnd shape n fs) gs := by
  induction fs generalizing n with
  | nil => rfl
  | cons f fs ih => exact ih _

theorem places_append (shape : φ → Shape) (n : Nat) (fs gs : List φ) :
    places shape n (fs ++ gs) = places shape n fs ++ places shape (placesEnd shape n fs) gs := by
  induction fs generalizing n with
  | nil => rfl
  | cons f fs ih => exact congrArg (List.cons _) (ih _)

theorem placesEnd_le {shape : φ → Shape} {k : Nat}
    (h : ∀ f, 0 < (shape f).align ∧ (shape f).align + (shape f).size ≤ k) (n : Nat)
    (fs : List φ) : placesEnd shape n fs ≤ n + k * fs.length := by
  induction fs generalizing n with
  | nil => exact Nat.le_refl n
  | cons f fs ih =>
      have hrest := ih (alignUp (shape f).align n + (shape f).size)
      have hlt := alignUp_lt (h f).1 n
      have hk := (h f).2
      rw [List.length_cons, Nat.mul_succ]
      show placesEnd shape _ fs ≤ _
      omega

theorem le_placesEnd (shape : φ → Shape) (n : Nat) (fs : List φ) : n ≤ placesEnd shape n fs := by
  induction fs generalizing n with
  | nil => exact Nat.le_refl n
  | cons f fs ih =>
      have hrest := ih (alignUp (shape f).align n + (shape f).size)
      have hle := le_alignUp (shape f).align n
      show n ≤ placesEnd shape _ fs
      omega

/-! ## Two layouts of the same fields -/

/-- The layout from `c` on is the stated one from `n` on, moved by `base`. -/
def Moved (shape stated : φ → Shape) (base c n : Nat) (fs : List φ) : Prop :=
  places shape c fs = (places stated n fs).map (fun (f, offset) => (f, base + offset)) ∧
    placesEnd shape c fs = base + placesEnd stated n fs

variable {shape stated : φ → Shape} {base c n : Nat}

theorem moved_nil : Moved shape stated base c n [] ↔ c = base + n :=
  ⟨fun h => h.2, fun h => ⟨rfl, h⟩⟩

/-- **Field by field.** -/
theorem moved_cons {f : φ} {fs : List φ} :
    Moved shape stated base c n (f :: fs) ↔
      alignUp (shape f).align c = base + alignUp (stated f).align n ∧
        Moved shape stated base (alignUp (shape f).align c + (shape f).size)
          (alignUp (stated f).align n + (stated f).size) fs := by
  simp [Moved, places, placesEnd, and_assoc]

end Winject.Lib.Alignment
