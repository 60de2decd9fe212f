import Mathlib.Algebra.BigOperators.Intervals
import Mathlib.Algebra.Order.BigOperators.Group.List

/-!
# Consecutive intervals

An interval is a start and a length.  `Consecutive a l b` says that the intervals `l`
follow each other without a gap, from `a` to `b`; `Ordered l` says that each of them ends
before the next begins, with gaps allowed.

## Main results

* `Consecutive.append` — two rows of intervals, one behind the other.
* `Consecutive.mem` — each interval lies between the ends.
* `Consecutive.sum` — the lengths add up to the distance of the ends.
* `Consecutive.ordered` — consecutive intervals are disjoint and in order.
* `Ordered.snoc` — a further interval behind the others.
-/

namespace Winject.Lib.Intervals

/-- The intervals follow each other from `a` to `b`. -/
def Consecutive (a : Nat) : List (Nat × Nat) → Nat → Prop
  | [], b => a = b
  | i :: l, b => i.1 = a ∧ Consecutive (a + i.2) l b

/-- Each interval ends before the later ones begin. -/
def Ordered (l : List (Nat × Nat)) : Prop := l.Pairwise (fun i j => i.1 + i.2 ≤ j.1)

variable {a b c : Nat} {l l' : List (Nat × Nat)}

theorem Consecutive.append (h : Consecutive a l b) (h' : Consecutive b l' c) :
    Consecutive a (l ++ l') c := by
  induction l generalizing a with
  | nil =>
      have hab : a = b := h
      rwa [hab]
  | cons i l ih => exact ⟨h.1, ih h.2⟩

/-- A further interval. -/
theorem Consecutive.snoc (h : Consecutive a l b) (n : Nat) :
    Consecutive a (l ++ [(b, n)]) (b + n) :=
  h.append ⟨rfl, rfl⟩

theorem Consecutive.le (h : Consecutive a l b) : a ≤ b := by
  induction l generalizing a with
  | nil => exact Nat.le_of_eq h
  | cons i l ih => exact Nat.le_trans (Nat.le_add_right ..) (ih h.2)

theorem Consecutive.mem (h : Consecutive a l b) {i : Nat × Nat} (hi : i ∈ l) :
    a ≤ i.1 ∧ i.1 + i.2 ≤ b := by
  induction l generalizing a with
  | nil => cases hi
  | cons j l ih =>
      cases hi with
      | head => exact ⟨h.1.ge, h.1 ▸ h.2.le⟩
      | tail _ hi =>
          have hbounds := ih h.2 hi
          omega

theorem Consecutive.sum (h : Consecutive a l b) : a + (l.map Prod.snd).sum = b := by
  induction l generalizing a with
  | nil => simpa [Consecutive] using h
  | cons i l ih =>
      rw [List.map_cons, List.sum_cons, ← Nat.add_assoc]
      exact ih h.2

theorem Consecutive.ordered (h : Consecutive a l b) : Ordered l := by
  induction l generalizing a with
  | nil => exact List.Pairwise.nil
  | cons i l ih =>
      refine List.Pairwise.cons (fun j hj => ?_) (ih h.2)
      have hbounds := h.2.mem hj
      rw [h.1]
      exact hbounds.1

/-- A further interval behind the others. -/
theorem Ordered.snoc (h : Ordered l) (hend : ∀ i ∈ l, i.1 + i.2 ≤ a) (n : Nat) :
    Ordered (l ++ [(a, n)]) := by
  refine List.pairwise_append.mpr ⟨h, List.pairwise_singleton .., fun i hi j hj => ?_⟩
  rw [List.mem_singleton.mp hj]
  exact hend i hi

end Winject.Lib.Intervals
