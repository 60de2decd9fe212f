import Mathlib.Data.List.Perm.Basic
import Mathlib.Data.List.TakeWhile
import Mathlib.Order.Lattice

/-!
# Maps with ordered keys

An `OrderedMap` is the list of its entries in the order of their keys, like `std::map`:
there is an entry for a key at most, and a walk from the front sees the least keys first.

## Main results

* `emplace_perm`, `erase_perm` — what comes in and what goes out.
* `not_lower_of_mem_upper` — a walk up to a bound misses nothing below it.
-/

namespace Winject.Lib

/-- The entries, in the order of their keys. -/
structure OrderedMap (κ ν : Type) [LinearOrder κ] where
  entries : List (κ × ν) := []
  sorted : entries.Pairwise fun a b => a.1 < b.1 := by exact List.Pairwise.nil

namespace OrderedMap

variable {κ ν : Type} [LinearOrder κ]

/-- The keys. -/
def keys (m : OrderedMap κ ν) : List κ := m.entries.map Prod.fst

/-! ## Coming in -/

/-- The entry at its place, unless there is one for the key. -/
def place (e : κ × ν) : List (κ × ν) → List (κ × ν)
  | [] => [e]
  | f :: fs => if e.1 < f.1 then e :: f :: fs else if e.1 = f.1 then f :: fs else f :: place e fs

theorem mem_place {e f : κ × ν} {l : List (κ × ν)} (h : f ∈ place e l) : f = e ∨ f ∈ l := by
  induction l with
  | nil => exact Or.inl (List.mem_singleton.mp h)
  | cons g gs ih =>
      rw [place] at h
      split_ifs at h
      · exact List.mem_cons.mp h
      · exact Or.inr h
      · rcases List.mem_cons.mp h with rfl | hrest
        · exact Or.inr (List.mem_cons_self ..)
        · exact (ih hrest).imp_right (List.mem_cons_of_mem g)

theorem place_sorted (e : κ × ν) {l : List (κ × ν)} (h : l.Pairwise fun a b => a.1 < b.1) :
    (place e l).Pairwise fun a b => a.1 < b.1 := by
  induction l with
  | nil => exact List.pairwise_singleton _ e
  | cons f fs ih =>
      obtain ⟨hf, hfs⟩ := List.pairwise_cons.mp h
      rw [place]
      split_ifs with hlt heq
      · refine List.pairwise_cons.mpr ⟨fun g hg => ?_, h⟩
        rcases List.mem_cons.mp hg with rfl | hg
        · exact hlt
        · exact lt_trans hlt (hf g hg)
      · exact h
      · refine List.pairwise_cons.mpr ⟨fun g hg => ?_, ih hfs⟩
        rcases mem_place hg with rfl | hg
        · exact lt_of_le_of_ne (not_lt.mp hlt) (Ne.symm heq)
        · exact hf g hg

theorem place_perm {e : κ × ν} {l : List (κ × ν)} (h : e.1 ∉ l.map Prod.fst) :
    (place e l).Perm (e :: l) := by
  induction l with
  | nil => exact List.Perm.refl _
  | cons f fs ih =>
      rw [List.map_cons, List.mem_cons, not_or] at h
      rw [place, if_neg h.1]
      split_ifs
      · exact List.Perm.refl _
      · exact ((ih h.2).cons f).trans (List.Perm.swap e f fs)

/-- `std::map::emplace`. -/
def emplace (m : OrderedMap κ ν) (k : κ) (v : ν) : OrderedMap κ ν :=
  ⟨place (k, v) m.entries, place_sorted (k, v) m.sorted⟩

/-- A new key comes in. -/
theorem emplace_perm {m : OrderedMap κ ν} {k : κ} (h : k ∉ m.keys) (v : ν) :
    (m.emplace k v).entries.Perm ((k, v) :: m.entries) := place_perm h

/-! ## Going out -/

/-- `std::map::erase`. -/
def erase (m : OrderedMap κ ν) (k : κ) : OrderedMap κ ν :=
  ⟨m.entries.filter fun e => e.1 ≠ k, m.sorted.filter _⟩

/-- What goes out are the entries for the key. -/
theorem erase_perm (m : OrderedMap κ ν) (k : κ) :
    m.entries.Perm ((m.erase k).entries ++ m.entries.filter fun e => e.1 = k) := by
  have hall := List.filter_append_perm (fun e : κ × ν => decide (e.1 ≠ k)) m.entries
  have hnot : m.entries.filter (fun e => !decide (e.1 ≠ k)) =
      m.entries.filter fun e => e.1 = k := by
    congr 1
    funext e
    simp
  rw [hnot] at hall
  exact hall.symm

/-! ## A walk from the front -/

/-- The entries up to the first that does not satisfy `p`. -/
def lower (m : OrderedMap κ ν) (p : κ → Bool) : List (κ × ν) :=
  m.entries.takeWhile fun e => p e.1

/-- The map without them. -/
def upper (m : OrderedMap κ ν) (p : κ → Bool) : OrderedMap κ ν :=
  ⟨m.entries.dropWhile fun e => p e.1, m.sorted.sublist (List.dropWhile_sublist _)⟩

theorem lower_append_upper (m : OrderedMap κ ν) (p : κ → Bool) :
    m.lower p ++ (m.upper p).entries = m.entries := List.takeWhile_append_dropWhile ..

theorem of_mem_lower {m : OrderedMap κ ν} {p : κ → Bool} {e : κ × ν} (h : e ∈ m.lower p) :
    p e.1 = true := List.mem_takeWhile_imp (p := fun e : κ × ν => p e.1) h

/-- Where `p` holds of lower keys too, the walk sees all keys of which it holds. -/
theorem not_lower_of_mem_upper {m : OrderedMap κ ν} {p : κ → Bool}
    (hp : ∀ k k', k < k' → p k' = true → p k = true) {e : κ × ν}
    (h : e ∈ (m.upper p).entries) : p e.1 = false := by
  have hsorted := (m.upper p).sorted
  cases hrest : (m.upper p).entries with
  | nil =>
      rw [hrest] at h
      cases h
  | cons f fs =>
      have hf : p f.1 = false := by
        have hhead := List.head?_dropWhile_not (fun e : κ × ν => p e.1) m.entries
        have hfirst : (m.entries.dropWhile fun e => p e.1).head? = some f := by
          rw [show m.entries.dropWhile (fun e => p e.1) = f :: fs from hrest]
          rfl
        rw [hfirst] at hhead
        exact hhead
      rw [hrest] at h hsorted
      rcases List.mem_cons.mp h with rfl | hmem
      · exact hf
      · by_contra hpe
        have hlt := (List.pairwise_cons.mp hsorted).1 e hmem
        rw [hp _ _ hlt (eq_true_of_ne_false hpe)] at hf
        cases hf

end OrderedMap

end Winject.Lib
