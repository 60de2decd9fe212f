import Mathlib.Data.List.Perm.Basic
import Mathlib.Data.List.Nodup
import Mathlib.Data.List.Range

/-!
# Ledgers of numbered items, and rings of slots

Items are numbered from 0 in the order they come in.  An item is open, under a
key that no other open item has, or it is settled.  `Ledger` says that the open
entries, the settled numbers and the set of keys that are taken fit together;
every item is then in exactly one place.

A ring of slots is a list, and the slots in use are those that satisfy a
predicate: `filter_set_add` and `filter_set_remove` say what happens to them when
a slot is written.

## Main results

* `Ledger.enter`, `Ledger.settle`, `Ledger.reorder` — the three things that can
  happen to a ledger.
* `Ledger.count_key` — a key is taken iff exactly one open item has it.
-/

namespace Winject.Lib

/-! ## Slots in use -/

section Slots

variable {α : Type} {p : α → Bool} {l : List α} {i : Nat} {a : α}

/-- A free slot is taken into use. -/
theorem filter_set_add (h : i < l.length) (hold : p l[i] = false) (hnew : p a = true) :
    ((l.set i a).filter p).Perm (a :: l.filter p) := by
  have hset := (List.set_perm_cons_eraseIdx h a).filter p
  have hget := (List.getElem_cons_eraseIdx_perm h).filter p
  rw [List.filter_cons_of_pos hnew] at hset
  rw [List.filter_cons_of_neg (by rw [hold]; exact Bool.false_ne_true)] at hget
  exact hset.trans (hget.cons a)

/-- A slot in use is freed. -/
theorem filter_set_remove (h : i < l.length) (hold : p l[i] = true) (hnew : p a = false) :
    (l.filter p).Perm (l[i] :: (l.set i a).filter p) := by
  have hset := (List.set_perm_cons_eraseIdx h a).filter p
  have hget := (List.getElem_cons_eraseIdx_perm h).filter p
  rw [List.filter_cons_of_neg (by rw [hnew]; exact Bool.false_ne_true)] at hset
  rw [List.filter_cons_of_pos hold] at hget
  exact hget.symm.trans (hset.symm.cons _)

end Slots

/-! ## Ledgers -/

/-- The open entries, the settled numbers and the taken keys of `count` items. -/
structure Ledger {κ : Type} (entries : List (κ × Nat)) (settled : List Nat) (taken : κ → Prop)
    (count : Nat) : Prop where
  keys : (entries.map Prod.fst).Nodup
  taken_iff : ∀ k, taken k ↔ k ∈ entries.map Prod.fst
  items : (entries.map Prod.snd ++ settled).Perm (List.range count)

namespace Ledger

variable {κ : Type} {entries entries' : List (κ × Nat)} {settled settled' : List Nat}
variable {taken taken' : κ → Prop} {count : Nat}

theorem nil (h : ∀ k, ¬ taken k) : Ledger ([] : List (κ × Nat)) [] taken 0 where
  keys := List.nodup_nil
  taken_iff k := ⟨fun hk => absurd hk (h k), fun hk => (List.not_mem_nil hk).elim⟩
  items := List.Perm.refl _

/-- Entries change places. -/
theorem reorder (h : Ledger entries settled taken count) (hperm : entries.Perm entries')
    (htaken : ∀ k, taken' k ↔ taken k) : Ledger entries' settled taken' count where
  keys := (hperm.map Prod.fst).nodup_iff.mp h.keys
  taken_iff k := by rw [htaken, h.taken_iff, (hperm.map Prod.fst).mem_iff]
  items := ((hperm.map Prod.snd).symm.append_right settled).trans h.items

/-- The next item is entered under a key that is free. -/
theorem enter {k : κ} (h : Ledger entries settled taken count) (hfree : ¬ taken k)
    (htaken : ∀ x, taken' x ↔ x = k ∨ taken x) :
    Ledger ((k, count) :: entries) settled taken' (count + 1) where
  keys := by
    rw [List.map_cons, List.nodup_cons]
    exact ⟨fun hmem => hfree ((h.taken_iff k).mpr hmem), h.keys⟩
  taken_iff x := by rw [htaken, h.taken_iff, List.map_cons, List.mem_cons]
  items := by
    rw [List.range_succ]
    exact (h.items.cons count).trans (List.perm_append_singleton count _).symm

/-- An entry is closed and its item settled. -/
theorem settle {k : κ} {n : Nat} (h : Ledger ((k, n) :: entries) settled taken count)
    (hsettled : settled'.Perm (n :: settled))
    (htaken : ∀ x, taken' x ↔ x ≠ k ∧ taken x) : Ledger entries settled' taken' count where
  keys := (List.nodup_cons.mp h.keys).2
  taken_iff x := by
    have hnot := (List.nodup_cons.mp h.keys).1
    rw [htaken, h.taken_iff, List.map_cons, List.mem_cons]
    constructor
    · rintro ⟨hne, heq | hmem⟩
      · exact absurd heq hne
      · exact hmem
    · intro hmem
      refine ⟨?_, Or.inr hmem⟩
      rintro rfl
      exact hnot hmem
  items := by
    have hmove : (entries.map Prod.snd ++ settled').Perm
        (n :: (entries.map Prod.snd ++ settled)) :=
      (hsettled.append_left _).trans List.perm_middle
    exact hmove.trans h.items

/-- No other entry has the key of the first. -/
theorem key_ne {k : κ} {n : Nat} (h : Ledger ((k, n) :: entries) settled taken count)
    {e : κ × Nat} (he : e ∈ entries) : e.1 ≠ k := by
  intro heq
  have hmem : e.1 ∈ entries.map Prod.fst := List.mem_map_of_mem he
  rw [heq] at hmem
  exact (List.nodup_cons.mp h.keys).1 hmem

/-- A key is taken iff exactly one open item has it. -/
theorem count_key [DecidableEq κ] (h : Ledger entries settled taken count) (k : κ) :
    taken k ↔ (entries.map Prod.fst).count k = 1 := by
  rw [h.taken_iff]
  constructor
  · exact List.count_eq_one_of_mem h.keys
  · intro hone
    exact List.count_pos_iff.mp (by rw [hone]; decide)

end Ledger

end Winject.Lib
