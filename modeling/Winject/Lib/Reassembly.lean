import Mathlib.Algebra.Order.BigOperators.Group.Finset
import Mathlib.Algebra.BigOperators.Intervals
import Winject.Lib.Bytes

/-!
# Reassembling a cut frame from pieces received in any order

A `Cutting` is a frame with the lengths of the consecutive pieces it is sent
in.  An `Assembly` is the receiver's record for one frame: a buffer, the
number of bytes accumulated, the size announced by the last piece, and the
offsets already seen.  `Assembly.absorb` stores one piece, ignoring the
payload of a repeated offset.

`Holds c got a` says that `a` is the result of absorbing exactly the pieces
of `c` with index in `got`.  The two facts a receiver needs are

* `Holds.isComplete_iff`: the byte count test accepts exactly when every
  piece has arrived, and
* `Holds.buffer_eq`: an accepted buffer is the frame.

Nothing is asked of the cells outside the received pieces, so a buffer that
is reused without being cleared still satisfies `Holds c ∅` as long as it is
not longer than the frame.
-/

namespace Winject.Lib.Reassembly

open Winject.Lib.Bytes

variable {α : Type}

/-! ## Cuttings -/

/-- A non-empty frame and the positive lengths of its consecutive pieces. -/
structure Cutting (α : Type) where
  frame : List α
  cuts : List Nat
  frame_ne : frame ≠ []
  cut_pos : ∀ n ∈ cuts, 0 < n
  cut_sum : cuts.sum = frame.length

namespace Cutting

variable (c : Cutting α)

/-- Number of pieces. -/
def count : Nat := c.cuts.length

/-- Length of piece `j`. -/
def size (j : Nat) : Nat := c.cuts.getD j 0

/-- Position of piece `j` in the frame. -/
def offset (j : Nat) : Nat := (c.cuts.take j).sum

/-- Contents of piece `j`. -/
def piece (j : Nat) : List α := (c.frame.drop (c.offset j)).take (c.size j)

/-- Piece `j` ends the frame. -/
def isLast (j : Nat) : Bool := j + 1 == c.count

@[simp] theorem offset_zero : c.offset 0 = 0 := by simp [offset]

theorem offset_succ {j : Nat} (hj : j < c.count) :
    c.offset (j + 1) = c.offset j + c.size j := by
  have hj' : j < c.cuts.length := hj
  rw [offset, offset, size, List.take_add_one, List.getElem?_eq_getElem hj',
    List.getD_eq_getElem?_getD, List.getElem?_eq_getElem hj', List.sum_append]
  simp only [Option.toList_some, List.sum_singleton, Option.getD_some]

theorem offset_count : c.offset c.count = c.frame.length := by
  rw [offset, count, List.take_length, c.cut_sum]

theorem size_pos {j : Nat} (hj : j < c.count) : 0 < c.size j := by
  have hj' : j < c.cuts.length := hj
  have hmem : c.cuts[j] ∈ c.cuts := List.getElem_mem hj'
  have hpos := c.cut_pos _ hmem
  simpa [size, List.getD_eq_getElem?_getD, List.getElem?_eq_getElem hj'] using hpos

theorem count_pos : 0 < c.count := by
  have hlen : 0 < c.frame.length := List.length_pos_iff.mpr c.frame_ne
  rw [← c.cut_sum] at hlen
  by_contra h
  have hnil : c.cuts = [] := List.length_eq_zero_iff.mp (Nat.le_zero.mp (not_lt.mp h))
  simp [hnil] at hlen

/-- Offsets strictly increase along the pieces. -/
theorem offset_lt {i j : Nat} (hij : i < j) (hj : j ≤ c.count) :
    c.offset i < c.offset j := by
  induction j with
  | zero => omega
  | succ j ih =>
      have hsucc := c.offset_succ (j := j) (by omega)
      have hpos := c.size_pos (j := j) (by omega)
      rcases Nat.lt_succ_iff_lt_or_eq.mp hij with hlt | rfl
      · have := ih hlt (by omega)
        omega
      · omega

/-- Distinct pieces start at distinct offsets. -/
theorem offset_inj {i j : Nat} (hi : i < c.count) (hj : j < c.count)
    (h : c.offset i = c.offset j) : i = j := by
  rcases Nat.lt_trichotomy i j with hlt | heq | hgt
  · have := c.offset_lt hlt hj.le
    omega
  · exact heq
  · have := c.offset_lt hgt hi.le
    omega

theorem offset_add_size_le {j : Nat} (hj : j < c.count) :
    c.offset j + c.size j ≤ c.frame.length := by
  rw [← c.offset_succ hj, ← c.offset_count]
  rcases Nat.lt_or_ge (j + 1) c.count with hlt | hge
  · exact (c.offset_lt hlt (Nat.le_refl _)).le
  · have : j + 1 = c.count := by omega
    rw [this]

@[simp] theorem isLast_iff (j : Nat) : c.isLast j = true ↔ j + 1 = c.count := by
  simp [isLast]

/-- The last piece ends where the frame ends. -/
theorem end_of_isLast {j : Nat} (h : j + 1 = c.count) :
    c.offset j + c.size j = c.frame.length := by
  rw [← c.offset_succ (by omega), h, c.offset_count]

@[simp] theorem piece_length {j : Nat} (hj : j < c.count) :
    (c.piece j).length = c.size j := by
  have := c.offset_add_size_le hj
  simp only [piece, List.length_take, List.length_drop]
  omega

theorem piece_getElem? {j i : Nat} (hi : i < c.size j) :
    (c.piece j)[i]? = c.frame[c.offset j + i]? := by
  rw [piece, List.getElem?_take_of_lt hi, List.getElem?_drop]

/-- Every position of the frame lies in some piece. -/
theorem exists_piece {x : Nat} (hx : x < c.frame.length) :
    ∃ j, j < c.count ∧ c.offset j ≤ x ∧ x < c.offset j + c.size j := by
  -- walk down from the end of the frame to the piece that contains `x`
  have hwalk : ∀ k, k ≤ c.count → x < c.offset k →
      ∃ j, j < k ∧ c.offset j ≤ x ∧ x < c.offset j + c.size j := by
    intro k
    induction k with
    | zero => intro _ h; simp at h
    | succ k ih =>
        intro hk h
        by_cases hlow : x < c.offset k
        · obtain ⟨j, hj, hspan⟩ := ih (by omega) hlow
          exact ⟨j, by omega, hspan⟩
        · rw [c.offset_succ (by omega)] at h
          exact ⟨k, by omega, by omega, h⟩
  exact hwalk c.count (Nat.le_refl _) (by rw [c.offset_count]; exact hx)

theorem sum_size_range {k : Nat} (hk : k ≤ c.count) :
    ∑ j ∈ Finset.range k, c.size j = c.offset k := by
  induction k with
  | zero => simp
  | succ k ih =>
      rw [Finset.sum_range_succ, ih (by omega), c.offset_succ (by omega)]

/-- A set of pieces with the total length of the frame is the set of all
pieces. -/
theorem eq_range_of_sum {got : Finset Nat} (hsub : ∀ j ∈ got, j < c.count)
    (hsum : ∑ j ∈ got, c.size j = c.frame.length) :
    got = Finset.range c.count := by
  have hsubset : got ⊆ Finset.range c.count := by
    intro j hj
    exact Finset.mem_range.mpr (hsub j hj)
  have htotal := c.sum_size_range (Nat.le_refl c.count)
  rw [c.offset_count] at htotal
  by_contra hne
  obtain ⟨j, hj, hnot⟩ := Finset.exists_of_ssubset
    (Finset.ssubset_iff_subset_ne.mpr ⟨hsubset, hne⟩)
  have hlt := Finset.sum_lt_sum_of_subset hsubset hj hnot
    (c.size_pos (Finset.mem_range.mp hj)) (fun _ _ _ => Nat.zero_le _)
  omega

/-- The same cutting of a frame whose cells are relabelled. -/
def map {β : Type} (f : α → β) (c : Cutting α) : Cutting β where
  frame := c.frame.map f
  cuts := c.cuts
  frame_ne := by
    intro h
    exact c.frame_ne (List.map_eq_nil_iff.mp h)
  cut_pos := c.cut_pos
  cut_sum := by rw [List.length_map, c.cut_sum]

theorem map_piece {β : Type} (f : α → β) (j : Nat) :
    (c.map f).piece j = (c.piece j).map f := by
  show ((c.frame.map f).drop (c.offset j)).take (c.size j) = _
  rw [piece, ← List.map_drop, ← List.map_take]

/-- A piece that ends where the frame ends is the last one. -/
theorem isLast_of_end {j : Nat} (hj : j < c.count)
    (h : c.offset j + c.size j = c.frame.length) : j + 1 = c.count := by
  by_contra hne
  have hlt := c.offset_lt (i := j + 1) (j := c.count) (by omega) (Nat.le_refl _)
  rw [c.offset_succ hj, c.offset_count] at hlt
  omega

end Cutting

/-! ## Assemblies -/

/-- What a receiver keeps for one frame. -/
structure Assembly (α : Type) where
  buffer : List α
  accumulated : Nat
  expected : Option Nat
  offsets : List Nat

namespace Assembly

/-- The record of a frame of which nothing has arrived. -/
def empty : Assembly α := ⟨[], 0, none, []⟩

/-- Store one piece: grow the buffer, copy the payload unless the offset was
seen before, and note the frame size when the piece is the last one. -/
def absorb (pad : α) (a : Assembly α) (off : Nat) (payload : List α)
    (last : Bool) : Assembly α :=
  let grown := grow pad (off + payload.length) a.buffer
  let dup := a.offsets.contains off
  { buffer := if dup then grown else blit grown off payload
    accumulated := if dup then a.accumulated else a.accumulated + payload.length
    expected := if last then some (off + payload.length) else a.expected
    offsets := if dup then a.offsets else off :: a.offsets }

/-- The completion test of the receivers. -/
def isComplete (a : Assembly α) : Bool := a.expected == some a.accumulated

end Assembly

/-- `a` has absorbed exactly the pieces of `c` whose index is in `got`. -/
structure Holds (c : Cutting α) (got : Finset Nat) (a : Assembly α) : Prop where
  sub : ∀ j ∈ got, j < c.count
  offsets : ∀ o, o ∈ a.offsets ↔ ∃ j ∈ got, c.offset j = o
  accumulated : a.accumulated = ∑ j ∈ got, c.size j
  expected : a.expected =
    if c.count - 1 ∈ got then some c.frame.length else none
  cells : ∀ j ∈ got, ∀ x, c.offset j ≤ x → x < c.offset j + c.size j →
    a.buffer[x]? = c.frame[x]?
  length_le : a.buffer.length ≤ c.frame.length

namespace Holds

variable {c : Cutting α} {got : Finset Nat} {a : Assembly α}

/-- A reset record holds nothing, whatever its buffer still contains. -/
theorem of_reset (c : Cutting α) (a : Assembly α) (hoff : a.offsets = [])
    (hacc : a.accumulated = 0) (hexp : a.expected = none)
    (hlen : a.buffer.length ≤ c.frame.length) : Holds c ∅ a where
  sub := by simp
  offsets := by simp [hoff]
  accumulated := by simp [hacc]
  expected := by simp [hexp]
  cells := by simp
  length_le := hlen

theorem empty (c : Cutting α) : Holds c ∅ (Assembly.empty : Assembly α) :=
  of_reset c _ rfl rfl rfl (Nat.zero_le _)

/-- An offset has been seen exactly when its piece has been absorbed. -/
theorem offset_mem_iff (h : Holds c got a) {j : Nat} (hj : j < c.count) :
    c.offset j ∈ a.offsets ↔ j ∈ got := by
  rw [h.offsets]
  constructor
  · rintro ⟨i, hi, heq⟩
    exact c.offset_inj (h.sub i hi) hj heq ▸ hi
  · exact fun hj' => ⟨j, hj', rfl⟩

/-- Cells of the piece just copied, and of the pieces absorbed before it. -/
private theorem cells_blit (h : Holds c got a) (pad : α) {j : Nat}
    (hj : j < c.count) {i x : Nat} (hi : i ∈ insert j got)
    (hlo : c.offset i ≤ x) (hhi : x < c.offset i + c.size i) :
    (blit (grow pad (c.offset j + c.size j) a.buffer) (c.offset j)
      (c.piece j))[x]? = c.frame[x]? := by
  have hlen := c.piece_length hj
  have hfit : c.offset j + (c.piece j).length
      ≤ (grow pad (c.offset j + c.size j) a.buffer).length := by
    rw [grow_length, hlen]; omega
  by_cases hin : c.offset j ≤ x ∧ x < c.offset j + c.size j
  · rw [blit_getElem?_inside _ _ _ _ hfit hin.1 (by omega),
      c.piece_getElem? (by omega)]
    congr 1
    omega
  · -- `x` is outside the new piece, so it lies in one absorbed before
    have hne : i ≠ j := by
      rintro rfl
      exact hin ⟨hlo, hhi⟩
    have hold : i ∈ got := (Finset.mem_insert.mp hi).resolve_left hne
    have hcell := h.cells i hold x hlo hhi
    have hxlen : x < a.buffer.length := by
      have hframe : x < c.frame.length :=
        Nat.lt_of_lt_of_le hhi (c.offset_add_size_le (h.sub i hold))
      rw [List.getElem?_eq_getElem hframe] at hcell
      exact (List.getElem?_eq_some_iff.mp hcell).1
    rw [blit_getElem?_outside _ _ _ _ hfit (by omega),
      grow_getElem?_of_lt _ _ _ _ hxlen, hcell]

/-- Absorbing a piece adds it to the set of received pieces. -/
theorem absorb (h : Holds c got a) (pad : α) {j : Nat} (hj : j < c.count) :
    Holds c (insert j got)
      (a.absorb pad (c.offset j) (c.piece j) (c.isLast j)) := by
  have hlen := c.piece_length hj
  have hend := c.offset_add_size_le hj
  have hexpected : (if c.isLast j then some (c.offset j + (c.piece j).length)
      else a.expected) =
      if c.count - 1 ∈ insert j got then some c.frame.length else none := by
    by_cases hlast : j + 1 = c.count
    · have hidx : c.count - 1 = j := by omega
      rw [if_pos ((c.isLast_iff j).mpr hlast), hlen, c.end_of_isLast hlast,
        hidx, if_pos (Finset.mem_insert_self j got)]
    · have hfalse : ¬ c.isLast j = true := fun hl => hlast ((c.isLast_iff j).mp hl)
      have hne : c.count - 1 ≠ j := by omega
      rw [if_neg hfalse, h.expected]
      simp [Finset.mem_insert, hne]
  have hsub : ∀ i ∈ insert j got, i < c.count := by
    intro i hi
    rcases Finset.mem_insert.mp hi with rfl | hi
    · exact hj
    · exact h.sub i hi
  have hgrow : (grow pad (c.offset j + c.size j) a.buffer).length
      ≤ c.frame.length := by
    rw [grow_length]
    exact Nat.max_le.mpr ⟨h.length_le, hend⟩
  by_cases hmem : j ∈ got
  · -- a repeated piece: only the capacity may change
    have hseen : a.offsets.contains (c.offset j) = true := by
      rw [List.contains_iff_mem]
      exact (h.offset_mem_iff hj).mpr hmem
    have hins : insert j got = got := Finset.insert_eq_of_mem hmem
    constructor
    · exact hsub
    · simpa only [Assembly.absorb, hseen, if_true, hins] using h.offsets
    · simpa only [Assembly.absorb, hseen, if_true, hins] using h.accumulated
    · exact hexpected
    · intro i hi x hlo hhi
      rw [hins] at hi
      have hcell := h.cells i hi x hlo hhi
      have hframe : x < c.frame.length :=
        Nat.lt_of_lt_of_le hhi (c.offset_add_size_le (h.sub i hi))
      have hxlen : x < a.buffer.length := by
        rw [List.getElem?_eq_getElem hframe] at hcell
        exact (List.getElem?_eq_some_iff.mp hcell).1
      simp only [Assembly.absorb, hseen, if_true]
      rw [grow_getElem?_of_lt _ _ _ _ hxlen, hcell]
    · simpa only [Assembly.absorb, hseen, if_true, hlen] using hgrow
  · have hfresh : a.offsets.contains (c.offset j) = false := by
      rw [← Bool.not_eq_true, List.contains_iff_mem]
      exact fun hm => hmem ((h.offset_mem_iff hj).mp hm)
    constructor
    · exact hsub
    · intro o
      simp only [Assembly.absorb, hfresh, Bool.false_eq_true, if_false,
        List.mem_cons, h.offsets o, Finset.mem_insert]
      constructor
      · rintro (rfl | ⟨i, hi, heq⟩)
        · exact ⟨j, Or.inl rfl, rfl⟩
        · exact ⟨i, Or.inr hi, heq⟩
      · rintro ⟨i, rfl | hi, heq⟩
        · exact Or.inl heq.symm
        · exact Or.inr ⟨i, hi, heq⟩
    · simp only [Assembly.absorb, hfresh, Bool.false_eq_true, if_false,
        Finset.sum_insert hmem, h.accumulated, hlen]
      omega
    · exact hexpected
    · intro i hi x hlo hhi
      simp only [Assembly.absorb, hfresh, Bool.false_eq_true, if_false, hlen]
      exact h.cells_blit pad hj hi hlo hhi
    · simp only [Assembly.absorb, hfresh, Bool.false_eq_true, if_false, hlen]
      rw [blit_length _ _ _ (by rw [grow_length, hlen]; omega)]
      exact hgrow

/-- The byte count test accepts exactly when every piece has arrived. -/
theorem isComplete_iff (h : Holds c got a) :
    a.isComplete = true ↔ got = Finset.range c.count := by
  have hpos := c.count_pos
  rw [Assembly.isComplete, beq_iff_eq, h.expected, h.accumulated]
  constructor
  · intro heq
    by_cases hlast : c.count - 1 ∈ got
    · rw [if_pos hlast, Option.some.injEq] at heq
      exact c.eq_range_of_sum h.sub heq.symm
    · rw [if_neg hlast] at heq
      cases heq
  · intro hgot
    have hlast : c.count - 1 ∈ got := by
      rw [hgot]; exact Finset.mem_range.mpr (by omega)
    rw [if_pos hlast, hgot, c.sum_size_range (Nat.le_refl _), c.offset_count]

/-- An accepted buffer is the frame. -/
theorem buffer_eq (h : Holds c got a) (hc : a.isComplete = true) :
    a.buffer = c.frame := by
  have hgot := h.isComplete_iff.mp hc
  apply List.ext_getElem?
  intro x
  by_cases hx : x < c.frame.length
  · obtain ⟨j, hj, hlo, hhi⟩ := c.exists_piece hx
    exact h.cells j (by rw [hgot]; exact Finset.mem_range.mpr hj) x hlo hhi
  · have hle := h.length_le
    rw [List.getElem?_eq_none (by omega), List.getElem?_eq_none (by omega)]

end Holds

end Winject.Lib.Reassembly
