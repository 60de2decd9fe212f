import Winject.Lib.Reassembly

/-!
# Cutting a queue of frames into a stream of pieces

A transmitter walks through a queue of frames and emits consecutive pieces:
its position is a pair `(k, off)`, meaning that frames `0 .. k - 1` have been
sent in full and frame `k` up to byte `off`.  `Emits frames pos ps pos'` says
that the pieces `ps` are what lies between two positions.

`cutsOf ps i` collects the lengths of the pieces of frame `i`.  For a stream
that starts at the beginning, those lengths cut the frame: `cutting` turns
them into a `Reassembly.Cutting` (a frame that has not been sent in full gets
one more, unsent, piece), `piece_mem_cutting` finds every emitted piece in it,
and `mem_of_piece` says that every piece of a finished frame was emitted.
-/

namespace Winject.Lib.Segmentation

open Winject.Lib.Reassembly

variable {α : Type}

/-- `len` bytes of frame `frame` from position `offset` on. -/
structure Piece where
  frame : Nat
  offset : Nat
  len : Nat
  deriving DecidableEq, Repr

/-- The bytes of a piece. -/
def Piece.bytes (frames : List (List α)) (p : Piece) : List α :=
  ((frames.getD p.frame []).drop p.offset).take p.len

/-- The piece reaches the end of its frame. -/
def Piece.isLast (frames : List (List α)) (p : Piece) : Bool :=
  p.offset + p.len == (frames.getD p.frame []).length

/-- The position behind a piece. -/
def Piece.next (frames : List (List α)) (p : Piece) : Nat × Nat :=
  if p.isLast frames then (p.frame + 1, 0) else (p.frame, p.offset + p.len)

/-- `ps` are the consecutive pieces from one position to another. -/
inductive Emits (frames : List (List α)) (pos : Nat × Nat) :
    List Piece → Nat × Nat → Prop
  | nil : Emits frames pos [] pos
  | snoc {ps : List Piece} {k off n : Nat}
      (h : Emits frames pos ps (k, off)) (hk : k < frames.length) (hn : 0 < n)
      (hle : off + n ≤ (frames.getD k []).length) :
      Emits frames pos (ps ++ [⟨k, off, n⟩]) (Piece.next frames ⟨k, off, n⟩)

namespace Emits

variable {frames : List (List α)} {pos pos' pos'' : Nat × Nat} {ps qs : List Piece}

/-- One piece. -/
theorem single {k off n : Nat} (hk : k < frames.length) (hn : 0 < n)
    (hle : off + n ≤ (frames.getD k []).length) :
    Emits frames (k, off) [⟨k, off, n⟩] (Piece.next frames ⟨k, off, n⟩) :=
  snoc nil hk hn hle

/-- Streams compose. -/
theorem append (h : Emits frames pos ps pos') (h' : Emits frames pos' qs pos'') :
    Emits frames pos (ps ++ qs) pos'' := by
  induction h' with
  | nil => simpa using h
  | snoc _ hk hn hle ih =>
      rw [← List.append_assoc]
      exact snoc ih hk hn hle

/-- No pieces, no movement. -/
theorem eq_of_nil (h : Emits frames pos ps pos') (hps : ps = []) : pos = pos' := by
  cases h with
  | nil => rfl
  | snoc => simp at hps

/-- A stream can be cut anywhere. -/
theorem split (h : Emits frames pos ps pos') :
    ∀ qs rs, ps = qs ++ rs →
      ∃ mid, Emits frames pos qs mid ∧ Emits frames mid rs pos' := by
  induction h with
  | nil =>
      intro qs rs heq
      obtain ⟨rfl, rfl⟩ := List.append_eq_nil_iff.mp heq.symm
      exact ⟨pos, nil, nil⟩
  | @snoc ps k off n h hk hn hle ih =>
      intro qs rs heq
      rcases List.eq_nil_or_concat' rs with rfl | ⟨rs', p, rfl⟩
      · rw [List.append_nil] at heq
        subst heq
        exact ⟨_, snoc h hk hn hle, nil⟩
      · rw [← List.append_assoc] at heq
        obtain ⟨hps, hp⟩ := List.append_inj' heq rfl
        obtain rfl := (List.singleton_inj.mp hp).symm
        obtain ⟨mid, hqs, hrs⟩ := ih qs rs' hps
        exact ⟨mid, hqs, snoc hrs hk hn hle⟩

/-- The first piece starts where the emission starts. -/
theorem head (h : Emits frames pos ps pos') {p : Piece} {qs : List Piece}
    (hps : ps = p :: qs) : (p.frame, p.offset) = pos := by
  induction h generalizing qs with
  | nil => cases hps
  | @snoc ps k off n h hk hn hle ih =>
      cases ps with
      | nil =>
          have hstart := h.eq_of_nil rfl
          rw [List.nil_append, List.cons.injEq] at hps
          rw [← hps.1, hstart]
      | cons r rs =>
          rw [List.cons_append, List.cons.injEq] at hps
          rw [hps.1] at ih
          exact ih rfl

/-- Pushing frames at the end of the queue changes nothing that has been
emitted. -/
theorem push (h : Emits frames pos ps pos') (fs : List (List α)) :
    Emits (frames ++ fs) pos ps pos' := by
  induction h with
  | nil => exact nil
  | @snoc ps k off n h hk hn hle ih =>
      have hget : (frames ++ fs).getD k [] = frames.getD k [] := by
        simp [List.getD_eq_getElem?_getD, List.getElem?_append_left hk]
      have hnext : Piece.next (frames ++ fs) ⟨k, off, n⟩ =
          Piece.next frames ⟨k, off, n⟩ := by
        unfold Piece.next Piece.isLast
        rw [hget]
      rw [← hnext]
      exact snoc ih (by simp; omega) hn (by rw [hget]; exact hle)

/-- Every emitted piece lies inside a frame of the queue and is not empty. -/
theorem mem_bounds (h : Emits frames pos ps pos') {p : Piece} (hp : p ∈ ps) :
    p.frame < frames.length ∧ 0 < p.len ∧
      p.offset + p.len ≤ (frames.getD p.frame []).length := by
  induction h with
  | nil => simp at hp
  | @snoc ps k off n h hk hn hle ih =>
      rcases List.mem_append.mp hp with hold | hnew
      · exact ih hold
      · obtain rfl := List.mem_singleton.mp hnew
        exact ⟨hk, hn, hle⟩

/-- Positions only move forward. -/
theorem pos_le (h : Emits frames pos ps pos') : pos.1 ≤ pos'.1 := by
  induction h with
  | nil => exact Nat.le_refl _
  | @snoc ps k off n h hk hn hle ih =>
      have : k ≤ (Piece.next frames ⟨k, off, n⟩).1 := by
        unfold Piece.next
        split <;> simp
      omega

/-- Every piece belongs to a frame between the two positions. -/
theorem mem_frame (h : Emits frames pos ps pos') {p : Piece} (hp : p ∈ ps) :
    pos.1 ≤ p.frame ∧ p.frame ≤ pos'.1 := by
  induction h with
  | nil => simp at hp
  | @snoc ps k off n h hk hn hle ih =>
      have hnext : k ≤ (Piece.next frames ⟨k, off, n⟩).1 := by
        unfold Piece.next
        split <;> simp
      rcases List.mem_append.mp hp with hold | hnew
      · have := ih hold
        dsimp only at this
        omega
      · obtain rfl := List.mem_singleton.mp hnew
        exact ⟨h.pos_le, hnext⟩

/-- Every piece lies before the position reached. -/
theorem mem_before (h : Emits frames pos ps pos') {p : Piece} (hp : p ∈ ps) :
    p.frame < pos'.1 ∨ p.frame = pos'.1 ∧ p.offset + p.len ≤ pos'.2 := by
  induction h with
  | nil => simp at hp
  | @snoc ps k off n h hk hn hle ih =>
      unfold Piece.next
      rcases List.mem_append.mp hp with hold | hnew
      · have hbefore := ih hold
        dsimp only at hbefore
        split <;> dsimp only <;> omega
      · obtain rfl := List.mem_singleton.mp hnew
        split <;> dsimp only <;> omega

/-- A frame whose last piece was emitted lies behind the position. -/
theorem last_mem_lt (h : Emits frames pos ps pos') {p : Piece} (hp : p ∈ ps)
    (hlast : p.isLast frames = true) : p.frame < pos'.1 := by
  induction h with
  | nil => simp at hp
  | @snoc ps k off n h hk hn hle ih =>
      have hnext : k ≤ (Piece.next frames ⟨k, off, n⟩).1 := by
        unfold Piece.next
        split <;> simp
      rcases List.mem_append.mp hp with hold | hnew
      · have hlt := ih hold
        dsimp only at hlt
        omega
      · obtain rfl := List.mem_singleton.mp hnew
        unfold Piece.next
        rw [if_pos hlast]
        exact Nat.lt_succ_self k

/-- A stream of `n` pieces reaches at most `n` frames ahead. -/
theorem pos_le_add (h : Emits frames pos ps pos') : pos'.1 ≤ pos.1 + ps.length := by
  induction h with
  | nil => exact Nat.le_refl _
  | @snoc ps k off n h hk hn hle ih =>
      dsimp only at ih
      unfold Piece.next
      rw [List.length_append, List.length_singleton]
      split <;> dsimp only <;> omega

end Emits

/-! ## The cutting of each frame -/

/-- The lengths of the pieces of frame `i`, in order. -/
def cutsOf (ps : List Piece) (i : Nat) : List Nat :=
  (ps.filter (fun p => p.frame == i)).map Piece.len

@[simp] theorem cutsOf_nil (i : Nat) : cutsOf [] i = [] := rfl

theorem cutsOf_snoc (ps : List Piece) (p : Piece) (i : Nat) :
    cutsOf (ps ++ [p]) i =
      cutsOf ps i ++ (if p.frame = i then [p.len] else []) := by
  by_cases h : p.frame = i <;> simp [cutsOf, h]

/-- What a stream from the beginning has cut so far: finished frames add up
to their length, the frame in progress to the current offset, and nothing has
been cut from later frames. -/
structure CutState (frames : List (List α)) (ps : List Piece) (k off : Nat) :
    Prop where
  sum : ∀ i, i < k → (cutsOf ps i).sum = (frames.getD i []).length
  partial_sum : (cutsOf ps k).sum = off
  later : ∀ i, k < i → cutsOf ps i = []
  bound : off = 0 ∨ k < frames.length ∧ off < (frames.getD k []).length
  k_le : k ≤ frames.length
  pos : ∀ i, ∀ n ∈ cutsOf ps i, 0 < n
  find : ∀ p ∈ ps, ∃ j, j < (cutsOf ps p.frame).length ∧
    ((cutsOf ps p.frame).take j).sum = p.offset ∧
    (cutsOf ps p.frame)[j]? = some p.len
  emitted : ∀ i j n, (cutsOf ps i)[j]? = some n →
    ⟨i, ((cutsOf ps i).take j).sum, n⟩ ∈ ps

private theorem CutState.find_snoc {frames : List (List α)} {ps : List Piece}
    {k off : Nat} (h : CutState frames ps k off) (n : Nat) :
    ∀ p ∈ ps ++ [⟨k, off, n⟩], ∃ j,
      j < (cutsOf (ps ++ [⟨k, off, n⟩]) p.frame).length ∧
      ((cutsOf (ps ++ [⟨k, off, n⟩]) p.frame).take j).sum = p.offset ∧
      (cutsOf (ps ++ [⟨k, off, n⟩]) p.frame)[j]? = some p.len := by
  intro p hp
  rcases List.mem_append.mp hp with hold | hnew
  · obtain ⟨j, hj, hsum, hlen⟩ := h.find p hold
    refine ⟨j, ?_, ?_, ?_⟩
    · rw [cutsOf_snoc, List.length_append]; omega
    · rw [cutsOf_snoc, List.take_append_of_le_length hj.le, hsum]
    · rw [cutsOf_snoc, List.getElem?_append_left hj, hlen]
  · obtain rfl := List.mem_singleton.mp hnew
    refine ⟨(cutsOf ps k).length, ?_, ?_, ?_⟩
    · simp [cutsOf_snoc]
    · rw [cutsOf_snoc, List.take_left' rfl, h.partial_sum]
    · simp [cutsOf_snoc]

private theorem CutState.emitted_snoc {frames : List (List α)} {ps : List Piece}
    {k off : Nat} (h : CutState frames ps k off) (n : Nat) :
    ∀ i j m, (cutsOf (ps ++ [⟨k, off, n⟩]) i)[j]? = some m →
      ⟨i, ((cutsOf (ps ++ [⟨k, off, n⟩]) i).take j).sum, m⟩
        ∈ ps ++ [⟨k, off, n⟩] := by
  intro i j m hget
  rw [cutsOf_snoc] at hget ⊢
  rcases Nat.lt_or_ge j (cutsOf ps i).length with hj | hj
  · rw [List.getElem?_append_left hj] at hget
    rw [List.take_append_of_le_length hj.le]
    exact List.mem_append_left _ (h.emitted i j m hget)
  · by_cases hki : k = i
    · subst hki
      rw [List.getElem?_append_right hj] at hget
      simp only [if_true] at hget
      have hjeq : j - (cutsOf ps k).length = 0 := by
        by_contra hne
        rw [List.getElem?_eq_none (by simp; omega)] at hget
        cases hget
      have hj' : j = (cutsOf ps k).length := by omega
      subst hj'
      simp only [Nat.sub_self, List.getElem?_cons_zero, Option.some.injEq] at hget
      subst hget
      rw [List.take_left' rfl, h.partial_sum]
      exact List.mem_append_right _ (List.mem_singleton.mpr rfl)
    · simp only [hki, if_false, List.append_nil] at hget
      rw [List.getElem?_eq_none hj] at hget
      cases hget

/-- The invariant of a stream that starts at the first byte of the first
frame. -/
theorem Emits.cutState {frames : List (List α)} {ps : List Piece} {pos : Nat × Nat}
    (h : Emits frames (0, 0) ps pos) : CutState frames ps pos.1 pos.2 := by
  induction h with
  | nil =>
      exact
        { sum := by intro i hi; exact absurd hi (Nat.not_lt_zero i)
          partial_sum := rfl
          later := by intro i _; rfl
          bound := Or.inl rfl
          k_le := Nat.zero_le _
          pos := by intro i n hn; simp at hn
          find := by intro p hp; simp at hp
          emitted := by intro i j n hn; simp at hn }
  | @snoc ps k off n h hk hn hle ih =>
      have hold : CutState frames ps k off := ih
      have hother : ∀ i, i ≠ k → cutsOf (ps ++ [⟨k, off, n⟩]) i = cutsOf ps i := by
        intro i hi
        simp [cutsOf_snoc, Ne.symm hi]
      have hself : (cutsOf (ps ++ [⟨k, off, n⟩]) k).sum = off + n := by
        simp [cutsOf_snoc, hold.partial_sum]
      have hpos : ∀ i, ∀ m ∈ cutsOf (ps ++ [⟨k, off, n⟩]) i, 0 < m := by
        intro i m hm
        rw [cutsOf_snoc] at hm
        rcases List.mem_append.mp hm with hm | hm
        · exact hold.pos i m hm
        · split at hm
          · obtain rfl := List.mem_singleton.mp hm
            exact hn
          · simp at hm
      by_cases hlast : off + n = (frames.getD k []).length
      · have hnext : Piece.next frames ⟨k, off, n⟩ = (k + 1, 0) := by
          simp only [Piece.next, Piece.isLast, hlast, beq_self_eq_true, if_true]
        rw [hnext]
        exact
          { sum := by
              intro i hi
              by_cases hik : i = k
              · rw [hik, hself, hlast]
              · rw [hother i hik]
                exact hold.sum i (by omega)
            partial_sum := by
              rw [hother (k + 1) (by omega), hold.later (k + 1) (by omega)]
              rfl
            later := by
              intro i hi
              rw [hother i (by omega)]
              exact hold.later i (by omega)
            bound := Or.inl rfl
            k_le := hk
            pos := hpos
            find := hold.find_snoc n
            emitted := hold.emitted_snoc n }
      · have hne : (off + n == (frames.getD k []).length) = false :=
          beq_eq_false_iff_ne.mpr hlast
        have hnext : Piece.next frames ⟨k, off, n⟩ = (k, off + n) := by
          simp only [Piece.next, Piece.isLast, hne, Bool.false_eq_true, if_false]
        rw [hnext]
        exact
          { sum := by
              intro i hi
              dsimp only at hi
              rw [hother i (by omega)]
              exact hold.sum i hi
            partial_sum := hself
            later := by
              intro i hi
              dsimp only at hi
              rw [hother i (by omega)]
              exact hold.later i hi
            bound := Or.inr ⟨hk, by dsimp only; omega⟩
            k_le := hold.k_le
            pos := hpos
            find := hold.find_snoc n
            emitted := hold.emitted_snoc n }

/-- The lengths that cut frame `i`: those emitted, and one unsent piece when
the frame has not been sent in full. -/
def fullCuts (frames : List (List α)) (ps : List Piece) (i : Nat) : List Nat :=
  let sent := cutsOf ps i
  let rest := (frames.getD i []).length - sent.sum
  if rest = 0 then sent else sent ++ [rest]

namespace CutState

variable {frames : List (List α)} {ps : List Piece} {k off : Nat}

theorem sum_le (h : CutState frames ps k off) (i : Nat) :
    (cutsOf ps i).sum ≤ (frames.getD i []).length := by
  rcases Nat.lt_trichotomy i k with hlt | heq | hgt
  · exact (h.sum i hlt).le
  · subst heq
    rw [h.partial_sum]
    rcases h.bound with hb | ⟨_, hb⟩ <;> omega
  · simp [h.later i hgt]

/-- The cutting of a frame of the queue. -/
def cutting (h : CutState frames ps k off) (i : Nat)
    (hne : frames.getD i [] ≠ []) : Cutting α where
  frame := frames.getD i []
  cuts := fullCuts frames ps i
  frame_ne := hne
  cut_pos := by
    intro n hn
    unfold fullCuts at hn
    dsimp only at hn
    split at hn
    · exact h.pos i n hn
    · rcases List.mem_append.mp hn with hn | hn
      · exact h.pos i n hn
      · obtain rfl := List.mem_singleton.mp hn
        omega
  cut_sum := by
    have hle := h.sum_le i
    unfold fullCuts
    dsimp only
    split
    · omega
    · simp only [List.sum_append, List.sum_singleton]
      omega

private theorem fullCuts_take (frames : List (List α)) (ps : List Piece)
    (i j : Nat) (hj : j ≤ (cutsOf ps i).length) :
    (fullCuts frames ps i).take j = (cutsOf ps i).take j := by
  unfold fullCuts
  dsimp only
  split
  · rfl
  · exact List.take_append_of_le_length hj

private theorem fullCuts_getElem? (frames : List (List α)) (ps : List Piece)
    (i j : Nat) (hj : j < (cutsOf ps i).length) :
    (fullCuts frames ps i)[j]? = (cutsOf ps i)[j]? := by
  unfold fullCuts
  dsimp only
  split
  · rfl
  · exact List.getElem?_append_left hj

/-- Every emitted piece is a piece of the cutting of its frame. -/
theorem piece_mem_cutting (h : CutState frames ps k off) {p : Piece}
    (hp : p ∈ ps) (hne : frames.getD p.frame [] ≠ []) :
    ∃ j, j < (h.cutting p.frame hne).count ∧
      (h.cutting p.frame hne).offset j = p.offset ∧
      (h.cutting p.frame hne).size j = p.len := by
  obtain ⟨j, hj, hsum, hget⟩ := h.find p hp
  have hfull : (fullCuts frames ps p.frame)[j]? = some p.len := by
    rw [fullCuts_getElem? frames ps p.frame j hj, hget]
  refine ⟨j, ?_, ?_, ?_⟩
  · exact (List.getElem?_eq_some_iff.mp hfull).1
  · show ((fullCuts frames ps p.frame).take j).sum = p.offset
    rw [fullCuts_take frames ps p.frame j hj.le, hsum]
  · show (fullCuts frames ps p.frame).getD j 0 = p.len
    rw [List.getD_eq_getElem?_getD, hfull]
    rfl

/-- Every piece of a frame that was sent in full has been emitted. -/
theorem mem_of_piece (h : CutState frames ps k off) {i : Nat} (hi : i < k)
    (hne : frames.getD i [] ≠ []) {j : Nat} (hj : j < (h.cutting i hne).count) :
    ⟨i, (h.cutting i hne).offset j, (h.cutting i hne).size j⟩ ∈ ps := by
  have hfull : fullCuts frames ps i = cutsOf ps i := by
    unfold fullCuts
    simp [h.sum i hi]
  have hj' : j < (cutsOf ps i).length := by rw [← hfull]; exact hj
  have hmem := h.emitted i j _ (List.getElem?_eq_getElem hj')
  have hoff : (h.cutting i hne).offset j = ((cutsOf ps i).take j).sum := by
    show ((fullCuts frames ps i).take j).sum = _
    rw [hfull]
  have hsize : (h.cutting i hne).size j = (cutsOf ps i)[j] := by
    show (fullCuts frames ps i).getD j 0 = _
    rw [hfull, List.getD_eq_getElem?_getD, List.getElem?_eq_getElem hj']
    rfl
  rw [hoff, hsize]
  exact hmem

end CutState

end Winject.Lib.Segmentation
