import Winject.Lib.Reassembly
import Winject.Pdcp.Ul

/-!
# What a transmitter has sent

`Sent frames ps pos` is the receivers' view of a transmitter: the pieces `ps`
have been sent, up to position `pos` of the stream of frames.  `Sent.cut` is
the resulting cutting of each frame, over receiver cells.
-/

namespace Winject.Pdcp

open Winject.Lib.Reassembly
open Winject.Lib.Segmentation

/-- An uplink has sent the pieces `ps` of the pushed frames. -/
structure Sent (frames : List (List UInt8)) (ps : List Piece) (pos : Nat × Nat) :
    Prop where
  emits : Emits frames (0, 0) ps pos
  ok : ∀ f ∈ frames, FrameOk f

namespace Sent

variable {frames : List (List UInt8)} {ps : List Piece} {pos : Nat × Nat}

theorem getD_ne (w : Sent frames ps pos) {i : Nat} (hi : i < frames.length) :
    frames.getD i [] ≠ [] := by
  rw [List.getD_eq_getElem?_getD, List.getElem?_eq_getElem hi]
  exact (w.ok _ (List.getElem_mem hi)).1

/-- How frame `i` is cut, over receiver cells. -/
def cut (w : Sent frames ps pos) (i : Nat) (hi : i < frames.length) :
    Cutting (Option UInt8) :=
  (w.emits.cutState.cutting i (w.getD_ne hi)).map some

theorem cut_frame (w : Sent frames ps pos) (i : Nat) (hi : i < frames.length) :
    (w.cut i hi).frame = (frames.getD i []).map some := rfl

/-- Every sent piece is a piece of the cutting of its frame. -/
theorem piece (w : Sent frames ps pos) {p : Piece} (hp : p ∈ ps)
    (hi : p.frame < frames.length) :
    ∃ j, j < (w.cut p.frame hi).count ∧ p.offset = (w.cut p.frame hi).offset j ∧
      p.len = (w.cut p.frame hi).size j ∧
      p.isLast frames = (w.cut p.frame hi).isLast j ∧
      (p.bytes frames).map some = (w.cut p.frame hi).piece j := by
  obtain ⟨j, hj, hoff, hsize⟩ :=
    w.emits.cutState.piece_mem_cutting hp (w.getD_ne hi)
  refine ⟨j, hj, hoff.symm, hsize.symm, ?_, ?_⟩
  · have hframe : (w.cut p.frame hi).frame.length = (frames.getD p.frame []).length := by
      rw [cut_frame, List.length_map]
    have hcond : p.offset + p.len = (frames.getD p.frame []).length ↔
        j + 1 = (w.cut p.frame hi).count := by
      rw [← hframe, ← hoff, ← hsize]
      exact ⟨(w.cut p.frame hi).isLast_of_end hj, (w.cut p.frame hi).end_of_isLast⟩
    by_cases hlast : j + 1 = (w.cut p.frame hi).count
    · rw [((w.cut p.frame hi).isLast_iff j).mpr hlast]
      exact beq_iff_eq.mpr (hcond.mpr hlast)
    · have hne : p.offset + p.len ≠ (frames.getD p.frame []).length :=
        fun h => hlast (hcond.mp h)
      have hfalse : (w.cut p.frame hi).isLast j = false := by
        rw [← Bool.not_eq_true]
        exact fun h => hlast (((w.cut p.frame hi).isLast_iff j).mp h)
      rw [hfalse]
      exact beq_eq_false_iff_ne.mpr hne
  · rw [cut, Cutting.map_piece]
    congr 1
    show (List.drop p.offset (frames.getD p.frame [])).take p.len = _
    rw [Cutting.piece, hoff, hsize]
    rfl

/-- Every piece of a frame that was sent in full has been sent. -/
theorem mem (w : Sent frames ps pos) {i : Nat} (hi : i < frames.length)
    (hsent : i < pos.1) {j : Nat} (hj : j < (w.cut i hi).count) :
    ⟨i, (w.cut i hi).offset j, (w.cut i hi).size j⟩ ∈ ps :=
  w.emits.cutState.mem_of_piece hsent (w.getD_ne hi) hj

end Sent

end Winject.Pdcp
