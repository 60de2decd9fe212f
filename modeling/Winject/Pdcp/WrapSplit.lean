import Winject.Pdcp.RoundTrip

/-!
# The sequence number wrap splits a frame

For a ring of `R ≥ 512` slots let `q = 65536 % R`.  The frames with indices
`65536 - q` and `65536` have the numbers `65536 - q` and `0`, which share slot
0.  When `1 ≤ q ≤ 291` one PDU of 2047 bytes has room for the `q` one-byte
frames from the first of them on and for the beginning of frame 65536, which
then waits in the overflow deque.  The flush at the end of the call releases
slot 0, the rest of frame 65536 is stored there by the next call, and the
frame is never completed.

The module follows that run: the uplink calls (`wrapOps`), the pieces they
write (`wrapPieces`) and the states of the receiver.  With `roundTrip_of_good`
it gives the exact condition for the round trip.

## Main results

* `wrapRun_ul` — what the uplink writes.
* `wrapRun_dl` — frame 65536 is never completed.
* `roundTrip_iff` — when the round trip holds for every run.
-/

namespace Winject.Pdcp

open Winject.Frames
open Winject.Lib.Bytes
open Winject.Lib.Reassembly
open Winject.Lib.Segmentation

/-! ## The uplink -/

section Uplink

variable {cfg : PdcpUlConfig} {frames : List (List UInt8)}

/-- One iteration that has a frame and room for it. -/
theorem writeLoop_one (hframes : ∀ f ∈ frames, FrameOk f)
    (hseg : cfg.allowSegmentation = true) {s : WriteState} {pos : Nat × Nat}
    (h : UlAt cfg frames pos s.ul) (hk : pos.1 < frames.length)
    (hroom : cfg.layout.headerSize < s.rest.length) (hlimit : s.rest.length ≤ 32767)
    {n : Nat} (hn : n = min ((frames.getD pos.1 []).length - pos.2)
      (s.rest.length - cfg.layout.headerSize)) :
    ∃ s', writeLoop s = writeLoop s' ∧
      WroteAll cfg frames pos [⟨pos.1, pos.2, n⟩]
        (Piece.next frames ⟨pos.1, pos.2, n⟩) s s' ∧
      s'.rest.length = s.rest.length - (cfg.layout.headerSize + n) := by
  subst hn
  rcases writeStep_cases h hframes hlimit with ⟨_, hlen | hlen | hno⟩ | ⟨s', hs, hw⟩
  · omega
  · omega
  · rw [hseg] at hno; cases hno.1
  · exact ⟨s', writeLoop_of_some hs, hw.toAll, by rw [hw.rest, List.length_drop]⟩

/-- The loop ends without a frame or without room. -/
theorem writeLoop_end (hframes : ∀ f ∈ frames, FrameOk f) {s : WriteState}
    {pos : Nat × Nat} (h : UlAt cfg frames pos s.ul)
    (hend : frames.length ≤ pos.1 ∨ s.rest.length ≤ cfg.layout.headerSize)
    (hlimit : s.rest.length ≤ 32767) :
    WroteAll cfg frames pos [] pos s (writeLoop s) := by
  rcases writeStep_cases h hframes hlimit with ⟨hnone, _⟩ | ⟨s', _, hw⟩
  · exact WroteAll.stop h hnone
  · have hlt := hw.valid.1
    have hpos := hw.valid.2.1
    have hfit := hw.fits
    dsimp only at hlt hpos hfit
    omega

/-- A call that has something to send. -/
theorem write_emitted {u : PdcpUl} {pos pos' : Nat × Nat} {ps : List Piece}
    {buffer : List UInt8} (h : UlAt cfg frames pos u) (hk : pos.1 < frames.length)
    (hbuf : 0 < buffer.length) (hcommit : cfg.minCommitSize ≤ buffer.length)
    (hne : ps ≠ [])
    (hall : WroteAll cfg frames pos ps pos' ⟨u, [], buffer, 0, 0⟩
      (writeLoop ⟨u, [], buffer, 0, 0⟩)) :
    UlAt cfg frames pos' (ulStep u (.write buffer)).1 ∧
      (ulStep u (.write buffer)).2 = some (pduOf cfg.layout frames ps) := by
  have hbuf' : buffer.isEmpty = false := by
    cases buffer with
    | nil => cases hbuf
    | cons b bs => rfl
  have hqueue : u.outstandingBuffers.isEmpty = false := by
    rw [h.queue, List.drop_eq_getElem_cons hk]
    rfl
  have hem := hall.emitted h hbuf' hcommit hqueue
  refine ⟨hem.state, ?_⟩
  rw [hem.pdu, if_neg hne]

end Uplink

/-- The piece that carries a one-byte frame. -/
def onePiece (t : Nat) : Piece := ⟨t, 0, 1⟩

/-- `n` one-byte frames, each sent in its own PDU. -/
def singleOps (buffer : List UInt8) (n : Nat) : List UlOp :=
  (List.replicate n [UlOp.frame [0], UlOp.write buffer]).flatten

/-- The frames of the run. -/
def wrapFrames (q : Nat) : List (List UInt8) :=
  List.replicate 65536 [0] ++ [List.replicate (2042 - 7 * q) 0]

/-- The run: up to frame `65536 - q` one frame to a PDU, then the other frames
are queued and sent in two PDUs. -/
def wrapOps (buffer : List UInt8) (q : Nat) : List UlOp :=
  singleOps buffer (65536 - q) ++
    (List.replicate q (UlOp.frame [0]) ++
      [.frame (List.replicate (2042 - 7 * q) 0), .write buffer, .write buffer])

theorem singleOps_succ (buffer : List UInt8) (n : Nat) :
    singleOps buffer (n + 1) = singleOps buffer n ++ [.frame [0], .write buffer] := by
  unfold singleOps
  rw [List.replicate_succ', List.flatten_append]
  rfl

theorem pushedFrames_singleOps (buffer : List UInt8) (n : Nat) :
    pushedFrames (singleOps buffer n) = List.replicate n [0] := by
  induction n with
  | zero => rfl
  | succ n ih =>
      rw [singleOps_succ, pushedFrames_append, ih, List.replicate_succ']
      rfl

theorem pushedFrames_wrapOps (buffer : List UInt8) {q : Nat} (hq : q ≤ 65536) :
    pushedFrames (wrapOps buffer q) = wrapFrames q := by
  have hpush : ∀ n, pushedFrames (List.replicate n (UlOp.frame [0])) =
      List.replicate n [0] := by
    intro n
    induction n with
    | zero => rfl
    | succ n ih => rw [List.replicate_succ, pushedFrames, ih, List.replicate_succ]
  rw [wrapOps, pushedFrames_append, pushedFrames_append, pushedFrames_singleOps, hpush,
    ← List.append_assoc, ← List.replicate_add, wrapFrames]
  congr 2
  omega

/-- The bytes of a one-byte frame's PDU. -/
def onePdu (l : Layout) (t : Nat) : List UInt8 := encode l ⟨t % 65536, 0, true, [0]⟩

theorem pduOf_onePiece {l : Layout} {frames : List (List UInt8)} {t : Nat}
    (h : frames.getD t [] = [0]) : pduOf l frames [onePiece t] = onePdu l t := by
  rw [pduOf, List.map_singleton, encodeAll_cons, encodeAll_nil, List.append_nil]
  unfold onePdu segOf onePiece Piece.isLast Piece.bytes
  dsimp only
  rw [h]
  rfl

theorem getD_replicate_one {n t : Nat} (ht : t < n) :
    (List.replicate n ([0] : List UInt8)).getD t [] = [0] := by
  rw [List.getD_eq_getElem?_getD, List.getElem?_replicate, if_pos ht]
  rfl

theorem frameOk_replicate (n : Nat) :
    ∀ f ∈ List.replicate n ([0] : List UInt8), FrameOk f := by
  intro f hf
  rw [(List.mem_replicate.mp hf).2]
  decide

/-- A one-byte frame is sent in one piece. -/
theorem next_onePiece {frames : List (List UInt8)} {t : Nat}
    (h : frames.getD t [] = [0]) : Piece.next frames (onePiece t) = (t + 1, 0) := by
  unfold Piece.next Piece.isLast onePiece
  dsimp only
  rw [h]
  rfl

/-- The pieces of the long frame's first PDU. -/
def wrapFirst (q : Nat) : List Piece :=
  (List.range' (65536 - q) q).map onePiece ++ [⟨65536, 0, 2041 - 7 * q⟩]

/-- The piece of its second PDU. -/
def wrapLast (q : Nat) : Piece := ⟨65536, 2041 - 7 * q, 1⟩

/-- What the proofs use of the frames of the run. -/
structure WrapFrames (q : Nat) (frames : List (List UInt8)) : Prop where
  length : frames.length = 65537
  one : ∀ t < 65536, frames.getD t [] = [0]
  long : (frames.getD 65536 []).length = 2042 - 7 * q
  ok : ∀ f ∈ frames, FrameOk f

theorem wrapFrames_spec {q : Nat} (hq : q ≤ 291) : WrapFrames q (wrapFrames q) where
  length := by
    rw [wrapFrames, List.length_append, List.length_replicate, List.length_singleton]
  one := by
    intro t ht
    rw [wrapFrames, List.getD_append _ _ _ _ (by rw [List.length_replicate]; exact ht)]
    exact getD_replicate_one ht
  long := by
    rw [wrapFrames, List.getD_append_right _ _ _ _ (by rw [List.length_replicate]),
      List.length_replicate, Nat.sub_self]
    exact List.length_replicate
  ok := by
    intro f hf
    rcases List.mem_append.mp hf with h | h
    · exact frameOk_replicate 65536 f h
    · rw [List.mem_singleton.mp h]
      refine ⟨?_, ?_⟩
      · intro hnil
        have := congrArg List.length hnil
        rw [List.length_replicate, List.length_nil] at this
        omega
      · rw [List.length_replicate]
        omega

/-- Queueing one-byte frames. -/
theorem pushOnes_ul {cfg : PdcpUlConfig} {frames : List (List UInt8)} {pos : Nat × Nat}
    (n : Nat) (u : PdcpUl) (h : UlAt cfg frames pos u) :
    UlAt cfg (frames ++ List.replicate n [0]) pos
        (ulRun u (List.replicate n (.frame [0]))).1 ∧
      (ulRun u (List.replicate n (.frame [0]))).2 = [] := by
  induction n generalizing u frames with
  | zero =>
      rw [List.replicate_zero, List.append_nil]
      exact ⟨h, rfl⟩
  | succ n ih =>
      have hpush : UlAt cfg (frames ++ [[0]]) pos (ulStep u (.frame [0])).1 :=
        h.push (by decide)
      obtain ⟨hat, hpdus⟩ := ih _ hpush
      rw [List.replicate_succ, List.replicate_succ, List.append_cons]
      exact ⟨hat, hpdus⟩

section Run

variable {cfg : PdcpUlConfig} (hseg : cfg.allowSegmentation = true)
  (hre : cfg.allowReordering = true) {buffer : List UInt8} (hbuf : buffer.length = 2047)

include hseg hre

theorem headerSize_eq : cfg.layout.headerSize = 6 := by
  unfold PdcpUlConfig.layout Layout.headerSize
  rw [hseg, hre]
  rfl

/-- The loop on a queue that starts with `m` one-byte frames. -/
theorem writeLoop_ones {frames : List (List UInt8)} (hframes : ∀ f ∈ frames, FrameOk f)
    (m k : Nat) (hone : ∀ t, k ≤ t → t < k + m → frames.getD t [] = [0])
    (hlen : k + m ≤ frames.length) (s : WriteState) (h : UlAt cfg frames (k, 0) s.ul)
    (hroom : 7 * m ≤ s.rest.length) (hlimit : s.rest.length ≤ 32767) :
    ∃ s', writeLoop s = writeLoop s' ∧
      WroteAll cfg frames (k, 0) ((List.range' k m).map onePiece) (k + m, 0) s s' ∧
      s'.rest.length = s.rest.length - 7 * m := by
  induction m generalizing k s with
  | zero =>
      exact ⟨s, rfl, ⟨.nil, by simp, by simp [pduOf], rfl, rfl, rfl, h⟩, by omega⟩
  | succ m ih =>
      have hhdr := headerSize_eq hseg hre
      have hget := hone k (Nat.le_refl k) (by omega)
      obtain ⟨s₁, hloop₁, hall₁, hrest₁⟩ := writeLoop_one (n := 1) hframes hseg h
        (by dsimp only; omega) (by omega) hlimit
        (by dsimp only; rw [hget, hhdr, List.length_singleton]; omega)
      have hnext : Piece.next frames ⟨k, 0, 1⟩ = (k + 1, 0) := next_onePiece hget
      rw [hnext] at hall₁
      rw [hhdr] at hrest₁
      obtain ⟨s', hloop, hall, hrest⟩ := ih (k + 1)
        (fun t ht ht' => hone t (by omega) (by omega)) (by omega) s₁ hall₁.state
        (by omega) (by omega)
      refine ⟨s', hloop₁.trans hloop, ?_, by omega⟩
      have htrans := hall₁.trans hall
      rw [show k + 1 + m = k + (m + 1) by omega] at htrans
      rw [List.range'_succ, List.map_cons]
      exact htrans

include hbuf

/-- The part of the run with one frame to a PDU. -/
theorem singleOps_ul (hcommit : cfg.minCommitSize ≤ 2047) (n : Nat) :
    UlAt cfg (List.replicate n [0]) (n, 0) (ulRun { config := cfg } (singleOps buffer n)).1 ∧
      (ulRun { config := cfg } (singleOps buffer n)).2 =
        (List.range n).map (onePdu cfg.layout) := by
  induction n with
  | zero => exact ⟨UlAt.init cfg, rfl⟩
  | succ n ih =>
      obtain ⟨hat, hpdus⟩ := ih
      rw [singleOps_succ, ulRun_append]
      generalize ulRun { config := cfg } (singleOps buffer n) = r at hat hpdus
      have hpush : UlAt cfg (List.replicate n [0] ++ [[0]]) (n, 0)
          (ulStep r.1 (.frame [0])).1 := hat.push (by decide)
      rw [← List.replicate_succ'] at hpush
      generalize hu : (ulStep r.1 (.frame [0])).1 = u at hpush
      have hframes := frameOk_replicate (n + 1)
      obtain ⟨s', hloop, hall, hrest⟩ := writeLoop_ones hseg hre hframes 1 n
        (fun t ht ht' => getD_replicate_one (by omega)) (by rw [List.length_replicate])
        ⟨u, [], buffer, 0, 0⟩ hpush (by dsimp only; omega) (by dsimp only; omega)
      dsimp only at hrest
      have hend := writeLoop_end hframes hall.state
        (Or.inl (by rw [List.length_replicate])) (by omega)
      rw [← hloop] at hend
      obtain ⟨hstate, hpdu⟩ := write_emitted hpush
        (by rw [List.length_replicate]; exact Nat.lt_succ_self n) (by omega) (by omega)
        (by simp) (hall.trans hend)
      have hpieces : (List.range' n 1).map onePiece ++ [] = [onePiece n] := rfl
      rw [hpieces, pduOf_onePiece (getD_replicate_one (Nat.lt_succ_self n))] at hpdu
      have hrun : ulRun r.1 [.frame [0], .write buffer] =
          ((ulStep u (.write buffer)).1, [onePdu cfg.layout n]) := by
        simp only [ulRun, hu, hpdu]
        rfl
      rw [hrun]
      dsimp only
      refine ⟨hstate, ?_⟩
      rw [hpdus, List.range_succ, List.map_append, List.map_singleton]

/-- The frames from `65536 - q` on and the beginning of the long one fill a PDU. -/
theorem writeFirst_ul {q : Nat} {frames : List (List UInt8)} (hf : WrapFrames q frames)
    (hq₀ : 1 ≤ q) (hq : q ≤ 291)
    (hcommit : cfg.minCommitSize ≤ 2047) {u : PdcpUl}
    (h : UlAt cfg frames (65536 - q, 0) u) :
    UlAt cfg frames (65536, 2041 - 7 * q) (ulStep u (.write buffer)).1 ∧
      (ulStep u (.write buffer)).2 =
        some (pduOf cfg.layout frames (wrapFirst q)) := by
  have hlen := hf.length
  have hlong := hf.long
  have hhdr := headerSize_eq hseg hre
  obtain ⟨s₁, hloop₁, hall₁, hrest₁⟩ := writeLoop_ones hseg hre hf.ok q (65536 - q)
    (fun t _ ht => hf.one t (by omega)) (by omega) ⟨u, [], buffer, 0, 0⟩ h
    (by dsimp only; omega) (by dsimp only; omega)
  dsimp only at hrest₁
  rw [show 65536 - q + q = 65536 by omega] at hall₁
  have hcut : 2041 - 7 * q = min ((frames.getD 65536 []).length - 0)
      (s₁.rest.length - cfg.layout.headerSize) := by omega
  obtain ⟨s₂, hloop₂, hall₂, hrest₂⟩ := writeLoop_one hf.ok hseg hall₁.state
    (by rw [hlen]; decide) (by omega) (by omega) hcut
  have hnext : Piece.next frames ⟨65536, 0, 2041 - 7 * q⟩ =
      (65536, 2041 - 7 * q) := by
    unfold Piece.next
    rw [if_neg]
    · rw [Nat.zero_add]
    · unfold Piece.isLast
      dsimp only
      rw [hlong, beq_iff_eq]
      omega
  dsimp only at hall₂
  rw [hnext] at hall₂
  have hend := writeLoop_end hf.ok hall₂.state (Or.inr (by omega)) (by omega)
  rw [← hloop₂, ← hloop₁] at hend
  have hall := (hall₁.trans hall₂).trans hend
  rw [List.append_nil] at hall
  exact write_emitted h (by dsimp only; omega) (by omega) (by omega)
    (by unfold wrapFirst; simp) hall

/-- The next PDU carries the rest. -/
theorem writeLast_ul {q : Nat} {frames : List (List UInt8)} (hf : WrapFrames q frames)
    (hq : q ≤ 291) (hcommit : cfg.minCommitSize ≤ 2047)
    {u : PdcpUl} (h : UlAt cfg frames (65536, 2041 - 7 * q) u) :
    UlAt cfg frames (65537, 0) (ulStep u (.write buffer)).1 ∧
      (ulStep u (.write buffer)).2 =
        some (pduOf cfg.layout frames [wrapLast q]) := by
  have hlen := hf.length
  have hlong := hf.long
  have hhdr := headerSize_eq hseg hre
  obtain ⟨s₁, hloop₁, hall₁, hrest₁⟩ := writeLoop_one (s := ⟨u, [], buffer, 0, 0⟩)
    hf.ok hseg h (by dsimp only; omega) (by dsimp only; omega) (by dsimp only; omega)
    (show 1 = _ by dsimp only; omega)
  dsimp only at hrest₁
  have hnext : Piece.next frames ⟨65536, 2041 - 7 * q, 1⟩ = (65537, 0) := by
    unfold Piece.next
    rw [if_pos]
    unfold Piece.isLast
    dsimp only
    rw [hlong, beq_iff_eq]
    omega
  dsimp only at hall₁
  rw [hnext] at hall₁
  have hend := writeLoop_end hf.ok hall₁.state (Or.inl (by dsimp only; omega))
    (by omega)
  rw [← hloop₁] at hend
  exact write_emitted h (by dsimp only; omega) (by omega) (by omega) (by simp)
    (hall₁.trans hend)

/-- What the uplink writes in the run. -/
theorem wrapRun_ul {q : Nat} (hq₀ : 1 ≤ q) (hq : q ≤ 291)
    (hcommit : cfg.minCommitSize ≤ 2047) :
    UlAt cfg (wrapFrames q) (65537, 0) (ulRun { config := cfg } (wrapOps buffer q)).1 ∧
      (ulRun { config := cfg } (wrapOps buffer q)).2 =
        (List.range (65536 - q)).map (onePdu cfg.layout) ++
          [pduOf cfg.layout (wrapFrames q) (wrapFirst q),
            pduOf cfg.layout (wrapFrames q) [wrapLast q]] := by
  obtain ⟨hone, hpdus⟩ := singleOps_ul hseg hre hbuf hcommit (65536 - q)
  obtain ⟨hqueue, hnone⟩ := pushOnes_ul q _ hone
  rw [← List.replicate_add, show 65536 - q + q = 65536 by omega] at hqueue
  rw [wrapOps, ulRun_append, ulRun_append]
  dsimp only
  rw [hpdus, hnone, List.nil_append]
  generalize (ulRun (ulRun { config := cfg } (singleOps buffer (65536 - q))).1
    (List.replicate q (UlOp.frame [0]))).1 = u at hqueue
  have hok : FrameOk (List.replicate (2042 - 7 * q) 0) :=
    (wrapFrames_spec hq).ok _ (List.mem_append_right _ (List.mem_singleton.mpr rfl))
  have hlong : UlAt cfg (wrapFrames q) (65536 - q, 0) _ := hqueue.push hok
  obtain ⟨hfirst, hpdu₁⟩ := writeFirst_ul hseg hre hbuf (wrapFrames_spec hq) hq₀ hq hcommit hlong
  obtain ⟨hlast, hpdu₂⟩ := writeLast_ul hseg hre hbuf (wrapFrames_spec hq) hq hcommit hfirst
  simp only [ulRun, hpdu₁, hpdu₂]
  exact ⟨hlast, rfl⟩

end Run

/-! ## The downlink -/

/-- The pieces of the run. -/
def wrapPieces (q : Nat) : List Piece :=
  (List.range' 0 (65536 - q)).map onePiece ++ wrapFirst q ++ [wrapLast q]

/-- A frame of which one part is in the overflow deque and the next part goes to
a free slot is not delivered. -/
theorem split_stalls {frames : List (List UInt8)} {ps : List Piece} {pos : Nat × Nat}
    {w : Sent frames ps pos} {n : Nat} {recv : Nat → Finset Nat} {d : PdcpDl}
    (h : Exact w n recv d) (hwin : InWindow n recv) (hn : n < frames.length) {j : Nat}
    (hj : j < (w.cut n hn).count) (hother : ∃ j₀ < (w.cut n hn).count, j₀ ≠ j)
    (hmissing : j ∉ recv n) (hfree : d.slotFree (n % 65536) = true) :
    (d.rxSegment (n % 65536) ((w.cut n hn).offset j) ((w.cut n hn).isLast j)
      ((w.cut n hn).piece j)).flushStep = none := by
  have hnext : d.nextExpectedSn = n % 65536 := h.next
  unfold PdcpDl.slotFree at hfree
  rcases d.rxSegment_cases h.reord (n % 65536) ((w.cut n hn).offset j)
      ((w.cut n hn).isLast j) ((w.cut n hn).piece j) with
    ⟨slot, hslot, _, heq⟩ | ⟨hbusy, _⟩
  · rw [hslot, Bool.not_eq_true'] at hfree
    rw [hfree, if_neg (by decide)] at heq
    have hnew := (HoldsFrame.empty w hn).receive hj
    rw [heq]
    cases hstep : PdcpDl.flushStep _ with
    | none => rfl
    | some d' =>
        rcases PdcpDl.flushStep_cases hstep with
          ⟨slot', hslot', _, _, hc, _⟩ | ⟨k, hk, hsn, hc, _⟩
        · -- the slot holds piece `j` only
          rw [DlSafe.slotIndex_set] at hslot'
          dsimp only at hslot'
          rw [hnext, List.getElem?_set_self (List.getElem?_eq_some_iff.mp hslot).1]
            at hslot'
          obtain rfl := Option.some.inj hslot'
          obtain ⟨j₀, hj₀, hne⟩ := hother
          have hall := hnew.complete_iff.mp hc
          have hmem := Finset.mem_range.mpr hj₀
          rw [← hall, Finset.mem_insert] at hmem
          exact absurd (hmem.resolve_right (Finset.notMem_empty _)) hne
        · -- the overflow entry lacks it
          dsimp only at hk hsn hc
          rw [hnext] at hsn
          have hentry := h.overflow _ (List.get_mem d.overflowDeque ⟨k, hk⟩)
          rw [hsn] at hentry
          obtain ⟨_, hold⟩ := Exact.entry_frame hwin (Nat.le_refl n) (by omega) hentry
          have hall := hold.complete_iff.mp hc
          rw [hall] at hmissing
          exact absurd (Finset.mem_range.mpr hj) hmissing
  · split at hfree
    · rename_i slot hslot
      rw [(hbusy slot hslot).1] at hfree
      cases hfree
    · cases hfree

section Receiver

variable {q : Nat} {frames : List (List UInt8)}

theorem emits_ones (hf : WrapFrames q frames) (m k : Nat) (hle : k + m ≤ 65536) :
    Emits frames (k, 0) ((List.range' k m).map onePiece) (k + m, 0) := by
  induction m with
  | zero => exact .nil
  | succ m ih =>
      have hone := hf.one (k + m) (by omega)
      have hsnoc := (ih (by omega)).snoc (n := 1) (by have := hf.length; omega)
        Nat.zero_lt_one (by rw [hone]; decide)
      have hnext : Piece.next frames ⟨k + m, 0, 1⟩ = (k + (m + 1), 0) := next_onePiece hone
      rw [hnext] at hsnoc
      rw [List.range'_1_concat, List.map_append]
      exact hsnoc

theorem emits_first (hf : WrapFrames q frames) (hq : q ≤ 291) :
    Emits frames (65536 - q, 0) (wrapFirst q) (65536, 2041 - 7 * q) := by
  have hones := emits_ones hf q (65536 - q) (by omega)
  rw [show 65536 - q + q = 65536 by omega] at hones
  have hlong := hf.long
  have hsnoc := hones.snoc (n := 2041 - 7 * q) (by have := hf.length; omega) (by omega)
    (by omega)
  have hnext : Piece.next frames ⟨65536, 0, 2041 - 7 * q⟩ = (65536, 2041 - 7 * q) := by
    unfold Piece.next Piece.isLast
    dsimp only
    rw [hlong, if_neg (by rw [beq_iff_eq]; omega), Nat.zero_add]
  rw [hnext] at hsnoc
  exact hsnoc

theorem emits_last (hf : WrapFrames q frames) (hq : q ≤ 291) :
    Emits frames (65536, 2041 - 7 * q) [wrapLast q] (65537, 0) := by
  have hlong := hf.long
  have hone : Emits frames (65536, 2041 - 7 * q) [⟨65536, 2041 - 7 * q, 1⟩] _ :=
    Emits.single (by have := hf.length; omega) Nat.zero_lt_one (by omega)
  have hnext : Piece.next frames ⟨65536, 2041 - 7 * q, 1⟩ = (65537, 0) := by
    unfold Piece.next Piece.isLast
    dsimp only
    rw [hlong, if_pos (by rw [beq_iff_eq]; omega)]
  rw [hnext] at hone
  exact hone

/-- From one-byte frame `k` on to the end of the run. -/
theorem emits_rest (hf : WrapFrames q frames) (hq : q ≤ 291) {k : Nat}
    (hk : k ≤ 65536 - q) :
    Emits frames (k, 0)
      ((List.range' k (65536 - q - k)).map onePiece ++ wrapFirst q ++ [wrapLast q])
      (65537, 0) := by
  have hones := emits_ones hf (65536 - q - k) k (by omega)
  rw [show k + (65536 - q - k) = 65536 - q by omega] at hones
  exact (hones.append (emits_first hf hq)).append (emits_last hf hq)

theorem wrapSent (hf : WrapFrames q frames) (hq : q ≤ 291) :
    Sent frames (wrapPieces q) (65537, 0) :=
  ⟨emits_rest hf hq (Nat.zero_le _), hf.ok⟩

theorem wrapPieces_split {k : Nat} (hk : k < 65536 - q) :
    wrapPieces q = (List.range' 0 k).map onePiece ++ [onePiece k] ++
      ((List.range' (k + 1) (65536 - q - (k + 1))).map onePiece ++ wrapFirst q ++
        [wrapLast q]) := by
  have hrange : List.range' 0 (65536 - q) =
      List.range' 0 k ++ [k] ++ List.range' (k + 1) (65536 - q - (k + 1)) := by
    have hsplit : 65536 - q = k + (1 + (65536 - q - (k + 1))) := by omega
    rw [hsplit, ← List.range'_append_1, ← List.range'_append_1, Nat.zero_add,
      List.append_assoc]
    congr 3
    omega
  rw [wrapPieces, hrange]
  simp only [List.map_append, List.map_singleton, List.append_assoc]

/-- A one-byte frame's PDU is short. -/
theorem onePdu_length_le (l : Layout) (t : Nat) : (onePdu l t).length ≤ 2047 := by
  rw [onePdu, encode_length, Seg.wireSize]
  show l.headerSize + 1 ≤ 2047
  cases l with
  | mk hasOffset hasSn => cases hasOffset <;> cases hasSn <;> decide

variable {dcfg : PdcpDlConfig}

/-- The receiver follows the part with one frame to a PDU with its ring only. -/
theorem feedOnes (hf : WrapFrames q frames) (hq : q ≤ 291)
    (w : Sent frames (wrapPieces q) (65537, 0)) (hseg : dcfg.allowSegmentation = true)
    (hre : dcfg.allowReordering = true) (hR : 512 ≤ dcfg.reorderSize) (n : Nat)
    (hn : n ≤ 65536 - q) :
    ∃ d oks, dlFeed (PdcpDl.init dcfg) ((List.range n).map (onePdu dcfg.layout)) =
        some (d, oks) ∧ d.config = dcfg ∧
      Exact w n (recvOf w ((List.range' 0 n).map onePiece)) d ∧
      RingOnly dcfg.reorderSize d := by
  induction n with
  | zero =>
      exact ⟨_, _, rfl, rfl, Exact.init w hre, List.length_replicate, rfl⟩
  | succ n ih =>
      obtain ⟨d, oks, hfeed, hcfg, hexact, hring⟩ := ih (by omega)
      have hone := hf.one n (by omega)
      have hdone := emits_ones hf n 0 (by omega)
      have hstep := emits_ones hf 1 n (by omega)
      rw [Nat.zero_add] at hdone
      have hps := wrapPieces_split (q := q) (k := n) (by omega)
      have hmem : ∀ p ∈ [onePiece n], p ∈ wrapPieces q := by
        intro p hp
        rw [hps]
        exact List.mem_append_left _ (List.mem_append_right _ hp)
      obtain ⟨hexact', hring'⟩ := hexact.pdu (by decide)
        (Exact.stepSafe_ring hR (by
          intro p hp i hi hlt
          rw [List.mem_singleton.mp hp] at hlt
          exact absurd hi (Nat.not_le.mpr hlt)))
        RingOnly.flushStep hdone hstep (emits_rest hf hq hn) hps rfl
        (by rw [hcfg, hseg]; intro h; cases h) (by simp) hring
      have hcall := onPdcpData_pieces w hexact.reord hmem (List.cons_ne_nil _ _)
        (by rw [pduOf_onePiece hone]; exact onePdu_length_le _ _)
      rw [pduOf_onePiece hone, hcfg] at hcall
      refine ⟨_, oks ++ [true], ?_, ?_, ?_, hring'⟩
      · rw [List.range_succ, List.map_append, dlFeed_append, hfeed, Option.bind_some,
          List.map_singleton, dlFeed, hcall]
        rfl
      · rw [PdcpDl.flush_config, PdcpDl.foldl_rxSeg_config, hcfg]
      · rw [List.range'_1_concat, List.map_append, Nat.zero_add]
        exact hexact'

/-- The slot of frame `65536 - q + s`. -/
theorem wrap_slot {R s : Nat} (hq : 65536 % R = q) (hs : s < R) :
    (65536 - q + s) % R = s := by
  have hdiv := Nat.div_add_mod 65536 R
  rw [show 65536 - q + s = R * (65536 / R) + s by omega, Nat.mul_add_mod,
    Nat.mod_eq_of_lt hs]

/-- The one-byte frames of the long frame's first PDU have slots of their own. -/
theorem wrap_slots {R : Nat} (hR : 512 ≤ R) (hq₁ : 65536 % R = q) (hq : q ≤ 291) :
    ∀ p ∈ (List.range' (65536 - q) q).map onePiece, ∀ i, 65536 - q ≤ i → i < p.frame →
      p.frame < i + 292 → i % 65536 % R ≠ p.frame % 65536 % R := by
  intro p hp i hi hlt _
  obtain ⟨t, ht, rfl⟩ := List.mem_map.mp hp
  obtain ⟨hlo, hhi⟩ := List.mem_range'_1.mp ht
  change i < t at hlt
  show i % 65536 % R ≠ t % 65536 % R
  rw [Nat.mod_eq_of_lt (show i < 65536 by omega),
    Nat.mod_eq_of_lt (show t < 65536 by omega)]
  have hi' := wrap_slot hq₁ (show i - (65536 - q) < R by omega)
  have ht' := wrap_slot hq₁ (show t - (65536 - q) < R by omega)
  rw [show 65536 - q + (i - (65536 - q)) = i by omega] at hi'
  rw [show 65536 - q + (t - (65536 - q)) = t by omega] at ht'
  omega

/-- Frame `65536 - q` has slot 0 when the long frame begins. -/
theorem slot_of_first {w : Sent frames (wrapPieces q) (65537, 0)} (hq₀ : 1 ≤ q)
    (hq : q ≤ 291) (hR : 512 ≤ dcfg.reorderSize) (hq₁ : 65536 % dcfg.reorderSize = q)
    {recv : Nat → Finset Nat} {d : PdcpDl} (hring : RingOnly dcfg.reorderSize d)
    (hexact : Exact w (65536 - q) recv d) (hrecv : recv (65536 - q) ≠ ∅) :
    ∃ slot, d.reorderRing[d.slotIndex 0]? = some slot ∧ slot.valid = true ∧
      slot.sn ≠ 0 := by
  have hcur := hexact.present _ (Nat.le_refl _) hrecv
  have hov : d.overflowOf ((65536 - q) % 65536) = none := by
    unfold PdcpDl.overflowOf
    rw [hring.2]
    rfl
  unfold PdcpDl.current at hcur
  rw [hov, Option.or_none] at hcur
  unfold PdcpDl.slotOf at hcur
  have hindex : d.slotIndex ((65536 - q) % 65536) = d.slotIndex 0 := by
    rw [hring.slotIndex hR, hring.slotIndex hR, Nat.zero_mod,
      Nat.mod_eq_of_lt (show 65536 - q < 65536 by omega)]
    exact wrap_slot hq₁ (show 0 < dcfg.reorderSize by omega)
  rw [hindex] at hcur
  split at hcur
  · rename_i slot hslot
    split at hcur
    · rename_i hv
      rw [Bool.and_eq_true, beq_iff_eq] at hv
      refine ⟨slot, hslot, hv.1, ?_⟩
      rw [hv.2, Nat.mod_eq_of_lt (by omega)]
      omega
    · exact absurd rfl hcur
  · exact absurd rfl hcur

/-- The ring keeps its size and the overflow deque a state for number 0. -/
def InOverflow (R : Nat) (d : PdcpDl) : Prop :=
  d.reorderRing.length = R ∧ d.overflowOf 0 ≠ none

theorem InOverflow.flushStep {R : Nat} {d d' : PdcpDl} (h : InOverflow R d)
    (hne : 0 ≠ d.nextExpectedSn) (hstep : d.flushStep = some d') : InOverflow R d' := by
  refine ⟨?_, by rw [(PdcpDl.flushStep_other hstep hne).overflowOf]; exact h.2⟩
  rcases PdcpDl.flushStep_cases hstep with ⟨_, _, _, _, _, rfl⟩ | ⟨_, _, _, _, rfl⟩
  · dsimp only
    rw [List.length_set]
    exact h.1
  · exact h.1

/-- A segment of number 0 that finds slot 0 taken goes to the overflow deque. -/
theorem InOverflow.of_taken {R : Nat} {d : PdcpDl} (hre : d.config.allowReordering = true)
    (hring : RingOnly R d) {slot : Slot} (hslot : d.reorderRing[d.slotIndex 0]? = some slot)
    (hvalid : slot.valid = true) (hsn : slot.sn ≠ 0) (offset : Nat) (last : Bool)
    (payload : List (Option UInt8)) :
    InOverflow R (d.rxSegment 0 offset last payload) := by
  rcases d.rxSegment_cases hre 0 offset last payload with
    ⟨slot', hslot', hown, _⟩ | ⟨_, ⟨i, hi, _⟩ | ⟨_, heq⟩⟩
  · rw [hslot] at hslot'
    obtain rfl := Option.some.inj hslot'
    exact absurd (hown hvalid) hsn
  · rw [hring.2] at hi
    exact absurd hi (Nat.not_lt_zero i)
  · rw [heq]
    refine ⟨hring.1, ?_⟩
    unfold PdcpDl.overflowOf
    dsimp only
    rw [hring.2]
    exact Option.some_ne_none _

/-- The pieces before the last one start their frames. -/
theorem offset_zero {p : Piece}
    (hp : p ∈ (List.range' 0 (65536 - q)).map onePiece ++ wrapFirst q) : p.offset = 0 := by
  have hones : ∀ k m, p ∈ (List.range' k m).map onePiece → p.offset = 0 := by
    intro k m h
    obtain ⟨t, _, rfl⟩ := List.mem_map.mp h
    rfl
  rcases List.mem_append.mp hp with h | h
  · exact hones _ _ h
  · rcases List.mem_append.mp h with h | h
    · exact hones _ _ h
    · rw [List.mem_singleton.mp h]

/-- After the long frame's first PDU the rest has been delivered, and the long
frame is in the overflow deque. -/
theorem feedFirst (hf : WrapFrames q frames) (hq₀ : 1 ≤ q) (hq : q ≤ 291)
    (w : Sent frames (wrapPieces q) (65537, 0)) (hseg : dcfg.allowSegmentation = true)
    (hR : 512 ≤ dcfg.reorderSize) (hq₁ : 65536 % dcfg.reorderSize = q) {d : PdcpDl}
    (hcfg : d.config = dcfg) (hring : RingOnly dcfg.reorderSize d)
    (hexact : Exact w (65536 - q)
      (recvOf w ((List.range' 0 (65536 - q)).map onePiece)) d) :
    Exact w 65536 (recvOf w ((List.range' 0 (65536 - q)).map onePiece ++ wrapFirst q))
        (((wrapFirst q).map (segOf frames)).foldl PdcpDl.rxSeg d).flushCompletedInOrder ∧
      InOverflow dcfg.reorderSize
        (((wrapFirst q).map (segOf frames)).foldl PdcpDl.rxSeg d).flushCompletedInOrder := by
  have hdone := emits_ones hf (65536 - q) 0 (by omega)
  have hones := emits_ones hf q (65536 - q) (by omega)
  have hfirst := emits_first hf hq
  rw [Nat.zero_add] at hdone
  have hfirst_mem : ∀ p ∈ wrapFirst q, p ∈ wrapPieces q := fun p hp =>
    List.mem_append_left _ (List.mem_append_right _ hp)
  have hones_mem : ∀ p ∈ (List.range' (65536 - q) q).map onePiece, p ∈ wrapPieces q :=
    fun p hp => hfirst_mem p (List.mem_append_left _ hp)
  have hwhole : d.config.allowSegmentation = false → ∀ p ∈ wrapPieces q, p.offset = 0 := by
    rw [hcfg, hseg]
    intro h
    cases h
  -- the one-byte frames of the PDU are stored in the ring
  obtain ⟨hexact₁, hring₁⟩ := Exact.foldl_rxSeg (by decide)
    (Exact.stepSafe_ring hR (wrap_slots hR hq₁ hq)) hdone hones rfl hones_mem hwhole
    (by rw [List.length_map, List.length_range']; omega) hexact hring
  have hrecv : recvOf w ((List.range' 0 (65536 - q)).map onePiece ++
      (List.range' (65536 - q) q).map onePiece) (65536 - q) ≠ ∅ := by
    have hp : onePiece (65536 - q) ∈ (List.range' (65536 - q) q).map onePiece :=
      List.mem_map_of_mem (List.mem_range'_1.mpr ⟨Nat.le_refl _, by omega⟩)
    obtain ⟨_, j, hj, _⟩ := mem_recvOf_piece w (hones_mem _ hp)
      (List.mem_append_right ((List.range' 0 (65536 - q)).map onePiece) hp)
    exact Finset.ne_empty_of_mem hj
  obtain ⟨slot, hslot, hvalid, hsn⟩ := slot_of_first hq₀ hq hR hq₁ hring₁ hexact₁ hrecv
  -- so the long frame finds slot 0 taken
  have hsafe : Exact.StepSafe w (65536 - q) 292 (fun _ => True) (wrapFirst q) :=
    Exact.stepSafe_whole (by decide)
      (fun p hp => offset_zero (List.mem_append_right _ hp)) (fun _ _ _ _ _ => trivial)
  obtain ⟨hexact₂, -⟩ := Exact.foldl_rxSeg (by decide) hsafe hdone hfirst rfl hfirst_mem
    hwhole
    (by rw [wrapFirst, List.length_append, List.length_map, List.length_range',
      List.length_singleton]; omega) hexact trivial
  have hover : InOverflow dcfg.reorderSize
      (((wrapFirst q).map (segOf frames)).foldl PdcpDl.rxSeg d) := by
    rw [wrapFirst, List.map_append, List.foldl_append, List.map_singleton,
      List.foldl_cons, List.foldl_nil]
    generalize he : List.foldl PdcpDl.rxSeg d (((List.range' (65536 - q) q).map
      onePiece).map (segOf frames)) = e at hexact₁ hring₁ hslot ⊢
    have hcfg₁ : e.config = d.config := by rw [← he, PdcpDl.foldl_rxSeg_config]
    rw [← hcfg₁] at hwhole
    obtain ⟨j, _, _, _, hrx⟩ := rxSeg_piece w hwhole
      (hfirst_mem _ (List.mem_append_right _ (List.mem_singleton.mpr rfl)))
      (show 65536 < frames.length by rw [hf.length]; decide)
    rw [hrx, if_pos hexact₁.reord]
    show InOverflow _ (e.rxSegment (65536 % 65536) _ _ _)
    rw [Nat.mod_self]
    exact InOverflow.of_taken hexact₁.reord hring₁ hslot hvalid hsn _ _ _
  exact hexact₂.flush (hdone.append hfirst) (emits_last hf hq) rfl (by dsimp only; omega)
    (by dsimp only; omega)
    (by
      intro m e e' hm hlt hnext he hs
      dsimp only at hlt
      exact he.flushStep (by omega) hs) hover

/-- The only frame in progress is in the overflow deque, so slot 0 is free. -/
theorem slotFree_zero (hf : WrapFrames q frames)
    {w : Sent frames (wrapPieces q) (65537, 0)} (hR : 512 ≤ dcfg.reorderSize) {d : PdcpDl}
    (hover : InOverflow dcfg.reorderSize d)
    (hexact : Exact w 65536
      (recvOf w ((List.range' 0 (65536 - q)).map onePiece ++ wrapFirst q)) d) :
    d.slotFree (65536 % 65536) = true := by
  obtain ⟨slot, hslot⟩ : ∃ slot, d.reorderRing[d.slotIndex 0]? = some slot := by
    refine ⟨_, List.getElem?_eq_getElem ?_⟩
    unfold PdcpDl.slotIndex
    rw [hover.1, if_pos (by omega)]
    exact Nat.mod_lt _ (by omega)
  unfold PdcpDl.slotFree
  rw [Nat.mod_self, hslot]
  dsimp only
  rw [Bool.not_eq_true']
  cases hv : slot.valid with
  | false => rfl
  | true =>
      obtain ⟨_, i, hi, hmod, hne, _⟩ := hexact.ring _ slot hslot hv
      obtain ⟨p, hp, rfl⟩ := recvOf_nonempty hne
      have hlt := (w.emits.mem_bounds (List.mem_append_left [wrapLast q] hp)).1
      rw [hf.length] at hlt
      have hsn : slot.sn = 0 := by omega
      obtain ⟨st, hst⟩ := Option.ne_none_iff_exists'.mp hover.2
      have hnone : d.slotOf 0 = none := hexact.alone _ (Exact.overflowOf_mem hst)
      unfold PdcpDl.slotOf at hnone
      rw [hslot] at hnone
      simp [hv, hsn] at hnone

/-- The rest of the long frame takes slot 0, so neither state is completed. -/
theorem feedLast (hf : WrapFrames q frames) (hq : q ≤ 291)
    (w : Sent frames (wrapPieces q) (65537, 0)) (hseg : dcfg.allowSegmentation = true)
    (hR : 512 ≤ dcfg.reorderSize) {d : PdcpDl} (hcfg : d.config = dcfg)
    (hover : InOverflow dcfg.reorderSize d)
    (hexact : Exact w 65536
      (recvOf w ((List.range' 0 (65536 - q)).map onePiece ++ wrapFirst q)) d) :
    (d.rxSeg (segOf frames (wrapLast q))).flushStep = none := by
  have hlast : wrapLast q ∈ wrapPieces q :=
    List.mem_append_right _ (List.mem_singleton.mpr rfl)
  have hlong : 65536 < frames.length := by rw [hf.length]; decide
  have hwhole : d.config.allowSegmentation = false → ∀ p ∈ wrapPieces q, p.offset = 0 := by
    rw [hcfg, hseg]
    intro h
    cases h
  obtain ⟨j, hj, hoff, _, hrx⟩ := rxSeg_piece w hwhole hlast hlong
  change 2041 - 7 * q = (w.cut 65536 hlong).offset j at hoff
  rw [hrx, if_pos hexact.reord]
  -- the first part of the frame is another piece
  have hbegin : (⟨65536, 0, 2041 - 7 * q⟩ : Piece) ∈ wrapFirst q :=
    List.mem_append_right _ (List.mem_singleton.mpr rfl)
  obtain ⟨_, j₀, hj₀, hoff₀⟩ := mem_recvOf_piece w
    (List.mem_append_left _ (List.mem_append_right _ hbegin)) hbegin
  change 0 = (w.cut 65536 hlong).offset j₀ at hoff₀
  refine split_stalls hexact ?_ hlong hj ⟨j₀, ((mem_recvOf w _ hlong j₀).mp hj₀).1, ?_⟩ ?_
    (slotFree_zero hf hR hover hexact)
  · exact Exact.inWindow_of_emits
      ((emits_ones hf (65536 - q) 0 (by omega)).append (by
        rw [Nat.zero_add]
        exact emits_first hf hq)) (by dsimp only; omega)
  · rintro rfl
    omega
  · intro hmem
    have hzero := offset_zero ((mem_recvOf w _ hlong j).mp hmem).2
    dsimp only at hzero
    omega

/-- In the run every frame but the last is completed. -/
theorem wrapRun_dl (hf : WrapFrames q frames) (hq₀ : 1 ≤ q) (hq : q ≤ 291)
    (hseg : dcfg.allowSegmentation = true) (hre : dcfg.allowReordering = true)
    (hR : 512 ≤ dcfg.reorderSize) (hq₁ : 65536 % dcfg.reorderSize = q)
    (hlen : ∀ pdu ∈ [pduOf dcfg.layout frames (wrapFirst q),
      pduOf dcfg.layout frames [wrapLast q]], pdu.length ≤ 2047) :
    ∃ d oks, dlFeed (PdcpDl.init dcfg)
        ((List.range (65536 - q)).map (onePdu dcfg.layout) ++
          [pduOf dcfg.layout frames (wrapFirst q),
            pduOf dcfg.layout frames [wrapLast q]]) = some (d, oks) ∧
      d.completedFrames.length = 65536 := by
  have w := wrapSent hf hq
  obtain ⟨d₀, oks, hfeed, hcfg₀, hexact₀, hring₀⟩ :=
    feedOnes hf hq w hseg hre hR (65536 - q) (Nat.le_refl _)
  obtain ⟨hexact₁, hover₁⟩ := feedFirst hf hq₀ hq w hseg hR hq₁ hcfg₀ hring₀ hexact₀
  have hcall₁ := onPdcpData_pieces w hexact₀.reord
    (fun p hp => List.mem_append_left _ (List.mem_append_right _ hp))
    (show wrapFirst q ≠ [] by unfold wrapFirst; simp)
    (by rw [hcfg₀]; exact hlen _ (List.mem_cons_self ..))
  have hcfg₁ := PdcpDl.flush_config
    (((wrapFirst q).map (segOf frames)).foldl PdcpDl.rxSeg d₀)
  rw [PdcpDl.foldl_rxSeg_config, hcfg₀] at hcfg₁
  generalize (((wrapFirst q).map (segOf frames)).foldl PdcpDl.rxSeg
    d₀).flushCompletedInOrder = d₁ at hexact₁ hover₁ hcall₁ hcfg₁
  have hstall := feedLast hf hq w hseg hR hcfg₁ hover₁ hexact₁
  have hcall₂ := onPdcpData_pieces w hexact₁.reord
    (fun p hp => List.mem_append_right _ hp) (List.cons_ne_nil (wrapLast q) [])
    (by rw [hcfg₁]; exact hlen _ (List.mem_cons_of_mem _ (List.mem_singleton.mpr rfl)))
  rw [List.map_singleton, List.foldl_cons, List.foldl_nil, PdcpDl.flush_of_none hstall]
    at hcall₂
  rw [hcfg₀] at hcall₁
  rw [hcfg₁] at hcall₂
  refine ⟨d₁.rxSeg (segOf frames (wrapLast q)), oks ++ [true, true], ?_, ?_⟩
  · rw [dlFeed_append, hfeed, Option.bind_some, dlFeed, hcall₁, Option.bind_some, dlFeed,
      hcall₂]
    rfl
  · unfold PdcpDl.rxSeg
    rw [(d₁.rxSegment_frame hexact₁.reord _ _ _ _).1, hexact₁.out, List.length_map,
      List.length_take, hf.length]
    rfl

end Receiver

/-! ## The exact condition -/

theorem wrapOps_ok {buffer : List UInt8} (hbuf : buffer.length = 2047) {q : Nat}
    (hq : q ≤ 291) : ∀ op ∈ wrapOps buffer q, OpOk 2047 op := by
  have hone : OpOk 2047 (.frame [0]) := by decide
  have hwrite : OpOk 2047 (.write buffer) := Nat.le_of_eq hbuf
  intro op hop
  rcases List.mem_append.mp hop with h | h
  · obtain ⟨l, hl, hmem⟩ := List.mem_flatten.mp h
    rw [(List.mem_replicate.mp hl).2] at hmem
    rcases List.mem_cons.mp hmem with rfl | hmem
    · exact hone
    · rw [List.mem_singleton.mp hmem]
      exact hwrite
  rcases List.mem_append.mp h with h | h
  · rw [(List.mem_replicate.mp h).2]
    exact hone
  · rcases List.mem_cons.mp h with rfl | h
    · exact (wrapFrames_spec hq).ok _
        (List.mem_append_right _ (List.mem_singleton.mpr rfl))
    · rcases List.mem_cons.mp h with rfl | h
      · exact hwrite
      · rw [List.mem_singleton.mp h]
        exact hwrite

/-- An uplink at the end of its frames has nothing outstanding. -/
theorem UlAt.outstanding_zero {cfg : PdcpUlConfig} {frames : List (List UInt8)}
    {u : PdcpUl} {n : Nat} (h : UlAt cfg frames (n, 0) u) (hn : frames.length = n) :
    u.getOutstandingBytes = 0 := by
  have hin := h.totalIn
  have hout := h.totalOut
  dsimp only at hout
  rw [← hn, List.take_length] at hout
  unfold PdcpUl.getOutstandingBytes
  split <;> omega

/-- A configuration that is not good loses a frame in some run. -/
theorem not_roundTrip_of_wrap {ucfg : PdcpUlConfig} {dcfg : PdcpDlConfig}
    (hseg : dcfg.allowSegmentation = true) (hre : dcfg.allowReordering = true)
    (hlayout : ucfg.layout = dcfg.layout) (hcommit : ucfg.minCommitSize ≤ 2047)
    (hR : 512 ≤ dcfg.reorderSize) (hq₀ : 1 ≤ 65536 % dcfg.reorderSize)
    (hq : 65536 % dcfg.reorderSize ≤ 291) : ¬ RoundTrip ucfg dcfg := by
  intro htrip
  have hflags : ucfg.allowSegmentation = true ∧ ucfg.allowReordering = true := by
    unfold PdcpUlConfig.layout PdcpDlConfig.layout at hlayout
    injection hlayout with hsn hoffset
    exact ⟨hoffset.trans hseg, hsn.trans hre⟩
  obtain ⟨buffer, hbuf⟩ : ∃ buffer : List UInt8, buffer.length = 2047 :=
    ⟨List.replicate 2047 0, List.length_replicate⟩
  generalize hqR : 65536 % dcfg.reorderSize = q at hq₀ hq
  have hops := wrapOps_ok hbuf hq
  have hf := wrapFrames_spec hq
  have hpushed := pushedFrames_wrapOps buffer (show q ≤ 65536 by omega)
  obtain ⟨hat, hpdus⟩ := wrapRun_ul hflags.1 hflags.2 hbuf hq₀ hq hcommit
  obtain ⟨u, d, oks, hrun, _, _, hall⟩ := htrip _ hops
  rw [linkRun_eq, hpdus, hlayout] at hrun
  -- the uplink keeps its PDUs within its buffers
  have hshort : ∀ pdu ∈ (ulRun { config := ucfg } (wrapOps buffer q)).2,
      pdu.length ≤ 2047 := by
    obtain ⟨pss, _, hul⟩ := ulRun_emits (show 2047 ≤ 32767 by decide) _ hops []
      (by simp) _ _ (UlAt.init ucfg)
    intro pdu hp
    rw [hul.pdus] at hp
    obtain ⟨ps, hps, rfl⟩ := List.mem_map.mp hp
    exact hul.length ps hps
  rw [hpdus, hlayout] at hshort
  obtain ⟨d', oks', hfeed, hlen⟩ := wrapRun_dl hf hq₀ hq hseg hre hR hqR
    (fun pdu hp => hshort pdu (List.mem_append_right _ hp))
  rw [hfeed, Option.map_some, Option.some.injEq, Prod.mk.injEq, Prod.mk.injEq] at hrun
  obtain ⟨rfl, rfl, rfl⟩ := hrun
  have hframes := hall (hat.outstanding_zero hf.length)
  rw [hframes, hpushed, List.length_map, hf.length] at hlen
  exact absurd hlen (by decide)

/-- The round trip holds for every run exactly when the configuration is good. -/
theorem roundTrip_iff {ucfg : PdcpUlConfig} {dcfg : PdcpDlConfig}
    (hseg : dcfg.allowSegmentation = ucfg.allowSegmentation)
    (hre : dcfg.allowReordering = ucfg.allowReordering)
    (hR : 512 ≤ dcfg.reorderSize) : RoundTrip ucfg dcfg ↔ GoodConfig ucfg dcfg := by
  refine ⟨fun htrip => ?_, roundTrip_of_good hseg hre hR⟩
  by_contra hbad
  unfold GoodConfig at hbad
  simp only [not_or, Bool.not_eq_false] at hbad
  obtain ⟨hs, hr, hcommit, hzero, hlarge⟩ := hbad
  refine not_roundTrip_of_wrap (hseg.trans hs) (hre.trans hr) ?_ (by omega) hR (by omega)
    (by omega) htrip
  unfold PdcpUlConfig.layout PdcpDlConfig.layout
  rw [hseg, hre]

/-- The default ring of 512 slots divides the sequence number space. -/
theorem roundTrip_iff_default :
    RoundTrip ⟨true, true, 7⟩ ⟨true, true, 512⟩ ↔
      GoodConfig ⟨true, true, 7⟩ ⟨true, true, 512⟩ :=
  roundTrip_iff rfl rfl (by decide)

/-- A ring of 771 slots leaves the remainder 1 and fails. -/
theorem not_roundTrip_771 : ¬ RoundTrip ⟨true, true, 7⟩ ⟨true, true, 771⟩ :=
  not_roundTrip_of_wrap rfl rfl rfl (by decide) (by decide) (by decide) (by decide)

end Winject.Pdcp
