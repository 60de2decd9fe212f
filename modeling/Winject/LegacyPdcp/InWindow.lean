import Winject.LegacyPdcp.Link
import Winject.LegacyPdcp.Reenable
import Winject.LegacyPdcp.Singles
import Winject.Pdcp.InOrder

/-!
# In-window delivery of the first PDCP

Numbers on the wire have 16 bits, packets are counted without wrapping: a PDU
knows the packet of its first segment, so every received segment has a packet
index (`indexOf`).  As long as the index stays within `max_sn_distance` of the
number of packets delivered so far (`inWindow`), the ring holds exactly the
packets of the window, each in a record of its own, and nothing is dropped.

## Main results

* `Window.rxSeg` — one segment.
* `inWindow_delivery` — a run.
* `old_duplicate_is_delivered` — why the index, and not its low 16 bits, counts.
-/

namespace Winject.LegacyPdcp

open Winject.Frames
open Winject.Lib.Reassembly
open Winject.Lib.Segmentation
open Winject.Pdcp

/-- The packet index of a segment with number `sn` in a PDU whose first segment
belongs to packet `first`. -/
def indexOf (first sn : Nat) : Nat := first + (sn + 65536 - first % 65536) % 65536

theorem indexOf_mod {first i : Nat} (hlo : first ≤ i) (hhi : i < first + 65536) :
    indexOf first (i % 65536) = i := by
  unfold indexOf
  omega

/-- The segment belongs to a packet between `rx_sn - (D + 1)` and `rx_sn + D`,
counted in packets, and the first segment to the first packet. -/
def inWindow (pdu : SentPdu) (d : PdcpRx) (sn : Nat) : Bool :=
  let i := indexOf pdu.first sn
  let n := d.toRxQueue.length
  (d.rxSnSynced || i == 0) && decide (i ≤ n + d.config.maxSnDistance) &&
    decide (n ≤ i + d.config.maxSnDistance + 1)

namespace PdcpRx

theorem rxBufferRingIndex_mod (n : Nat) :
    rxBufferRingIndex (n % 65536) = rxBufferRingIndex n := by
  apply Fin.ext
  show n % 65536 % 8192 = n % 8192
  omega

theorem rxBufferRingIndex_ne {i n : Nat} (hlo : n < i) (hhi : i < n + 8192) :
    rxBufferRingIndex i ≠ rxBufferRingIndex n := by
  intro h
  have hmod : i % 8192 = n % 8192 := congrArg Fin.val h
  omega

/-- Without fast-forward the loop of `update_rx_sn` goes on until the next number
is not complete. -/
theorem updateLoop_stops (d : PdcpRx) (sn : Nat) :
    (d.updateLoop sn false).current.isComplete = false := by
  induction d using updateLoop.induct sn false with
  | case1 d hmore ih =>
      rw [updateLoop_of_more hmore]
      exact ih
  | case2 d hstop =>
      rw [updateLoop_of_stop hstop]
      unfold updateStep at hstop ⊢
      by_cases hc : d.current.isComplete = true
      · rw [if_pos hc] at hstop
        exact absurd rfl hstop
      · rw [if_neg hc, if_neg (by decide)]
        rwa [Bool.not_eq_true] at hc

end PdcpRx

open PdcpRx

section Window

variable {packets : List (List UInt8)} {ps : List Piece} {pos : Nat × Nat}

/-- The receiver has delivered the first `n` packets and holds everything it got
of the others, which are at most `D` ahead. -/
structure Window (w : Sent packets ps pos) (D n : Nat) (recv : Nat → Finset Nat)
    (d : PdcpRx) : Prop where
  next : d.rxSn = n % 65536
  le : n ≤ packets.length
  ring : ∀ i (hi : i < packets.length), n ≤ i → i < n + 8192 →
    Holds (w.cut i hi) (recv i) (d.rxBufferRing (rxBufferRingIndex i)).asm
  idle : ∀ i, packets.length ≤ i → n ≤ i → i < n + 8192 →
    (d.rxBufferRing (rxBufferRingIndex i)).isComplete = false
  ahead : ∀ i, n + D < i → recv i = ∅
  behind : ∀ i (hi : i < packets.length), i < n →
    recv i = Finset.range (w.cut i hi).count
  out : d.toRxQueue.map (·.buffer) = (packets.take n).map (·.map some)
  rlf : d.rlfCount = 0

namespace Window

variable {w : Sent packets ps pos} {D n : Nat} {recv : Nat → Finset Nat} {d : PdcpRx}

theorem current_eq (h : Window w D n recv d) :
    d.current = d.rxBufferRing (rxBufferRingIndex n) := by
  unfold current
  rw [h.next, rxBufferRingIndex_mod]

theorem length_eq (h : Window w D n recv d) : d.toRxQueue.length = n := by
  have hlen := congrArg List.length h.out
  have hle := h.le
  rw [List.length_map, List.length_map, List.length_take] at hlen
  omega

/-- Packet `n` is complete: it is delivered and the window moves. -/
theorem deliver (h : Window w D n recv d) (hD : D < 8192)
    (hc : d.current.isComplete = true) : Window w D (n + 1) recv d.deliver := by
  have hcur := h.current_eq
  have hidx : rxBufferRingIndex d.rxSn = rxBufferRingIndex n := by
    rw [h.next, rxBufferRingIndex_mod]
  have hn : n < packets.length := by
    by_contra hge
    have hidle := h.idle n (by omega) (Nat.le_refl n) (by omega)
    rw [← hcur, hc] at hidle
    cases hidle
  have hhold := h.ring n hn (Nat.le_refl n) (by omega)
  rw [← hcur] at hhold
  have hasm : d.current.asm.isComplete = true := by
    rw [RxBufferInfo.asm_isComplete]
    exact hc
  have hring : d.deliver.rxBufferRing = Function.update d.rxBufferRing
      (rxBufferRingIndex n) { d.current.reset with buffer := [] } := by
    rw [← hidx]
    rfl
  -- the record of packet `n` is free for packet `n + 8192`
  have hother : ∀ i, n + 1 ≤ i → i < n + 8192 →
      d.deliver.rxBufferRing (rxBufferRingIndex i) = d.rxBufferRing (rxBufferRingIndex i) := by
    intro i hlo hhi
    rw [hring, Function.update_of_ne (rxBufferRingIndex_ne (by omega) hhi)]
  have hnew : d.deliver.rxBufferRing (rxBufferRingIndex (n + 8192)) =
      { d.current.reset with buffer := [] } := by
    have hsame : rxBufferRingIndex (n + 8192) = rxBufferRingIndex n := by
      apply Fin.ext
      show (n + 8192) % 8192 = n % 8192
      omega
    rw [hring, hsame, Function.update_self]
  exact
    { next := by
        show (d.rxSn + 1) % 65536 = (n + 1) % 65536
        rw [h.next]
        omega
      le := hn
      ring := by
        intro i hi hlo hhi
        by_cases hlast : i = n + 8192
        · subst hlast
          rw [hnew, h.ahead (n + 8192) (by omega)]
          exact Holds.empty _
        · rw [hother i hlo (by omega)]
          exact h.ring i hi (by omega) (by omega)
      idle := by
        intro i hi hlo hhi
        by_cases hlast : i = n + 8192
        · subst hlast
          rw [hnew]
          rfl
        · rw [hother i hlo (by omega)]
          exact h.idle i hi (by omega) (by omega)
      ahead := fun i hi => h.ahead i (by omega)
      behind := by
        intro i hi hlt
        by_cases hlast : i = n
        · subst hlast
          exact hhold.isComplete_iff.mp hasm
        · exact h.behind i hi (by omega)
      out := by
        show (d.toRxQueue ++ [_]).map _ = _
        rw [List.map_append, h.out, List.take_add_one, List.getElem?_eq_getElem hn,
          List.map_append]
        show _ ++ [d.current.buffer] = _
        have hbuf : d.current.buffer = (w.cut n hn).frame := hhold.buffer_eq hasm
        rw [hbuf, w.cut_frame, List.getD_eq_getElem?_getD, List.getElem?_eq_getElem hn]
        rfl
      rlf := h.rlf }

/-- A piece of a packet of the window goes into the record of its packet. -/
theorem store (h : Window w D n recv d) (hD : D < 8192) {i j : Nat}
    (hi : i < packets.length) (hj : j < (w.cut i hi).count) (hlo : n ≤ i) (hhi : i ≤ n + D)
    (sn : Nat) :
    Window w D n (Function.update recv i (insert j (recv i)))
      { d with
        rxBufferRing := Function.update d.rxBufferRing (rxBufferRingIndex i)
          ((d.rxBufferRing (rxBufferRingIndex i)).store sn ((w.cut i hi).offset j)
            ((w.cut i hi).isLast j) ((w.cut i hi).piece j)) } := by
  have hne : ∀ k, n ≤ k → k < n + 8192 → k ≠ i →
      rxBufferRingIndex k ≠ rxBufferRingIndex i := by
    intro k hk hk' hki
    rcases Nat.lt_or_gt_of_ne hki with hlt | hgt
    · exact (rxBufferRingIndex_ne hlt (by omega)).symm
    · exact rxBufferRingIndex_ne hgt (by omega)
  exact
    { next := h.next
      le := h.le
      ring := by
        intro k hk hk' hk''
        by_cases hki : k = i
        · subst hki
          dsimp only
          rw [Function.update_self, Function.update_self, RxBufferInfo.store_asm]
          exact (h.ring k hk hk' hk'').absorb (some 0) hj
        · dsimp only
          rw [Function.update_of_ne hki, Function.update_of_ne (hne k hk' hk'' hki)]
          exact h.ring k hk hk' hk''
      idle := by
        intro k hk hk' hk''
        dsimp only
        rw [Function.update_of_ne (hne k hk' hk'' (by omega))]
        exact h.idle k hk hk' hk''
      ahead := by
        intro k hk
        rw [Function.update_of_ne (by omega)]
        exact h.ahead k hk
      behind := by
        intro k hk hk'
        rw [Function.update_of_ne (by omega)]
        exact h.behind k hk hk'
      out := h.out
      rlf := h.rlf }

/-- The receiver is at the end of a call of `update_rx_sn`, or before the first
segment. -/
structure Rests (w : Sent packets ps pos) (D n : Nat) (recv : Nat → Finset Nat)
    (d : PdcpRx) : Prop extends Window w D n recv d where
  waits : d.current.isComplete = false
  synced : d.rxSnSynced = true ∨ n = 0

/-- Packets that are complete are delivered until the next one is not. -/
theorem updateLoop (h : Window w D n recv d) (hD : D < 8192) (hs : d.rxSnSynced = true)
    (sn : Nat) : ∃ n', Rests w D n' recv (d.updateLoop sn false) := by
  have hloop : (d.updateLoop sn false).rxSnSynced = true ∧
      ∃ n', Window w D n' recv (d.updateLoop sn false) := by
    apply updateLoop_rule (fun e => e.rxSnSynced = true ∧ ∃ n', Window w D n' recv e)
    · rintro e ⟨hs, n', hwin⟩ hc
      exact ⟨hs, n' + 1, hwin.deliver hD hc⟩
    · intro hff
      cases hff
    · exact ⟨hs, n, h⟩
  obtain ⟨hs', n', h'⟩ := hloop
  exact ⟨n', h', updateLoop_stops d sn, Or.inl hs'⟩

/-- A packet that was received in full gets nothing new. -/
theorem recv_again {i j : Nat} {c : Nat} (hfull : recv i = Finset.range c) (hj : j < c) :
    Function.update recv i (insert j (recv i)) = recv := by
  have hmem : j ∈ recv i := by
    rw [hfull]
    exact Finset.mem_range.mpr hj
  rw [Finset.insert_eq_of_mem hmem, Function.update_eq_self]

/-- The test for numbers behind `rx_sn`. -/
theorem isBefore_eq (h : Window w D n recv d) (hdist : d.config.maxSnDistance = D)
    (hD : D < 8192) {i : Nat} (hlo : n ≤ i + D + 1) (hhi : i ≤ n + D) :
    d.isBefore (i % 65536) = decide (i < n) := by
  have hnext := h.next
  unfold isBefore snDist
  rw [hnext, hdist]
  by_cases hlt : i < n
  · rw [decide_eq_true hlt, Bool.and_eq_true, decide_eq_true_eq, decide_eq_true_eq]
    split_ifs <;> omega
  · rw [decide_eq_false hlt, Bool.and_eq_false_iff, decide_eq_false_iff_not,
      decide_eq_false_iff_not]
    split_ifs <;> omega

/-- Numbers of the window are in range. -/
theorem isOutOfRange_eq (h : Window w D n recv d) (hdist : d.config.maxSnDistance = D)
    (hD : D < 8192) {i : Nat} (hlo : n ≤ i) (hhi : i ≤ n + D) :
    d.isOutOfRange (i % 65536) = false := by
  have hnext := h.next
  unfold isOutOfRange snDist
  rw [hnext, hdist, decide_eq_false_iff_not]
  split_ifs <;> omega

/-- Synchronising to the first packet does not move the window. -/
theorem Rests.sync (h : Rests w D n recv d) {i : Nat}
    (hfirst : d.rxSnSynced = true ∨ i = 0) :
    Rests w D n recv (d.sync (i % 65536)) ∧ (d.sync (i % 65536)).rxSnSynced = true ∧
      (d.sync (i % 65536)).rxBufferRing = d.rxBufferRing := by
  unfold PdcpRx.sync
  cases hs : d.rxSnSynced with
  | true => exact ⟨h, hs, rfl⟩
  | false =>
      have hi : i = 0 := hfirst.resolve_left (by rw [hs]; decide)
      have hn : n = 0 := h.synced.resolve_left (by rw [hs]; decide)
      have hsn : d.rxSn = 0 := by rw [h.next, hn]
      have hcur : ({ d with rxSnSynced := true, rxSn := i % 65536 } : PdcpRx).current =
          d.current := by
        unfold current
        dsimp only
        rw [hsn, hi]
      have hnext : i % 65536 = n % 65536 := by rw [hi, hn]
      exact ⟨⟨⟨hnext, h.le, h.ring, h.idle, h.ahead, h.behind, h.out, h.rlf⟩,
        hcur ▸ h.waits, Or.inl rfl⟩, rfl, rfl⟩

/-- Storing a segment of the window. -/
theorem Rests.storeSegment (h : Rests w D n recv d) (hsync : d.rxSnSynced = true)
    (hre : d.config.allowReordering = true) (hD : D < 8192) {i j : Nat}
    (hi : i < packets.length) (hj : j < (w.cut i hi).count) (hlo : n ≤ i) (hhi : i ≤ n + D) :
    ∃ n', Rests w D n' (Function.update recv i (insert j (recv i)))
      (d.storeSegment (i % 65536) ((w.cut i hi).offset j) ((w.cut i hi).isLast j)
        ((w.cut i hi).piece j) false) := by
  have hhold := h.ring i hi (by omega) (by omega)
  have hstored := h.store hD hi hj hlo hhi (i % 65536)
  unfold PdcpRx.storeSegment PdcpRx.updateRxSn
  dsimp only
  rw [rxBufferRingIndex_mod]
  simp only [hre, Bool.not_true, Bool.false_eq_true, if_false]
  split_ifs with hc hc'
  · have hfull := hhold.isComplete_iff.mp (by rw [RxBufferInfo.asm_isComplete]; exact hc)
    rw [recv_again hfull hj]
    exact ⟨n, h⟩
  · exact hstored.updateLoop hD hsync _
  · -- the packet is not complete yet, so the next one is not either
    refine ⟨n, hstored, ?_, Or.inl hsync⟩
    rw [hstored.current_eq]
    by_cases hin : i = n
    · subst hin
      dsimp only
      rw [Function.update_self]
      rwa [Bool.not_eq_true] at hc'
    · dsimp only
      rw [Function.update_of_ne (rxBufferRingIndex_ne (by omega) (by omega)).symm,
        ← h.current_eq]
      exact h.waits

/-- The body of the loop of `on_rx` on a segment of the window. -/
theorem Rests.rxSegment (h : Rests w D n recv d) (hre : d.config.allowReordering = true)
    (hdist : d.config.maxSnDistance = D) (hD : D < 8192) {i j : Nat}
    (hi : i < packets.length) (hj : j < (w.cut i hi).count)
    (hfirst : d.rxSnSynced = true ∨ i = 0) (hlo : n ≤ i + D + 1) (hhi : i ≤ n + D) :
    (∃ n', Rests w D n' (Function.update recv i (insert j (recv i)))
        (d.rxSegment (i % 65536) ((w.cut i hi).offset j) ((w.cut i hi).isLast j)
          ((w.cut i hi).piece j)).1) ∧
      (d.rxSegment (i % 65536) ((w.cut i hi).offset j) ((w.cut i hi).isLast j)
        ((w.cut i hi).piece j)).2 = true := by
  obtain ⟨hs, hsync, _⟩ := h.sync hfirst
  have hcfg : (d.sync (i % 65536)).config = d.config := by
    unfold PdcpRx.sync
    split_ifs <;> rfl
  have hbefore := hs.isBefore_eq (by rw [hcfg]; exact hdist) hD hlo hhi
  unfold PdcpRx.rxSegment
  dsimp only
  rw [hbefore]
  by_cases hlt : i < n
  · rw [decide_eq_true hlt, if_pos rfl, recv_again (hs.behind i hi hlt) hj]
    exact ⟨⟨n, hs⟩, rfl⟩
  · have hrange := hs.isOutOfRange_eq (by rw [hcfg]; exact hdist) hD (Nat.not_lt.mp hlt) hhi
    rw [decide_eq_false hlt, hrange]
    simp only [Bool.false_eq_true, if_false, Bool.false_and, and_true]
    exact hs.storeSegment hsync (by rw [hcfg]; exact hre) hD hi hj (by omega) hhi

/-- A packet that was received in full has been sent in full. -/
theorem sent_of_full {done : List Piece} (hdone : ∀ p ∈ done, p ∈ ps) {i : Nat}
    (hi : i < packets.length)
    (hfull : recvOf w done i = Finset.range (w.cut i hi).count) : i < pos.1 := by
  have hpos := (w.cut i hi).count_pos
  have hmem : (w.cut i hi).count - 1 ∈ recvOf w done i := by
    rw [hfull]
    exact Finset.mem_range.mpr (by omega)
  obtain ⟨_, hpiece⟩ := (mem_recvOf w done hi _).mp hmem
  refine w.emits.last_mem_lt (hdone _ hpiece) (beq_iff_eq.mpr ?_)
  have hend := (w.cut i hi).end_of_isLast (j := (w.cut i hi).count - 1) (by omega)
  rw [w.cut_frame, List.length_map] at hend
  exact hend

/-- A receiver that has got everything has delivered every packet that was sent
in full. -/
theorem Rests.all {done : List Piece} (h : Rests w D n (recvOf w done) d)
    (hpos : pos.1 ≤ packets.length) (hdone : ∀ p ∈ done, p ∈ ps)
    (hall : ∀ p ∈ ps, p ∈ done) : n = pos.1 := by
  have hle := h.le
  apply Nat.le_antisymm
  · rcases Nat.eq_zero_or_pos n with hzero | hsome
    · omega
    · have hlast := sent_of_full hdone (i := n - 1) (by omega)
        (h.behind (n - 1) (by omega) (by omega))
      omega
  · by_contra hlt
    rw [Nat.not_le] at hlt
    have hn : n < packets.length := by omega
    have hfull : recvOf w done n = Finset.range (w.cut n hn).count := by
      ext j
      rw [mem_recvOf w done hn, Finset.mem_range]
      exact ⟨fun hj => hj.1, fun hj => ⟨hj, hall _ (w.mem hn hlt hj)⟩⟩
    have hcomplete := (h.ring n hn (Nat.le_refl n) (by omega)).isComplete_iff.mpr hfull
    rw [RxBufferInfo.asm_isComplete, ← h.current_eq, h.waits] at hcomplete
    cases hcomplete

end Window

end Window

/-- The invariant of a run in the window. -/
structure WindowRun {packets : List (List UInt8)} {ps : List Piece} {pos : Nat × Nat}
    (w : Sent packets ps pos) (D : Nat) (done : List Piece) (d : PdcpRx) : Prop where
  rests : ∃ n, Window.Rests w D n (recvOf w done) d
  sub : ∀ p ∈ done, p ∈ ps

/-- **Delivery in the window is exact.**  A new receiver that gets every PDU of
the peer at least once, each segment within the window of packets, puts the
packets that the peer has sent in full on `to_rx_queue`, in order and once each,
and never reports a radio link failure. -/
theorem inWindow_delivery (tcfg : TxConfig) (rcfg : RxConfig) (hpair : Paired tcfg rcfg)
    (hD : rcfg.maxSnDistance < 8192) (ops : List TxOp)
    (hops : ∀ op ∈ ops, TxOpOk 32767 op) (dels : List Nat)
    (hall : ∀ k < (txRun tcfg ops).pdus.length, k ∈ dels)
    (hwin : rxRunAll inWindow (PdcpRx.enabled rcfg)
      (drawn (txRun tcfg ops).pdus dels) = true) :
    ∃ d, rxRun (PdcpRx.enabled rcfg)
        ((drawn (txRun tcfg ops).pdus dels).map SentPdu.bytes) = some d ∧
      d.toRxQueue.map (·.buffer) =
        ((txRun tcfg ops).packets.take ((txRun tcfg ops).packets.length -
          (txRun tcfg ops).tx.pendingPackets)).map (·.map some) ∧
      d.rlfCount = 0 := by
  obtain ⟨pss, pos, hsent⟩ := txRun_sent tcfg ops hops
  generalize hr : txRun tcfg ops = r at hsent hall hwin ⊢
  have hone : ∀ ps ∈ pss, ∀ p ∈ ps, ∀ (done : List Piece) (d : PdcpRx), d.config = rcfg →
      WindowRun hsent.sent rcfg.maxSnDistance done d →
      inWindow (sentPdu tcfg r.packets ps) d (p.frame % 65536) = true →
      WindowRun hsent.sent rcfg.maxSnDistance (done ++ [p])
          (d.rxSeg (segOf r.packets p)).1 ∧
        (d.rxSeg (segOf r.packets p)).2 = true := by
    intro ps hps p hp done d hcfg hinv hcond
    obtain ⟨⟨n, hn⟩, hsub⟩ := hinv
    have hmem := List.mem_flatten.mpr ⟨ps, hps, hp⟩
    have hi := hsent.frame_lt hps hp
    obtain ⟨hlo, hhi⟩ := hsent.index ps hps p hp
    obtain ⟨j, hj, hoff, hsize, hrx⟩ := hsent.rxSeg_piece hpair hcfg hmem hi
    unfold inWindow at hcond
    dsimp only at hcond
    rw [show (sentPdu tcfg r.packets ps).first = firstOf ps from rfl, indexOf_mod hlo hhi,
      hn.length_eq, hcfg] at hcond
    simp only [Bool.and_eq_true, Bool.or_eq_true, decide_eq_true_eq, beq_iff_eq] at hcond
    obtain ⟨⟨hfirst, hahead⟩, hbehind⟩ := hcond
    obtain ⟨⟨n', hn'⟩, hmore⟩ := hn.rxSegment (by rw [hcfg]; exact hpair.rx)
      (by rw [hcfg]) hD hi hj hfirst hbehind hahead
    rw [hrx]
    refine ⟨⟨⟨n', ?_⟩, ?_⟩, hmore⟩
    · rw [recvOf_snoc hsent.sent done hi hj hoff hsize]
      exact hn'
    · intro q hq
      rcases List.mem_append.mp hq with hq | hq
      · exact hsub q hq
      · rw [List.mem_singleton.mp hq]
        exact hmem
  have hinit : WindowRun hsent.sent rcfg.maxSnDistance [] (PdcpRx.enabled rcfg) := by
    refine ⟨⟨0, ⟨⟨rfl, Nat.zero_le _, ?_, fun _ _ _ _ => rfl, ?_, ?_, rfl, rfl⟩, rfl,
      Or.inr rfl⟩⟩, by simp⟩
    · intro i hi _ _
      have hnone : recvOf hsent.sent [] i = ∅ := by
        rw [recvOf, dif_pos hi]
        simp
      rw [hnone]
      exact Holds.empty _
    · intro i _
      unfold recvOf
      split <;> simp
    · intro i _ hlt
      omega
  obtain ⟨d, done, hrun, _, ⟨⟨n, hn⟩, hsub⟩, _, hgot⟩ := hsent.rxRun_rule hpair
    (fun ps hps p hp done d hcfg hinv hcond => (hone ps hps p hp done d hcfg hinv hcond).1)
    dels [] (PdcpRx.enabled rcfg) rfl rfl hinit hwin
  have hevery : ∀ p ∈ pss.flatten, p ∈ done := by
    intro p hp
    obtain ⟨ps, hps, hp⟩ := List.mem_flatten.mp hp
    obtain ⟨k, hk, hget⟩ := List.getElem_of_mem hps
    refine hgot (fun ps hps p hp done d hcfg hinv hcond =>
      (hone ps hps p hp done d hcfg hinv hcond).2) k (hall k ?_) ps ?_ p hp
    · rw [hsent.pdus, List.length_map]
      exact hk
    · rw [List.getElem?_eq_getElem hk, hget]
  obtain ⟨_, hat, _⟩ := hsent.state
  have hcount := hn.all hat.le hsub hevery
  refine ⟨d, hrun, ?_, hn.rlf⟩
  rw [hn.out, hcount, ← hsent.pending_eq]

/-- Two packets, the second one cut in two and its end received first. -/
theorem inWindow_delivery_reordered :
    let tcfg : TxConfig :=
      { allowSegmentation := true, allowReordering := true, minCommitSize := 7 }
    let rcfg : RxConfig := { allowSegmentation := true, allowReordering := true }
    let ops : List TxOp := [.submit [1], .submit [2, 3], .grant (List.replicate 7 0),
      .grant (List.replicate 7 0), .grant (List.replicate 7 0)]
    ∃ d, rxRun (PdcpRx.enabled rcfg)
        ((drawn (txRun tcfg ops).pdus [0, 2, 1, 0]).map SentPdu.bytes) = some d ∧
      d.toRxQueue.map (·.buffer) =
        ((txRun tcfg ops).packets.take ((txRun tcfg ops).packets.length -
          (txRun tcfg ops).tx.pendingPackets)).map (·.map some) ∧
      d.rlfCount = 0 :=
  inWindow_delivery _ _ ⟨rfl, rfl, rfl⟩ (by decide) _ (by decide) _
    (by decide +kernel) (by decide +kernel)

/-! ## A duplicate that is one round old -/

/-- The window on the numbers of the wire: between `rx_sn - (D + 1)` and
`rx_sn + D` modulo 65536. -/
def inWindowMod (d : PdcpRx) (sn : Nat) : Bool :=
  (d.rxSnSynced || sn == 0) &&
    decide ((sn + 65536 + (d.config.maxSnDistance + 1) - d.rxSn) % 65536 ≤
      2 * d.config.maxSnDistance + 1)

/-- The receiver has delivered `n` packets and holds nothing. -/
structure Ready (cfg : RxConfig) (n : Nat) (d : PdcpRx) : Prop where
  config : d.config = cfg
  enabled : d.isRxEnabled = true
  next : d.rxSn = n % 65536
  synced : d.rxSnSynced = true ∨ n = 0
  reset : d.AllReset
  count : d.toRxQueue.length = n

section Ready

variable {cfg : RxConfig} {n : Nat} {d : PdcpRx}

theorem Ready.init (cfg : RxConfig) : Ready cfg 0 (PdcpRx.enabled cfg) :=
  ⟨rfl, rfl, rfl, Or.inr rfl, fun _ => rfl, rfl⟩

/-- The next packet, in one segment, is delivered at once. -/
theorem Ready.rxSeg (h : Ready cfg n d) (hre : cfg.allowReordering = true) (b : UInt8) :
    Ready cfg (n + 1) (d.rxSeg ⟨n % 65536, 0, true, [b]⟩).1 ∧
      (d.rxSeg ⟨n % 65536, 0, true, [b]⟩).2 = true := by
  have hre' : d.config.allowReordering = true := by
    rw [h.config]
    exact hre
  have hnext : (d.sync (n % 65536)).rxSn = n % 65536 := by
    have := h.next
    unfold PdcpRx.sync
    split_ifs <;> first | rfl | exact this
  have hsync : (d.sync (n % 65536)).rxSnSynced = true := by
    unfold PdcpRx.sync
    split_ifs with hs
    · rfl
    · simpa using hs
  have hcfg : (d.sync (n % 65536)).config = cfg :=
    (SameFuture.sync_config d _).trans h.config
  have hoff : (if d.config.allowSegmentation then 0 else 0) = 0 := ite_self _
  obtain ⟨hcomp, _⟩ := store_onePacket (h.reset (rxBufferRingIndex (n % 65536))) (n % 65536)
    [some b]
  let e := (d.sync (n % 65536)).withPacket (n % 65536) [b]
  have hring : e.rxBufferRing = Function.update d.rxBufferRing (rxBufferRingIndex (n % 65536))
      ((d.rxBufferRing (rxBufferRingIndex (n % 65536))).store (n % 65536) 0 true [some b]) := by
    show Function.update (d.sync (n % 65536)).rxBufferRing _ _ = _
    rw [sync_ring]
    rfl
  have hidx : rxBufferRingIndex e.rxSn = rxBufferRingIndex (n % 65536) :=
    congrArg rxBufferRingIndex hnext
  have hloop : e.updateLoop (n % 65536) false = e.deliver := by
    apply updateLoop_one
    · unfold current
      rw [hidx, hring, Function.update_self]
      exact hcomp
    · intro j hj
      rw [hidx] at hj
      rw [hring, Function.update_of_ne hj, h.reset j]
      rfl
  have hseg : d.rxSeg ⟨n % 65536, 0, true, [b]⟩ = (e.deliver, true) := by
    have hrx := rxSegment_next hnext h.reset [b]
    unfold updateRxSn at hrx
    rw [show e.config.allowReordering = true by rw [show e.config = cfg from hcfg]; exact hre,
      Bool.not_true, if_neg (by decide), hloop] at hrx
    unfold PdcpRx.rxSeg
    dsimp only
    rw [if_pos hre', hoff]
    exact hrx
  rw [hseg]
  refine ⟨⟨hcfg, ?_, ?_, Or.inl hsync, ?_, ?_⟩, rfl⟩
  · show (d.sync (n % 65536)).isRxEnabled = true
    rw [← h.enabled]
    unfold PdcpRx.sync
    split_ifs <;> rfl
  · show ((d.sync (n % 65536)).rxSn + 1) % 65536 = (n + 1) % 65536
    rw [hnext]
    omega
  · intro j
    show Function.update e.rxBufferRing (rxBufferRingIndex e.rxSn) _ j = _
    by_cases hj : j = rxBufferRingIndex e.rxSn
    · subst hj
      rw [Function.update_self]
      show _ = (Function.update e.rxBufferRing (rxBufferRingIndex e.rxSn) _ _).reset
      rw [Function.update_self]
      rfl
    · rw [Function.update_of_ne hj]
      show _ = (Function.update e.rxBufferRing (rxBufferRingIndex e.rxSn) _ _).reset
      rw [Function.update_of_ne hj, hring, Function.update_of_ne (by rwa [hidx] at hj)]
      exact h.reset j
  · show ((d.sync (n % 65536)).toRxQueue ++ [_]).length = n + 1
    rw [sync_queue, List.length_append, h.count]
    rfl

/-- The PDU of a packet of one byte is one segment, which fits. -/
theorem singlePdu_encode {tcfg : TxConfig} {l : Layout} (hlayout : tcfg.layout = l) (b : UInt8)
    (n : Nat) :
    (singlePdu tcfg b n).bytes = encodeAll l [⟨n % 65536, 0, true, [b]⟩] ∧
      ∀ g ∈ [(⟨n % 65536, 0, true, [b]⟩ : Seg)], g.Fits l := by
  have hle := headerSize_le l
  constructor
  · rw [← hlayout, encodeAll_cons, encodeAll_nil, List.append_nil]
    rfl
  · intro g hg
    rw [List.mem_singleton.mp hg]
    exact ⟨Nat.mod_lt _ (by decide), Nat.succ_pos _,
      by show _ + 1 < 32768; omega, List.cons_ne_nil _ _⟩

/-- The PDU of a packet of one byte. -/
theorem onRx_single {tcfg : TxConfig} {d : PdcpRx} (hen : d.isRxEnabled = true)
    (hlayout : tcfg.layout = d.config.layout) (b : UInt8) (n : Nat) :
    d.onRx (singlePdu tcfg b n).bytes = some (d.rxSeg ⟨n % 65536, 0, true, [b]⟩).1 := by
  obtain ⟨henc, hfits⟩ := singlePdu_encode hlayout b n
  rw [henc, d.onRx_encodeAll _ (List.cons_ne_nil _ _) hen hfits, rxSegs, rxSegs, ite_self]

/-- PDUs with the bytes of one packet after the other, whatever packets they
were made for. -/
theorem Ready.run {tcfg : TxConfig} (hpair : Paired tcfg cfg) (h : Ready cfg n d)
    (b : UInt8) (pdus : List SentPdu)
    (hbytes : pdus.map SentPdu.bytes =
      (List.range' n pdus.length).map (fun t => (singlePdu tcfg b t).bytes)) :
    rxRunAll (fun _ => inWindowMod) d pdus = true ∧
      ∃ d', rxRun d (pdus.map SentPdu.bytes) = some d' ∧ Ready cfg (n + pdus.length) d' := by
  induction pdus generalizing n d with
  | nil => exact ⟨rfl, d, rfl, h⟩
  | cons pdu pdus ih =>
      rw [List.map_cons, List.length_cons, List.range'_succ, List.map_cons] at hbytes
      obtain ⟨hpdu, hrest⟩ := List.cons.inj hbytes
      have hlayout : tcfg.layout = d.config.layout := by rw [hpair.layout, h.config]
      obtain ⟨henc, hfits⟩ := singlePdu_encode hlayout b n
      obtain ⟨hready, -⟩ := h.rxSeg hpair.rx b
      have hcall := onRx_single h.enabled hlayout b n
      rw [← hpdu] at henc hcall
      have hcond : inWindowMod d (n % 65536) = true := by
        have hnext := h.next
        unfold inWindowMod
        rw [hnext, Bool.and_eq_true, decide_eq_true_eq, Bool.or_eq_true, beq_iff_eq]
        refine ⟨?_, by omega⟩
        rcases h.synced with hs | hzero
        · exact Or.inl hs
        · exact Or.inr (by rw [hzero])
      have hloop : d.rxLoopAll inWindowMod pdu.bytes = true := by
        rw [henc, rxLoopAll_encodeAll _ _ _ hfits]
        unfold rxSegsAll
        rw [h.config, if_pos hpair.rx, hcond]
        split_ifs <;> rfl
      obtain ⟨hall, d', hrun, hready'⟩ := ih hready hrest
      refine ⟨?_, d', ?_, ?_⟩
      · rw [rxRunAll, hloop, hcall, Option.all_some]
        exact hall
      · rw [List.map_cons, rxRun, hcall, Option.bind_some]
        exact hrun
      · rw [List.length_cons, show n + (pdus.length + 1) = n + 1 + pdus.length by omega]
        exact hready'

/-- The settings of the run below. -/
def roundConfig : TxConfig :=
  { allowSegmentation := true, allowReordering := true, minCommitSize := 7 }

/-- Its receiver. -/
def roundReceiver : RxConfig := { allowSegmentation := true, allowReordering := true }

/-- `n` packets of one byte, each in a PDU of its own. -/
def roundOps (n : Nat) : List TxOp :=
  (List.replicate n (singleOp (List.replicate 7 0) 0)).flatten

/-- The packets and the PDUs of such a run. -/
theorem round_run (n : Nat) :
    (txRun roundConfig (roundOps n)).packets = List.replicate n [0] ∧
      (txRun roundConfig (roundOps n)).pdus = (List.range n).map (singlePdu roundConfig 0) := by
  have hc : SinglesConfig roundConfig (List.replicate 7 0) :=
    ⟨rfl, rfl, by decide, by decide, by decide, by decide⟩
  obtain ⟨_, hpackets, hpdus⟩ := (Idle.init roundConfig).singles hc 0 n
  rw [List.range_eq_range']
  exact ⟨hpackets, hpdus⟩

/-- What is drawn of its PDUs. -/
theorem round_drawn {n : Nat} {ks : List Nat} (h : ∀ k ∈ ks, k < n) :
    drawn (txRun roundConfig (roundOps n)).pdus ks = ks.map (singlePdu roundConfig 0) := by
  have hpdus := (round_run n).2
  unfold drawn
  rw [← List.filterMap_eq_map]
  apply List.filterMap_congr
  intro k hk
  rw [hpdus, List.getElem?_map, List.getElem?_range (h k hk)]
  rfl

/-- What the peer has done after a round of the sequence numbers, and how the
receiver takes PDU 0 then. -/
theorem round_again {n : Nat} (hn : n = 65536) :
    (∀ op ∈ roundOps n, TxOpOk 32767 op) ∧
      (txRun roundConfig (roundOps n)).packets.length = n ∧
      (∀ k < (txRun roundConfig (roundOps n)).pdus.length, k ∈ List.range n ++ [0]) ∧
      rxRunAll (fun _ => inWindowMod) (PdcpRx.enabled roundReceiver)
        (drawn (txRun roundConfig (roundOps n)).pdus (List.range n ++ [0])) = true ∧
      ∃ d, rxRun (PdcpRx.enabled roundReceiver)
          ((drawn (txRun roundConfig (roundOps n)).pdus
            (List.range n ++ [0])).map SentPdu.bytes) = some d ∧
        d.toRxQueue.length = n + 1 := by
  obtain ⟨hpackets, hpdus⟩ := round_run n
  have hlen : (txRun roundConfig (roundOps n)).pdus.length = n := by
    rw [hpdus, List.length_map, List.length_range]
  have hdrawn : drawn (txRun roundConfig (roundOps n)).pdus (List.range n ++ [0]) =
      (List.range n).map (singlePdu roundConfig 0) ++ [singlePdu roundConfig 0 0] := by
    rw [round_drawn, List.map_append, List.map_singleton]
    intro k hk
    rcases List.mem_append.mp hk with hin | hzero
    · exact List.mem_range.mp hin
    · rw [List.mem_singleton.mp hzero]
      omega
  have hbytes : ((List.range n).map (singlePdu roundConfig 0) ++
      [singlePdu roundConfig 0 0]).map SentPdu.bytes =
      (List.range' 0 (n + 1)).map (fun t => (singlePdu roundConfig 0 t).bytes) := by
    have hwrap : (singlePdu roundConfig 0 0).bytes = (singlePdu roundConfig 0 n).bytes := by
      unfold singlePdu
      rw [hn]
    rw [← List.range_eq_range', List.range_succ, List.map_append, List.map_append,
      List.map_map, List.map_singleton, List.map_singleton, hwrap]
    rfl
  have hlist : ((List.range n).map (singlePdu roundConfig 0) ++
      [singlePdu roundConfig 0 0]).length = n + 1 := by
    rw [List.length_append, List.length_map, List.length_range, List.length_singleton]
  obtain ⟨hall, d, hrx, hready⟩ := (Ready.init roundReceiver).run
    (⟨rfl, rfl, rfl⟩ : Paired roundConfig roundReceiver) 0 _ (by rw [hlist]; exact hbytes)
  refine ⟨?_, ?_, ?_, ?_, d, ?_, ?_⟩
  · exact singles_ok (by decide) n
  · rw [hpackets, List.length_replicate]
  · intro k hk
    rw [hlen] at hk
    exact List.mem_append_left _ (List.mem_range.mpr hk)
  · rw [hdrawn]
    exact hall
  · rw [hdrawn]
    exact hrx
  · rw [hready.count, hlist, Nat.zero_add]

end Ready

/-- After a round of 65536 packets a duplicate of the first PDU has the number
that is expected next: it is in the window modulo 65536 and delivered again. -/
theorem old_duplicate_is_delivered :
    (∀ op ∈ roundOps 65536, TxOpOk 32767 op) ∧
      (txRun roundConfig (roundOps 65536)).packets.length = 65536 ∧
      (∀ k < (txRun roundConfig (roundOps 65536)).pdus.length, k ∈ List.range 65536 ++ [0]) ∧
      rxRunAll (fun _ => inWindowMod) (PdcpRx.enabled roundReceiver)
        (drawn (txRun roundConfig (roundOps 65536)).pdus (List.range 65536 ++ [0])) = true ∧
      ∃ d, rxRun (PdcpRx.enabled roundReceiver)
          ((drawn (txRun roundConfig (roundOps 65536)).pdus
            (List.range 65536 ++ [0])).map SentPdu.bytes) = some d ∧
        d.toRxQueue.length = 65537 :=
  round_again rfl

end Winject.LegacyPdcp
