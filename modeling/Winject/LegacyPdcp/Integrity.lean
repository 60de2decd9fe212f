import Winject.LegacyPdcp.Link
import Winject.LegacyPdcp.Reenable
import Winject.LegacyPdcp.Singles

/-!
# What the receiver of the first PDCP delivers

The records of the reassembly ring have no sequence number, and two packets
whose numbers differ by 8192 share one.  A reset keeps the buffer.  So a record
delivers a packet as it was submitted only if every segment that is stored finds
its record either with segments of the same packet or empty, with no more bytes
left over than the packet has (`StoresClean`).

## Main results

* `RingOk.rxSeg` — one segment of the peer.
* `delivered_intact` — a whole session.
-/

namespace Winject.LegacyPdcp

open Winject.Frames
open Winject.Lib.Reassembly
open Winject.Lib.Segmentation
open Winject.Pdcp

namespace PdcpRx

/-- The segment passes the tests of `on_rx` in front of the store. -/
def accepts (d : PdcpRx) (sn : Nat) : Bool :=
  !(d.sync sn).isBefore sn && !((d.sync sn).isOutOfRange sn && d.config.allowRlf) &&
    !(d.rxBufferRing (rxBufferRingIndex sn)).isComplete

/-- The record of `sn` has segments of packet `sn` only, or none and at most as
many bytes left over as that packet has. -/
def recordFits (packets : List (List UInt8)) (d : PdcpRx) (sn : Nat) : Bool :=
  let el := d.rxBufferRing (rxBufferRingIndex sn)
  if el.hasData then el.sn == sn
  else decide (el.buffer.length ≤ (packets.getD sn []).length)

/-- A segment that is stored finds its record fit for its packet. -/
def storesClean (packets : List (List UInt8)) (d : PdcpRx) (sn : Nat) : Bool :=
  !d.accepts sn || d.recordFits packets sn

end PdcpRx

section Integrity

variable {packets : List (List UInt8)} {ps : List Piece} {pos : Nat × Nat}

/-- The record is reset, or it holds pieces of the packet it is numbered with. -/
def RecordOk (w : Sent packets ps pos) (el : RxBufferInfo) : Prop :=
  el = el.reset ∨
    el.hasData = true ∧ ∃ (hi : el.sn < packets.length) (got : Finset Nat),
      Holds (w.cut el.sn hi) got el.asm

/-- All records are in order, and what the session put on the queue behind `old`
are submitted packets. -/
structure RingOk (w : Sent packets ps pos) (old : List RxPacket) (d : PdcpRx) : Prop where
  ring : ∀ i, RecordOk w (d.rxBufferRing i)
  queue : ∃ new, d.toRxQueue = old ++ new ∧
    ∀ q ∈ new, ∃ packet ∈ packets, q.buffer = packet.map some

theorem RecordOk.of_reset (w : Sent packets ps pos) {el : RxBufferInfo}
    (h : el = el.reset) : RecordOk w el := Or.inl h

/-- A complete record is the packet it is numbered with. -/
theorem RecordOk.packet {w : Sent packets ps pos} {el : RxBufferInfo} (h : RecordOk w el)
    (hc : el.isComplete = true) : ∃ packet ∈ packets, el.buffer = packet.map some := by
  rcases h with hreset | ⟨_, hi, got, hold⟩
  · rw [hreset] at hc
    cases hc
  · have hbuf := hold.buffer_eq (by rw [RxBufferInfo.asm_isComplete]; exact hc)
    refine ⟨packets.getD el.sn [], ?_, hbuf⟩
    rw [List.getD_eq_getElem?_getD, List.getElem?_eq_getElem hi]
    exact List.getElem_mem hi

/-- A piece of packet `i` goes into a record that is fit for it. -/
theorem RecordOk.store {w : Sent packets ps pos} {el : RxBufferInfo} (h : RecordOk w el)
    {i j : Nat} (hi : i < packets.length) (hj : j < (w.cut i hi).count)
    (hdata : el.hasData = true → el.sn = i)
    (hroom : el.hasData = false → el.buffer.length ≤ (packets.getD i []).length) :
    RecordOk w (el.store i ((w.cut i hi).offset j) ((w.cut i hi).isLast j)
      ((w.cut i hi).piece j)) := by
  have hgot : ∃ got, Holds (w.cut i hi) got el.asm := by
    rcases h with hreset | ⟨hd, hi', got, hold⟩
    · refine ⟨∅, Holds.of_reset _ _ ?_ ?_ ?_ ?_⟩
      · show el.recvdOffsets = []
        rw [hreset]
        rfl
      · show el.accumulatedSize = 0
        rw [hreset]
        rfl
      · show (if el.hasExpectedSize then some el.expectedSize else none) = none
        rw [hreset]
        rfl
      · rw [w.cut_frame, List.length_map]
        exact hroom (by rw [hreset]; rfl)
    · have hsn := hdata hd
      subst hsn
      exact ⟨got, hold⟩
  obtain ⟨got, hold⟩ := hgot
  have habs := hold.absorb (some 0) hj
  rw [← RxBufferInfo.store_asm el i] at habs
  have hsn := el.store_sn i ((w.cut i hi).offset j) ((w.cut i hi).isLast j)
    ((w.cut i hi).piece j)
  refine Or.inr ⟨?_, ?_⟩
  · have hmem := (habs.offset_mem_iff hj).mpr (Finset.mem_insert_self j got)
    unfold RxBufferInfo.hasData
    rw [Bool.not_eq_true', List.isEmpty_eq_false_iff]
    exact List.ne_nil_of_mem hmem
  · generalize el.store i ((w.cut i hi).offset j) ((w.cut i hi).isLast j)
      ((w.cut i hi).piece j) = el' at habs hsn ⊢
    subst hsn
    exact ⟨hi, _, habs⟩

namespace RingOk

variable {w : Sent packets ps pos} {old : List RxPacket} {d : PdcpRx}

/-- Writing a record that is in order. -/
theorem update (h : RingOk w old d) (i : Fin 8192) {el : RxBufferInfo} (hel : RecordOk w el) :
    ∀ k, RecordOk w (Function.update d.rxBufferRing i el k) := by
  intro k
  by_cases hk : k = i
  · subst hk
    rw [Function.update_self]
    exact hel
  · rw [Function.update_of_ne hk]
    exact h.ring k

theorem deliver (h : RingOk w old d) (hc : d.current.isComplete = true) :
    RingOk w old d.deliver where
  ring := h.update _ (.of_reset w rfl)
  queue := by
    obtain ⟨new, hnew, hall⟩ := h.queue
    refine ⟨new ++ [⟨d.current.sn, d.current.buffer⟩], ?_, ?_⟩
    · show d.toRxQueue ++ _ = _
      rw [hnew, List.append_assoc]
    · intro q hq
      rcases List.mem_append.mp hq with hq | hq
      · exact hall q hq
      · rw [List.mem_singleton.mp hq]
        exact (h.ring _).packet hc

theorem drop (h : RingOk w old d) : RingOk w old d.drop where
  ring := h.update _ (.of_reset w rfl)
  queue := h.queue

theorem storeSegment (h : RingOk w old d) (hre : d.config.allowReordering = true)
    {sn offset : Nat} {last : Bool} {payload : List (Option UInt8)} {ff : Bool}
    (hstore : (d.rxBufferRing (PdcpRx.rxBufferRingIndex sn)).isComplete = false →
      RecordOk w ((d.rxBufferRing (PdcpRx.rxBufferRingIndex sn)).store sn offset last
        payload)) :
    RingOk w old (d.storeSegment sn offset last payload ff) := by
  unfold PdcpRx.storeSegment PdcpRx.updateRxSn
  dsimp only
  rw [hre]
  split_ifs with hc hc'
  · exact h
  · contradiction
  · apply PdcpRx.updateLoop_rule (RingOk w old) (fun e he => he.deliver) (fun _ e he _ => he.drop)
    exact ⟨h.update _ (hstore (by rwa [Bool.not_eq_true] at hc)), h.queue⟩
  · exact ⟨h.update _ (hstore (by rwa [Bool.not_eq_true] at hc)), h.queue⟩

theorem sync (h : RingOk w old d) (sn : Nat) : RingOk w old (d.sync sn) := by
  unfold PdcpRx.sync
  split_ifs
  · exact ⟨h.ring, h.queue⟩
  · exact h

/-- The body of the loop of `on_rx` on a segment that finds its record fit. -/
theorem rxSegment (h : RingOk w old d) (hre : d.config.allowReordering = true)
    {i j : Nat} (hi : i < packets.length) (hj : j < (w.cut i hi).count)
    (hclean : d.storesClean packets i = true) :
    RingOk w old (d.rxSegment i ((w.cut i hi).offset j) ((w.cut i hi).isLast j)
      ((w.cut i hi).piece j)).1 := by
  have hcfg := PdcpRx.SameFuture.sync_config d i
  have hring : (d.sync i).rxBufferRing = d.rxBufferRing := by
    unfold PdcpRx.sync
    split_ifs <;> rfl
  unfold PdcpRx.rxSegment
  dsimp only
  split_ifs with hbefore hrlf
  · exact h.sync i
  · exact ⟨(h.sync i).ring, (h.sync i).queue⟩
  · apply (h.sync i).storeSegment (by rw [hcfg]; exact hre)
    rw [hring]
    intro hnone
    have haccept : d.accepts i = true := by
      unfold PdcpRx.accepts
      rw [hcfg] at hrlf
      rw [Bool.not_eq_true] at hbefore hrlf
      rw [hbefore, hrlf, hnone]
      rfl
    have hfits : d.recordFits packets i = true := by
      unfold PdcpRx.storesClean at hclean
      rwa [haccept, Bool.not_true, Bool.false_or] at hclean
    unfold PdcpRx.recordFits at hfits
    dsimp only at hfits
    refine (h.ring _).store hi hj ?_ ?_
    · intro hd
      rw [if_pos hd] at hfits
      exact beq_iff_eq.mp hfits
    · intro hd
      rw [if_neg (by rw [hd]; decide)] at hfits
      exact of_decide_eq_true hfits

end RingOk

end Integrity

/-- **Packets arrive as they were submitted.**  In a session in which every
segment that is stored finds its record fit for its packet, whatever the session
before left behind, each buffer put on `to_rx_queue` is a packet that the peer
took. -/
theorem delivered_intact (tcfg : TxConfig) (ops : List TxOp)
    (hops : ∀ op ∈ ops, TxOpOk 32767 op) (hfew : (txRun tcfg ops).packets.length < 65536)
    (d : PdcpRx) (hpair : Paired tcfg d.config) (dels : List Nat)
    (hclean : rxRunAll (fun _ => PdcpRx.storesClean (txRun tcfg ops).packets)
      (d.setRxEnabled true) (drawn (txRun tcfg ops).pdus dels) = true) :
    ∃ buffers, (d.setRxEnabled true).appended
        ((drawn (txRun tcfg ops).pdus dels).map SentPdu.bytes) = some buffers ∧
      ∀ b ∈ buffers, ∃ packet ∈ (txRun tcfg ops).packets, b = packet.map some := by
  obtain ⟨pss, pos, hsent⟩ := txRun_sent tcfg ops hops
  have hstep : PieceStep d.config (txRun tcfg ops).packets pss
      (fun _ => PdcpRx.storesClean (txRun tcfg ops).packets)
      (fun _ => RingOk hsent.sent d.toRxQueue) := by
    intro ps hps p hp done e hcfg hinv hcond
    have hi := hsent.frame_lt hps hp
    obtain ⟨j, hj, _, _, hrx⟩ := hsent.rxSeg_piece hpair hcfg
      (List.mem_flatten.mpr ⟨ps, hps, hp⟩) hi
    have hsn : p.frame % 65536 = p.frame := Nat.mod_eq_of_lt (by omega)
    rw [hrx, hsn]
    rw [hsn] at hcond
    exact hinv.rxSegment (by rw [hcfg]; exact hpair.rx) hi hj hcond
  have hinit : RingOk hsent.sent d.toRxQueue (d.setRxEnabled true) :=
    ⟨fun i => .of_reset _ rfl, [], (List.append_nil _).symm, by simp⟩
  obtain ⟨d', done', hrun, _, hinv, _⟩ := hsent.rxRun_rule hpair
    hstep dels [] (d.setRxEnabled true) rfl rfl hinit hclean
  obtain ⟨new, hnew, hall⟩ := hinv.queue
  refine ⟨new.map (·.buffer), ?_, ?_⟩
  · unfold PdcpRx.appended
    rw [hrun, Option.map_some, hnew, List.drop_left'
      (show d.toRxQueue.length = (d.setRxEnabled true).toRxQueue.length from rfl)]
  · intro b hb
    obtain ⟨q, hq, rfl⟩ := List.mem_map.mp hb
    exact hall q hq

/-- A packet in two segments, the first of them twice. -/
theorem delivered_intact_duplicate :
    let tcfg : TxConfig :=
      { allowSegmentation := true, allowReordering := true, minCommitSize := 7 }
    let rcfg : RxConfig := { allowSegmentation := true, allowReordering := true }
    let ops : List TxOp :=
      [.submit [1, 2, 3], .grant (List.replicate 8 0), .grant (List.replicate 8 0)]
    ∃ buffers, (({ config := rcfg } : PdcpRx).setRxEnabled true).appended
        ((drawn (txRun tcfg ops).pdus [0, 1, 0]).map SentPdu.bytes) = some buffers ∧
      ∀ b ∈ buffers, ∃ packet ∈ (txRun tcfg ops).packets, b = packet.map some :=
  delivered_intact _ _ (by decide) (by decide +kernel) _ ⟨rfl, rfl, rfl⟩ _
    (by decide +kernel)

/-! ## Two packets in one record -/

/-- A packet of two bytes in two PDUs, and `n` packets of one byte. -/
def aliasOps (n : Nat) : List TxOp :=
  [.submit [1, 2], .grant (List.replicate 7 0), .grant (List.replicate 7 0)] ++
    (List.replicate n (singleOp (List.replicate 7 0) 0)).flatten

/-- The configuration of their transmitter. -/
def aliasConfig : TxConfig :=
  { allowSegmentation := true, allowReordering := true, minCommitSize := 7 }

theorem aliasOps_ok (n : Nat) : ∀ op ∈ aliasOps n, TxOpOk 32767 op := by
  have hfirst : ∀ op ∈ ([.submit [1, 2], .grant (List.replicate 7 0),
      .grant (List.replicate 7 0)] : List TxOp), TxOpOk 32767 op := by decide
  intro op hop
  rcases List.mem_append.mp hop with hop | hop
  · exact hfirst op hop
  · exact singles_ok (by decide) n op hop

theorem aliasRun (n : Nat) :
    (txRun aliasConfig (aliasOps n)).packets = [1, 2] :: List.replicate n [0] ∧
      (txRun aliasConfig (aliasOps n)).pdus =
        ⟨0, encode aliasConfig.layout ⟨0, 0, false, [1]⟩⟩ ::
          ⟨0, encode aliasConfig.layout ⟨0, 1, true, [2]⟩⟩ ::
          (List.range' 1 n).map (singlePdu aliasConfig 0) := by
  let first : List TxOp :=
    [.submit [1, 2], .grant (List.replicate 7 0), .grant (List.replicate 7 0)]
  have hfirst : ∀ op ∈ first, TxOpOk 32767 op := by decide
  obtain ⟨pss, pos, hsent⟩ := txRun_sent aliasConfig first hfirst
  have hidle : Idle aliasConfig (txRun aliasConfig first) :=
    .of_sent hsent (by decide +kernel) (by decide +kernel)
  have hc : SinglesConfig aliasConfig (List.replicate 7 0) :=
    ⟨rfl, rfl, by decide, by decide, by decide, by decide⟩
  have hp : (txRun aliasConfig first).packets = [[1, 2]] := by decide +kernel
  have hq : (txRun aliasConfig first).pdus =
      [⟨0, encode aliasConfig.layout ⟨0, 0, false, [1]⟩⟩,
        ⟨0, encode aliasConfig.layout ⟨0, 1, true, [2]⟩⟩] := by decide +kernel
  have hrun : txRun aliasConfig (aliasOps n) = (List.replicate n
      (singleOp (List.replicate 7 0) 0)).flatten.foldl TxRun.step
        (txRun aliasConfig first) := by
    unfold txRun aliasOps
    rw [List.foldl_append]
  obtain ⟨_, hpackets, hpdus⟩ := hidle.singles hc 0 n
  rw [hrun]
  refine ⟨?_, ?_⟩
  · rw [hpackets, hp]
    rfl
  · rw [hpdus, hp, hq]
    rfl

/-- The receiver of the run. -/
def aliasReceiver : RxConfig :=
  { allowSegmentation := true, allowReordering := true, maxSnDistance := 8192 }

theorem alias_mix {r : TxRun} {n : Nat} (hn : n = 8192)
    (hpackets : r.packets = [1, 2] :: List.replicate n [0])
    (hpdus : r.pdus = ⟨0, encode aliasConfig.layout ⟨0, 0, false, [1]⟩⟩ ::
      ⟨0, encode aliasConfig.layout ⟨0, 1, true, [2]⟩⟩ ::
      (List.range' 1 n).map (singlePdu aliasConfig 0)) :
    r.packets.length < 65536 ∧
      (PdcpRx.enabled aliasReceiver).appended
        ((drawn r.pdus [0, 8193]).map SentPdu.bytes) = some [[some 1]] ∧
      [1] ∉ r.packets := by
  have hzero : r.pdus[0]? = some ⟨0, encode aliasConfig.layout ⟨0, 0, false, [1]⟩⟩ := by
    rw [hpdus, List.getElem?_cons_zero]
  have hlast : r.pdus[8193]? = some (singlePdu aliasConfig 0 8192) := by
    rw [hpdus, List.getElem?_cons_succ, List.getElem?_cons_succ, List.getElem?_map,
      List.getElem?_range' (by omega), Option.map_some]
  have hdrawn : drawn r.pdus [0, 8193] =
      [⟨0, encode aliasConfig.layout ⟨0, 0, false, [1]⟩⟩, singlePdu aliasConfig 0 8192] := by
    simp only [drawn, List.filterMap_cons, hzero, hlast, List.filterMap_nil]
  refine ⟨?_, ?_, ?_⟩
  · rw [hpackets, List.length_cons, List.length_replicate]
    omega
  · rw [hdrawn]
    decide +kernel
  · rw [hpackets, List.mem_cons, List.mem_replicate]
    rintro (heq | ⟨_, heq⟩)
    · cases heq
    · exact absurd heq (by decide)

/-- The first PDU and the one of packet 8192 meet in record 0: the receiver puts
the first byte of packet 0 on the queue as a packet. -/
theorem aliased_packets_mix :
    (∀ op ∈ aliasOps 8192, TxOpOk 32767 op) ∧
      (txRun aliasConfig (aliasOps 8192)).packets.length < 65536 ∧
      (PdcpRx.enabled aliasReceiver).appended
        ((drawn (txRun aliasConfig (aliasOps 8192)).pdus [0, 8193]).map SentPdu.bytes) =
          some [[some 1]] ∧
      [1] ∉ (txRun aliasConfig (aliasOps 8192)).packets :=
  ⟨aliasOps_ok 8192, alias_mix rfl (aliasRun 8192).1 (aliasRun 8192).2⟩

end Winject.LegacyPdcp
