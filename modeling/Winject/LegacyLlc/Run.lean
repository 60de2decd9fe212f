import Winject.LegacyLlc.TxLayout
import Winject.Lib.Runs

/-!
# Runs of the first LLC

A channel that has been constructed and enabled, and from then on only transmits
and receives.  A `Grant` is a call of the scheduler: the buffer behind
`out_pdu.base` has the bytes that are granted, and nothing of it is allocated yet.

`Channel` has, beside the LLC and its PDCP, what happened so far: the data PDUs
sent (newest first), the numbers of the data PDUs received, and the numbers that
the ACK PDUs sent stand for.  No function reads these.

## Main results

* `onRx_cases` — what a received PDU does to the LLC, number by number.
* `PdcpAllocates`, `pdcpOnTx_allocates` — what a run relies on in the PDCP.
-/

namespace Winject.LegacyLlc

open Winject.Frames
open Winject.Lib.Bytes

/-! ## Grants and received PDUs -/

/-- A call of `on_tx`: a buffer, of which `size` bytes are granted. -/
structure Grant where
  slotNumber : Nat
  allowData : Bool := true
  txAvailable : Bool := false
  buffer : List UInt8
  size : Nat
  fits : size ≤ buffer.length

/-- The `tx_info_t` of a grant. -/
def Grant.info (g : Grant) : TxInfo where
  slotNumber := g.slotNumber
  inAllowData := g.allowData
  outTxAvailable := g.txAvailable
  outPdu := g.buffer
  outSize := g.size

/-- The numbers that `on_rx` reads from the first PDU of some bytes. -/
def emittedNumbers (crcSize : Nat) (bytes : List UInt8) : List UInt8 :=
  let p := LlcPdu.new bytes bytes.length crcSize
  if p.getA then entryNumbers (Llc.ackEntries p) else []

namespace Llc

/-- `on_rx` gets as far as the header's `A` bit. -/
def takes (l : Llc) (info : RxInfo) : Bool :=
  !(!l.isRxEnabled && l.rxConfig.autoInitOnRx) && l.accepts info

/-- The numbers that a received PDU acknowledges, in the order of the loops. -/
def ackedNumbers (l : Llc) (info : RxInfo) : List UInt8 :=
  if l.takes info && (l.rxPdu info).getA then entryNumbers (ackEntries (l.rxPdu info)) else []

/-- The number of a received data PDU. -/
def dataNumbers (l : Llc) (info : RxInfo) : List UInt8 :=
  if l.takes info && !(l.rxPdu info).getA then [(l.rxPdu info).getSN] else []

theorem ackRange_eq_foldl (l : Llc) (sn : UInt8) (count : Nat) :
    l.ackRange sn count = (ackNumbers sn count).foldl ackOne l := by
  induction count generalizing l sn with
  | zero => rfl
  | succ count ih =>
      have hshift : ackNumbers sn (count + 1) = sn :: ackNumbers (sn + 1) count := by
        unfold ackNumbers
        rw [List.range_succ_eq_map, List.map_cons, List.map_map,
          show sn + UInt8.ofNat 0 = sn from UInt8.add_zero sn]
        congr 1
        apply List.map_congr_left
        intro k _
        show sn + UInt8.ofNat (k + 1) = sn + 1 + UInt8.ofNat k
        rw [UInt8.ofNat_add, UInt8.add_assoc, UInt8.add_comm 1]
        rfl
      rw [ackRange, ih, hshift]
      rfl

/-- The loops over an ACK PDU are one loop over its numbers. -/
theorem acks_eq_foldl (l : Llc) (entries : List (UInt8 × UInt8)) :
    entries.foldl (fun l ack => l.ackRange ack.1 ack.2.toNat) l =
      (entryNumbers entries).foldl ackOne l := by
  induction entries generalizing l with
  | nil => rfl
  | cons ack entries ih =>
      rw [List.foldl_cons, ih, ackRange_eq_foldl]
      exact List.foldl_append.symm

/-- What a received PDU does: it acknowledges its numbers, or its own number goes on
the list of those to acknowledge. -/
theorem onRx_cases (l : Llc) (info : RxInfo) :
    (l.dataNumbers info = [] ∧
      (l.onRx info).llc = (l.ackedNumbers info).foldl ackOne l) ∨
    (∃ sn, l.dataNumbers info = [sn] ∧ l.ackedNumbers info = [] ∧
      (l.onRx info).llc = if l.rxConfig.mode = .am then l.toAcknowledge sn else l) := by
  unfold dataNumbers ackedNumbers takes
  cases hinit : (!l.isRxEnabled && l.rxConfig.autoInitOnRx) with
  | true =>
      left
      refine ⟨rfl, ?_⟩
      unfold onRx
      rw [hinit]
      rfl
  | false =>
      cases hacc : l.accepts info with
      | false =>
          left
          refine ⟨rfl, ?_⟩
          rw [onRx_of_refused hinit hacc]
          rfl
      | true =>
          cases hA : (l.rxPdu info).getA with
          | true =>
              left
              refine ⟨rfl, ?_⟩
              rw [onRx_of_ack hinit hacc hA, ← acks_marked, acks_eq_foldl]
              rfl
          | false =>
              right
              exact ⟨_, rfl, rfl, (onRx_of_data hinit hacc hA).2⟩

/-- A call is a fault iff it acknowledges a number that has no element of `sn_ring`. -/
theorem onRx_ok_iff (l : Llc) (info : RxInfo) :
    (l.onRx info).fault = false ↔
      ∀ sn ∈ l.ackedNumbers info, l.SnInRange l.snRingSize sn := by
  have hnone : ∀ sn ∈ ([] : List UInt8), l.SnInRange l.snRingSize sn :=
    fun _ hmem => (List.not_mem_nil hmem).elim
  unfold ackedNumbers takes
  cases hinit : (!l.isRxEnabled && l.rxConfig.autoInitOnRx) with
  | true =>
      refine iff_of_true ?_ hnone
      unfold onRx
      rw [hinit]
      rfl
  | false =>
      cases hacc : l.accepts info with
      | false =>
          rw [onRx_of_refused hinit hacc]
          exact iff_of_true rfl hnone
      | true =>
          cases hA : (l.rxPdu info).getA with
          | true =>
              rw [onRx_of_ack hinit hacc hA, Bool.not_eq_false', List.all_eq_true]
              simp only [decide_eq_true_iff]
              rfl
          | false =>
              refine iff_of_true ?_ hnone
              unfold onRx
              rw [hinit, hacc]
              unfold rxPdu at hA
              simp only [hA]
              rfl

theorem getSIZE_setSIZE_le {p : LlcPdu} (size : Nat) (hlen : 3 ≤ p.base.length) :
    (p.setSIZE size).getSIZE ≤ size := by
  unfold LlcPdu.getSIZE LlcPdu.setSIZE
  rw [LlcPdu.get_set_self (by rw [LlcPdu.set_length]; omega),
    LlcPdu.get_set_of_ne (by decide), LlcPdu.get_set_self (by omega), LlcPdu.low3]
  have hlow : ((UInt8.ofNat size <<< 0) &&& 0xFF) >>> 0 = UInt8.ofNat size := by
    rw [UInt8.shiftLeft_zero, UInt8.shiftRight_zero]
    exact UInt8.and_neg_one
  rw [hlow, UInt8.toNat_ofNat', UInt8.toNat_ofNat']
  omega

/-- An ACK PDU is not longer than its header and entries. -/
theorem ackPdu_size (l : Llc) (p : LlcPdu) (acks : List (Nat × Nat)) (hlen : 3 ≤ p.base.length) :
    (l.ackPdu p acks).getSIZE ≤ p.getHeaderSize + acks.length * 2 ∧
      (l.ackPdu p acks).base.length = p.base.length := by
  have hpoke : (p.storePayload (ackBytes acks)).base.length = p.base.length := poke_length ..
  unfold ackPdu
  dsimp only
  obtain ⟨hSIZE, -, hbase, -⟩ := TxState.writeCrc_fields l
    (((((p.storePayload (ackBytes acks)).setPayloadSize (acks.length * 2)).setSN 0).setA
      true).setLCID l.lcid)
  rw [hSIZE, hbase, LlcPdu.getSIZE_setLCID, LlcPdu.getSIZE_setA, LlcPdu.getSIZE_setSN]
  unfold LlcPdu.setPayloadSize
  refine ⟨?_, ?_⟩
  · have hle := getSIZE_setSIZE_le (p := p.storePayload (ackBytes acks))
      ((acks.length * 2 + (p.storePayload (ackBytes acks)).getHeaderSize) % 65536) (by omega)
    have hhdr : (p.storePayload (ackBytes acks)).getHeaderSize = p.getHeaderSize := rfl
    omega
  · simp only [LlcPdu.setSIZE, LlcPdu.setSN, LlcPdu.setA, LlcPdu.setLCID, LlcPdu.set_length]
    exact hpoke

/-- What is left of the grant behind the ACK PDU is in the buffer. -/
theorem ackStage_room {π : Type} (l : Llc) (pdcp : π) (g : Grant)
    (hsize : 3 + l.txCrcSize < g.size) :
    (l.ackStage pdcp g.info).outSize ≤ (l.ackStage pdcp g.info).llc.base.length := by
  have hfits := g.fits
  unfold ackStage TxState.allocateAcks
  dsimp only
  split_ifs
  · show g.size - (3 + l.txCrcSize) ≤ g.buffer.length
    omega
  · generalize takeAcks (l.startTx pdcp g.info).owner.toAckList
      ((l.startTx pdcp g.info).outSize - (l.startTx pdcp g.info).llc.getHeaderSize) = acks
    obtain ⟨hSIZE, hbase⟩ := l.ackPdu_size (l.startTx pdcp g.info).llc acks
      (by show 3 ≤ g.buffer.length; omega)
    change _ ≤ 3 + l.txCrcSize + acks.length * 2 at hSIZE
    change _ = g.buffer.length at hbase
    show g.size - (3 + l.txCrcSize) - acks.length * 2 ≤
      ((l.ackPdu (l.startTx pdcp g.info).llc acks).base.drop
        (l.ackPdu (l.startTx pdcp g.info).llc acks).getSIZE).length
    rw [List.length_drop, hbase]
    omega

/-- A channel as it starts: constructed, and then enabled. -/
def start (lcid : UInt8) (txConfig : TxConfig) (rxConfig : RxConfig) (rxEnabled : Bool) : Llc :=
  ((new lcid txConfig rxConfig).setTxEnabled true).setRxEnabled rxEnabled

end Llc

/-! ## Runs -/

/-- A call on the channel. -/
inductive Event where
  | tx (grant : Grant)
  | rx (info : RxInfo)

/-- A data PDU that was sent. -/
structure SentPdu where
  slot : Nat
  sn : UInt8
  deriving DecidableEq, Repr

/-- The LLC, its PDCP, and what happened so far. -/
structure Channel (π : Type) where
  llc : Llc
  pdcp : π
  sent : List SentPdu := []
  received : List UInt8 := []
  emitted : List UInt8 := []

namespace Channel

variable {π : Type} (pdcpOnTx : π → LegacyPdcp.TxInfo → π × LegacyPdcp.TxInfo)

/-- A call of `on_tx`.  A data PDU was sent iff `sn_counter` went on. -/
def onTx (c : Channel π) (g : Grant) : Channel π :=
  let r := c.llc.onTx pdcpOnTx c.pdcp g.info
  { c with
    llc := r.owner
    pdcp := r.pdcp
    sent := if r.owner.snCounter = c.llc.snCounter then c.sent
      else ⟨g.slotNumber, c.llc.snCounter⟩ :: c.sent
    emitted := c.emitted ++ emittedNumbers c.llc.txCrcSize (r.frame.take r.outAllocated) }

/-- A call of `on_rx`. -/
def onRx (c : Channel π) (info : RxInfo) : Channel π :=
  { c with
    llc := (c.llc.onRx info).llc
    received := c.received ++ c.llc.dataNumbers info }

def step (c : Channel π) : Event → Channel π
  | .tx grant => c.onTx pdcpOnTx grant
  | .rx info => c.onRx info

end Channel

/-! ## The PDCP -/

/-- What a run relies on: the PDCP adds to `out_allocated`, and nothing without a
grant. -/
structure PdcpAllocates {π : Type}
    (pdcpOnTx : π → LegacyPdcp.TxInfo → π × LegacyPdcp.TxInfo) : Prop where
  grows : ∀ pdcp info, info.outAllocated ≤ (pdcpOnTx pdcp info).2.outAllocated
  idle : ∀ pdcp info, info.outPdu = [] →
    (pdcpOnTx pdcp info).2.outAllocated = info.outAllocated

theorem txStep_allocates (s : LegacyPdcp.TxLoop) :
    s.outAllocated ≤ (LegacyPdcp.txStep s).1.outAllocated := by
  unfold LegacyPdcp.txStep
  dsimp only
  split_ifs
  · exact le_refl _
  · unfold LegacyPdcp.txWhole
    cases s.tx.toTxQueue with
    | nil => exact le_refl _
    | cons pdu others =>
        dsimp only
        split_ifs
        · exact le_refl _
        · exact Nat.le_add_right _ _
  · unfold LegacyPdcp.txPart
    cases s.tx.loadCurrent with
    | none => exact le_refl _
    | some tx => exact Nat.le_add_right _ _

theorem txLoop_allocates (s : LegacyPdcp.TxLoop) :
    s.outAllocated ≤ (LegacyPdcp.txLoop s).outAllocated := by
  induction s using LegacyPdcp.txLoop.induct with
  | case1 s hmore ih =>
      rw [LegacyPdcp.txLoop, dif_pos hmore]
      exact (txStep_allocates s).trans ih
  | case2 s hstop =>
      rw [LegacyPdcp.txLoop, dif_neg hstop]
      exact txStep_allocates s

/-- The PDCP of this repository. -/
theorem pdcpOnTx_allocates : PdcpAllocates LegacyPdcp.PdcpTx.onTx where
  grows pdcp info := by
    unfold LegacyPdcp.PdcpTx.onTx
    dsimp only
    split_ifs
    · exact le_refl _
    · exact le_refl _
    · exact le_refl _
    · exact txLoop_allocates ⟨pdcp, [], info.outPdu, info.outAllocated, 0⟩
  idle pdcp info hnone := by
    have hstays := pdcp.onTx_stays info (by rw [hnone]; exact Nat.zero_le _)
    rw [hnone, List.length_nil] at hstays
    omega

end Winject.LegacyLlc
