import Winject.Frames.LlcPdu
import Winject.LegacyLlc.OnRx
import Winject.LegacyPdcp.Tx

/-!
# The transmit path of the first LLC (`LLC::on_tx`)

A grant is filled from the front: an ACK PDU with as many entries as fit, then at
most one data PDU, which carries a payload of the retransmission list or a new one
of the PDCP.  `TxState` are the locals of `on_tx`: the bytes that are done
(`front`), the PDU under construction behind them (`llc`), and what is left of
`info`.

The PDCP is the interface `IPDCP`: a state of any type and a function that answers
a call of `on_tx`.  `PdcpOnTxOk` is what a caller relies on, and
`pdcpOnTx_ok` says that the PDCP of this repository does so.

`pdus` are the PDUs that the call writes, in order.  No function reads it.

## Main results

* `pdcpOnTx_ok` — `PDCP::on_tx` stays inside its grant.
* `onTx_cases`, `allocateData_cases` — the ways through a call.
* `onTx_setup` — a call keeps the configuration.
-/

namespace Winject.LegacyLlc

open Winject.Frames
open Winject.Lib.Bytes

/-! ## The model -/

/-- `tx_info_t`: `outPdu` are the bytes from `out_pdu.base` on, as far as the frame
goes, and `outSize` is `out_pdu.size`. -/
structure TxInfo where
  slotNumber : Nat
  inAllowData : Bool := true
  outTxAvailable : Bool := false
  outHasDataLoaded : Bool := false
  outPdu : List UInt8
  outSize : Nat
  outAllocated : Nat := 0
  deriving DecidableEq, Repr

/-- The locals of `on_tx`.  `rlf` says that `rrc.on_rlf` was called, and `fault` that the
call has divided by zero or stored behind the end of an array.  What the state holds behind
a fault means nothing. -/
structure TxState (π : Type) where
  owner : Llc
  pdcp : π
  front : List UInt8 := []
  llc : LlcPdu
  outSize : Nat
  outAllocated : Nat
  outTxAvailable : Bool
  outHasDataLoaded : Bool
  rlf : Bool := false
  fault : Bool := false
  pdus : List (List UInt8) := []

/-- The bytes of the frame behind a call. -/
def TxState.frame {π : Type} (s : TxState π) : List UInt8 := s.front ++ s.llc.base

namespace Llc

/-- `LLC::check_retransmit`.  The buffer of the element is swapped for an empty
one, which is not read before it is written again. -/
def checkRetransmit (l : Llc) (slotNumber : Nat) : Llc :=
  if l.txConfig.mode ≠ .am then l else
  let sentIdx := txRingIndex (l.txRing (txRingIndex slotNumber)).sentIndex
  let sentSlot := l.txRing sentIdx
  if sentSlot.acknowledged then l else
  { l with
    txRing := Function.update l.txRing sentIdx { sentSlot with acknowledged := true }
    toRetxList := l.toRetxList ++
      [{ llcTxId := sentSlot.llcTxId
         retryCount := sentSlot.retryCount
         pdcpPdu := sentSlot.pdcpPdu }] }

/-- The entries that the loop over `to_ack_list` takes into `size` bytes. -/
def takeAcks : List (Nat × Nat) → Nat → List (Nat × Nat)
  | [], _ => []
  | ack :: acks, size => if size ≥ 2 then ack :: takeAcks acks (size - 2) else []

/-- The entries as `llc_payload_ack_t`: two fields of 8 bits. -/
def ackBytes (acks : List (Nat × Nat)) : List UInt8 :=
  acks.flatMap (fun ack => [UInt8.ofNat ack.1, UInt8.ofNat ack.2])

/-- The checksum is computed over the PDU with a field of zeroes. -/
def writeCrc (l : Llc) (p : LlcPdu) : LlcPdu :=
  if l.txConfig.crcType = .crc32 then
    let p := p.storeCRC (be32 0)
    p.storeCRC (be32 (crc32 (p.base.take p.getSIZE)))
  else p

/-- An ACK PDU with the entries. -/
def ackPdu (l : Llc) (p : LlcPdu) (acks : List (Nat × Nat)) : LlcPdu :=
  let p := p.storePayload (ackBytes acks)
  let p := p.setPayloadSize (acks.length * 2)
  let p := p.setSN 0
  let p := p.setA true
  let p := p.setLCID l.lcid
  l.writeCrc p

/-- `LLC::increment_sn`. -/
def incrementSn (l : Llc) : Llc := { l with snCounter := l.snCounter + 1 }

/-- The bookkeeping for a data PDU of an AM channel stays inside its arrays: the number has
an element of `sn_ring`, and the payload fits into the buffer of the element of the slot. -/
def RecordsInside (l : Llc) (sn : UInt8) (pdcpPdu : List UInt8) : Prop :=
  l.SnInRange l.snRingSize sn ∧ pdcpPdu.length ≤ llcMaxSize

instance (l : Llc) (sn : UInt8) (pdcpPdu : List UInt8) : Decidable (l.RecordsInside sn pdcpPdu) :=
  inferInstanceAs (Decidable (_ ∧ _))

/-- The bookkeeping for a data PDU of an AM channel: the element of the slot, the
element of the slot in which it is checked, and the number's way to that one.  It is that of
the source where `RecordsInside` holds. -/
def recordSent (l : Llc) (slotNumber llcTxId retryCount : Nat) (sn : UInt8)
    (pdcpPdu : List UInt8) : Llc :=
  let ackCkIdx := txRingIndex (slotNumber + l.txConfig.arqWindowSize)
  let txIdx := txRingIndex slotNumber
  let ring := Function.update l.txRing txIdx
    { l.txRing txIdx with
      llcTxId := llcTxId
      retryCount := retryCount
      acknowledged := false
      pdcpPdu := pdcpPdu }
  { l with
    txRing := Function.update ring ackCkIdx { ring ackCkIdx with sentIndex := txIdx }
    snRing := Function.update l.snRing (l.snRingIndex sn) ackCkIdx }

end Llc

namespace TxState

variable {π : Type} (pdcpOnTx : π → LegacyPdcp.TxInfo → π × LegacyPdcp.TxInfo)

/-- `pdcp.on_tx(info)`, with `outSize` bytes from the payload on. -/
def callPdcp (s : TxState π) : TxState π :=
  let region := (s.llc.base.drop s.llc.getHeaderSize).take s.outSize
  let r := pdcpOnTx s.pdcp ⟨region, s.outAllocated, s.outTxAvailable⟩
  { s with
    pdcp := r.1
    llc := s.llc.storePayload (r.2.outPdu.take region.length)
    outAllocated := r.2.outAllocated
    outTxAvailable := r.2.outTxAvailable }

/-- The PDCP is called without a grant, for the slot and the pending data. -/
def informPdcp (s : TxState π) : TxState π :=
  ({ s with outSize := 0 }).callPdcp pdcpOnTx

/-- The return of `on_tx` without a data PDU. -/
def informOnly (s : TxState π) : TxState π :=
  let s := s.informPdcp pdcpOnTx
  { s with outTxAvailable := s.outTxAvailable || !s.owner.toRetxList.isEmpty }

/-- The PDU is finished: the next one starts behind it. -/
def rebase (s : TxState π) : TxState π :=
  let size := s.llc.getSIZE
  { s with
    front := s.front ++ s.llc.base.take size
    llc := { s.llc with
      base := s.llc.base.drop size
      maxSize := (s.llc.maxSize + 65536 - size) % 65536 }
    outAllocated := s.outAllocated + size
    pdus := s.pdus ++ [s.llc.base.take size] }

/-- The ACK PDU, if there is anything to acknowledge. -/
def allocateAcks (s : TxState π) : TxState π :=
  if s.owner.toAckList.isEmpty then s else
  let acks := Llc.takeAcks s.owner.toAckList s.outSize
  ({ s with
    owner := { s.owner with toAckList := s.owner.toAckList.drop acks.length }
    llc := s.owner.ackPdu s.llc acks
    outSize := s.outSize - acks.length * 2 }).rebase

/-- The payload is a new PDU of the PDCP. -/
def loadPdcp (s : TxState π) : TxState π :=
  let initAlloc := s.outAllocated
  let s := s.callPdcp pdcpOnTx
  { s with
    llc := s.llc.setPayloadSize (s.outAllocated - initAlloc)
    outHasDataLoaded := true }

/-- The payload is one of the retransmission list. -/
def loadRetx (s : TxState π) (pdcpPdu : List UInt8) : TxState π :=
  let llc := s.llc.storePayload pdcpPdu
  let s := { s with
    llc := llc.setPayloadSize pdcpPdu.length
    outAllocated := s.outAllocated + pdcpPdu.length }
  { s.informPdcp pdcpOnTx with outHasDataLoaded := true }

/-- The end of `on_tx`, behind the payload: the data PDU is finished unless
nothing was allocated. -/
def finish (s : TxState π) (slotNumber initAlloc : Nat) (retx : Option Nat)
    (retxCount : Nat) : TxState π :=
  if initAlloc = s.outAllocated then s else
  let llc := s.owner.writeCrc (s.llc.setSN s.owner.snCounter)
  let pdcpPdu := (llc.base.drop llc.getHeaderSize).take llc.getPayloadSize
  let owner := s.owner.incrementSn
  let owner :=
    if owner.txConfig.mode = .am then
      ({ owner with
        llcTxId := if retx.isNone then owner.llcTxId + 1 else owner.llcTxId }).recordSent
        slotNumber (retx.getD owner.llcTxId) retxCount llc.getSN pdcpPdu
    else owner
  { s with
    owner := owner
    llc := llc
    outAllocated := s.outAllocated + llc.getHeaderSize
    fault := s.fault ||
      (s.owner.txConfig.mode == .am && !decide (s.owner.RecordsInside llc.getSN pdcpPdu))
    pdus := s.pdus ++ [llc.base.take llc.getSIZE] }

/-- The start of a data PDU. -/
def startData (s : TxState π) : TxState π :=
  { s with
    llc := (s.llc.setLCID s.owner.lcid).setA false
    outSize := s.outSize - s.llc.getHeaderSize }

/-- `to_retx_list.pop_front`. -/
def popRetx (s : TxState π) (others : List RetxElem) : TxState π :=
  { s with owner := { s.owner with toRetxList := others } }

/-- The data PDU.  The front of the retransmission list is popped in every branch
behind the first. -/
def allocateData (s : TxState π) (slotNumber : Nat) : TxState π :=
  let s := s.startData
  match s.owner.toRetxList with
  | [] => (s.loadPdcp pdcpOnTx).finish slotNumber s.outAllocated none 0
  | retx :: others =>
    let retxCount := retx.retryCount + 1
    if retx.pdcpPdu.length > s.outSize then
      { s.informPdcp pdcpOnTx with outTxAvailable := true }
    else if retxCount > s.owner.txConfig.maxRetxCount then
      if s.owner.txConfig.allowRlf then
        { s.popRetx others with outAllocated := 0, rlf := true }
      else
        ((s.popRetx others).loadPdcp pdcpOnTx).finish slotNumber s.outAllocated
          (some retx.llcTxId) retxCount
    else
      ((s.popRetx others).loadRetx pdcpOnTx retx.pdcpPdu).finish slotNumber s.outAllocated
        (some retx.llcTxId) retxCount

end TxState

namespace Llc

variable {π : Type} (pdcpOnTx : π → LegacyPdcp.TxInfo → π × LegacyPdcp.TxInfo)

/-- The locals at the start of `on_tx`. -/
def startTx (l : Llc) (pdcp : π) (info : TxInfo) : TxState π where
  owner := l
  pdcp := pdcp
  llc := LlcPdu.new info.outPdu info.outSize l.txCrcSize
  outSize := info.outSize
  outAllocated := info.outAllocated
  outTxAvailable := info.outTxAvailable
  outHasDataLoaded := info.outHasDataLoaded

/-- The locals behind the ACK PDU. -/
def ackStage (l : Llc) (pdcp : π) (info : TxInfo) : TxState π :=
  let s := l.startTx pdcp info
  { s with outSize := s.outSize - s.llc.getHeaderSize }.allocateAcks

/-- `LLC::on_tx`. -/
def onTx (l : Llc) (pdcp : π) (info : TxInfo) : TxState π :=
  if !l.isTxEnabled then l.startTx pdcp info else
  let l := l.checkRetransmit info.slotNumber
  if info.outSize ≤ 3 + l.txCrcSize then (l.startTx pdcp info).informOnly pdcpOnTx else
  let s := l.ackStage pdcp info
  if s.outSize < s.llc.getHeaderSize || !info.inAllowData then s.informOnly pdcpOnTx
  else s.allocateData pdcpOnTx info.slotNumber

end Llc

/-! ## The PDCP as the LLC sees it -/

/-- What `on_tx` relies on: the PDCP writes into its grant only, and what it
allocates fits. -/
structure PdcpOnTxOk {π : Type}
    (pdcpOnTx : π → LegacyPdcp.TxInfo → π × LegacyPdcp.TxInfo) : Prop where
  length : ∀ pdcp info, info.outPdu.length ≤ 32767 →
    (pdcpOnTx pdcp info).2.outPdu.length = info.outPdu.length
  grows : ∀ pdcp info, info.outPdu.length ≤ 32767 →
    info.outAllocated ≤ (pdcpOnTx pdcp info).2.outAllocated
  fits : ∀ pdcp info, info.outPdu.length ≤ 32767 →
    (pdcpOnTx pdcp info).2.outAllocated ≤ info.outAllocated + info.outPdu.length

theorem pdcpOnTx_ok : PdcpOnTxOk LegacyPdcp.PdcpTx.onTx where
  length pdcp info h := (pdcp.onTx_stays info h).1
  grows pdcp info h := (pdcp.onTx_stays info h).2.1
  fits pdcp info h := (pdcp.onTx_stays info h).2.2

/-! ## What a call can do -/

section Cases

variable {π : Type} (pdcpOnTx : π → LegacyPdcp.TxInfo → π × LegacyPdcp.TxInfo)

/-- The ways through `on_tx`: disabled, a grant without room for a header, a grant
without room for a data PDU or not meant for one, and a data PDU. -/
theorem Llc.onTx_cases (l : Llc) (pdcp : π) (info : TxInfo) :
    (l.isTxEnabled = false ∧ l.onTx pdcpOnTx pdcp info = l.startTx pdcp info) ∨
    (l.isTxEnabled = true ∧ info.outSize ≤ 3 + l.txCrcSize ∧
      l.onTx pdcpOnTx pdcp info =
        ((l.checkRetransmit info.slotNumber).startTx pdcp info).informOnly pdcpOnTx) ∨
    (l.isTxEnabled = true ∧ 3 + l.txCrcSize < info.outSize ∧
      ∃ s, s = (l.checkRetransmit info.slotNumber).ackStage pdcp info ∧
        (((s.outSize < s.llc.getHeaderSize ∨ info.inAllowData = false) ∧
          l.onTx pdcpOnTx pdcp info = s.informOnly pdcpOnTx) ∨
        (s.llc.getHeaderSize ≤ s.outSize ∧ info.inAllowData = true ∧
          l.onTx pdcpOnTx pdcp info = s.allocateData pdcpOnTx info.slotNumber))) := by
  have hcrc : (l.checkRetransmit info.slotNumber).txCrcSize = l.txCrcSize := by
    unfold Llc.checkRetransmit
    dsimp only
    split_ifs <;> rfl
  unfold Llc.onTx
  dsimp only
  rw [hcrc]
  split_ifs with hen hsize hroom
  · left
    exact ⟨by rwa [Bool.not_eq_true'] at hen, rfl⟩
  · right; left
    exact ⟨by rwa [Bool.not_eq_true, Bool.not_eq_false'] at hen, hsize, rfl⟩
  · right; right
    refine ⟨by rwa [Bool.not_eq_true, Bool.not_eq_false'] at hen, by omega, _, rfl, Or.inl ⟨?_, rfl⟩⟩
    rwa [Bool.or_eq_true, decide_eq_true_iff, Bool.not_eq_true'] at hroom
  · right; right
    rw [Bool.or_eq_true, decide_eq_true_iff, Bool.not_eq_true', not_or,
      Bool.not_eq_false] at hroom
    exact ⟨by rwa [Bool.not_eq_true, Bool.not_eq_false'] at hen, by omega, _, rfl,
      Or.inr ⟨by omega, hroom.2, rfl⟩⟩

/-- The ways to a data PDU: a new PDU of the PDCP, a retransmission that does not
fit, one that has failed (with and without `allow_rlf`), and one that is sent. -/
theorem TxState.allocateData_cases (s : TxState π) (slotNumber : Nat) :
    (s.owner.toRetxList = [] ∧ s.allocateData pdcpOnTx slotNumber =
      (s.startData.loadPdcp pdcpOnTx).finish slotNumber s.outAllocated none 0) ∨
    ∃ retx others, s.owner.toRetxList = retx :: others ∧
      ((s.startData.outSize < retx.pdcpPdu.length ∧ s.allocateData pdcpOnTx slotNumber =
        { s.startData.informPdcp pdcpOnTx with outTxAvailable := true }) ∨
      (retx.pdcpPdu.length ≤ s.startData.outSize ∧
        s.owner.txConfig.maxRetxCount < retx.retryCount + 1 ∧
        s.owner.txConfig.allowRlf = true ∧ s.allocateData pdcpOnTx slotNumber =
        { s.startData.popRetx others with outAllocated := 0, rlf := true }) ∨
      (s.owner.txConfig.maxRetxCount < retx.retryCount + 1 ∧
        s.owner.txConfig.allowRlf = false ∧ s.allocateData pdcpOnTx slotNumber =
        ((s.startData.popRetx others).loadPdcp pdcpOnTx).finish slotNumber s.outAllocated
          (some retx.llcTxId) (retx.retryCount + 1)) ∨
      (retx.retryCount + 1 ≤ s.owner.txConfig.maxRetxCount ∧
        retx.pdcpPdu.length ≤ s.startData.outSize ∧ s.allocateData pdcpOnTx slotNumber =
        ((s.startData.popRetx others).loadRetx pdcpOnTx retx.pdcpPdu).finish slotNumber
          s.outAllocated (some retx.llcTxId) (retx.retryCount + 1))) := by
  unfold TxState.allocateData
  have howner : s.startData.owner = s.owner := rfl
  dsimp only
  rw [howner]
  cases s.owner.toRetxList with
  | nil => exact Or.inl ⟨rfl, rfl⟩
  | cons retx others =>
      refine Or.inr ⟨retx, others, rfl, ?_⟩
      dsimp only
      split_ifs with hfit hcount hrlf
      · exact Or.inl ⟨hfit, rfl⟩
      · exact Or.inr (Or.inl ⟨by omega, hcount, hrlf, rfl⟩)
      · exact Or.inr (Or.inr (Or.inl ⟨hcount, by rwa [Bool.not_eq_true] at hrlf, rfl⟩))
      · exact Or.inr (Or.inr (Or.inr ⟨by omega, by omega, rfl⟩))

/-- Nothing in the ring waits for a check. -/
theorem Llc.checkRetransmit_of_acknowledged {l : Llc}
    (h : ∀ i, (l.txRing i).acknowledged = true) (slotNumber : Nat) :
    l.checkRetransmit slotNumber = l := by
  unfold Llc.checkRetransmit
  dsimp only
  rw [h, if_pos rfl]
  split_ifs <;> rfl

/-- A call of an enabled LLC that waits for no acknowledgement, in a grant with room for a
header: its ACK PDU, and a data PDU where there is still room for one. -/
theorem Llc.onTx_of_acknowledged {l : Llc} (hen : l.isTxEnabled = true)
    (hring : ∀ i, (l.txRing i).acknowledged = true) (pdcp : π) {info : TxInfo}
    (hsize : 3 + l.txCrcSize < info.outSize) :
    (((l.ackStage pdcp info).outSize < (l.ackStage pdcp info).llc.getHeaderSize ∨
        info.inAllowData = false) ∧
      l.onTx pdcpOnTx pdcp info = (l.ackStage pdcp info).informOnly pdcpOnTx) ∨
    ((l.ackStage pdcp info).llc.getHeaderSize ≤ (l.ackStage pdcp info).outSize ∧
      info.inAllowData = true ∧
      l.onTx pdcpOnTx pdcp info =
        (l.ackStage pdcp info).allocateData pdcpOnTx info.slotNumber) := by
  have hcheck := checkRetransmit_of_acknowledged hring info.slotNumber
  rcases l.onTx_cases pdcpOnTx pdcp info with ⟨hoff, -⟩ | ⟨-, hshort, -⟩ | ⟨-, -, s, hs, hways⟩
  · rw [hen] at hoff
    cases hoff
  · omega
  · rw [hcheck] at hs
    rwa [hs] at hways

/-- A call with nothing to acknowledge and nothing to retransmit, in a grant with room for a
data PDU. -/
theorem Llc.onTx_of_quiet {l : Llc} (hen : l.isTxEnabled = true)
    (hring : ∀ i, (l.txRing i).acknowledged = true) (hacks : l.toAckList = [])
    (hretx : l.toRetxList = []) (pdcp : π) (info : TxInfo) (hallow : info.inAllowData = true)
    (hroom : 3 + l.txCrcSize + (3 + l.txCrcSize) ≤ info.outSize) :
    l.onTx pdcpOnTx pdcp info =
      ((({ l.startTx pdcp info with
        outSize := info.outSize - (3 + l.txCrcSize) }).startData.loadPdcp pdcpOnTx).finish
          info.slotNumber info.outAllocated none 0) := by
  have hstage : l.ackStage pdcp info =
      { l.startTx pdcp info with outSize := info.outSize - (3 + l.txCrcSize) } := by
    have hempty : (l.startTx pdcp info).owner.toAckList.isEmpty = true := by
      show l.toAckList.isEmpty = true
      rw [hacks]
      rfl
    unfold Llc.ackStage TxState.allocateAcks
    exact if_pos hempty
  rcases Llc.onTx_of_acknowledged pdcpOnTx hen hring pdcp
    (show 3 + l.txCrcSize < info.outSize by omega) with ⟨hno, -⟩ | ⟨-, -, h⟩
  · rcases hno with hshort | hno
    · rw [hstage] at hshort
      change info.outSize - (3 + l.txCrcSize) < 3 + l.txCrcSize at hshort
      omega
    · rw [hallow] at hno
      cases hno
  · rw [h, hstage]
    rcases TxState.allocateData_cases pdcpOnTx { l.startTx pdcp info with
      outSize := info.outSize - (3 + l.txCrcSize) } info.slotNumber with ⟨-, hd⟩ |
      ⟨retx, others, hcons, -⟩
    · exact hd
    · have hnil : retx :: others = [] := hcons.symm.trans hretx
      cases hnil

/-- A front of the list that does not fit is left there. -/
theorem TxState.allocateData_long (s : TxState π) (slotNumber : Nat) {retx : RetxElem}
    {others : List RetxElem} (hcons : s.owner.toRetxList = retx :: others)
    (hlong : s.startData.outSize < retx.pdcpPdu.length) :
    s.allocateData pdcpOnTx slotNumber =
      { s.startData.informPdcp pdcpOnTx with outTxAvailable := true } := by
  have howner : s.startData.owner.toRetxList = retx :: others := hcons
  unfold TxState.allocateData
  dsimp only
  rw [howner]
  exact if_pos hlong

end Cases

/-! ## What a call leaves alone -/

/-- The two LLCs are set up in the same way. -/
structure Llc.SameSetup (l l' : Llc) : Prop where
  lcid : l'.lcid = l.lcid
  isTxEnabled : l'.isTxEnabled = l.isTxEnabled
  txConfig : l'.txConfig = l.txConfig
  txCrcSize : l'.txCrcSize = l.txCrcSize
  isRxEnabled : l'.isRxEnabled = l.isRxEnabled
  rxConfig : l'.rxConfig = l.rxConfig
  rxCrcSize : l'.rxCrcSize = l.rxCrcSize
  snRingSize : l'.snRingSize = l.snRingSize

theorem Llc.SameSetup.trans {l l' l'' : Llc} (h : l.SameSetup l') (h' : l'.SameSetup l'') :
    l.SameSetup l'' :=
  ⟨h'.lcid.trans h.lcid, h'.isTxEnabled.trans h.isTxEnabled, h'.txConfig.trans h.txConfig,
    h'.txCrcSize.trans h.txCrcSize, h'.isRxEnabled.trans h.isRxEnabled,
    h'.rxConfig.trans h.rxConfig, h'.rxCrcSize.trans h.rxCrcSize,
    h'.snRingSize.trans h.snRingSize⟩

theorem Llc.checkRetransmit_setup (l : Llc) (slotNumber : Nat) :
    l.SameSetup (l.checkRetransmit slotNumber) := by
  unfold Llc.checkRetransmit
  dsimp only
  split_ifs <;> exact ⟨rfl, rfl, rfl, rfl, rfl, rfl, rfl, rfl⟩

section Setup

variable {π : Type} {pdcpOnTx : π → LegacyPdcp.TxInfo → π × LegacyPdcp.TxInfo}

theorem Llc.ackStage_setup (l : Llc) (pdcp : π) (info : TxInfo) :
    l.SameSetup (l.ackStage pdcp info).owner := by
  unfold Llc.ackStage TxState.allocateAcks
  dsimp only
  split_ifs <;> exact ⟨rfl, rfl, rfl, rfl, rfl, rfl, rfl, rfl⟩

theorem TxState.finish_setup (s : TxState π) (slotNumber initAlloc : Nat) (retx : Option Nat)
    (retxCount : Nat) : s.owner.SameSetup (s.finish slotNumber initAlloc retx retxCount).owner := by
  unfold TxState.finish
  dsimp only
  split_ifs <;> exact ⟨rfl, rfl, rfl, rfl, rfl, rfl, rfl, rfl⟩

theorem TxState.allocateData_setup (s : TxState π) (slotNumber : Nat) :
    s.owner.SameSetup (s.allocateData pdcpOnTx slotNumber).owner := by
  have hpop : ∀ others, s.owner.SameSetup (s.startData.popRetx others).owner :=
    fun _ => ⟨rfl, rfl, rfl, rfl, rfl, rfl, rfl, rfl⟩
  rcases s.allocateData_cases pdcpOnTx slotNumber with ⟨-, h⟩ |
    ⟨retx, others, -, ⟨-, h⟩ | ⟨-, -, -, h⟩ | ⟨-, -, h⟩ | ⟨-, -, h⟩⟩
  · rw [h]
    exact (s.startData.loadPdcp pdcpOnTx).finish_setup _ _ _ _
  · rw [h]
    exact ⟨rfl, rfl, rfl, rfl, rfl, rfl, rfl, rfl⟩
  · rw [h]
    exact hpop others
  · rw [h]
    exact (hpop others).trans (((s.startData.popRetx others).loadPdcp pdcpOnTx).finish_setup _ _ _ _)
  · rw [h]
    exact (hpop others).trans
      (((s.startData.popRetx others).loadRetx pdcpOnTx retx.pdcpPdu).finish_setup _ _ _ _)

variable (pdcpOnTx) in
theorem Llc.onTx_setup (l : Llc) (pdcp : π) (info : TxInfo) :
    l.SameSetup (l.onTx pdcpOnTx pdcp info).owner := by
  have hcheck := l.checkRetransmit_setup info.slotNumber
  have hacks := hcheck.trans ((l.checkRetransmit info.slotNumber).ackStage_setup pdcp info)
  rcases l.onTx_cases pdcpOnTx pdcp info with ⟨-, h⟩ | ⟨-, -, h⟩ |
    ⟨-, -, s, rfl, ⟨-, h⟩ | ⟨-, -, h⟩⟩
  · rw [h]
    exact ⟨rfl, rfl, rfl, rfl, rfl, rfl, rfl, rfl⟩
  · rw [h]
    exact hcheck
  · rw [h]
    exact hacks
  · rw [h]
    exact hacks.trans (TxState.allocateData_setup _ _)

variable (pdcpOnTx) in
/-- Without AM there is nothing to retransmit, and no failure to report. -/
theorem Llc.onTx_tm {l : Llc} (hmode : l.txConfig.mode ≠ .am) (hretx : l.toRetxList = [])
    (pdcp : π) (info : TxInfo) :
    (l.onTx pdcpOnTx pdcp info).owner.toRetxList = [] ∧
      (l.onTx pdcpOnTx pdcp info).rlf = false := by
  have hcheck : l.checkRetransmit info.slotNumber = l := by
    unfold Llc.checkRetransmit
    exact if_pos hmode
  have hacks : (l.ackStage pdcp info).owner.toRetxList = [] ∧
      (l.ackStage pdcp info).rlf = false := by
    unfold Llc.ackStage TxState.allocateAcks
    dsimp only
    split_ifs <;> exact ⟨hretx, rfl⟩
  rcases l.onTx_cases pdcpOnTx pdcp info with ⟨-, h⟩ | ⟨-, -, h⟩ |
    ⟨-, -, s, hs, ⟨-, h⟩ | ⟨-, -, h⟩⟩
  · rw [h]
    exact ⟨hretx, rfl⟩
  · rw [h, hcheck]
    exact ⟨hretx, rfl⟩
  · rw [h, hs, hcheck]
    exact hacks
  · rw [hcheck] at hs
    subst hs
    rcases (l.ackStage pdcp info).allocateData_cases pdcpOnTx info.slotNumber with ⟨-, hd⟩ |
      ⟨retx, others, hcons, -⟩
    · rw [h, hd]
      unfold TxState.finish
      dsimp only
      split_ifs <;> exact hacks
    · rw [hacks.1] at hcons
      cases hcons

end Setup

end Winject.LegacyLlc
