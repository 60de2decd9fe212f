import Winject.LegacyLlc.AckRing
import Winject.LegacyLlc.Calls

/-!
# The PDUs of a grant

`Winject.LegacyLlc.TxLayout` says where the PDUs of a call are and what size they
report.  This module says what they are: at most one ACK PDU, and behind it at most one
data PDU with the next sequence number; the bytes behind the grant are as they were.

## Main results

* `ackStage_shaped` — the grant behind the ACK PDU.
* `onTx_wrote` — the PDUs of a call, on every way through it.
* `grant_wellFormed` — the same of the allocated bytes, behind any calls.
-/

namespace Winject.LegacyLlc

open Winject.Frames
open Winject.Lib.Bytes

/-- The bytes are a PDU with the flag `A` and the sequence number. -/
structure IsKind (a : Bool) (sn : UInt8) (bytes : List UInt8) : Prop where
  flag : (LlcPdu.new bytes bytes.length 0).getA = a
  number : (LlcPdu.new bytes bytes.length 0).getSN = sn

theorem IsKind.of_front {p : LlcPdu} (hsize : 3 ≤ p.getSIZE) :
    IsKind p.getA p.getSN (p.base.take p.getSIZE) where
  flag := by
    unfold LlcPdu.getA
    rw [get_new_take p (by omega)]
  number := by
    unfold LlcPdu.getSN
    rw [get_new_take p (by omega)]

/-! ## Stores in front of the end of the grant -/

theorem setPayloadSize_drop (p : LlcPdu) {k : Nat} (h : 3 ≤ k) (size : Nat) :
    (p.setPayloadSize size).base.drop k = p.base.drop k := by
  unfold LlcPdu.setPayloadSize LlcPdu.setSIZE
  rw [set_drop _ (by omega), set_drop _ (by omega)]

theorem storePayload_behind (p : LlcPdu) {bytes : List UInt8} {k : Nat}
    (h : p.getHeaderSize + bytes.length ≤ k) :
    (p.storePayload bytes).base.drop k = p.base.drop k := poke_drop h

/-- The header has the checksum. -/
theorem Llc.Sized.writeCrc_drop {l : Llc} (hl : l.Sized) (p : LlcPdu) {k : Nat}
    (h : 3 + l.txCrcSize ≤ k) : (l.writeCrc p).base.drop k = p.base.drop k := by
  apply LegacyLlc.writeCrc_drop
  intro hcrc
  have hsize := hl.crc hcrc
  omega

theorem ackPdu_behind {l : Llc} (hl : l.Sized) (p : LlcPdu) (acks : List (Nat × Nat)) {k : Nat}
    (hhdr : p.getHeaderSize = 3 + l.txCrcSize)
    (h : p.getHeaderSize + acks.length * 2 ≤ k) :
    (l.ackPdu p acks).base.drop k = p.base.drop k := by
  unfold Llc.ackPdu
  dsimp only
  rw [hl.writeCrc_drop _ (by omega)]
  unfold LlcPdu.setLCID LlcPdu.setA LlcPdu.setSN
  rw [set_drop _ (by omega), set_drop _ (by omega), set_drop _ (by omega),
    setPayloadSize_drop _ (by omega), storePayload_behind]
  rw [ackBytes_length]
  omega

/-! ## The stages of a call -/

/-- The frame is as it was behind the grant, and the ACK PDU is the only one. -/
structure TxState.Shaped {π : Type} (l : Llc) (buffer : List UInt8) (g : Nat)
    (s : TxState π) : Prop where
  few : s.pdus.length ≤ 1
  acks : ∀ pdu ∈ s.pdus, IsKind true 0 pdu
  noAck : l.toAckList = [] → s.pdus = []
  number : s.owner.snCounter = l.snCounter
  outside : s.llc.base.drop (g - s.front.length) = buffer.drop g
  inGrant : s.front.length ≤ g

/-- The PDUs of a call: at most one ACK PDU, for which there is something to acknowledge, and then
at most one data PDU, which has the next sequence number. -/
structure PdusOf {π : Type} (l : Llc) (s : TxState π) (acks data : List (List UInt8)) :
    Prop where
  oneAck : acks.length ≤ 1
  noAck : l.toAckList = [] → acks = []
  ackKind : ∀ pdu ∈ acks, IsKind true 0 pdu
  dataKind : ∀ pdu ∈ data, IsKind false l.snCounter pdu
  number : data = [] ∧ s.owner.snCounter = l.snCounter ∨
    data.length = 1 ∧ s.owner.snCounter = l.snCounter + 1

/-- What a call has written. -/
structure TxState.Wrote {π : Type} (l : Llc) (buffer : List UInt8) (g : Nat)
    (s : TxState π) : Prop where
  pdus : ∃ acks data, s.pdus = acks ++ data ∧ PdusOf l s acks data
  rlf : s.rlf = true → s.owner.snCounter = l.snCounter
  outside : s.frame.drop g = buffer.drop g

theorem getSN_setA (p : LlcPdu) (val : Bool) : (p.setA val).getSN = p.getSN := by
  unfold LlcPdu.getSN LlcPdu.setA
  rw [LlcPdu.get_set_of_ne (by decide)]

theorem getSN_setLCID (p : LlcPdu) (lcid : UInt8) : (p.setLCID lcid).getSN = p.getSN := by
  unfold LlcPdu.getSN LlcPdu.setLCID
  rw [LlcPdu.get_set_of_ne (by decide)]

theorem getSN_ackPdu (l : Llc) {p : LlcPdu} (acks : List (Nat × Nat))
    (h : 3 ≤ p.base.length) : (l.ackPdu p acks).getSN = 0 := by
  unfold Llc.ackPdu
  dsimp only
  rw [getSN_writeCrc, getSN_setLCID, getSN_setA, getSN_setSN]
  rw [TxState.storePayload_length]
  omega

namespace TxState

variable {π : Type} {pdcpOnTx : π → LegacyPdcp.TxInfo → π × LegacyPdcp.TxInfo}
  {l : Llc} {buffer : List UInt8} {n g : Nat} {s : TxState π}

/-- The grant behind the ACK PDU. -/
theorem ackStage_shaped (hl : l.Sized) (pdcp : π) (grant : Grant)
    (hsize : 3 + l.txCrcSize < grant.size) (hmax : grant.size ≤ 2047) :
    (l.ackStage pdcp grant.info).Shaped l grant.buffer grant.size := by
  have hfits := grant.fits
  have hacks : (Llc.takeAcks l.toAckList (grant.size - (3 + l.txCrcSize))).length * 2 ≤
      grant.size - (3 + l.txCrcSize) := takeAcks_length _ _
  unfold Llc.ackStage allocateAcks
  dsimp only
  split_ifs with hempty
  · exact ⟨Nat.zero_le _, fun _ hmem => (List.not_mem_nil hmem).elim, fun _ => rfl, rfl, rfl,
      Nat.zero_le _⟩
  · have hsome : l.toAckList ≠ [] := fun hnil => hempty (List.isEmpty_iff.mpr hnil)
    change (Llc.takeAcks (l.startTx pdcp grant.info).owner.toAckList
      ((l.startTx pdcp grant.info).outSize -
        (l.startTx pdcp grant.info).llc.getHeaderSize)).length * 2 ≤ _ at hacks
    generalize Llc.takeAcks (l.startTx pdcp grant.info).owner.toAckList
      ((l.startTx pdcp grant.info).outSize -
        (l.startTx pdcp grant.info).llc.getHeaderSize) = acks at hacks
    obtain ⟨hSIZE, -, hbase, -⟩ := ackPdu_fields l (l.startTx pdcp grant.info).llc acks
      (by show 3 ≤ grant.buffer.length; omega) (by show 3 + l.txCrcSize + _ < 2048; omega)
    change _ = 3 + l.txCrcSize + _ at hSIZE
    change _ = grant.buffer.length at hbase
    have hA := getA_ackPdu l (p := (l.startTx pdcp grant.info).llc) acks
      (by show 3 ≤ grant.buffer.length; omega)
    have hSN := getSN_ackPdu l (p := (l.startTx pdcp grant.info).llc) acks
      (by show 3 ≤ grant.buffer.length; omega)
    have hdrop := ackPdu_behind hl (l.startTx pdcp grant.info).llc acks rfl
      (show 3 + l.txCrcSize + acks.length * 2 ≤ grant.size by omega)
    change _ = grant.buffer.drop grant.size at hdrop
    show (TxState.rebase { l.startTx pdcp grant.info with
      owner := _, llc := l.ackPdu (l.startTx pdcp grant.info).llc acks, outSize := _ }).Shaped
        l grant.buffer grant.size
    generalize l.ackPdu (l.startTx pdcp grant.info).llc acks = p at hSIZE hbase hA hSN hdrop
    have hlen : (p.base.take p.getSIZE).length = p.getSIZE := by
      rw [List.length_take]
      omega
    have hkind : IsKind true 0 (p.base.take p.getSIZE) := by
      have hfront := IsKind.of_front (p := p) (by omega)
      rwa [hA, hSN] at hfront
    refine ⟨le_refl 1, ?_, fun hnil => absurd hnil hsome, rfl, ?_, ?_⟩
    · intro pdu hmem
      rw [List.mem_singleton.mp hmem]
      exact hkind
    · have hend : p.getSIZE + (grant.size - p.getSIZE) = grant.size := by omega
      show (p.base.drop p.getSIZE).drop (grant.size - (p.base.take p.getSIZE).length) =
        grant.buffer.drop grant.size
      rw [hlen, List.drop_drop, hend]
      exact hdrop
    · show (p.base.take p.getSIZE).length ≤ grant.size
      omega

/-- The frame behind the grant. -/
theorem Shaped.frame_drop (h : s.Shaped l buffer g) : s.frame.drop g = buffer.drop g := by
  rw [TxState.frame, List.drop_append, List.drop_eq_nil_of_le h.inGrant, List.nil_append]
  exact h.outside

/-- A call without a data PDU. -/
theorem Shaped.wrote (h : s.Shaped l buffer g) : s.Wrote l buffer g where
  pdus := ⟨s.pdus, [], (List.append_nil _).symm, h.few, h.noAck, h.acks,
    fun _ hmem => (List.not_mem_nil hmem).elim, Or.inl ⟨rfl, h.number⟩⟩
  rlf := fun _ => h.number
  outside := h.frame_drop

/-- The same PDUs in front of stores that end inside the grant. -/
theorem Shaped.store (h : s.Shaped l buffer g) {s' : TxState π} (hpdus : s'.pdus = s.pdus)
    (hfront : s'.front = s.front) (hnumber : s'.owner.snCounter = s.owner.snCounter)
    (hdrop : s'.llc.base.drop (g - s.front.length) = s.llc.base.drop (g - s.front.length)) :
    s'.Shaped l buffer g where
  few := hpdus ▸ h.few
  acks := hpdus ▸ h.acks
  noAck := fun hnone => hpdus.trans (h.noAck hnone)
  number := hnumber.trans h.number
  outside := by
    rw [hfront, hdrop]
    exact h.outside
  inGrant := by
    rw [hfront]
    exact h.inGrant

theorem Shaped.informOnly (h : s.Shaped l buffer g) :
    (s.informOnly pdcpOnTx).Shaped l buffer g := h.store rfl rfl rfl rfl

/-- The start of a data PDU. -/
theorem Shaped.startData (h : s.Shaped l buffer g) (hroom : s.front.length + 3 ≤ g) :
    s.startData.Shaped l buffer g := by
  refine h.store rfl rfl rfl ?_
  unfold TxState.startData LlcPdu.setA LlcPdu.setLCID
  rw [set_drop _ (by omega), set_drop _ (by omega)]

theorem Shaped.loadPdcp (h : s.Shaped l buffer g)
    (hroom : s.front.length + s.llc.getHeaderSize + s.outSize ≤ g) :
    (s.loadPdcp pdcpOnTx).Shaped l buffer g := by
  have hhdr : 3 ≤ s.llc.getHeaderSize := Nat.le_add_right _ _
  refine h.store rfl rfl rfl ?_
  unfold TxState.loadPdcp TxState.callPdcp
  dsimp only
  rw [setPayloadSize_drop _ (by omega), storePayload_behind]
  have hregion : ((s.llc.base.drop s.llc.getHeaderSize).take s.outSize).length ≤ s.outSize :=
    List.length_take_le _ _
  have htake := List.length_take_le
    ((s.llc.base.drop s.llc.getHeaderSize).take s.outSize).length
    (pdcpOnTx s.pdcp ⟨(s.llc.base.drop s.llc.getHeaderSize).take s.outSize, s.outAllocated,
      s.outTxAvailable⟩).2.outPdu
  omega

theorem Shaped.loadRetx (h : s.Shaped l buffer g) {pdcpPdu : List UInt8}
    (hroom : s.front.length + s.llc.getHeaderSize + pdcpPdu.length ≤ g) :
    (s.loadRetx pdcpOnTx pdcpPdu).Shaped l buffer g := by
  have hhdr : 3 ≤ s.llc.getHeaderSize := Nat.le_add_right _ _
  refine h.store rfl rfl rfl ?_
  show ((s.llc.storePayload pdcpPdu).setPayloadSize pdcpPdu.length).base.drop _ = _
  rw [setPayloadSize_drop _ (by omega), storePayload_behind _ (by omega)]

/-- The data PDU behind its payload. -/
theorem Shaped.finish {k : Nat} (hl : l.Sized) (h : s.Shaped l buffer g)
    (hA : s.llc.getA = false) (hload : s.Loaded l n g k) (hn : n = buffer.length)
    (hfit : g ≤ n) (slotNumber : Nat) (retx : Option Nat) (retxCount : Nat) :
    (s.finish slotNumber s.front.length retx retxCount).Wrote l buffer g := by
  have hlen := hload.length
  have hroom := hload.room
  unfold TxState.finish
  by_cases hnone : s.front.length = s.outAllocated
  · rw [if_pos hnone]
    exact h.wrote
  · rw [if_neg hnone]
    dsimp only
    have hsized : s.owner.Sized := hl.of_setup hload.setup
    have hcrc := hload.setup.txCrcSize
    obtain ⟨hSIZE, -, hbase, -⟩ := writeCrc_fields s.owner (s.llc.setSN s.owner.snCounter)
    rw [LlcPdu.getSIZE_setSN, hload.size] at hSIZE
    rw [show (s.llc.setSN s.owner.snCounter).base.length = s.llc.base.length from
      LlcPdu.set_length ..] at hbase
    have hflag : (s.owner.writeCrc (s.llc.setSN s.owner.snCounter)).getA = false := by
      rw [getA_writeCrc, LlcPdu.getA_setSN, hA]
    have hnumber : (s.owner.writeCrc (s.llc.setSN s.owner.snCounter)).getSN = l.snCounter := by
      rw [getSN_writeCrc, getSN_setSN (by omega), h.number]
    have hdrop : (s.owner.writeCrc (s.llc.setSN s.owner.snCounter)).base.drop
        (g - s.front.length) = buffer.drop g := by
      rw [hsized.writeCrc_drop _ (by omega)]
      unfold LlcPdu.setSN
      rw [set_drop _ (by omega)]
      exact h.outside
    generalize s.owner.writeCrc (s.llc.setSN s.owner.snCounter) = p
      at hSIZE hbase hflag hnumber hdrop
    have hkind : IsKind false l.snCounter (p.base.take p.getSIZE) := by
      have hfront := IsKind.of_front (p := p) (by omega)
      rwa [hflag, hnumber] at hfront
    refine ⟨⟨s.pdus, [p.base.take p.getSIZE], rfl, h.few, h.noAck, h.acks, ?_, Or.inr ⟨rfl, ?_⟩⟩,
      fun hr => ?_, ?_⟩
    · intro pdu hmem
      rw [List.mem_singleton.mp hmem]
      exact hkind
    · rw [← h.number]
      dsimp only
      split_ifs <;> rfl
    · dsimp only at hr
      rw [hload.rlf] at hr
      cases hr
    · rw [TxState.frame, List.drop_append, List.drop_eq_nil_of_le h.inGrant, List.nil_append]
      exact hdrop

/-- A call that has come to the data PDU. -/
theorem Shaped.allocateData (hp : PdcpOnTxOk pdcpOnTx) (hl : l.Sized) (h : s.Shaped l buffer g)
    (hfilled : s.Filled l n g) (hn : n = buffer.length) (hfit : g ≤ n) (hmax : g ≤ 2047)
    (hroom : s.llc.getHeaderSize ≤ s.outSize) (slotNumber : Nat) :
    (s.allocateData pdcpOnTx slotNumber).Wrote l buffer g := by
  obtain ⟨hstart, hlcid, hspace⟩ := hfilled.startData hroom hfit
  have hlen := hfilled.length
  have hold := hfilled.room
  have halloc := hfilled.allocated
  have hhdr := hstart.header
  have hA : s.startData.llc.getA = false := startData_getA (by
    have hheader := hfilled.header
    omega)
  have hshape : s.startData.Shaped l buffer g := h.startData (by
    have hheader := hfilled.header
    omega)
  have hpop : ∀ others, (s.startData.popRetx others).Filled l n g := fun others =>
    { hstart with setup := hstart.setup.trans ⟨rfl, rfl, rfl, rfl, rfl, rfl, rfl, rfl⟩ }
  have hpopped : ∀ others, (s.startData.popRetx others).Shaped l buffer g := fun others =>
    hshape.store rfl rfl rfl rfl
  rcases s.allocateData_cases pdcpOnTx slotNumber with ⟨-, hres⟩ |
    ⟨retx, others, -, ⟨-, hres⟩ | ⟨-, -, -, hres⟩ | ⟨-, -, hres⟩ | ⟨-, hpdu, hres⟩⟩
  · obtain ⟨k, hload, hfront⟩ := hstart.loadPdcp hp hmax hfit hlcid hspace
    rw [hres, halloc, show s.front = s.startData.front from rfl, ← hfront]
    exact (hshape.loadPdcp (by omega)).finish hl (loadPdcp_getA hA) hload hn hfit _ _ _
  · rw [hres]
    have hkept : TxState.Shaped l buffer g
        { s.startData.informPdcp pdcpOnTx with outTxAvailable := true } :=
      hshape.store rfl rfl rfl rfl
    exact hkept.wrote
  · rw [hres]
    have hkept : TxState.Shaped l buffer g
        { s.startData.popRetx others with outAllocated := 0, rlf := true } :=
      (hpopped others).store rfl rfl rfl rfl
    exact hkept.wrote
  · obtain ⟨k, hload, hfront⟩ := (hpop others).loadPdcp hp hmax hfit hlcid hspace
    rw [hres, halloc, show s.front = (s.startData.popRetx others).front from rfl, ← hfront]
    exact ((hpopped others).loadPdcp (s := s.startData.popRetx others)
      (show s.startData.front.length + s.startData.llc.getHeaderSize + s.startData.outSize ≤ g by
        omega)).finish hl (loadPdcp_getA (s := s.startData.popRetx others) hA) hload hn hfit _ _ _
  · obtain ⟨hload, hfront⟩ := (hpop others).loadRetx hp hmax hfit hlcid hspace hpdu
    rw [hres, halloc, show s.front = (s.startData.popRetx others).front from rfl, ← hfront]
    exact ((hpopped others).loadRetx (s := s.startData.popRetx others)
      (show s.startData.front.length + s.startData.llc.getHeaderSize + retx.pdcpPdu.length ≤ g by
        omega)).finish hl (loadRetx_getA (s := s.startData.popRetx others) hA _) hload hn hfit _ _ _

/-! ## A call -/

theorem Wrote.of_number {l' : Llc} (hnumber : l'.snCounter = l.snCounter)
    (hacks : l'.toAckList = l.toAckList) (h : s.Wrote l' buffer g) : s.Wrote l buffer g := by
  obtain ⟨⟨acks, data, hpdus, hof⟩, rlf, outside⟩ := h
  obtain ⟨oneAck, noAck, ackKind, dataKind, number⟩ := hof
  rw [hnumber] at dataKind number rlf
  rw [hacks] at noAck
  exact ⟨⟨acks, data, hpdus, oneAck, noAck, ackKind, dataKind, number⟩, rlf, outside⟩

theorem startTx_shaped (l : Llc) (pdcp : π) (grant : Grant) :
    (l.startTx pdcp grant.info).Shaped l grant.buffer grant.size where
  few := Nat.zero_le _
  acks := fun _ hmem => (List.not_mem_nil hmem).elim
  noAck := fun _ => rfl
  number := rfl
  outside := rfl
  inGrant := Nat.zero_le _

end TxState

/-- **The PDUs of a call**: at most one ACK PDU, and behind it at most one data PDU. -/
theorem Llc.onTx_wrote {π : Type} {pdcpOnTx : π → LegacyPdcp.TxInfo → π × LegacyPdcp.TxInfo}
    (hp : PdcpOnTxOk pdcpOnTx) {l : Llc} (hl : l.Sized) (pdcp : π) (grant : Grant)
    (hmax : grant.size ≤ 2047) :
    (l.onTx pdcpOnTx pdcp grant.info).Wrote l grant.buffer grant.size := by
  have hcheck := l.checkRetransmit_setup grant.info.slotNumber
  have hsized : (l.checkRetransmit grant.info.slotNumber).Sized := hl.of_setup hcheck
  have hnumber := (l.checkRetransmit_marked grant.info.slotNumber).2
  have hacks := checkRetransmit_toAckList l grant.info.slotNumber
  rcases l.onTx_cases pdcpOnTx pdcp grant.info with ⟨-, h⟩ | ⟨-, -, h⟩ |
    ⟨-, hsize, s, rfl, ⟨-, h⟩ | ⟨hroom, -, h⟩⟩
  · rw [h]
    exact (TxState.startTx_shaped l pdcp grant).wrote
  · rw [h]
    exact (TxState.startTx_shaped _ pdcp grant).informOnly.wrote.of_number hnumber hacks
  · rw [h]
    rw [← hcheck.txCrcSize] at hsize
    exact (TxState.ackStage_shaped hsized pdcp grant hsize
      hmax).informOnly.wrote.of_number hnumber hacks
  · rw [h]
    rw [← hcheck.txCrcSize] at hsize
    exact ((TxState.ackStage_shaped hsized pdcp grant hsize hmax).allocateData hp hsized
      (TxState.ackStage_filled _ pdcp grant.info rfl hsize grant.fits hmax) rfl grant.fits hmax
      hroom _).of_number hnumber hacks

/-- A call with nothing to acknowledge writes data only, and nothing when the link fails. -/
theorem Llc.onTx_noAcks {π : Type} {pdcpOnTx : π → LegacyPdcp.TxInfo → π × LegacyPdcp.TxInfo}
    (hp : PdcpOnTxOk pdcpOnTx) {l : Llc} (hl : l.Sized) (hacks : l.toAckList = []) (pdcp : π)
    (grant : Grant) (hmax : grant.size ≤ 2047) :
    (∀ pdu ∈ (l.onTx pdcpOnTx pdcp grant.info).pdus, IsKind false l.snCounter pdu) ∧
      ((l.onTx pdcpOnTx pdcp grant.info).rlf = true →
        (l.onTx pdcpOnTx pdcp grant.info).pdus = []) := by
  obtain ⟨⟨acks, data, happ, hof⟩, hkept, -⟩ := l.onTx_wrote hp hl pdcp grant hmax
  rw [hof.noAck hacks, List.nil_append] at happ
  rw [happ]
  refine ⟨hof.dataKind, fun hrlf => ?_⟩
  rcases hof.number with ⟨hnil, -⟩ | ⟨-, hnext⟩
  · exact hnil
  · have hsame := hkept hrlf
    rw [hnext] at hsame
    exact absurd hsame (by simp)

/-- The grant behind a call: what is allocated of it are the PDUs, each with its size,
the channel, its `A` bit and, for data, the next sequence number, which goes on iff
there is a data PDU; nothing else of the frame has changed. -/
structure GrantWellFormed {π : Type} (l : Llc) (grant : Grant) (r : TxState π) : Prop where
  pdus : ∃ acks data, r.frame.take r.outAllocated = (acks ++ data).flatten ∧
    (acks ++ data).flatten.length = r.outAllocated ∧ acks.length ≤ 1 ∧ data.length ≤ 1 ∧
    (∀ pdu ∈ acks, IsPdu l.lcid (3 + l.txCrcSize) pdu ∧ IsKind true 0 pdu) ∧
    (∀ pdu ∈ data, IsPdu l.lcid (3 + l.txCrcSize) pdu ∧ IsKind false l.snCounter pdu) ∧
    r.owner.snCounter = if data = [] then l.snCounter else l.snCounter + 1
  allocated : r.outAllocated ≤ grant.size
  length : r.frame.length = grant.buffer.length
  outside : r.frame.drop grant.size = grant.buffer.drop grant.size

/-- Every grant is well formed, in every state that some calls lead to. -/
theorem grant_wellFormed {π : Type} (pdcpOnTx : π → LegacyPdcp.TxInfo → π × LegacyPdcp.TxInfo)
    (hp : PdcpOnTxOk pdcpOnTx) (lcid : UInt8) (txConfig : TxConfig) (rxConfig : RxConfig)
    (calls : List (Call π)) (pdcp : π) (grant : Grant) (hmax : grant.size ≤ 2047) :
    GrantWellFormed (Llc.called pdcpOnTx lcid txConfig rxConfig calls) grant
      ((Llc.called pdcpOnTx lcid txConfig rxConfig calls).onTx pdcpOnTx pdcp grant.info) := by
  have hsized := Llc.called_sized pdcpOnTx lcid txConfig rxConfig calls
  generalize Llc.called pdcpOnTx lcid txConfig rxConfig calls = l at hsized ⊢
  obtain ⟨hlength, hfits, htake, hrlf, hpdus⟩ := l.onTx_laidOut hp pdcp grant.info rfl
    grant.fits hmax
  obtain ⟨⟨acks, data, happ, hof⟩, hkept, houtside⟩ := l.onTx_wrote hp hsized pdcp grant hmax
  generalize l.onTx pdcpOnTx pdcp grant.info = r at *
  change r.frame.length = grant.buffer.length at hlength
  change r.outAllocated ≤ grant.size at hfits
  have hroom := grant.fits
  refine ⟨?_, hfits, hlength, houtside⟩
  cases hfail : r.rlf with
  | true =>
      -- The link has failed: what was written is not allocated.
      have hzero := (hrlf hfail).2
      refine ⟨[], [], ?_, hzero.symm, Nat.zero_le _, Nat.zero_le _,
        fun _ hmem => (List.not_mem_nil hmem).elim, fun _ hmem => (List.not_mem_nil hmem).elim,
        hkept hfail⟩
      rw [hzero]
      rfl
  | false =>
      have hframe := htake hfail
      rw [happ] at hframe
      have htotal : (acks ++ data).flatten.length = r.outAllocated := by
        rw [← hframe, List.length_take]
        omega
      have hdata : data.length ≤ 1 ∧
          r.owner.snCounter = if data = [] then l.snCounter else l.snCounter + 1 := by
        rcases hof.number with ⟨hnil, hsn⟩ | ⟨hone, hsn⟩
        · rw [hnil, if_pos rfl]
          exact ⟨Nat.zero_le _, hsn⟩
        · have hne : data ≠ [] := List.ne_nil_of_length_pos (by omega)
          rw [if_neg hne]
          exact ⟨hone.le, hsn⟩
      refine ⟨acks, data, hframe, htotal, hof.oneAck, hdata.1, fun pdu hmem => ?_,
        fun pdu hmem => ?_, hdata.2⟩
      · exact ⟨hpdus pdu (by rw [happ]; exact List.mem_append_left _ hmem), hof.ackKind pdu hmem⟩
      · exact ⟨hpdus pdu (by rw [happ]; exact List.mem_append_right _ hmem), hof.dataKind pdu hmem⟩

end Winject.LegacyLlc
