import Winject.LegacyLlc.OnTx

/-!
# The layout of a grant (`LLC::on_tx`)

Where the PDUs of a call are.  `Filled` is the state of the locals between the ACK
PDU and the data PDU: the PDUs that are done lie one behind the other in `front`,
and what is left of the grant is behind them.  `LaidOut` is the state at the
return: the allocated bytes of the frame are the PDUs, one behind the other, and
each of them carries its size and the lower half of its channel's identifier.

## Main results

* `ackStage_filled` — the ACK PDU.
* `Filled.allocateData` — the data PDU.
* `onTx_laidOut` — a call.
-/

namespace Winject.LegacyLlc

open Winject.Frames
open Winject.Lib.Bytes

/-- The bytes are a PDU of the channel: the header is there and reads as the size
and, in four bits, the channel. -/
structure IsPdu (lcid : UInt8) (headerSize : Nat) (bytes : List UInt8) : Prop where
  header : headerSize ≤ bytes.length
  size : (LlcPdu.new bytes bytes.length 0).getSIZE = bytes.length
  lcid : (LlcPdu.new bytes bytes.length 0).getLCID = lcid &&& 0x0F

/-- The header fields are in the first three bytes. -/
theorem get_new_append (bytes : List UInt8) (h : 3 ≤ bytes.length) {i : Nat} (hi : i < 3)
    (tail : List UInt8) (size n crcSize c : Nat) (m s : UInt8) :
    (LlcPdu.new (bytes ++ tail) n c).get i m s = (LlcPdu.new bytes size crcSize).get i m s := by
  unfold LlcPdu.get LlcPdu.new
  rw [List.getD_eq_getElem?_getD, List.getElem?_append_left (by omega),
    ← List.getD_eq_getElem?_getD]

/-- The header fields of a PDU are in its first `n` bytes. -/
theorem get_new_take (p : LlcPdu) {n i : Nat} (hi : i < n) (size crcSize : Nat) (m s : UInt8) :
    (LlcPdu.new (p.base.take n) size crcSize).get i m s = p.get i m s := by
  unfold LlcPdu.get LlcPdu.new
  dsimp only
  rw [List.getD_eq_getElem?_getD, List.getElem?_take, if_pos hi, ← List.getD_eq_getElem?_getD]

/-- The PDU in front of other bytes. -/
theorem IsPdu.of_front {p : LlcPdu} {lcid : UInt8} {headerSize : Nat} (hhdr : 3 ≤ headerSize)
    (hsize : headerSize ≤ p.getSIZE) (hfit : p.getSIZE ≤ p.base.length)
    (hlcid : p.getLCID = lcid &&& 0x0F) : IsPdu lcid headerSize (p.base.take p.getSIZE) := by
  have hlen : (p.base.take p.getSIZE).length = p.getSIZE := by
    rw [List.length_take]
    omega
  have hget : ∀ i, i < 3 → ∀ m s, (LlcPdu.new (p.base.take p.getSIZE)
      (p.base.take p.getSIZE).length 0).get i m s = p.get i m s :=
    fun i hi m s => get_new_take p (by omega) _ _ m s
  refine ⟨by omega, ?_, ?_⟩
  · show (LlcPdu.get _ 1 0x07 0).toNat * 256 + (LlcPdu.get _ 2 0xFF 0).toNat = _
    rw [hget 1 (by omega), hget 2 (by omega), hlen]
    rfl
  · show LlcPdu.get _ 1 0xF0 4 = _
    rw [hget 1 (by omega), ← hlcid]
    rfl

/-- What the stages of `on_tx` keep: the frame has `n` bytes, the PDUs that are done
are in `front`, and the grant of `g` bytes is not exceeded. -/
structure TxState.Filled {π : Type} (l : Llc) (n g : Nat) (s : TxState π) : Prop where
  setup : l.SameSetup s.owner
  header : s.llc.getHeaderSize = 3 + l.txCrcSize
  length : s.front.length + s.llc.base.length = n
  room : s.front.length + s.outSize ≤ g
  front : s.front = s.pdus.flatten
  allocated : s.outAllocated = s.front.length
  rlf : s.rlf = false
  pdus : ∀ pdu ∈ s.pdus, IsPdu l.lcid (3 + l.txCrcSize) pdu

/-- The return of `on_tx`. -/
structure TxState.LaidOut {π : Type} (l : Llc) (n g : Nat) (s : TxState π) : Prop where
  length : s.frame.length = n
  fits : s.outAllocated ≤ g
  take : s.rlf = false → s.frame.take s.outAllocated = s.pdus.flatten
  rlf : s.rlf = true → l.txConfig.allowRlf = true ∧ s.outAllocated = 0
  pdus : ∀ pdu ∈ s.pdus, IsPdu l.lcid (3 + l.txCrcSize) pdu

namespace TxState

variable {π : Type} {pdcpOnTx : π → LegacyPdcp.TxInfo → π × LegacyPdcp.TxInfo}
  {l : Llc} {n g : Nat} {s : TxState π}

/-- Without a further PDU. -/
theorem Filled.laidOut (h : s.Filled l n g) : s.LaidOut l n g := by
  have hroom := h.room
  have halloc := h.allocated
  refine ⟨?_, by omega, fun _ => ?_, fun hr => ?_, h.pdus⟩
  · rw [frame, List.length_append]
    exact h.length
  · rw [frame, halloc, List.take_left' rfl]
    exact h.front
  · rw [h.rlf] at hr
    cases hr

/-- A call of the PDCP without a grant changes no byte and allocates nothing. -/
theorem Filled.informPdcp (hp : PdcpOnTxOk pdcpOnTx) (h : s.Filled l n g) :
    (s.informPdcp pdcpOnTx).Filled l n g := by
  have hroom := h.room
  have hlow := hp.grows s.pdcp ⟨[], s.outAllocated, s.outTxAvailable⟩ (Nat.zero_le _)
  have hhigh := hp.fits s.pdcp ⟨[], s.outAllocated, s.outTxAvailable⟩ (Nat.zero_le _)
  dsimp only [List.length_nil] at hlow hhigh
  exact
    { setup := h.setup
      header := h.header
      length := h.length
      room := by
        show s.front.length + 0 ≤ g
        omega
      front := h.front
      allocated := by
        have halloc := h.allocated
        show (pdcpOnTx s.pdcp ⟨[], s.outAllocated, s.outTxAvailable⟩).2.outAllocated =
          s.front.length
        omega
      rlf := h.rlf
      pdus := h.pdus }

theorem Filled.informOnly (hp : PdcpOnTxOk pdcpOnTx) (h : s.Filled l n g) :
    (s.informOnly pdcpOnTx).Filled l n g := by
  obtain ⟨setup, header, length, room, front, allocated, rlf, pdus⟩ := h.informPdcp hp
  exact ⟨setup, header, length, room, front, allocated, rlf, pdus⟩

/-! ## The ACK PDU -/

theorem writeCrc_fields (l : Llc) (p : LlcPdu) :
    (l.writeCrc p).getSIZE = p.getSIZE ∧ (l.writeCrc p).getLCID = p.getLCID ∧
      (l.writeCrc p).base.length = p.base.length ∧
      (l.writeCrc p).getHeaderSize = p.getHeaderSize := by
  unfold Llc.writeCrc
  split_ifs
  · refine ⟨by simp, by simp, ?_, rfl⟩
    unfold LlcPdu.storeCRC
    simp
  · exact ⟨rfl, rfl, rfl, rfl⟩

theorem takeAcks_length (acks : List (Nat × Nat)) (size : Nat) :
    (Llc.takeAcks acks size).length * 2 ≤ size := by
  induction acks generalizing size with
  | nil => exact Nat.zero_le _
  | cons ack acks ih =>
      have hrest := ih (size - 2)
      unfold Llc.takeAcks
      split_ifs
      · rw [List.length_cons]
        omega
      · exact Nat.zero_le _

/-- The header of an ACK PDU. -/
theorem ackPdu_fields (l : Llc) (p : LlcPdu) (acks : List (Nat × Nat))
    (hlen : 3 ≤ p.base.length) (hsize : p.getHeaderSize + acks.length * 2 < 2048) :
    (l.ackPdu p acks).getSIZE = p.getHeaderSize + acks.length * 2 ∧
      (l.ackPdu p acks).getLCID = l.lcid &&& 0x0F ∧
      (l.ackPdu p acks).base.length = p.base.length ∧
      (l.ackPdu p acks).getHeaderSize = p.getHeaderSize := by
  have hpoke : (p.storePayload (Llc.ackBytes acks)).base.length = p.base.length :=
    poke_length ..
  have hmod : (acks.length * 2 + (p.storePayload (Llc.ackBytes acks)).getHeaderSize) % 65536 =
      p.getHeaderSize + acks.length * 2 := by
    show (acks.length * 2 + p.getHeaderSize) % 65536 = _
    omega
  unfold Llc.ackPdu
  dsimp only
  obtain ⟨hSIZE, hLCID, hbase, hheader⟩ := writeCrc_fields l
    (((((p.storePayload (Llc.ackBytes acks)).setPayloadSize (acks.length * 2)).setSN 0).setA
      true).setLCID l.lcid)
  rw [hSIZE, hLCID, hbase, hheader]
  unfold LlcPdu.setPayloadSize
  rw [hmod]
  refine ⟨?_, ?_, ?_, rfl⟩
  · rw [LlcPdu.getSIZE_setLCID, LlcPdu.getSIZE_setA, LlcPdu.getSIZE_setSN,
      LlcPdu.getSIZE_setSIZE (by omega) hsize]
  · rw [LlcPdu.getLCID_setLCID]
    simp only [LlcPdu.setSIZE, LlcPdu.setSN, LlcPdu.setA, LlcPdu.set_length]
    omega
  · simp only [LlcPdu.setSIZE, LlcPdu.setSN, LlcPdu.setA, LlcPdu.setLCID, LlcPdu.set_length]
    exact hpoke

/-- The start of a call. -/
theorem startTx_filled (l : Llc) (pdcp : π) (info : TxInfo) (hfree : info.outAllocated = 0) :
    (l.startTx pdcp info).Filled l info.outPdu.length info.outSize where
  setup := ⟨rfl, rfl, rfl, rfl, rfl, rfl, rfl, rfl⟩
  header := rfl
  length := Nat.zero_add _
  room := by
    show 0 + info.outSize ≤ info.outSize
    omega
  front := rfl
  allocated := hfree
  rlf := rfl
  pdus := fun _ hmem => (List.not_mem_nil hmem).elim

/-- Finishing a PDU moves it to the front. -/
theorem Filled.rebase (h : s.Filled l n g) (hsize : 3 + l.txCrcSize ≤ s.llc.getSIZE)
    (hfit : s.llc.getSIZE ≤ s.llc.base.length) (hroom : s.front.length + s.llc.getSIZE +
      s.outSize ≤ g) (hlcid : s.llc.getLCID = l.lcid &&& 0x0F) : s.rebase.Filled l n g := by
  have hlen := h.length
  have halloc := h.allocated
  exact
    { setup := h.setup
      header := h.header
      length := by
        unfold TxState.rebase
        simp only [List.length_append, List.length_take, List.length_drop]
        omega
      room := by
        unfold TxState.rebase
        simp only [List.length_append, List.length_take]
        omega
      front := by
        unfold TxState.rebase
        dsimp only
        rw [List.flatten_append, List.flatten_singleton, ← h.front]
      allocated := by
        unfold TxState.rebase
        simp only [List.length_append, List.length_take]
        omega
      rlf := h.rlf
      pdus := by
        intro pdu hmem
        rcases List.mem_append.mp hmem with hold | hnew
        · exact h.pdus pdu hold
        · rw [List.mem_singleton.mp hnew]
          exact IsPdu.of_front (by omega) hsize hfit hlcid }

/-- The ACK PDU, in a grant with room for its header. -/
theorem ackStage_filled (l : Llc) (pdcp : π) (info : TxInfo) (hfree : info.outAllocated = 0)
    (hsize : 3 + l.txCrcSize < info.outSize) (hfit : info.outSize ≤ info.outPdu.length)
    (hmax : info.outSize ≤ 2047) :
    (l.ackStage pdcp info).Filled l info.outPdu.length info.outSize := by
  have hstart := startTx_filled l pdcp info hfree
  have hacks : (Llc.takeAcks (l.startTx pdcp info).owner.toAckList
      ((l.startTx pdcp info).outSize - (l.startTx pdcp info).llc.getHeaderSize)).length * 2 ≤
      info.outSize - (3 + l.txCrcSize) := takeAcks_length _ _
  unfold Llc.ackStage allocateAcks
  dsimp only
  split_ifs
  · refine { hstart with room := ?_ }
    show 0 + (info.outSize - (3 + l.txCrcSize)) ≤ info.outSize
    omega
  · generalize Llc.takeAcks (l.startTx pdcp info).owner.toAckList
      ((l.startTx pdcp info).outSize - (l.startTx pdcp info).llc.getHeaderSize) = acks at hacks
    obtain ⟨hSIZE, hLCID, hbase, hheader⟩ := ackPdu_fields l (l.startTx pdcp info).llc acks
      (by show 3 ≤ info.outPdu.length; omega) (by show 3 + l.txCrcSize + _ < 2048; omega)
    change _ = 3 + l.txCrcSize + _ at hSIZE
    change _ = info.outPdu.length at hbase
    refine Filled.rebase
      { setup := ⟨rfl, rfl, rfl, rfl, rfl, rfl, rfl, rfl⟩
        header := hheader
        length := (Nat.zero_add _).trans hbase
        room := ?_
        front := rfl
        allocated := hfree
        rlf := rfl
        pdus := hstart.pdus } ?_ ?_ ?_ hLCID
    · show 0 + (info.outSize - (3 + l.txCrcSize) - acks.length * 2) ≤ info.outSize
      omega
    · show 3 + l.txCrcSize ≤ (l.ackPdu (l.startTx pdcp info).llc acks).getSIZE
      omega
    · show (l.ackPdu (l.startTx pdcp info).llc acks).getSIZE ≤
        (l.ackPdu (l.startTx pdcp info).llc acks).base.length
      omega
    · show 0 + (l.ackPdu (l.startTx pdcp info).llc acks).getSIZE +
        (info.outSize - (3 + l.txCrcSize) - acks.length * 2) ≤ info.outSize
      omega

/-! ## The data PDU -/

/-- Behind the payload of `k` bytes, of which the header is not counted yet. -/
structure Loaded (l : Llc) (n g k : Nat) (s : TxState π) : Prop where
  setup : l.SameSetup s.owner
  header : s.llc.getHeaderSize = 3 + l.txCrcSize
  length : s.front.length + s.llc.base.length = n
  room : s.front.length + (3 + l.txCrcSize) + k ≤ g
  front : s.front = s.pdus.flatten
  allocated : s.outAllocated = s.front.length + k
  rlf : s.rlf = false
  pdus : ∀ pdu ∈ s.pdus, IsPdu l.lcid (3 + l.txCrcSize) pdu
  size : s.llc.getSIZE = 3 + l.txCrcSize + k
  lcid : s.llc.getLCID = l.lcid &&& 0x0F

theorem Filled.startData (h : s.Filled l n g) (hroom : s.llc.getHeaderSize ≤ s.outSize)
    (hfit : g ≤ n) :
    s.startData.Filled l n g ∧ s.startData.llc.getLCID = l.lcid &&& 0x0F ∧
      s.startData.front.length + (3 + l.txCrcSize) + s.startData.outSize ≤ g := by
  have hold := h.room
  have hlen := h.length
  have hhdr := h.header
  refine ⟨{ h with length := ?_, room := ?_ }, ?_, ?_⟩
  · unfold TxState.startData LlcPdu.setA LlcPdu.setLCID
    simp only [LlcPdu.set_length]
    exact hlen
  · show s.front.length + (s.outSize - s.llc.getHeaderSize) ≤ g
    omega
  · show ((s.llc.setLCID s.owner.lcid).setA false).getLCID = _
    rw [LlcPdu.getLCID_setA, LlcPdu.getLCID_setLCID (by omega), h.setup.lcid]
  · show s.front.length + (3 + l.txCrcSize) + (s.outSize - s.llc.getHeaderSize) ≤ g
    omega

/-- A payload of the PDCP. -/
theorem Filled.loadPdcp (hp : PdcpOnTxOk pdcpOnTx) (h : s.Filled l n g) (hmax : g ≤ 2047)
    (hfit : g ≤ n) (hlcid : s.llc.getLCID = l.lcid &&& 0x0F)
    (hroom : s.front.length + (3 + l.txCrcSize) + s.outSize ≤ g) :
    ∃ k, (s.loadPdcp pdcpOnTx).Loaded l n g k ∧ (s.loadPdcp pdcpOnTx).front = s.front := by
  have hlen := h.length
  have halloc := h.allocated
  have hhdr := h.header
  generalize hregion : (s.llc.base.drop s.llc.getHeaderSize).take s.outSize = region
  have hreg : region.length ≤ s.outSize := by
    rw [← hregion]
    exact List.length_take_le _ _
  have hlow := hp.grows s.pdcp ⟨region, s.outAllocated, s.outTxAvailable⟩
    (by dsimp only; omega)
  have hhigh := hp.fits s.pdcp ⟨region, s.outAllocated, s.outTxAvailable⟩
    (by dsimp only; omega)
  dsimp only at hlow hhigh
  unfold TxState.loadPdcp TxState.callPdcp
  dsimp only
  rw [hregion]
  generalize pdcpOnTx s.pdcp ⟨region, s.outAllocated, s.outTxAvailable⟩ = r at hlow hhigh
  have hbase : ∀ bytes size, ((s.llc.storePayload bytes).setPayloadSize size).base.length =
      s.llc.base.length := by
    intro bytes size
    unfold LlcPdu.setPayloadSize LlcPdu.setSIZE
    rw [LlcPdu.set_length, LlcPdu.set_length]
    exact poke_length ..
  have hmod : (r.2.outAllocated - s.outAllocated + s.llc.getHeaderSize) % 65536 =
      3 + l.txCrcSize + (r.2.outAllocated - s.outAllocated) := by
    omega
  refine ⟨r.2.outAllocated - s.outAllocated, ?_, rfl⟩
  exact
    { setup := h.setup
      header := h.header
      length := by rw [hbase]; exact hlen
      room := by dsimp only; omega
      front := h.front
      allocated := by dsimp only; omega
      rlf := h.rlf
      pdus := h.pdus
      size := by
        have hplen : 3 ≤ (s.llc.storePayload (r.2.outPdu.take region.length)).base.length := by
          unfold LlcPdu.storePayload
          rw [poke_length]
          omega
        show ((s.llc.storePayload _).setSIZE
          ((r.2.outAllocated - s.outAllocated + s.llc.getHeaderSize) % 65536)).getSIZE = _
        rw [hmod, LlcPdu.getSIZE_setSIZE hplen (by omega)]
      lcid := by
        unfold LlcPdu.setPayloadSize
        rw [LlcPdu.getLCID_setSIZE, LlcPdu.getLCID_storePayload, hlcid] }

/-- A payload of the retransmission list. -/
theorem Filled.loadRetx (hp : PdcpOnTxOk pdcpOnTx) (h : s.Filled l n g) (hmax : g ≤ 2047)
    (hfit : g ≤ n) (hlcid : s.llc.getLCID = l.lcid &&& 0x0F)
    (hroom : s.front.length + (3 + l.txCrcSize) + s.outSize ≤ g) {pdcpPdu : List UInt8}
    (hpdu : pdcpPdu.length ≤ s.outSize) :
    (s.loadRetx pdcpOnTx pdcpPdu).Loaded l n g pdcpPdu.length ∧
      (s.loadRetx pdcpOnTx pdcpPdu).front = s.front := by
  have hlen := h.length
  have halloc := h.allocated
  have hhdr := h.header
  have hlow := hp.grows s.pdcp ⟨[], s.outAllocated + pdcpPdu.length, s.outTxAvailable⟩
    (Nat.zero_le _)
  have hhigh := hp.fits s.pdcp ⟨[], s.outAllocated + pdcpPdu.length, s.outTxAvailable⟩
    (Nat.zero_le _)
  dsimp only [List.length_nil] at hlow hhigh
  have hbase : ((s.llc.storePayload pdcpPdu).setPayloadSize pdcpPdu.length).base.length =
      s.llc.base.length := by
    unfold LlcPdu.setPayloadSize LlcPdu.setSIZE
    rw [LlcPdu.set_length, LlcPdu.set_length]
    exact poke_length ..
  have hmod : (pdcpPdu.length + s.llc.getHeaderSize) % 65536 =
      3 + l.txCrcSize + pdcpPdu.length := by
    omega
  refine ⟨?_, rfl⟩
  exact
    { setup := h.setup
      header := h.header
      length := by
        show s.front.length +
          ((s.llc.storePayload pdcpPdu).setPayloadSize pdcpPdu.length).base.length = n
        rw [hbase]
        exact hlen
      room := by
        show s.front.length + (3 + l.txCrcSize) + pdcpPdu.length ≤ g
        omega
      front := h.front
      allocated := by
        show (pdcpOnTx s.pdcp
          ⟨[], s.outAllocated + pdcpPdu.length, s.outTxAvailable⟩).2.outAllocated =
          s.front.length + pdcpPdu.length
        omega
      rlf := h.rlf
      pdus := h.pdus
      size := by
        have hplen : 3 ≤ (s.llc.storePayload pdcpPdu).base.length := by
          unfold LlcPdu.storePayload
          rw [poke_length]
          omega
        show ((s.llc.storePayload pdcpPdu).setSIZE
          ((pdcpPdu.length + s.llc.getHeaderSize) % 65536)).getSIZE = _
        rw [hmod, LlcPdu.getSIZE_setSIZE hplen (by omega)]
      lcid := by
        show ((s.llc.storePayload pdcpPdu).setSIZE _).getLCID = _
        rw [LlcPdu.getLCID_setSIZE, LlcPdu.getLCID_storePayload, hlcid] }

/-- The end of a call that has come to a payload. -/
theorem Loaded.finish {k : Nat} (h : s.Loaded l n g k) (hfit : g ≤ n) (slotNumber : Nat)
    (retx : Option Nat) (retxCount : Nat) :
    (s.finish slotNumber s.front.length retx retxCount).LaidOut l n g := by
  have hlen := h.length
  have hroom := h.room
  have halloc := h.allocated
  unfold TxState.finish
  by_cases hnone : s.front.length = s.outAllocated
  · rw [if_pos hnone]
    refine ⟨?_, by omega, fun _ => ?_, fun hr => ?_, h.pdus⟩
    · rw [frame, List.length_append]
      exact hlen
    · rw [frame, ← hnone, List.take_left' rfl]
      exact h.front
    · rw [h.rlf] at hr
      cases hr
  · rw [if_neg hnone]
    dsimp only
    obtain ⟨hSIZE, hLCID, hbase, hheader⟩ :=
      writeCrc_fields s.owner (s.llc.setSN s.owner.snCounter)
    rw [LlcPdu.getSIZE_setSN, h.size] at hSIZE
    rw [LlcPdu.getLCID_setSN, h.lcid] at hLCID
    have hsn : (s.llc.setSN s.owner.snCounter).base.length = s.llc.base.length :=
      LlcPdu.set_length ..
    rw [hsn] at hbase
    have hhdr : (s.llc.setSN s.owner.snCounter).getHeaderSize = 3 + l.txCrcSize := h.header
    rw [hhdr] at hheader
    generalize s.owner.writeCrc (s.llc.setSN s.owner.snCounter) = p at hSIZE hLCID hbase hheader
    refine ⟨?_, ?_, fun _ => ?_, fun hr => ?_, ?_⟩
    · rw [frame, List.length_append]
      dsimp only
      omega
    · dsimp only
      omega
    · have htotal : s.outAllocated + p.getHeaderSize = s.front.length + p.getSIZE := by omega
      rw [frame]
      dsimp only
      rw [htotal, List.take_length_add_append, List.flatten_append, List.flatten_singleton, h.front]
    · dsimp only at hr
      rw [h.rlf] at hr
      cases hr
    · intro pdu hmem
      rcases List.mem_append.mp hmem with hold | hnew
      · exact h.pdus pdu hold
      · rw [List.mem_singleton.mp hnew]
        exact IsPdu.of_front (by omega) (by omega) (by omega) hLCID

/-- A call that has come to the data PDU. -/
theorem Filled.allocateData (hp : PdcpOnTxOk pdcpOnTx) (h : s.Filled l n g) (hmax : g ≤ 2047)
    (hfit : g ≤ n) (hroom : s.llc.getHeaderSize ≤ s.outSize) (slotNumber : Nat) :
    (s.allocateData pdcpOnTx slotNumber).LaidOut l n g := by
  obtain ⟨hstart, hlcid, hspace⟩ := h.startData hroom hfit
  have hpop : ∀ others, (s.startData.popRetx others).Filled l n g := fun others =>
    { hstart with setup := hstart.setup.trans ⟨rfl, rfl, rfl, rfl, rfl, rfl, rfl, rfl⟩ }
  have halloc := h.allocated
  rcases s.allocateData_cases pdcpOnTx slotNumber with ⟨-, hres⟩ |
    ⟨retx, others, -, ⟨-, hres⟩ | ⟨-, -, hrlf, hres⟩ | ⟨-, -, hres⟩ | ⟨-, hlen, hres⟩⟩
  · obtain ⟨k, hload, hfront⟩ := hstart.loadPdcp hp hmax hfit hlcid hspace
    rw [hres, halloc, show s.front = s.startData.front from rfl, ← hfront]
    exact hload.finish hfit _ _ _
  · rw [hres]
    obtain ⟨length, fits, take, rlf, pdus⟩ := (hstart.informPdcp hp).laidOut
    exact ⟨length, fits, take, rlf, pdus⟩
  · rw [hres]
    refine ⟨?_, Nat.zero_le _, fun hr => ?_, fun _ => ⟨?_, rfl⟩, hstart.pdus⟩
    · exact (List.length_append).trans hstart.length
    · cases hr
    · rw [← h.setup.txConfig]
      exact hrlf
  · obtain ⟨k, hload, hfront⟩ := (hpop others).loadPdcp hp hmax hfit hlcid hspace
    rw [hres, halloc, show s.front = (s.startData.popRetx others).front from rfl, ← hfront]
    exact hload.finish hfit _ _ _
  · obtain ⟨hload, hfront⟩ := (hpop others).loadRetx hp hmax hfit hlcid hspace hlen
    rw [hres, halloc, show s.front = (s.startData.popRetx others).front from rfl, ← hfront]
    exact hload.finish hfit _ _ _

/-! ## A call -/

theorem LaidOut.of_setup {l' : Llc} (hl : l.SameSetup l') (h : s.LaidOut l' n g) :
    s.LaidOut l n g := by
  obtain ⟨length, fits, take, rlf, pdus⟩ := h
  rw [hl.txConfig] at rlf
  rw [hl.lcid, hl.txCrcSize] at pdus
  exact ⟨length, fits, take, rlf, pdus⟩

end TxState

/-- **The layout of a grant**: the allocated bytes of the frame are the PDUs of the
call. -/
theorem Llc.onTx_laidOut {π : Type}
    {pdcpOnTx : π → LegacyPdcp.TxInfo → π × LegacyPdcp.TxInfo} (hp : PdcpOnTxOk pdcpOnTx)
    (l : Llc) (pdcp : π) (info : TxInfo) (hfree : info.outAllocated = 0)
    (hfit : info.outSize ≤ info.outPdu.length) (hmax : info.outSize ≤ 2047) :
    (l.onTx pdcpOnTx pdcp info).LaidOut l info.outPdu.length info.outSize := by
  have hcheck := l.checkRetransmit_setup info.slotNumber
  rcases l.onTx_cases pdcpOnTx pdcp info with ⟨-, h⟩ | ⟨-, -, h⟩ |
    ⟨-, hsize, s, rfl, ⟨-, h⟩ | ⟨hroom, -, h⟩⟩
  · rw [h]
    exact (TxState.startTx_filled l pdcp info hfree).laidOut
  · rw [h]
    exact ((TxState.startTx_filled _ pdcp info hfree).informOnly hp).laidOut.of_setup hcheck
  · rw [h]
    rw [← hcheck.txCrcSize] at hsize
    exact ((TxState.ackStage_filled _ pdcp info hfree hsize hfit hmax).informOnly
      hp).laidOut.of_setup hcheck
  · rw [h]
    rw [← hcheck.txCrcSize] at hsize
    exact ((TxState.ackStage_filled _ pdcp info hfree hsize hfit hmax).allocateData
      hp hmax hfit hroom _).of_setup hcheck

end Winject.LegacyLlc
