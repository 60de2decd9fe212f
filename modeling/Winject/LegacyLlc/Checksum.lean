import Winject.LegacyLlc.GrantLayout
import Winject.LegacyLlc.RingBounds

/-!
# The checksum of a PDU

A transmitter sets the field to zero, computes the checksum over the PDU and stores
it; `LLC::on_rx` reads it, sets the field to zero and computes it again.

## Main results

* `verifies_sealed` — what is stored is what is computed.
* `onTx_finished` — every PDU of `LLC::on_tx` ends with these stores.
* `onTx_verifies` — the PDUs of `LLC::on_tx` in any receiver.
* `ackedNumbers_ackPdu` — an ACK PDU in a receiver.
-/

namespace Winject.LegacyLlc

open Winject.Frames
open Winject.Lib.Bytes

/-- The size in the header of the first PDU of some bytes. -/
def pduSize (bytes : List UInt8) : Nat := (LlcPdu.new bytes bytes.length 0).getSIZE

/-- The first PDU of some bytes, as it is delivered to `on_rx`. -/
def delivery (bytes : List UInt8) : RxInfo := ⟨bytes.take (pduSize bytes), pduSize bytes⟩

/-- Every receiver with checksums takes the first PDU of the bytes. -/
def Verifies (bytes : List UInt8) : Prop :=
  ∀ l : Llc, l.rxConfig.crcType = .crc32 → l.accepts (delivery bytes) = true

/-! ## What is stored is what is computed -/

/-- The stores of a transmitter. -/
def sealed (p : LlcPdu) : LlcPdu :=
  let p := p.storeCRC (be32 0)
  p.storeCRC (be32 (crc32 (p.base.take p.getSIZE)))

theorem take_field {a w c : List UInt8} {n : Nat} (ha : a.length = 3) (hw : w.length = 4)
    (hn : 7 ≤ n) : (a ++ (w ++ c)).take n = a ++ (w ++ c.take (n - 7)) := by
  have hrest : n - a.length - w.length = n - 7 := by omega
  rw [List.take_append, List.take_append, hrest, List.take_of_length_le (by omega),
    List.take_of_length_le (by omega)]

theorem pduSize_take {bytes : List UInt8} {n : Nat} (hn : 3 ≤ n) :
    pduSize (bytes.take n) = pduSize bytes := by
  have hget : ∀ i, i < 3 → ∀ m s, (LlcPdu.new (bytes.take n) (bytes.take n).length 0).get i m s =
      (LlcPdu.new bytes bytes.length 0).get i m s :=
    fun i hi m s => get_new_take (LlcPdu.new bytes bytes.length 0) (by omega) _ _ m s
  unfold pduSize LlcPdu.getSIZE
  rw [hget 1 (by omega), hget 2 (by omega)]

/-- The first PDU is not changed by what is cut off behind it. -/
theorem Verifies.take {bytes : List UInt8} (h : Verifies bytes) (hsize : 3 ≤ pduSize bytes) :
    Verifies (bytes.take (pduSize bytes)) := by
  have hsame : delivery (bytes.take (pduSize bytes)) = delivery bytes := by
    unfold delivery
    rw [pduSize_take hsize, List.take_take, min_self]
  intro l hcrc
  rw [hsame]
  exact h l hcrc

/-- **The checksum** that a transmitter stores is the one that a receiver computes. -/
theorem verifies_sealed {p : LlcPdu} (hlen : 7 ≤ p.base.length) (hsize : 7 ≤ p.getSIZE) :
    Verifies (sealed p).base := by
  -- The PDU is three bytes of header, the field, and the rest.
  obtain ⟨a, b, c, hbase, ha, hb⟩ : ∃ a b c, p.base = a ++ (b ++ c) ∧ a.length = 3 ∧
      b.length = 4 := by
    refine ⟨p.base.take 3, (p.base.drop 3).take 4, (p.base.drop 3).drop 4, ?_, ?_, ?_⟩
    · rw [List.take_append_drop, List.take_append_drop]
    · rw [List.length_take]
      omega
    · rw [List.length_take, List.length_drop]
      omega
  have hstore : ∀ {w w' : List UInt8}, w.length = 4 → w'.length = 4 → ∀ d : List UInt8,
      poke (a ++ (w ++ d)) 3 w' = a ++ (w' ++ d) := by
    intro w w' hw hw' d
    exact poke_append ha (hw.trans hw'.symm)
  have hzero : (p.storeCRC (be32 0)).base = a ++ (be32 0 ++ c) := by
    show poke p.base 3 (be32 0) = _
    rw [hbase]
    exact hstore hb rfl c
  generalize hn : p.getSIZE = n at hsize
  generalize hv : crc32 ((a ++ (be32 0 ++ c)).take n) = v
  have hdone : (sealed p).base = a ++ (be32 v ++ c) := by
    show poke (p.storeCRC (be32 0)).base 3
      (be32 (crc32 ((p.storeCRC (be32 0)).base.take (p.storeCRC (be32 0)).getSIZE))) = _
    rw [LlcPdu.getSIZE_storeCRC, hn, hzero, hv]
    exact hstore rfl rfl c
  have hread : pduSize (sealed p).base = n := by
    show (sealed p).getSIZE = n
    unfold sealed
    dsimp only
    rw [LlcPdu.getSIZE_storeCRC, LlcPdu.getSIZE_storeCRC, hn]
  have hcut : (delivery (sealed p).base).base = a ++ (be32 v ++ c.take (n - 7)) := by
    show (sealed p).base.take (pduSize (sealed p).base) = _
    rw [hread, hdone, take_field ha rfl hsize]
  have hreported : (delivery (sealed p).base).size = n := hread
  have hheader : pduSize (delivery (sealed p).base).base = n := by
    show pduSize ((sealed p).base.take (pduSize (sealed p).base)) = n
    rw [pduSize_take (by omega), hread]
  intro l hcrc
  generalize delivery (sealed p).base = info at hcut hreported hheader
  have hcleared : (l.clearCrc (LlcPdu.new info.base info.size l.rxCrcSize)).base =
      a ++ (be32 0 ++ c.take (n - 7)) := by
    unfold Llc.clearCrc
    rw [if_pos hcrc]
    show poke info.base 3 (be32 0) = _
    rw [hcut]
    exact hstore rfl rfl _
  have hsame : (a ++ (be32 0 ++ c.take (n - 7))).take n = (a ++ (be32 0 ++ c)).take n := by
    rw [take_field ha rfl hsize, take_field ha rfl hsize, List.take_take, min_self]
  have hgot : (LlcPdu.new info.base info.size l.rxCrcSize).getSIZE = n := hheader
  unfold Llc.accepts
  dsimp only
  rw [hgot, hreported, if_neg (Nat.lt_irrefl n), if_pos hcrc, ← hreported, hcleared, hreported,
    hsame, hv]
  show (v == readBe32 info.base 3) = true
  rw [hcut, Llc.readBe32_be32 a _ 3 v ha, beq_self_eq_true]

/-! ## The PDUs of `on_tx` -/

/-- The last stores into a PDU of the channel are those of its checksum. -/
def Finished (l : Llc) (pdu : List UInt8) : Prop :=
  ∃ (owner : Llc) (p : LlcPdu), owner.txConfig = l.txConfig ∧ 3 + l.txCrcSize ≤ p.base.length ∧
    pdu = (owner.writeCrc p).base.take (owner.writeCrc p).getSIZE

theorem Finished.of_setup {l l' : Llc} (hsetup : l.SameSetup l') {pdu : List UInt8}
    (h : Finished l' pdu) : Finished l pdu := by
  obtain ⟨owner, p, hconfig, hlen, hpdu⟩ := h
  rw [hsetup.txConfig] at hconfig
  rw [hsetup.txCrcSize] at hlen
  exact ⟨owner, p, hconfig, hlen, hpdu⟩

/-- A PDU that is cut off in its header reports no size. -/
theorem pduSize_take_short {p : LlcPdu} (h : p.getSIZE < 3) :
    pduSize (p.base.take p.getSIZE) = 0 := by
  have hhigh : (p.get 1 0x07 0).toNat = 0 := by
    unfold LlcPdu.getSIZE at h
    omega
  have hnone : ∀ i, p.getSIZE ≤ i → ∀ m : UInt8,
      (LlcPdu.new (p.base.take p.getSIZE) (p.base.take p.getSIZE).length 0).get i m 0 = 0 := by
    intro i hi m
    unfold LlcPdu.get LlcPdu.new
    rw [List.getD_eq_default _ _ (by rw [List.length_take]; omega), UInt8.zero_and]
    rfl
  show (LlcPdu.get _ 1 0x07 0).toNat * 256 + (LlcPdu.get _ 2 0xFF 0).toNat = 0
  rw [hnone 2 (by omega)]
  by_cases hone : 1 < p.getSIZE
  · rw [get_new_take p hone, hhigh]
    rfl
  · rw [hnone 1 (by omega)]
    rfl

/-- In a header with room for the checksum, a PDU that is finished verifies. -/
theorem Finished.verifies {l : Llc} (hl : l.Sized) (hcrc : l.txConfig.crcType = .crc32)
    {pdu : List UInt8} (h : Finished l pdu) (hsize : 7 ≤ pduSize pdu) : Verifies pdu := by
  obtain ⟨owner, p, hconfig, hlen, hpdu⟩ := h
  have hroom := hl.crc hcrc
  have hseal : owner.writeCrc p = sealed p := if_pos (by rw [hconfig]; exact hcrc)
  have hread : (sealed p).getSIZE = p.getSIZE := by
    unfold sealed
    dsimp only
    rw [LlcPdu.getSIZE_storeCRC, LlcPdu.getSIZE_storeCRC]
  have hbase : pduSize (sealed p).base = p.getSIZE := hread
  rw [hseal, hread] at hpdu
  by_cases hshort : 3 ≤ p.getSIZE
  · rw [hpdu, pduSize_take hshort, hbase] at hsize
    rw [hpdu, ← hbase]
    exact (verifies_sealed (by omega) hsize).take (by omega)
  · have hzero := pduSize_take_short (p := sealed p) (by omega)
    rw [hread] at hzero
    rw [hpdu, hzero] at hsize
    omega

theorem ackPdu_finished (l : Llc) (p : LlcPdu) (acks : List (Nat × Nat))
    (hlen : 3 + l.txCrcSize ≤ p.base.length) :
    Finished l ((l.ackPdu p acks).base.take (l.ackPdu p acks).getSIZE) := by
  refine ⟨l, (((((p.storePayload (Llc.ackBytes acks)).setPayloadSize (acks.length * 2)).setSN
    0).setA true).setLCID l.lcid), rfl, ?_, rfl⟩
  unfold LlcPdu.setLCID LlcPdu.setA LlcPdu.setSN
  rw [LlcPdu.set_length, LlcPdu.set_length, LlcPdu.set_length, TxState.storePayload_length]
  exact hlen

namespace TxState

variable {π : Type} {pdcpOnTx : π → LegacyPdcp.TxInfo → π × LegacyPdcp.TxInfo} {l : Llc}

theorem ackStage_finished (l : Llc) (pdcp : π) (grant : Grant)
    (hsize : 3 + l.txCrcSize < grant.size) :
    ∀ pdu ∈ (l.ackStage pdcp grant.info).pdus, Finished l pdu := by
  have hfits := grant.fits
  unfold Llc.ackStage allocateAcks
  dsimp only
  split_ifs
  · exact fun _ hmem => (List.not_mem_nil hmem).elim
  · intro pdu hmem
    rw [List.mem_singleton.mp hmem]
    apply ackPdu_finished
    show 3 + l.txCrcSize ≤ grant.buffer.length
    omega

theorem finish_finished {s : TxState π} (hconfig : s.owner.txConfig = l.txConfig)
    (hlen : 3 + l.txCrcSize ≤ s.llc.base.length) (h : ∀ pdu ∈ s.pdus, Finished l pdu)
    (slotNumber initAlloc : Nat) (retx : Option Nat) (retxCount : Nat) :
    ∀ pdu ∈ (s.finish slotNumber initAlloc retx retxCount).pdus, Finished l pdu := by
  unfold TxState.finish
  by_cases hnone : initAlloc = s.outAllocated
  · rw [if_pos hnone]
    exact h
  · rw [if_neg hnone]
    intro pdu hmem
    rcases List.mem_append.mp hmem with hold | hnew
    · exact h pdu hold
    · rw [List.mem_singleton.mp hnew]
      refine ⟨s.owner, s.llc.setSN s.owner.snCounter, hconfig, ?_, rfl⟩
      unfold LlcPdu.setSN
      rwa [LlcPdu.set_length]

variable (pdcpOnTx) in
theorem allocateData_finished {s : TxState π} (hconfig : s.owner.txConfig = l.txConfig)
    (hlen : 3 + l.txCrcSize ≤ s.llc.base.length) (h : ∀ pdu ∈ s.pdus, Finished l pdu)
    (slotNumber : Nat) :
    ∀ pdu ∈ (s.allocateData pdcpOnTx slotNumber).pdus, Finished l pdu := by
  rw [← startData_length] at hlen
  rcases s.allocateData_cases pdcpOnTx slotNumber with ⟨-, hres⟩ |
    ⟨retx, others, -, ⟨-, hres⟩ | ⟨-, -, -, hres⟩ | ⟨-, -, hres⟩ | ⟨-, -, hres⟩⟩
  · rw [hres]
    apply finish_finished (s := s.startData.loadPdcp pdcpOnTx) hconfig _ h
    rwa [loadPdcp_length]
  · rw [hres]
    exact h
  · rw [hres]
    exact h
  · rw [hres]
    apply finish_finished (s := (s.startData.popRetx others).loadPdcp pdcpOnTx) hconfig _ h
    rwa [loadPdcp_length]
  · rw [hres]
    apply finish_finished (s := (s.startData.popRetx others).loadRetx pdcpOnTx retx.pdcpPdu)
      hconfig _ h
    rwa [loadRetx_length]

end TxState

/-- Every PDU of a call ends with the stores of its checksum. -/
theorem Llc.onTx_finished {π : Type}
    (pdcpOnTx : π → LegacyPdcp.TxInfo → π × LegacyPdcp.TxInfo) (l : Llc) (pdcp : π)
    (grant : Grant) : ∀ pdu ∈ (l.onTx pdcpOnTx pdcp grant.info).pdus, Finished l pdu := by
  have hcheck := l.checkRetransmit_setup grant.info.slotNumber
  have hnone : ∀ pdu ∈ ([] : List (List UInt8)), Finished l pdu :=
    fun _ hmem => (List.not_mem_nil hmem).elim
  rcases l.onTx_cases pdcpOnTx pdcp grant.info with ⟨-, hres⟩ | ⟨-, -, hres⟩ |
    ⟨-, hsize, s, rfl, ⟨-, hres⟩ | ⟨hroom, -, hres⟩⟩
  · rw [hres]
    exact hnone
  · rw [hres]
    exact hnone
  · rw [hres]
    intro pdu hmem
    exact (TxState.ackStage_finished _ pdcp grant (by rw [hcheck.txCrcSize]; exact hsize) pdu
      hmem).of_setup hcheck
  · rw [hres]
    intro pdu hmem
    have hspace := (l.checkRetransmit grant.info.slotNumber).ackStage_room pdcp grant
      (by rw [hcheck.txCrcSize]; exact hsize)
    have hheader := ((l.checkRetransmit grant.info.slotNumber).ackStage_header pdcp grant).1
    have hacks := (l.checkRetransmit grant.info.slotNumber).ackStage_setup pdcp grant.info
    have hstage := TxState.ackStage_finished (l.checkRetransmit grant.info.slotNumber) pdcp grant
      (by rw [hcheck.txCrcSize]; exact hsize)
    exact (TxState.allocateData_finished pdcpOnTx hacks.txConfig (hheader ▸ hroom.trans hspace)
      hstage grant.slotNumber pdu hmem).of_setup hcheck

/-- **The PDUs of `on_tx`** verify, in every state that some calls lead to. -/
theorem onTx_verifies {π : Type} (pdcpOnTx : π → LegacyPdcp.TxInfo → π × LegacyPdcp.TxInfo)
    (lcid : UInt8) (txConfig : TxConfig) (rxConfig : RxConfig) (calls : List (Call π)) (pdcp : π)
    (grant : Grant)
    (hcrc : (Llc.called pdcpOnTx lcid txConfig rxConfig calls).txConfig.crcType = .crc32) :
    ∀ pdu ∈ ((Llc.called pdcpOnTx lcid txConfig rxConfig calls).onTx pdcpOnTx pdcp
      grant.info).pdus, 7 ≤ pduSize pdu → Verifies pdu := by
  intro pdu hmem hsize
  exact (Llc.onTx_finished pdcpOnTx _ pdcp grant pdu hmem).verifies
    (Llc.called_sized pdcpOnTx lcid txConfig rxConfig calls) hcrc hsize

/-- The PDUs of a grant within the size field have their headers. -/
theorem onTx_pduSize {π : Type} {pdcpOnTx : π → LegacyPdcp.TxInfo → π × LegacyPdcp.TxInfo}
    (hp : PdcpOnTxOk pdcpOnTx) (lcid : UInt8) (txConfig : TxConfig) (rxConfig : RxConfig)
    (calls : List (Call π)) (pdcp : π) (grant : Grant) (hmax : grant.size ≤ 2047)
    (hcrc : (Llc.called pdcpOnTx lcid txConfig rxConfig calls).txConfig.crcType = .crc32) :
    ∀ pdu ∈ ((Llc.called pdcpOnTx lcid txConfig rxConfig calls).onTx pdcpOnTx pdcp
      grant.info).pdus, 7 ≤ pduSize pdu := by
  intro pdu hmem
  have hroom := (Llc.called_sized pdcpOnTx lcid txConfig rxConfig calls).crc hcrc
  have hpdu := (Llc.onTx_laidOut hp _ pdcp grant.info rfl grant.fits hmax).pdus pdu hmem
  have hheader := hpdu.header
  have hsize : pduSize pdu = pdu.length := hpdu.size
  omega

/-! ## An ACK PDU in a receiver -/

/-- A PDU that is all there is accepted, if the receiver finds its checksum. -/
theorem accepts_whole {pdu : List UInt8} (hsize : pduSize pdu = pdu.length) {receiver : Llc}
    (h : receiver.rxConfig.crcType = .crc32 → Verifies pdu) :
    receiver.accepts ⟨pdu, pdu.length⟩ = true := by
  by_cases hon : receiver.rxConfig.crcType = .crc32
  · have haccepts := h hon receiver hon
    unfold delivery at haccepts
    rwa [hsize, List.take_length] at haccepts
  · have hfit : (LlcPdu.new pdu pdu.length receiver.rxCrcSize).getSIZE = pdu.length := hsize
    unfold Llc.accepts
    dsimp only
    rw [hfit, if_neg (Nat.lt_irrefl _), if_neg hon]

/-- **An ACK PDU acknowledges the numbers of its entries** in a receiver that expects its
header. -/
theorem ackedNumbers_ackPdu {l : Llc} (hl : l.Sized) {p : LlcPdu} {acks : List (Nat × Nat)}
    (hheader : p.getHeaderSize = 3 + l.txCrcSize)
    (hfit : p.getHeaderSize + acks.length * 2 ≤ p.base.length)
    (hmax : p.getHeaderSize + acks.length * 2 < 2048) (hcounts : ∀ ack ∈ acks, ack.2 < 256)
    {receiver : Llc} (hcrc : receiver.rxConfig.crcType = l.txConfig.crcType)
    (hsize : receiver.rxCrcSize = l.txCrcSize) (hinit : receiver.rxConfig.autoInitOnRx = false)
    {pdu : List UInt8} (hpdu : pdu = (l.ackPdu p acks).base.take (l.ackPdu p acks).getSIZE) :
    receiver.ackedNumbers ⟨pdu, pdu.length⟩ = pending acks := by
  obtain ⟨hSIZE, -, hbase, -⟩ := TxState.ackPdu_fields l p acks (by omega) hmax
  have hlen : pdu.length = 3 + l.txCrcSize + acks.length * 2 := by
    rw [hpdu, List.length_take]
    omega
  have hget : ∀ i, i < 3 → ∀ n k m s, (LlcPdu.new pdu n k).get i m s =
      (l.ackPdu p acks).get i m s := by
    intro i hi n k m s
    rw [hpdu]
    exact get_new_take _ (by omega) _ _ m s
  have hread : ∀ n k, (LlcPdu.new pdu n k).getSIZE = pdu.length := by
    intro n k
    unfold LlcPdu.getSIZE at hSIZE ⊢
    rw [hget 1 (by omega), hget 2 (by omega), hSIZE, hlen, hheader]
  have hA : ∀ n k, (LlcPdu.new pdu n k).getA = true := by
    intro n k
    have hflag := getA_ackPdu l acks (show 3 ≤ p.base.length by omega)
    unfold LlcPdu.getA at hflag ⊢
    rw [hget 1 (by omega), hflag]
  have haccepts : receiver.accepts ⟨pdu, pdu.length⟩ = true := by
    refine accepts_whole (hread _ _) fun hon => ?_
    have hfour := hl.crc (hcrc.symm.trans hon)
    have hverifies := (ackPdu_finished l p acks (by omega)).verifies hl (hcrc.symm.trans hon)
    rw [← hpdu] at hverifies
    refine hverifies ?_
    show 7 ≤ (LlcPdu.new pdu pdu.length 0).getSIZE
    rw [hread]
    omega
  have hrxSize : (receiver.rxPdu ⟨pdu, pdu.length⟩).getSIZE = pdu.length := by
    rw [Llc.rxPdu_getSIZE, hread]
  have hrxHeader : (receiver.rxPdu ⟨pdu, pdu.length⟩).getHeaderSize = 3 + l.txCrcSize := by
    rw [Llc.rxPdu_getHeaderSize, hsize]
  have hrxDrop : (receiver.rxPdu ⟨pdu, pdu.length⟩).base.drop (3 + l.txCrcSize) =
      pdu.drop (3 + l.txCrcSize) := by
    refine receiver.rxPdu_drop ⟨pdu, pdu.length⟩ fun hon => ?_
    have hfour := hl.crc (hcrc.symm.trans hon)
    omega
  have hentries : pdu.drop (3 + l.txCrcSize) = Llc.ackBytes acks ++ [] := by
    have hroom : l.txConfig.crcType = .crc32 → p.crcSize = 4 := by
      intro hon
      have hfour := hl.crc hon
      have hown : p.getHeaderSize = 3 + p.crcSize := rfl
      omega
    have hdrop := ackPdu_drop hroom hfit
    rw [hheader] at hdrop
    rw [hpdu, List.drop_take, hdrop, List.append_nil]
    exact List.take_left' (by rw [ackBytes_length]; omega)
  have htakes : receiver.takes ⟨pdu, pdu.length⟩ = true := by
    unfold Llc.takes
    rw [hinit, haccepts, Bool.and_false]
    rfl
  unfold Llc.ackedNumbers
  rw [htakes, Llc.rxPdu_getA, hA]
  show entryNumbers (Llc.ackEntries (receiver.rxPdu ⟨pdu, pdu.length⟩)) = pending acks
  rw [ackEntries_of_drop (by rw [hrxSize, hrxHeader, hlen]) (by omega)
    (by rw [hrxHeader, hrxDrop, hentries]), entryNumbers_eq_pending hcounts]

end Winject.LegacyLlc
