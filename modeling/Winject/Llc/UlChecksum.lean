import Winject.LegacyLlc.Checksum
import Winject.Llc.UlBookkeeping

/-!
# The checksum of the LLC uplink

`write_llc_pdu` stamps the PDU in its target and keeps the buffer of a data PDU;
`write_retransmission_pdu` copies a buffer that was kept.  So what both of them write
verifies in the receiver of the first LLC.

## Main results

* `stampLlcPdu_verifies` — the PDU that `write_llc_pdu` writes.
* `Stored.step` — the buffers that are kept.
* `checksum_verifies` — the PDUs of every transmitter.
-/

namespace Winject.Llc

open Winject.Frames
open Winject.Lib.Bytes
open Winject.Lib.Runs
open Winject.LegacyLlc (pduSize pduSize_take Verifies verifies_sealed)

/-- With checksums, the first PDU of a buffer verifies when it has its header. -/
def Good (config : LlcUlConfig) (buffer : List UInt8) : Prop :=
  config.crcType = .crc32 → 7 ≤ pduSize buffer → Verifies buffer

theorem Good.nil (config : LlcUlConfig) : Good config [] := by
  intro _ hsize
  exact absurd hsize (by decide)

namespace LlcUl

/-! ## What is written -/

/-- The size that a PDU reports is not changed by the stores of the header. -/
theorem stampLlcPdu_getSIZE (config : LlcUlConfig) (snCounter : UInt8) (llc : LlcPdu) :
    (stampLlcPdu config snCounter llc).getSIZE = llc.getSIZE := by
  have hsn : (if llc.getA = true then llc.setSN 0 else llc.setSN snCounter).getSIZE =
      llc.getSIZE := by
    split <;> exact LlcPdu.getSIZE_setSN ..
  unfold stampLlcPdu
  dsimp only
  split
  · exact hsn
  · rw [LlcPdu.getSIZE_storeCRC, LlcPdu.getSIZE_storeCRC, hsn]

/-- A valid PDU verifies behind the stores of the header. -/
theorem stampLlcPdu_verifies {config : LlcUlConfig} (snCounter : UInt8) {target : List UInt8}
    (hvalid : (LlcPdu.new target target.length config.crcSize).isValid = true) :
    Good config (stampLlcPdu config snCounter
      (LlcPdu.new target target.length config.crcSize)).base := by
  intro hcrc hsize
  change 7 ≤ (stampLlcPdu _ _ _).getSIZE at hsize
  rw [stampLlcPdu_getSIZE] at hsize
  have hfits := of_decide_eq_true hvalid
  change target.length % 65536 ≥ _ at hfits
  have hlen : 7 ≤ target.length := by omega
  have hfour : config.crcSize = 4 := if_pos hcrc
  have hnumbered : ∀ (llc : LlcPdu) (sn : UInt8), (llc.setSN sn).base.length = llc.base.length :=
    fun llc sn => LlcPdu.set_length ..
  have hsealed : ∃ sn, stampLlcPdu config snCounter
      (LlcPdu.new target target.length config.crcSize) =
        LegacyLlc.sealed ((LlcPdu.new target target.length config.crcSize).setSN sn) := by
    unfold stampLlcPdu
    dsimp only
    rw [hfour, if_neg (by decide)]
    split
    · exact ⟨0, rfl⟩
    · exact ⟨snCounter, rfl⟩
  obtain ⟨sn, hstamp⟩ := hsealed
  rw [hstamp]
  apply verifies_sealed
  · rw [hnumbered]
    exact hlen
  · rw [LlcPdu.getSIZE_setSN]
    exact hsize

/-- What `write_llc_pdu` writes: nothing, or a valid PDU with the stores of the header. -/
theorem writeLlcPdu_written (u : LlcUl) (target : List UInt8) :
    (u.writeLlcPdu target).2.2 = 0 ∨
      (LlcPdu.new target target.length u.config.crcSize).isValid = true ∧
      (u.writeLlcPdu target).2.1 = (stampLlcPdu u.config u.snCounter
        (LlcPdu.new target target.length u.config.crcSize)).base ∧
      (u.writeLlcPdu target).2.2 = pduSize (u.writeLlcPdu target).2.1 := by
  unfold LlcUl.writeLlcPdu
  split
  · exact Or.inl rfl
  · dsimp only
    split
    · exact Or.inl rfl
    · split
      · exact Or.inl rfl
      · next hvalid =>
          rw [Bool.not_eq_true, Bool.not_eq_false'] at hvalid
          unfold LlcUl.sendLlcPdu
          dsimp only
          split
          · split
            · exact Or.inl rfl
            · exact Or.inr ⟨hvalid, rfl, rfl⟩
          · exact Or.inr ⟨hvalid, rfl, rfl⟩

/-! ## What is kept -/

/-- The buffers that are kept verify. -/
structure Stored (u : LlcUl) : Prop where
  ring : ∀ el ∈ u.txRing, Good u.config el.llcPdu
  list : ∀ el ∈ u.retxList, Good u.config el.llcPdu

theorem Stored.txElem {u : LlcUl} (h : u.Stored) (slot : UInt64) :
    Good u.config (u.txElem slot).llcPdu := by
  unfold LlcUl.txElem
  rw [List.getD_eq_getElem?_getD]
  cases hel : u.txRing[u.txRingIndex slot]? with
  | none => exact Good.nil _
  | some el => exact h.ring el (List.mem_of_getElem? hel)

/-- A store into the ring. -/
theorem Stored.setTxElem {u : LlcUl} (h : u.Stored) (slot : UInt64) (el : TxElem)
    (hel : Good u.config el.llcPdu) : (u.setTxElem slot el).Stored where
  ring := by
    intro x hmem
    rcases List.mem_or_eq_of_mem_set hmem with hold | hnew
    · exact h.ring x hold
    · rw [hnew]
      exact hel
  list := h.list

theorem Stored.updateCurrentSlotNumber {u : LlcUl} (h : u.Stored) (slot : UInt64) :
    (u.updateCurrentSlotNumber slot).1.Stored := by
  have hold := h.txElem slot
  have hset := h.setTxElem slot { u.txElem slot with acknowledged := true } hold
  unfold LlcUl.updateCurrentSlotNumber
  dsimp only
  split
  · exact h
  · split
    · exact ⟨h.ring, h.list⟩
    · split
      · split
        · exact ⟨hset.ring, hset.list⟩
        · refine ⟨hset.ring, fun el hmem => ?_⟩
          rcases List.mem_append.mp hmem with hbefore | hnew
          · exact h.list el hbefore
          · rw [List.mem_singleton.mp hnew]
            exact hold
      · exact ⟨h.ring, h.list⟩

theorem Stored.acknowledge {u : LlcUl} (h : u.Stored) (sn : UInt8) :
    (u.acknowledge sn).1.Stored := by
  unfold LlcUl.acknowledge
  dsimp only
  split
  · exact ⟨h.ring, h.list⟩
  · split
    · exact ⟨h.ring, fun el hmem => h.list el (List.mem_of_mem_eraseP hmem)⟩
    · exact ⟨h.ring, h.list⟩
  · next slot _ =>
      have hset := h.setTxElem slot { u.txElem slot with acknowledged := true }
        (h.txElem slot)
      split
      · exact ⟨hset.ring, hset.list⟩
      · exact ⟨h.ring, h.list⟩

/-- A retransmission writes and keeps a buffer of the list. -/
theorem Stored.writeRetransmissionPdu {u : LlcUl} (h : u.Stored) (target : List UInt8) :
    (u.writeRetransmissionPdu target).1.Stored ∧
      ((u.writeRetransmissionPdu target).2.2 = 0 ∨ Good u.config
        ((u.writeRetransmissionPdu target).2.1.take (u.writeRetransmissionPdu target).2.2)) := by
  unfold LlcUl.writeRetransmissionPdu
  split
  · exact ⟨h, Or.inl rfl⟩
  · split
    · exact ⟨h, Or.inl rfl⟩
    · split
      · exact ⟨h, Or.inl rfl⟩
      · next el rest hlist =>
          have hel : Good u.config el.llcPdu := h.list el (by
            rw [hlist]
            exact List.mem_cons_self ..)
          have hrest : ∀ x ∈ rest, Good u.config x.llcPdu := fun x hmem => h.list x (by
            rw [hlist]
            exact List.mem_cons_of_mem _ hmem)
          dsimp only
          split
          · exact ⟨h, Or.inl rfl⟩
          · split
            · exact ⟨⟨h.ring, h.list⟩, Or.inl rfl⟩
            · next hfits =>
                split
                · exact ⟨⟨h.ring, hrest⟩, Or.inl rfl⟩
                · split
                  · exact ⟨⟨h.ring, hrest⟩, Or.inl rfl⟩
                  · have hcopy : (poke target 0 el.llcPdu).take el.llcPdu.length = el.llcPdu := by
                      rw [poke_zero (by omega), List.take_left' rfl]
                    have hset : ∀ slot, (u.setTxElem slot
                        ⟨false, el.sn, el.retryCount + 1, el.llcPdu, el.pdu⟩).Stored :=
                      fun slot => h.setTxElem slot _ hel
                    rcases enqueueTxCheck_cases ({ u with
                        status := { u.status with
                          writeBufferTooSmall := false, spuriousAckSn := false,
                          shouldNotHappen := false, snLost := false } } : LlcUl) el.llcPdu el.sn
                        (el.retryCount + 1) el.pdu with ⟨_, heq⟩ | ⟨slot, _, heq⟩
                    · rw [heq]
                      exact ⟨⟨h.ring, h.list⟩, Or.inl rfl⟩
                    · rw [heq]
                      refine ⟨⟨(hset slot).ring, hrest⟩, Or.inr ?_⟩
                      dsimp only
                      rw [hcopy]
                      exact hel

theorem Stored.writeLlcPdu {u : LlcUl} (h : u.Stored) (target : List UInt8) :
    (u.writeLlcPdu target).1.Stored := by
  unfold LlcUl.writeLlcPdu
  split
  · exact h
  · dsimp only
    split
    · exact ⟨h.ring, h.list⟩
    · split
      · exact ⟨h.ring, h.list⟩
      · next hvalid =>
          rw [Bool.not_eq_true, Bool.not_eq_false'] at hvalid
          have hgood := stampLlcPdu_verifies u.snCounter hvalid
          unfold LlcUl.sendLlcPdu
          dsimp only
          split
          · generalize stampLlcPdu u.config u.snCounter _ = llc at hgood
            have hset : ∀ slot, (u.setTxElem slot
                ⟨false, u.snCounter, 0, llc.base, u.accepted⟩).Stored :=
              fun slot => h.setTxElem slot _ hgood
            rcases enqueueTxCheck_cases ({ u with
                status := { u.status with
                  noFreeSn := if (u.config.mode = .am && !(LlcPdu.new target target.length
                    u.config.crcSize).getA) = true then false else u.status.noFreeSn
                  invalidLlcPdu := false } } : LlcUl) llc.base u.snCounter 0 u.accepted with
              ⟨_, heq⟩ | ⟨slot, _, heq⟩
            · rw [heq]
              exact ⟨h.ring, h.list⟩
            · rw [heq]
              exact ⟨(hset slot).ring, h.list⟩
          · exact ⟨h.ring, h.list⟩

theorem Stored.reset (u : LlcUl) : u.reset.Stored where
  ring := by
    intro el hmem
    rw [List.eq_of_mem_replicate hmem]
    exact Good.nil _
  list := fun _ hmem => (List.not_mem_nil hmem).elim

theorem Stored.validateConfig {u : LlcUl} (h : u.Stored) : u.validateConfig.Stored := by
  unfold LlcUl.validateConfig
  split
  · exact h
  · exact ⟨h.ring, h.list⟩

/-- **The buffers that are kept** verify behind every call. -/
theorem Stored.step {u : LlcUl} (h : u.Stored) (op : Op) : (u.step op).Stored := by
  cases op with
  | updateCurrentSlotNumber slot => exact h.updateCurrentSlotNumber slot
  | writeLlcPdu target => exact h.writeLlcPdu target
  | writeRetransmissionPdu target => exact (h.writeRetransmissionPdu target).1
  | acknowledge sn => exact h.acknowledge sn
  | reset => exact Stored.reset u
  | reconfigure config => exact (Stored.reset { u with config := config }).validateConfig

theorem Stored.run (config : LlcUlConfig) (ops : List Op) : ((new config).run ops).Stored :=
  foldl_invariant Stored (fun _ op h => h.step op) ops _
    (Stored.reset { config := config }).validateConfig

/-- What `write_llc_pdu` writes verifies. -/
theorem writeLlcPdu_verifies {u : LlcUl} (hcrc : u.config.crcType = .crc32)
    (target : List UInt8) (hsize : 7 ≤ (u.writeLlcPdu target).2.2) :
    Verifies ((u.writeLlcPdu target).2.1.take (u.writeLlcPdu target).2.2) := by
  rcases u.writeLlcPdu_written target with hzero | ⟨hvalid, hbuffer, hcount⟩
  · omega
  · have hgood := stampLlcPdu_verifies u.snCounter hvalid hcrc
    rw [← hbuffer] at hgood
    rw [hcount] at hsize ⊢
    exact (hgood hsize).take (by omega)

/-- **Every checksum verifies**: with checksums on both sides, the PDUs of a call of
`LLC::on_tx`, behind any calls, and those that `write_llc_pdu` and
`write_retransmission_pdu` write, in any run, if they have their headers. -/
theorem checksum_verifies :
    (∀ {π : Type} (pdcpOnTx : π → LegacyPdcp.TxInfo → π × LegacyPdcp.TxInfo) (lcid : UInt8)
        (txConfig : LegacyLlc.TxConfig) (rxConfig : LegacyLlc.RxConfig)
        (calls : List (LegacyLlc.Call π)) (pdcp : π) (grant : LegacyLlc.Grant),
      (LegacyLlc.Llc.called pdcpOnTx lcid txConfig rxConfig calls).txConfig.crcType = .crc32 →
      ∀ pdu ∈ ((LegacyLlc.Llc.called pdcpOnTx lcid txConfig rxConfig calls).onTx pdcpOnTx pdcp
          grant.info).pdus,
        7 ≤ pduSize pdu ∨ (LegacyLlc.PdcpOnTxOk pdcpOnTx ∧ grant.size ≤ 2047) → Verifies pdu) ∧
    ∀ (config : LlcUlConfig) (ops : List Op) (target : List UInt8),
      ((new config).run ops).config.crcType = .crc32 →
      (7 ≤ (((new config).run ops).writeLlcPdu target).2.2 →
        Verifies ((((new config).run ops).writeLlcPdu target).2.1.take
          (((new config).run ops).writeLlcPdu target).2.2)) ∧
      (7 ≤ pduSize ((((new config).run ops).writeRetransmissionPdu target).2.1.take
          (((new config).run ops).writeRetransmissionPdu target).2.2) →
        Verifies ((((new config).run ops).writeRetransmissionPdu target).2.1.take
          (((new config).run ops).writeRetransmissionPdu target).2.2)) := by
  constructor
  · intro π pdcpOnTx lcid txConfig rxConfig calls pdcp grant hcrc pdu hmem hsize
    apply LegacyLlc.onTx_verifies pdcpOnTx lcid txConfig rxConfig calls pdcp grant hcrc pdu hmem
    rcases hsize with hsize | ⟨hp, hmax⟩
    · exact hsize
    · exact LegacyLlc.onTx_pduSize hp lcid txConfig rxConfig calls pdcp grant hmax hcrc pdu hmem
  · intro config ops target hcrc
    refine ⟨writeLlcPdu_verifies hcrc target, fun hsize => ?_⟩
    rcases ((Stored.run config ops).writeRetransmissionPdu target).2 with hzero | hgood
    · rw [hzero, List.take_zero] at hsize
      exact absurd hsize (by decide)
    · exact hgood hcrc hsize

/-- A channel with checksums and room for four slots. -/
def fourSlots : LlcUlConfig where
  lcid := 1
  crcType := .crc32
  mode := .am
  txSize := 4
  minRecheckSlotNumber := 1
  maxRecheckSlotNumber := 1
  maxRetxCount := 1

/-- A data PDU of twelve bytes, without its number and its checksum. -/
def twelveBytes : List UInt8 := [0, 0x10, 12, 0, 0, 0, 0, 1, 2, 3, 4, 5]

/-- A call of the first LLC with checksums, a number to acknowledge and a packet. -/
def ackAndPacket : LegacyLlc.TxState LegacyPdcp.PdcpTx :=
  (LegacyLlc.Llc.called LegacyPdcp.PdcpTx.onTx 1
    { mode := .am, arqWindowSize := 2, crcType := .crc32 } { mode := .am }
    [.setTxEnabled true, .setRxEnabled true, .onRx (LegacyLlc.dataOf 7)]).onTx
      LegacyPdcp.PdcpTx.onTx
      { config := { allowReordering := true, minCommitSize := 0 }
        isTxEnabled := true
        toTxQueue := [[0xA0]] }
      (LegacyLlc.Grant.mk 0 true false (List.replicate 32 0) 32 (by decide)).info

/-- An ACK PDU and a packet in one grant, a data PDU of `llc_ul`, and its copy. -/
theorem twelve_bytes_verify :
    ackAndPacket.fault = false ∧ ackAndPacket.pdus.map List.length = [9, 12] ∧
    (∀ pdu ∈ ackAndPacket.pdus, Verifies pdu) ∧
    Verifies (((new fourSlots).writeLlcPdu twelveBytes).2.1.take
      ((new fourSlots).writeLlcPdu twelveBytes).2.2) ∧
    Verifies ((((new fourSlots).run [.writeLlcPdu twelveBytes,
        .updateCurrentSlotNumber 1]).writeRetransmissionPdu (List.replicate 12 0)).2.1.take
      (((new fourSlots).run [.writeLlcPdu twelveBytes,
        .updateCurrentSlotNumber 1]).writeRetransmissionPdu (List.replicate 12 0)).2.2) := by
  refine ⟨by decide +kernel, by decide +kernel, fun pdu hmem => ?_, ?_, ?_⟩
  · exact checksum_verifies.1 LegacyPdcp.PdcpTx.onTx 1 _ _ _ _ _ rfl pdu hmem
      (Or.inr ⟨LegacyLlc.pdcpOnTx_ok, by decide⟩)
  · exact (checksum_verifies.2 fourSlots [] twelveBytes rfl).1 (by decide +kernel)
  · exact (checksum_verifies.2 fourSlots [.writeLlcPdu twelveBytes, .updateCurrentSlotNumber 1]
      (List.replicate 12 0) rfl).2 (by decide +kernel)

end LlcUl

end Winject.Llc
