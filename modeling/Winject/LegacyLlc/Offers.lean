import Winject.LegacyLlc.AckList
import Winject.LegacyLlc.AckRing

/-!
# What the PDCP is offered

A call of `on_tx` subtracts a header from the grant in front of the ACK PDU, and one
in front of the data PDU.  Without an ACK PDU the first one is subtracted all the
same, and the PDCP is offered a header less than there is.

`recorded` is a PDCP that remembers how many bytes each call has offered it.

## Main results

* `ackStage_front` — the bytes of the ACK PDU.
* `offers_onTx` — the offers of a call without a retransmission.
* `offersAll_iff` — all the space is offered exactly behind an ACK PDU, and in a grant
  that has no room behind a header.
* `ten_bytes_offered` — a grant of ten bytes of which four are offered.
-/

namespace Winject.LegacyLlc

open Winject.Frames
open Winject.Lib.Bytes

variable {π : Type} (pdcpOnTx : π → LegacyPdcp.TxInfo → π × LegacyPdcp.TxInfo)

/-- The same PDCP, with the size of every grant it was called with. -/
def recorded (s : π × List Nat) (info : LegacyPdcp.TxInfo) :
    (π × List Nat) × LegacyPdcp.TxInfo :=
  let r := pdcpOnTx s.1 info
  ((r.1, s.2 ++ [info.outPdu.length]), r.2)

namespace Llc

/-- The sizes that a call offers to the PDCP, in order. -/
def offers (l : Llc) (pdcp : π) (g : Grant) : List Nat :=
  (l.onTx (recorded pdcpOnTx) (pdcp, []) g.info).pdcp.2

/-- The bytes of the ACK PDU of a call, if it has one: the header and the entries. -/
def ackPduBytes (l : Llc) (g : Grant) : Nat :=
  if l.isTxEnabled = true ∧ 3 + l.txCrcSize < g.size ∧ l.toAckList ≠ [] then
    3 + l.txCrcSize + (l.takenAcks g).length * 2
  else 0

/-- The PDCP is offered what is left behind the ACK PDU and the header of a data PDU, and
is offered it whenever there is anything left. -/
structure OffersAll (l : Llc) (g : Grant) (offers : List Nat) : Prop where
  exactly : ∀ size ∈ offers, size ≠ 0 →
    size + (3 + l.txCrcSize) + l.ackPduBytes g = g.size
  always : l.ackPduBytes g + (3 + l.txCrcSize) < g.size →
    g.size - l.ackPduBytes g - (3 + l.txCrcSize) ∈ offers

/-! ## The ACK PDU -/

/-- The ACK PDU of a grant within the size field has as many bytes. -/
theorem ackStage_front (l : Llc) (pdcp : π) (g : Grant) (hon : l.isTxEnabled = true)
    (hsize : 3 + l.txCrcSize < g.size) (hmax : g.size ≤ 2047) :
    (l.ackStage pdcp g.info).front.length = l.ackPduBytes g := by
  have hfits := g.fits
  have hacks := TxState.takeAcks_length l.toAckList (g.size - (3 + l.txCrcSize))
  have htaken : l.takenAcks g = takeAcks l.toAckList (g.size - (3 + l.txCrcSize)) :=
    if_pos ⟨hon, hsize⟩
  unfold ackStage TxState.allocateAcks ackPduBytes
  rw [htaken]
  dsimp only
  by_cases hempty : l.toAckList = []
  · rw [if_pos (show (l.startTx pdcp g.info).owner.toAckList.isEmpty = true from
      List.isEmpty_iff.mpr hempty), if_neg (fun hand => hand.2.2 hempty)]
    rfl
  · rw [if_neg (show ¬ (l.startTx pdcp g.info).owner.toAckList.isEmpty = true from
      fun hnil => hempty (List.isEmpty_iff.mp hnil)), if_pos ⟨hon, hsize, hempty⟩]
    obtain ⟨hSIZE, -, hbase, -⟩ := TxState.ackPdu_fields l (l.startTx pdcp g.info).llc
      (takeAcks l.toAckList (g.size - (3 + l.txCrcSize)))
      (by show 3 ≤ g.buffer.length; omega) (by show 3 + l.txCrcSize + _ < 2048; omega)
    change _ = 3 + l.txCrcSize + _ at hSIZE
    change _ = g.buffer.length at hbase
    show ((l.ackPdu (l.startTx pdcp g.info).llc
      (takeAcks l.toAckList (g.size - (3 + l.txCrcSize)))).base.take (l.ackPdu
        (l.startTx pdcp g.info).llc
        (takeAcks l.toAckList (g.size - (3 + l.txCrcSize)))).getSIZE).length = _
    rw [List.length_take, hSIZE, hbase]
    omega

/-! ## The calls of the PDCP -/

theorem informOnly_offers (s : TxState (π × List Nat)) :
    (s.informOnly (recorded pdcpOnTx)).pdcp.2 = s.pdcp.2 ++ [0] := by
  show s.pdcp.2 ++ [((s.llc.base.drop s.llc.getHeaderSize).take 0).length] = _
  rw [List.take_zero]
  rfl

theorem finish_pdcp (s : TxState π) (slotNumber initAlloc : Nat) (retx : Option Nat)
    (retxCount : Nat) : (s.finish slotNumber initAlloc retx retxCount).pdcp = s.pdcp := by
  unfold TxState.finish
  dsimp only
  split_ifs <;> rfl

/-- A new data PDU: the PDCP is called once, for the rest of the grant. -/
theorem allocateData_offers (s : TxState (π × List Nat)) (hretx : s.owner.toRetxList = [])
    (hroom : s.outSize ≤ s.llc.base.length) (slotNumber : Nat) :
    (s.allocateData (recorded pdcpOnTx) slotNumber).pdcp.2 =
      s.pdcp.2 ++ [s.outSize - s.llc.getHeaderSize] := by
  have hlen := TxState.startData_length s
  rcases s.allocateData_cases (recorded pdcpOnTx) slotNumber with ⟨-, hres⟩ |
    ⟨retx, others, hcons, -⟩
  · rw [hres, finish_pdcp]
    show s.pdcp.2 ++ [((s.startData.llc.base.drop s.llc.getHeaderSize).take
      (s.outSize - s.llc.getHeaderSize)).length] = _
    rw [List.length_take, List.length_drop, hlen, min_eq_left (by omega)]
  · rw [hretx] at hcons
    cases hcons

theorem ackStage_pdcp (l : Llc) (pdcp : π) (info : TxInfo) :
    (l.ackStage pdcp info).pdcp = pdcp := by
  unfold ackStage TxState.allocateAcks
  dsimp only
  split_ifs <;> rfl

/-- **The offers of a call** without a retransmission: none of a disabled LLC, and one
of what is left behind two headers and the entries, if a data PDU has room there. -/
theorem offers_onTx (l : Llc) (pdcp : π) (g : Grant) (hallow : g.allowData = true)
    (hretx : (l.checkRetransmit g.slotNumber).toRetxList = []) :
    l.offers pdcpOnTx pdcp g =
      if l.isTxEnabled = true then
        [g.size - 2 * (3 + l.txCrcSize) - (l.takenAcks g).length * 2]
      else [] := by
  have hsetup := l.checkRetransmit_setup g.slotNumber
  unfold offers
  rcases l.onTx_cases (recorded pdcpOnTx) (pdcp, []) g.info with ⟨hoff, hres⟩ |
    ⟨hon, hsmall, hres⟩ | ⟨hon, hsize, s, hs, hdata⟩
  · rw [hres, if_neg (by rw [hoff]; exact Bool.false_ne_true)]
    rfl
  · change g.size ≤ 3 + l.txCrcSize at hsmall
    rw [hres, if_pos hon, informOnly_offers]
    have hzero : g.size - 2 * (3 + l.txCrcSize) - (l.takenAcks g).length * 2 = 0 := by omega
    rw [hzero]
    rfl
  · change 3 + l.txCrcSize < g.size at hsize
    change s = (l.checkRetransmit g.slotNumber).ackStage (pdcp, []) g.info at hs
    have htaken : takeAcks (l.checkRetransmit g.slotNumber).toAckList
        (g.size - (3 + (l.checkRetransmit g.slotNumber).txCrcSize)) = l.takenAcks g := by
      rw [checkRetransmit_toAckList, hsetup.txCrcSize, takenAcks, if_pos ⟨hon, hsize⟩]
    have hspace := (l.checkRetransmit g.slotNumber).ackStage_outSize (pdcp, ([] : List Nat)) g
    have hroom := (l.checkRetransmit g.slotNumber).ackStage_room (pdcp, ([] : List Nat)) g
      (by rw [hsetup.txCrcSize]; exact hsize)
    obtain ⟨hheader, hretxs⟩ :=
      (l.checkRetransmit g.slotNumber).ackStage_header (pdcp, ([] : List Nat)) g
    have hpdcp := (l.checkRetransmit g.slotNumber).ackStage_pdcp (pdcp, ([] : List Nat)) g.info
    rw [htaken, hsetup.txCrcSize, ← hs] at hspace
    rw [hsetup.txCrcSize, ← hs] at hheader
    rw [← hs] at hroom hretxs hpdcp
    rw [if_pos hon]
    rcases hdata with ⟨hstop, hres⟩ | ⟨hdroom, -, hres⟩
    · have hshort : s.outSize < s.llc.getHeaderSize := by
        rcases hstop with hshort | hno
        · exact hshort
        · exact absurd (hallow.symm.trans hno) (by decide)
      have hzero : g.size - 2 * (3 + l.txCrcSize) - (l.takenAcks g).length * 2 = 0 := by omega
      rw [hres, informOnly_offers, hpdcp, hzero]
      rfl
    · have hrest : s.outSize - s.llc.getHeaderSize =
          g.size - 2 * (3 + l.txCrcSize) - (l.takenAcks g).length * 2 := by omega
      rw [hres, allocateData_offers pdcpOnTx s (hretxs.trans hretx) hroom, hpdcp, hrest]
      rfl

/-- **All the space is offered** exactly behind an ACK PDU, and in a grant that has no
room behind a header. -/
theorem offersAll_iff (l : Llc) (pdcp : π) (g : Grant) (hallow : g.allowData = true)
    (hretx : (l.checkRetransmit g.slotNumber).toRetxList = []) :
    l.OffersAll g (l.offers pdcpOnTx pdcp g) ↔
      g.size ≤ 3 + l.txCrcSize ∨ (l.isTxEnabled = true ∧ l.toAckList ≠ []) := by
  rw [l.offers_onTx pdcpOnTx pdcp g hallow hretx]
  by_cases hsize : g.size ≤ 3 + l.txCrcSize
  · -- Nothing is left behind a header, and nothing is offered.
    have hbytes : l.ackPduBytes g = 0 := if_neg (fun hand => by omega)
    have htaken : g.size - 2 * (3 + l.txCrcSize) - (l.takenAcks g).length * 2 = 0 := by omega
    refine iff_of_true ⟨fun size hmem hne => ?_, fun hleft => by omega⟩ (Or.inl hsize)
    rw [htaken] at hmem
    split_ifs at hmem
    · exact absurd (List.mem_singleton.mp hmem) hne
    · exact (List.not_mem_nil hmem).elim
  · cases hon : l.isTxEnabled with
    | false =>
        have hbytes : l.ackPduBytes g = 0 := if_neg (fun hand => by rw [hon] at hand; cases hand.1)
        refine iff_of_false (fun h => ?_) (by rintro (hle | ⟨hfalse, -⟩) <;> contradiction)
        exact List.not_mem_nil (h.always (by omega))
    | true =>
        rw [if_pos rfl]
        by_cases hempty : l.toAckList = []
        · -- The header that no ACK PDU needs is not offered.
          have hbytes : l.ackPduBytes g = 0 := if_neg (fun hand => hand.2.2 hempty)
          refine iff_of_false (fun h => ?_) (by rintro (hle | ⟨-, hne⟩) <;> contradiction)
          have hmem := List.mem_singleton.mp (h.always (by omega))
          omega
        · have hbytes : l.ackPduBytes g = 3 + l.txCrcSize + (l.takenAcks g).length * 2 :=
            if_pos ⟨hon, by omega, hempty⟩
          refine iff_of_true ⟨fun size hmem hne => ?_, fun hleft => ?_⟩ (Or.inr ⟨rfl, hempty⟩)
          · have heq := List.mem_singleton.mp hmem
            omega
          · rw [List.mem_singleton]
            omega

/-- Behind the ACK PDU of one number, the PDCP is offered what is left of a grant of 20
bytes. -/
theorem behind_ack_offered :
    ((start 1 { mode := .am, arqWindowSize := 2 } { mode := .am } true).toAcknowledge 7).OffersAll
        ⟨0, true, false, List.replicate 20 0, 20, by decide⟩
        (((start 1 { mode := .am, arqWindowSize := 2 } { mode := .am } true).toAcknowledge
          7).offers fifoOnTx [[0xA0]] ⟨0, true, false, List.replicate 20 0, 20, by decide⟩) :=
  (offersAll_iff fifoOnTx _ [[0xA0]] ⟨0, true, false, List.replicate 20 0, 20, by decide⟩ rfl
    (by decide +kernel)).mpr (Or.inr ⟨rfl, by decide +kernel⟩)

/-- Of a first grant of ten bytes, which has room for a header and seven bytes, the PDCP
is offered four. -/
theorem ten_bytes_offered :
    threePackets.llc.offers fifoOnTx threePackets.pdcp (tenBytes 0) = [4] ∧
      ¬ threePackets.llc.OffersAll (tenBytes 0)
        (threePackets.llc.offers fifoOnTx threePackets.pdcp (tenBytes 0)) := by
  have hfour : threePackets.llc.offers fifoOnTx threePackets.pdcp (tenBytes 0) = [4] := by
    decide +kernel
  refine ⟨hfour, fun h => ?_⟩
  have hmem := h.always (by decide +kernel)
  rw [hfour] at hmem
  exact absurd hmem (by decide +kernel)

end Llc

end Winject.LegacyLlc
