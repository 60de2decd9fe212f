import Winject.LegacyLlc.GrantLayout
import Winject.LegacyLlc.Watch

/-!
# The payloads of an acknowledged channel

A data PDU carries a new payload of the PDCP, or the one that the front of the
retransmission list has kept.  The bytes that the ring keeps are those in the frame, so a
PDU is sent with the same payload again.

## Main results

* `onTx_payload` — the payload of the data PDU of a call.
* `Copied.onTx` — the ring keeps what is sent, over any calls.
-/

namespace Winject.LegacyLlc

open Winject.Frames
open Winject.Lib.Bytes

/-! ## The payload of a data PDU -/

/-- The data PDU has the payload, and the ring keeps it. -/
structure TxState.Carries {π : Type} (l : Llc) (payload : List UInt8) (r : TxState π) :
    Prop where
  kept : r.kept = payload
  pdu : (r.llc.base.take r.llc.getSIZE).drop (3 + l.txCrcSize) = payload

namespace TxState

/-- At its data PDU, the call asks the PDCP for a new payload: the list is empty, or its
front fits and is given up without a link failure. -/
def AsksPdcp {π : Type} (s : TxState π) : Prop :=
  ∀ retx ∈ s.owner.toRetxList.head?, retx.pdcpPdu.length ≤ s.outSize ∧
    s.owner.txConfig.maxRetxCount < retx.retryCount + 1 ∧ s.owner.txConfig.allowRlf = false

/-- `pdcp_allocation_size`: what the PDCP allocates for the data PDU. -/
def pdcpAllocationSize {π : Type} (pdcpOnTx : π → LegacyPdcp.TxInfo → π × LegacyPdcp.TxInfo)
    (s : TxState π) : Nat :=
  (s.callPdcp pdcpOnTx).outAllocated - s.outAllocated

variable {π : Type} {pdcpOnTx : π → LegacyPdcp.TxInfo → π × LegacyPdcp.TxInfo}
  {l : Llc} {n g : Nat} {s : TxState π}

/-- The payload behind the end of a call. -/
theorem Loaded.finish_carries {k : Nat} (h : s.Loaded l n g k) (hl : l.Sized) (hfit : g ≤ n)
    (hmax : g ≤ 2047) (slotNumber : Nat) (retx : Option Nat) (retxCount : Nat)
    (hne : s.front.length ≠ s.outAllocated) :
    (s.finish slotNumber s.front.length retx retxCount).Carries l
        ((s.llc.base.drop (3 + l.txCrcSize)).take k) ∧
      ((s.llc.base.drop (3 + l.txCrcSize)).take k).length = k := by
  have hlen := h.length
  have hroom := h.room
  have hhdr := h.header
  have hcrc := h.setup.txCrcSize
  have hsized : s.owner.Sized := hl.of_setup h.setup
  obtain ⟨hSIZE, -, hbase, hheader⟩ := writeCrc_fields s.owner (s.llc.setSN s.owner.snCounter)
  rw [LlcPdu.getSIZE_setSN, h.size] at hSIZE
  have hbehind : (s.owner.writeCrc (s.llc.setSN s.owner.snCounter)).base.drop
      (3 + l.txCrcSize) = s.llc.base.drop (3 + l.txCrcSize) := by
    rw [hsized.writeCrc_drop _ (by omega)]
    unfold LlcPdu.setSN
    rw [set_drop _ (by omega)]
  have hheader : (s.owner.writeCrc (s.llc.setSN s.owner.snCounter)).getHeaderSize =
      3 + l.txCrcSize := hheader.trans hhdr
  refine ⟨?_, ?_⟩
  · unfold TxState.finish
    rw [if_neg hne]
    dsimp only
    generalize s.owner.writeCrc (s.llc.setSN s.owner.snCounter) = p at hSIZE hheader hbehind
    have hpayload : p.getPayloadSize = k := by
      unfold LlcPdu.getPayloadSize
      rw [hSIZE, hheader]
      omega
    refine ⟨?_, ?_⟩
    · show (p.base.drop p.getHeaderSize).take p.getPayloadSize = _
      rw [hheader, hpayload, hbehind]
    · show (p.base.take p.getSIZE).drop (3 + l.txCrcSize) = _
      rw [hSIZE, List.drop_take, hbehind]
      congr 1
      omega
  · rw [List.length_take, List.length_drop]
    omega

theorem finish_number {slotNumber initAlloc : Nat} {retx : Option Nat} {retxCount : Nat} :
    (s.finish slotNumber initAlloc retx retxCount).owner.snCounter =
      if initAlloc = s.outAllocated then s.owner.snCounter else s.owner.snCounter + 1 := by
  unfold TxState.finish
  by_cases hnone : initAlloc = s.outAllocated
  · rw [if_pos hnone, if_pos hnone]
  · rw [if_neg hnone, if_neg hnone]
    dsimp only
    split_ifs <;> rfl

/-- A new payload of the PDCP, if there is one. -/
theorem Filled.finish_new (hp : PdcpOnTxOk pdcpOnTx) (hl : l.Sized) (h : s.Filled l n g)
    (hfit : g ≤ n) (hmax : g ≤ 2047) (hlcid : s.llc.getLCID = l.lcid &&& 0x0F)
    (hspace : s.front.length + (3 + l.txCrcSize) + s.outSize ≤ g) (slotNumber : Nat)
    (retx : Option Nat) (retxCount : Nat) :
    (s.pdcpAllocationSize pdcpOnTx = 0 ∧
        ((s.loadPdcp pdcpOnTx).finish slotNumber s.outAllocated retx
          retxCount).owner.snCounter = s.owner.snCounter) ∨
      ∃ payload, ((s.loadPdcp pdcpOnTx).finish slotNumber s.outAllocated retx
          retxCount).Carries l payload ∧ payload.length = s.pdcpAllocationSize pdcpOnTx ∧
        ((s.loadPdcp pdcpOnTx).finish slotNumber s.outAllocated retx
          retxCount).owner.snCounter = s.owner.snCounter + 1 := by
  obtain ⟨k, hload, hfront⟩ := h.loadPdcp hp hmax hfit hlcid hspace
  have hstart := h.allocated
  have hout := hload.allocated
  rw [hfront] at hout
  have hsize : s.pdcpAllocationSize pdcpOnTx = k := by
    show (s.loadPdcp pdcpOnTx).outAllocated - s.outAllocated = k
    omega
  by_cases hnone : s.front.length = (s.loadPdcp pdcpOnTx).outAllocated
  · left
    rw [finish_number, hstart, if_pos hnone]
    exact ⟨by omega, rfl⟩
  · right
    rw [← hfront] at hnone
    obtain ⟨hcarries, hlen⟩ := hload.finish_carries hl hfit hmax slotNumber retx retxCount hnone
    rw [hstart, ← hfront]
    refine ⟨_, hcarries, hlen.trans hsize.symm, ?_⟩
    rw [finish_number, if_neg hnone]
    rfl

/-- The payload of a retransmission is the one of the list. -/
theorem Filled.finish_retx (hp : PdcpOnTxOk pdcpOnTx) (hl : l.Sized) (h : s.Filled l n g)
    (hfit : g ≤ n) (hmax : g ≤ 2047) (hlcid : s.llc.getLCID = l.lcid &&& 0x0F)
    (hspace : s.front.length + (3 + l.txCrcSize) + s.outSize ≤ g) {pdcpPdu : List UInt8}
    (hpdu : pdcpPdu.length ≤ s.outSize) (slotNumber : Nat) (retx : Option Nat)
    (retxCount : Nat) :
    ((s.loadRetx pdcpOnTx pdcpPdu).finish slotNumber s.outAllocated retx
        retxCount).owner.snCounter = s.owner.snCounter ∨
      ((s.loadRetx pdcpOnTx pdcpPdu).finish slotNumber s.outAllocated retx
          retxCount).Carries l pdcpPdu ∧
        ((s.loadRetx pdcpOnTx pdcpPdu).finish slotNumber s.outAllocated retx
          retxCount).owner.snCounter = s.owner.snCounter + 1 := by
  obtain ⟨hload, hfront⟩ := h.loadRetx hp hmax hfit hlcid hspace hpdu
  have hstart := h.allocated
  have hlen := h.length
  have hhdr := h.header
  have hread : ((s.loadRetx pdcpOnTx pdcpPdu).llc.base.drop (3 + l.txCrcSize)).take
      pdcpPdu.length = pdcpPdu := by
    show (((s.llc.storePayload pdcpPdu).setPayloadSize pdcpPdu.length).base.drop _).take _ = _
    rw [setPayloadSize_drop _ (by omega), ← hhdr]
    exact poke_read (by omega)
  by_cases hnone : s.front.length = (s.loadRetx pdcpOnTx pdcpPdu).outAllocated
  · left
    rw [finish_number, hstart, if_pos hnone]
    rfl
  · right
    rw [← hfront] at hnone
    have hcarries := (hload.finish_carries hl hfit hmax slotNumber retx retxCount hnone).1
    rw [hread] at hcarries
    rw [hstart, ← hfront]
    refine ⟨hcarries, ?_⟩
    rw [finish_number, if_neg hnone]
    rfl

/-- **The payload of a data PDU**, in a call that has come to one. -/
theorem Filled.allocateData_payload (hp : PdcpOnTxOk pdcpOnTx) (hl : l.Sized)
    (h : s.Filled l n g) (hfit : g ≤ n) (hmax : g ≤ 2047)
    (hroom : s.llc.getHeaderSize ≤ s.outSize) (slotNumber : Nat) {r : TxState π}
    (hr : r = s.allocateData pdcpOnTx slotNumber) :
    (r.owner.snCounter = s.owner.snCounter ∧
      (s.startData.AsksPdcp → s.startData.pdcpAllocationSize pdcpOnTx = 0)) ∨
    (s.startData.AsksPdcp ∧ ∃ payload, r.Carries l payload ∧
      payload.length = s.startData.pdcpAllocationSize pdcpOnTx ∧
      r.owner.snCounter = s.owner.snCounter + 1) ∨
    (¬ s.startData.AsksPdcp ∧ ∃ retx others, s.owner.toRetxList = retx :: others ∧
      r.Carries l retx.pdcpPdu ∧ r.owner.snCounter = s.owner.snCounter + 1) := by
  obtain ⟨hstart, hlcid, hspace⟩ := h.startData hroom hfit
  have hpop : ∀ others, (s.startData.popRetx others).Filled l n g := fun others =>
    { hstart with setup := hstart.setup.trans ⟨rfl, rfl, rfl, rfl, rfl, rfl, rfl, rfl⟩ }
  rcases s.allocateData_cases pdcpOnTx slotNumber with ⟨hnil, hres⟩ | ⟨retx, others, hcons, hway⟩
  · have hasks : s.startData.AsksPdcp := by
      intro retx hmem
      have hhead : s.owner.toRetxList.head? = some retx := hmem
      rw [hnil] at hhead
      cases hhead
    rw [hr, hres]
    rcases hstart.finish_new hp hl hfit hmax hlcid hspace slotNumber none 0 with
      ⟨hzero, hnumber⟩ | hnew
    · exact Or.inl ⟨hnumber, fun _ => hzero⟩
    · exact Or.inr (Or.inl ⟨hasks, hnew⟩)
  · have hhead : s.startData.owner.toRetxList.head? = some retx := congrArg List.head? hcons
    by_cases hlong : s.startData.outSize < retx.pdcpPdu.length
    · left
      rw [hr, s.allocateData_long pdcpOnTx _ hcons hlong]
      refine ⟨rfl, fun hasks => ?_⟩
      have hfits := (hasks retx hhead).1
      omega
    · rcases hway with ⟨hlong', -⟩ | ⟨-, -, hallow, hres⟩ | ⟨hcount, hallow, hres⟩ |
        ⟨hcount, hpdu, hres⟩
      · exact absurd hlong' hlong
      · left
        rw [hr, hres]
        refine ⟨rfl, fun hasks => ?_⟩
        exact absurd (hallow.symm.trans (hasks retx hhead).2.2) (by decide)
      · have hasks : s.startData.AsksPdcp := by
          intro retx' hmem
          cases hhead.symm.trans hmem
          exact ⟨by omega, hcount, hallow⟩
        rw [hr, hres]
        rcases (hpop others).finish_new hp hl hfit hmax hlcid hspace slotNumber
          (some retx.llcTxId) (retx.retryCount + 1) with ⟨hzero, hnumber⟩ | hnew
        · exact Or.inl ⟨hnumber, fun _ => hzero⟩
        · exact Or.inr (Or.inl ⟨hasks, hnew⟩)
      · have hold : ¬ s.startData.AsksPdcp := by
          intro hasks
          have hless : s.owner.txConfig.maxRetxCount < retx.retryCount + 1 :=
            (hasks retx hhead).2.1
          omega
        rw [hr, hres]
        rcases (hpop others).finish_retx hp hl hfit hmax hlcid hspace hpdu slotNumber
          (some retx.llcTxId) (retx.retryCount + 1) with hnumber | hcarries
        · exact Or.inl ⟨hnumber, fun hasks => absurd hasks hold⟩
        · exact Or.inr (Or.inr ⟨hold, retx, others, hcons, hcarries⟩)

end TxState

namespace Llc

variable {π : Type}

/-- The call asks the PDCP for a new payload. -/
structure TakesNew (l : Llc) (pdcp : π) (info : TxInfo) : Prop where
  data : l.AllocatesData pdcp info
  asks : (l.dataStage pdcp info).AsksPdcp

variable (pdcpOnTx : π → LegacyPdcp.TxInfo → π × LegacyPdcp.TxInfo)

/-- What the PDCP allocates in the call. -/
def pdcpAllocationSize (l : Llc) (pdcp : π) (info : TxInfo) : Nat :=
  (l.dataStage pdcp info).pdcpAllocationSize pdcpOnTx

variable {pdcpOnTx}

/-- **The payload of a data PDU**: a new one of the PDCP, or that of the front of the
list. -/
theorem onTx_payload (hp : PdcpOnTxOk pdcpOnTx) {l : Llc} (hl : l.Sized) (pdcp : π) (g : Grant)
    (hmax : g.size ≤ 2047) {r : TxState π} (hr : r = l.onTx pdcpOnTx pdcp g.info) :
    (r.owner.snCounter = (l.checked g.slotNumber).snCounter ∧
      (l.TakesNew pdcp g.info → l.pdcpAllocationSize pdcpOnTx pdcp g.info = 0)) ∨
    (l.TakesNew pdcp g.info ∧ ∃ payload, r.Carries l payload ∧
      payload.length = l.pdcpAllocationSize pdcpOnTx pdcp g.info ∧
      r.owner.snCounter = (l.checked g.slotNumber).snCounter + 1) ∨
    (¬ l.TakesNew pdcp g.info ∧
      ∃ retx others, (l.checked g.slotNumber).toRetxList = retx :: others ∧
        r.Carries l retx.pdcpPdu ∧
        r.owner.snCounter = (l.checked g.slotNumber).snCounter + 1) := by
  rcases l.onTx_cases pdcpOnTx pdcp g.info with ⟨hoff, hres⟩ | ⟨hon, hsmall, hres⟩ |
    ⟨hon, hsize, s, hs, hdata⟩
  · left
    rw [hr, hres, checked, if_neg (by rw [hoff]; exact Bool.false_ne_true)]
    exact ⟨rfl, fun hnew => absurd (hoff.symm.trans hnew.data.enabled) Bool.false_ne_true⟩
  · left
    rw [hr, hres, checked, if_pos hon]
    exact ⟨rfl, fun hnew => absurd hnew.data.size (by omega)⟩
  · have hchecked : l.checked g.slotNumber = l.checkRetransmit g.slotNumber := if_pos hon
    change s = (l.checkRetransmit g.slotNumber).ackStage pdcp g.info at hs
    have hsetup := l.checkRetransmit_setup g.slotNumber
    rw [← hchecked] at hs hsetup
    have hstage : l.dataStage pdcp g.info = s.startData := by
      rw [hs]
      rfl
    obtain ⟨-, hnumber, hlist, -, -⟩ := (l.checked g.slotNumber).ackStage_kept pdcp g.info
    rw [← hs] at hnumber hlist
    rcases hdata with ⟨hnone, hres⟩ | ⟨hroom, hallow, hres⟩
    · left
      rw [hr, hres]
      refine ⟨hnumber, fun hnew => ?_⟩
      rcases hnone with hshort | hdeny
      · have hroom := hnew.data.room
        change ((l.checked g.slotNumber).ackStage pdcp g.info).llc.getHeaderSize ≤
          ((l.checked g.slotNumber).ackStage pdcp g.info).outSize at hroom
        rw [← hs] at hroom
        omega
      · exact absurd (hdeny.symm.trans hnew.data.allowed) Bool.false_ne_true
    · have hcrc := hsetup.txCrcSize
      have hfilled := TxState.ackStage_filled (l.checked g.slotNumber) pdcp g.info rfl
        (by rw [hcrc]; exact hsize) g.fits hmax
      rw [← hs] at hfilled
      have hdata : l.AllocatesData pdcp g.info := by
        refine ⟨hon, hsize, hallow, ?_⟩
        show ((l.checked g.slotNumber).ackStage pdcp g.info).llc.getHeaderSize ≤
          ((l.checked g.slotNumber).ackStage pdcp g.info).outSize
        rw [← hs]
        exact hroom
      have hback : ∀ {payload}, r.Carries (l.checked g.slotNumber) payload →
          r.Carries l payload := by
        intro payload hcarries
        have hpdu := hcarries.pdu
        rw [hcrc] at hpdu
        exact ⟨hcarries.kept, hpdu⟩
      rw [pdcpAllocationSize, hstage]
      rcases hfilled.allocateData_payload hp (hl.of_setup hsetup) g.fits hmax hroom
        g.slotNumber (hr.trans hres) with ⟨hsame, hzero⟩ |
          ⟨hasks, payload, hcarries, hlen, hnext⟩ |
          ⟨hold, retx, others, hcons, hcarries, hnext⟩
      · left
        refine ⟨hsame.trans hnumber, fun hnew => hzero ?_⟩
        rw [← hstage]
        exact hnew.asks
      · right; left
        rw [hnumber] at hnext
        refine ⟨⟨hdata, ?_⟩, payload, hback hcarries, hlen, hnext⟩
        rw [hstage]
        exact hasks
      · right; right
        rw [hnumber] at hnext
        refine ⟨fun hnew => hold ?_, retx, others, hlist.symm.trans hcons, hback hcarries,
          hnext⟩
        rw [← hstage]
        exact hnew.asks

/-- A front of the list that makes room for a new payload is out of retransmissions. -/
theorem TakesNew.out {l : Llc} {pdcp : π} {info : TxInfo} (h : l.TakesNew pdcp info)
    {retx : RetxElem} {others : List RetxElem}
    (hcons : (l.checked info.slotNumber).toRetxList = retx :: others) :
    (l.checked info.slotNumber).txConfig.maxRetxCount < retx.retryCount + 1 := by
  have hlist := ((l.checked info.slotNumber).ackStage_kept pdcp info).2.2.1
  have hconfig := ((l.checked info.slotNumber).ackStage_setup pdcp info).txConfig
  have hhead : (l.dataStage pdcp info).owner.toRetxList.head? = some retx :=
    congrArg List.head? (hlist.trans hcons)
  have hcount := (h.asks retx hhead).2.1
  rw [← hconfig]
  exact hcount

end Llc

/-! ## The payloads of a run -/

namespace Watch

/-- An element keeps the payload that it was sent with, and a PDU is sent with the same
payload again. -/
structure Copied (w : Watch) : Prop where
  numbered : ∀ t ∈ w.log, t.pdu < w.accepted
  kept : ∀ t ∈ w.log, t.kept = t.payload
  queued : ∀ t ∈ w.queued, t ∈ w.log
  same : ∀ t ∈ w.log, ∀ u ∈ w.log, t.pdu = u.pdu → t.payload = u.payload

theorem Copied.unsent {w w' : Watch} (h : w.Copied) (hlog : w'.log = w.log)
    (haccepted : w'.accepted = w.accepted) (hqueued : ∀ t ∈ w'.queued, t ∈ w.log) :
    w'.Copied where
  numbered := by
    rw [hlog, haccepted]
    exact h.numbered
  kept := by
    rw [hlog]
    exact h.kept
  queued := by
    rw [hlog]
    exact hqueued
  same := by
    rw [hlog]
    exact h.same

theorem Copied.sent {w w' : Watch} {t : Transmission} (h : w.Copied)
    (hlog : w'.log = t :: w.log) (haccepted : w.accepted ≤ w'.accepted)
    (hpdu : t.pdu < w'.accepted) (hqueued : ∀ u ∈ w'.queued, u ∈ w.log)
    (hkept : t.kept = t.payload) (hsame : ∀ u ∈ w.log, u.pdu = t.pdu → u.payload = t.payload) :
    w'.Copied where
  numbered := by
    rw [hlog]
    intro u hu
    rcases List.mem_cons.mp hu with rfl | hu
    · exact hpdu
    · exact (h.numbered u hu).trans_le haccepted
  kept := by
    rw [hlog]
    intro u hu
    rcases List.mem_cons.mp hu with rfl | hu
    · exact hkept
    · exact h.kept u hu
  queued := by
    rw [hlog]
    exact fun u hu => List.mem_cons_of_mem _ (hqueued u hu)
  same := by
    rw [hlog]
    intro u hu v hv hpdus
    rcases List.mem_cons.mp hu with rfl | hold
    · rcases List.mem_cons.mp hv with rfl | hold
      · rfl
      · exact (hsame v hold hpdus.symm).symm
    · rcases List.mem_cons.mp hv with rfl | hold'
      · exact hsame u hold hpdus
      · exact h.same u hold v hold' hpdus

theorem Copied.check {w : Watch} (h : w.Copied) (slotNumber : Nat) :
    (w.check slotNumber).Copied := by
  refine h.unsent rfl rfl fun t ht => ?_
  rcases List.mem_append.mp ht with hold | hmoved
  · exact h.queued t hold
  · unfold Watch.moved at hmoved
    split_ifs at hmoved
    · have hwait := Option.mem_toList.mp hmoved
      exact holder_mem (waiting_some hwait).2
    · exact (List.not_mem_nil hmoved).elim

variable {π : Type} {pdcpOnTx : π → LegacyPdcp.TxInfo → π × LegacyPdcp.TxInfo}

/-- What is recorded of a data PDU. -/
theorem sentBy_carries {w : Watch} {r : TxState π} {id count : Nat} {payload : List UInt8}
    (hs : w.llc.SentAs w.now id count r) (hc : r.Carries w.llc payload) (pdu : Nat) :
    (w.sentBy pdu r).kept = payload ∧ (w.sentBy pdu r).payload = payload := by
  constructor
  · show (r.owner.txRing (Llc.txRingIndex w.now)).pdcpPdu = payload
    rw [hs.ring, (w.llc.recordSent_self ..).2.2]
    exact hc.kept
  · show (r.pdus.getLast?.getD []).drop (3 + w.llc.txCrcSize) = payload
    rw [hs.pdu]
    exact hc.pdu

/-- How the log has grown in a call: not at all, by a PDU with a new payload, or by one
with the payload of an earlier one. -/
inductive Grown (pdcpOnTx : π → LegacyPdcp.TxInfo → π × LegacyPdcp.TxInfo) (w : Watch)
    (pdcp : π) (g : Grant) (w' : Watch) : Prop where
  | quiet (log : w'.log = w.log)
      (none : w.llc.TakesNew pdcp g.info → w.llc.pdcpAllocationSize pdcpOnTx pdcp g.info = 0)
  | new (t : Transmission) (log : w'.log = t :: w.log) (slot : t.slot = g.slotNumber)
      (takes : w.llc.TakesNew pdcp g.info)
      (size : t.kept.length = w.llc.pdcpAllocationSize pdcpOnTx pdcp g.info)
  | again (t u : Transmission) (log : w'.log = t :: w.log) (slot : t.slot = g.slotNumber)
      (takes : ¬ w.llc.TakesNew pdcp g.info) (first : u ∈ w.log) (kept : t.kept = u.kept)

/-- The payload of a data PDU, seen from behind the check. -/
theorem payload_cases (hpdcp : PdcpOnTxOk pdcpOnTx) {w : Watch} (hl : w.llc.Sized) (pdcp : π)
    (g : Grant) (hmax : g.size ≤ 2047) {r : TxState π}
    (hr : r = w.llc.onTx pdcpOnTx pdcp g.info) {w₁ : Watch} (hw₁ : w₁ = w.check g.slotNumber) :
    (r.owner.snCounter = w₁.llc.snCounter ∧
      (w.llc.TakesNew pdcp g.info → w.llc.pdcpAllocationSize pdcpOnTx pdcp g.info = 0)) ∨
    (r.owner.snCounter ≠ w₁.llc.snCounter ∧ ∃ payload, r.Carries w₁.llc payload ∧
      ((w.llc.TakesNew pdcp g.info ∧
        payload.length = w.llc.pdcpAllocationSize pdcpOnTx pdcp g.info ∧
        ∀ retx others, w₁.llc.toRetxList = retx :: others →
          w₁.llc.txConfig.maxRetxCount < retx.retryCount + 1) ∨
      (¬ w.llc.TakesNew pdcp g.info ∧ ∃ retx others, w₁.llc.toRetxList = retx :: others ∧
        payload = retx.pdcpPdu))) := by
  subst hw₁
  have hcrc := (w.check_setup g.slotNumber).txCrcSize
  have hback : ∀ {payload}, r.Carries w.llc payload →
      r.Carries (w.check g.slotNumber).llc payload := by
    intro payload hcarries
    have hpdu := hcarries.pdu
    rw [← hcrc] at hpdu
    exact ⟨hcarries.kept, hpdu⟩
  rcases Llc.onTx_payload hpdcp hl pdcp g hmax hr with hquiet |
    ⟨hnew, payload, hcarries, hlen, hsn⟩ | ⟨hold, retx, others, hcons, hcarries, hsn⟩
  · exact Or.inl hquiet
  · right
    refine ⟨?_, payload, hback hcarries,
      Or.inl ⟨hnew, hlen, fun retx others hcons => hnew.out hcons⟩⟩
    rw [hsn]
    exact next_ne _
  · right
    refine ⟨?_, _, hback hcarries, Or.inr ⟨hold, retx, others, hcons, rfl⟩⟩
    rw [hsn]
    exact next_ne _

/-- **A call copies the payload of its data PDU.** -/
theorem Copied.onTx (hpdcp : PdcpOnTxOk pdcpOnTx) (hp : PdcpAllocates pdcpOnTx) {w : Watch}
    (h : w.Copied) (hw : w.Faithful) (hl : w.llc.Sized) (pdcp : π) (g : Grant)
    (hmax : g.size ≤ 2047) :
    (w.onTx pdcpOnTx pdcp g).Copied ∧ w.Grown pdcpOnTx pdcp g (w.onTx pdcpOnTx pdcp g) := by
  obtain ⟨r, hr, hw₁, -, hout, hres⟩ := hw.onTx_cases hp pdcp g
  have h₁ := h.check g.slotNumber
  have hlog : (w.check g.slotNumber).log = w.log := rfl
  have hnow : (w.check g.slotNumber).now = g.slotNumber := rfl
  have hpayload := payload_cases hpdcp hl pdcp g hmax hr rfl
  rw [hres]
  generalize w.check g.slotNumber = w₁ at hw₁ hout h₁ hlog hnow hpayload ⊢
  -- Without a data PDU the log is the same.
  have hunsent : ∀ {w' : Watch}, w₁.llc.Unsent r → w'.log = w₁.log →
      w.Grown pdcpOnTx pdcp g w' := by
    intro w' hu hsame
    rcases hpayload with ⟨-, hnone⟩ | ⟨hne, -⟩
    · exact .quiet (hsame.trans hlog) hnone
    · exact absurd hu.number hne
  -- With one it is longer by a PDU that keeps its payload.
  have hsent : ∀ (w₂ : Watch) (pdu : Nat) {id count : Nat},
      w₁.llc.SentAs w₁.now id count r → w₂.llc = w₁.llc → w₂.now = w₁.now →
      (w₂.sentBy pdu r).kept = (w₂.sentBy pdu r).payload ∧
        ∀ w' : Watch, w'.log = w₂.sentBy pdu r :: w₁.log → w.Grown pdcpOnTx pdcp g w' := by
    intro w₂ pdu id count hs hllc hsame
    rcases hpayload with ⟨heq, -⟩ | ⟨-, payload, hcarries, hway⟩
    · exact absurd heq hs.number_ne
    · rw [← hllc, ← hsame] at hs
      rw [← hllc] at hcarries
      obtain ⟨hkept, hpay⟩ := sentBy_carries hs hcarries pdu
      refine ⟨hkept.trans hpay.symm, fun w' hgrown => ?_⟩
      rw [hlog] at hgrown
      have hslot : (w₂.sentBy pdu r).slot = g.slotNumber := hsame.trans hnow
      rcases hway with ⟨hnew, hlen, -⟩ | ⟨hold, retx, others, hcons, heq⟩
      · exact .new _ hgrown hslot hnew (by rw [hkept]; exact hlen)
      · obtain ⟨front, rest, hqueued, hretx, -⟩ := hw₁.front hcons
        have hfirst : front ∈ w₁.log := h₁.queued front (by
          rw [hqueued]
          exact List.mem_cons_self ..)
        rw [hlog] at hfirst
        refine .again _ front hgrown hslot hold hfirst ?_
        rw [hkept, heq, ← hretx]
        rfl
  have hnew : ∀ u ∈ w₁.log, u.pdu ≠ w₁.accepted := by
    intro u hu heq
    have hless := h₁.numbered u hu
    omega
  rcases settle_cases hout with ⟨hu, -, hset⟩ | ⟨-, -, hs, hset⟩ |
    ⟨retx, others, hcons, -, hway⟩
  · rw [hset]
    exact ⟨h₁.unsent rfl rfl h₁.queued, hunsent hu rfl⟩
  · obtain ⟨hkept, hgrown⟩ := hsent w₁ w₁.accepted hs rfl rfl
    rw [hset]
    exact ⟨h₁.sent rfl (Nat.le_succ _) (Nat.lt_succ_self _) h₁.queued hkept
      (fun u hu heq => absurd heq (hnew u hu)), hgrown _ rfl⟩
  · obtain ⟨front, rest, hqueued, hretx, -⟩ := hw₁.front hcons
    have hmem : ∀ u ∈ front :: rest, u ∈ w₁.log := by
      rw [← hqueued]
      exact h₁.queued
    have htail : ∀ u ∈ w₁.queued.tail, u ∈ w₁.log := by
      rw [hqueued]
      exact fun u hu => hmem u (List.mem_cons_of_mem _ hu)
    rcases hway with ⟨hless, hs, hset⟩ | ⟨-, hu, hset⟩ | ⟨-, -, hs, hset⟩
    · -- The front keeps the payload that it was sent with.
      obtain ⟨hkept, hgrown⟩ := hsent w₁ front.pdu hs rfl rfl
      have hfront : front ∈ w₁.log := hmem front (List.mem_cons_self ..)
      have hsame : (w₁.sentBy front.pdu r).kept = front.kept := by
        rcases hpayload with ⟨heq, -⟩ | ⟨-, payload, hcarries, ⟨-, -, hout⟩ |
          ⟨-, retx', others', hcons', heq⟩⟩
        · exact absurd heq hs.number_ne
        · exact absurd (hout retx others hcons) (by omega)
        · rw [(sentBy_carries hs hcarries front.pdu).1, heq,
            ← (List.cons.inj (hcons.symm.trans hcons')).1, ← hretx]
          rfl
      rw [hset, resend_cons hqueued]
      refine ⟨h₁.sent rfl (le_refl _) (h₁.numbered front hfront)
        (fun u hu => hmem u (List.mem_cons_of_mem _ hu)) hkept (fun u hu heq => ?_), hgrown _ rfl⟩
      rw [h₁.same u hu front hfront heq, ← h₁.kept front hfront, ← hsame, hkept]
    · rw [hset]
      exact ⟨h₁.unsent rfl rfl htail, hunsent hu rfl⟩
    · obtain ⟨hkept, hgrown⟩ := hsent w₁.giveUp w₁.accepted hs rfl rfl
      rw [hset]
      exact ⟨h₁.sent rfl (Nat.le_succ _) (Nat.lt_succ_self _) htail hkept
        (fun u hu heq => absurd heq (hnew u hu)), hgrown _ rfl⟩

end Watch

end Winject.LegacyLlc
