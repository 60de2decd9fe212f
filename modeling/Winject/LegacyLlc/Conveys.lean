import Winject.LegacyLlc.Payloads

/-!
# Where the payloads of the first LLC come from

The LLC makes no payload itself: a data PDU carries what the PDCP wrote for it, or a copy
that the ring has kept of what the PDCP wrote earlier.  `PdcpWrites` is what is known of a
PDCP, over its states: `Q` of the state, and `P` of the payloads that it has written.
`Conveys` says the same of a channel between two calls, and of the PDUs that a call writes.

This needs nothing of the acknowledgements, of the slots or of the mode.

## Main results

* `Keeps.onRx`, `Keeps.setTxEnabled` — the other calls.
* `onTx_conveys` — a call of `on_tx`.
-/

namespace Winject.LegacyLlc

open Winject.Frames
open Winject.Lib.Bytes
open Winject.Lib.Runs

/-! ## What is known of a PDCP -/

/-- Calls with grants that fit into a PDU keep `Q`, and write payloads that satisfy `P`,
from then on. -/
structure PdcpWrites {π : Type} (pdcpOnTx : π → LegacyPdcp.TxInfo → π × LegacyPdcp.TxInfo)
    (Q : π → Prop) (P : π → List UInt8 → Prop) : Prop where
  keeps : ∀ pdcp info, info.outPdu.length ≤ 2047 → Q pdcp → Q (pdcpOnTx pdcp info).1
  grows : ∀ pdcp info payload, P pdcp payload → P (pdcpOnTx pdcp info).1 payload
  writes : ∀ pdcp info, info.outPdu.length ≤ 2047 → Q pdcp →
    info.outAllocated ≠ (pdcpOnTx pdcp info).2.outAllocated →
      P (pdcpOnTx pdcp info).1 ((pdcpOnTx pdcp info).2.outPdu.take
        ((pdcpOnTx pdcp info).2.outAllocated - info.outAllocated))

/-! ## What the channel keeps -/

/-- The copies that may be sent again satisfy `P`. -/
structure Llc.Keeps (P : List UInt8 → Prop) (l : Llc) : Prop where
  ring : ∀ i, (l.txRing i).acknowledged = false → P (l.txRing i).pdcpPdu
  list : ∀ e ∈ l.toRetxList, P e.pdcpPdu

namespace Llc.Keeps

variable {P : List UInt8 → Prop} {l : Llc}

theorem mono {P' : List UInt8 → Prop} (h : l.Keeps P) (hP : ∀ b, P b → P' b) : l.Keeps P' :=
  ⟨fun i hi => hP _ (h.ring i hi), fun e he => hP _ (h.list e he)⟩

/-- Without a change of the copies. -/
theorem congr {l' : Llc} (h : l.Keeps P) (hring : l'.txRing = l.txRing)
    (hlist : l'.toRetxList = l.toRetxList) : l'.Keeps P := by
  refine ⟨?_, ?_⟩
  · rw [hring]
    exact h.ring
  · rw [hlist]
    exact h.list

theorem setTxEnabled (h : l.Keeps P) (value : Bool) : (l.setTxEnabled value).Keeps P := by
  refine ⟨fun i hi => ?_, fun e he => (List.not_mem_nil he).elim⟩
  unfold Llc.setTxEnabled at hi ⊢
  dsimp only at hi ⊢
  by_cases hmode : l.txConfig.mode = .am
  · rw [if_pos hmode] at hi
    exact absurd (show true = false from hi) (by decide)
  · rw [if_neg hmode] at hi ⊢
    exact h.ring i hi

/-- A channel that starts has no copies. -/
theorem start (lcid : UInt8) (txConfig : TxConfig) (rxConfig : RxConfig) (rxEnabled : Bool) :
    (Llc.start lcid txConfig rxConfig rxEnabled).Keeps P := by
  have hnone : ({ lcid := lcid } : Llc).Keeps P :=
    ⟨fun _ hi => absurd (show true = false from hi) (by decide),
      fun _ he => (List.not_mem_nil he).elim⟩
  have htx : (({ lcid := lcid } : Llc).reconfigureTx txConfig).Keeps P :=
    Keeps.setTxEnabled (l := ({ lcid := lcid, txConfig := txConfig } : Llc).configureCrcSize)
      (hnone.congr rfl rfl) false
  have hnew : (Llc.new lcid txConfig rxConfig).Keeps P := htx.congr rfl rfl
  exact (hnew.setTxEnabled true).congr rfl rfl

theorem ackOne (h : l.Keeps P) (sn : UInt8) : (l.ackOne sn).Keeps P := by
  refine ⟨fun i hi => ?_, h.list⟩
  unfold Llc.ackOne at hi ⊢
  dsimp only at hi ⊢
  by_cases hsent : i = l.sentElem sn
  · rw [hsent, Function.update_self] at hi
    cases hi
  · rw [Function.update_of_ne hsent] at hi ⊢
    exact h.ring i hi

/-- Acknowledgements only take copies away. -/
theorem onRx (h : l.Keeps P) (info : RxInfo) : (l.onRx info).llc.Keeps P := by
  rcases l.onRx_cases info with ⟨-, hllc⟩ | ⟨sn, -, -, hllc⟩
  · rw [hllc]
    exact foldl_invariant (Keeps P) (fun l sn hl => hl.ackOne sn) _ l h
  · rw [hllc]
    split_ifs
    · have hback : (l.toAcknowledge sn).txRing = l.txRing ∧
          (l.toAcknowledge sn).toRetxList = l.toRetxList := by
        unfold Llc.toAcknowledge
        split
        · exact ⟨rfl, rfl⟩
        · split_ifs <;> exact ⟨rfl, rfl⟩
      exact h.congr hback.1 hback.2
    · exact h

/-- What the check of a slot moves to the list was in the ring. -/
theorem checkRetransmit (h : l.Keeps P) (slotNumber : Nat) :
    (l.checkRetransmit slotNumber).Keeps P := by
  unfold Llc.checkRetransmit
  dsimp only
  split_ifs with hmode hack
  · exact h
  · exact h
  · generalize Llc.txRingIndex (l.txRing (Llc.txRingIndex slotNumber)).sentIndex = idx at hack ⊢
    refine ⟨fun i hi => ?_, fun e he => ?_⟩
    · by_cases hidx : i = idx
      · subst hidx
        dsimp only at hi
        rw [Function.update_self] at hi
        cases hi
      · dsimp only at hi ⊢
        rw [Function.update_of_ne hidx] at hi ⊢
        exact h.ring i hi
    · rcases List.mem_append.mp he with hold | hnew
      · exact h.list e hold
      · rw [List.mem_singleton.mp hnew]
        exact h.ring idx (by rwa [Bool.not_eq_true] at hack)

theorem popRetx (h : l.Keeps P) {retx : RetxElem} {others : List RetxElem}
    (hcons : l.toRetxList = retx :: others) :
    P retx.pdcpPdu ∧ ({ l with toRetxList := others } : Llc).Keeps P := by
  have hlist := h.list
  rw [hcons] at hlist
  exact ⟨hlist retx (List.mem_cons_self ..), h.ring,
    fun e he => hlist e (List.mem_cons_of_mem _ he)⟩

theorem recordSent (h : l.Keeps P) (slotNumber llcTxId retryCount : Nat) (sn : UInt8)
    {payload : List UInt8} (hpayload : P payload) :
    (l.recordSent slotNumber llcTxId retryCount sn payload).Keeps P := by
  refine ⟨fun i hi => ?_, h.list⟩
  by_cases hslot : i = Llc.txRingIndex slotNumber
  · subst hslot
    rw [(l.recordSent_self slotNumber llcTxId retryCount sn payload).2.2]
    exact hpayload
  · obtain ⟨sentIndex, helem⟩ :=
      l.recordSent_other slotNumber llcTxId retryCount sn payload hslot
    rw [helem] at hi ⊢
    exact h.ring i hi

end Llc.Keeps

/-! ## A call -/

/-- What is known between two calls, and of the PDUs that are done in a call. -/
structure TxState.Conveys {π : Type} (Q : π → Prop) (P : π → List UInt8 → Prop) (l : Llc)
    (s : TxState π) : Prop where
  pdcp : Q s.pdcp
  copies : s.owner.Keeps (P s.pdcp)
  pdus : ∀ pdu ∈ s.pdus, IsKind true 0 pdu ∨ P s.pdcp (pdu.drop (3 + l.txCrcSize))

namespace TxState

variable {π : Type} {pdcpOnTx : π → LegacyPdcp.TxInfo → π × LegacyPdcp.TxInfo}
  {Q : π → Prop} {P : π → List UInt8 → Prop} {l : Llc} {n g : Nat} {s : TxState π}

/-- A step that leaves the PDCP, the copies and the PDUs. -/
theorem Conveys.congr (h : s.Conveys Q P l) {s' : TxState π} (hpdcp : s'.pdcp = s.pdcp)
    (hring : s'.owner.txRing = s.owner.txRing)
    (hlist : s'.owner.toRetxList = s.owner.toRetxList) (hpdus : s'.pdus = s.pdus) :
    s'.Conveys Q P l where
  pdcp := hpdcp ▸ h.pdcp
  copies := by
    rw [hpdcp]
    exact h.copies.congr hring hlist
  pdus := by
    rw [hpdcp, hpdus]
    exact h.pdus

/-- It depends on the size of the checksum only. -/
theorem Conveys.of_crc {l' : Llc} (h : s.Conveys Q P l) (hcrc : l'.txCrcSize = l.txCrcSize) :
    s.Conveys Q P l' := by
  refine ⟨h.pdcp, h.copies, fun pdu hmem => ?_⟩
  rw [hcrc]
  exact h.pdus pdu hmem

theorem Conveys.callPdcp (hw : PdcpWrites pdcpOnTx Q P) (h : s.Conveys Q P l)
    (hroom : s.outSize ≤ 2047) : (s.callPdcp pdcpOnTx).Conveys Q P l where
  pdcp := hw.keeps _ _ ((List.length_take_le _ _).trans hroom) h.pdcp
  copies := h.copies.mono fun b => hw.grows _ _ b
  pdus := fun pdu hmem => (h.pdus pdu hmem).imp_right fun hP => hw.grows _ _ _ hP

theorem Conveys.informPdcp (hw : PdcpWrites pdcpOnTx Q P) (h : s.Conveys Q P l) :
    (s.informPdcp pdcpOnTx).Conveys Q P l :=
  (h.congr rfl rfl rfl rfl : TxState.Conveys Q P l { s with outSize := 0 }).callPdcp hw
    (Nat.zero_le _)

theorem Conveys.informOnly (hw : PdcpWrites pdcpOnTx Q P) (h : s.Conveys Q P l) :
    (s.informOnly pdcpOnTx).Conveys Q P l := (h.informPdcp hw).congr rfl rfl rfl rfl

/-- A new payload: the bytes behind the header are those that the PDCP has written. -/
theorem Conveys.loadPdcp (hp : PdcpOnTxOk pdcpOnTx) (hw : PdcpWrites pdcpOnTx Q P)
    (h : s.Conveys Q P l) (hmax : s.outSize ≤ 2047)
    (hfit : s.llc.getHeaderSize + s.outSize ≤ s.llc.base.length)
    (hhdr : 3 ≤ s.llc.getHeaderSize) :
    (s.loadPdcp pdcpOnTx).Conveys Q P l ∧
      (s.outAllocated ≠ (s.loadPdcp pdcpOnTx).outAllocated →
        P (s.loadPdcp pdcpOnTx).pdcp
          (((s.loadPdcp pdcpOnTx).llc.base.drop s.llc.getHeaderSize).take
            ((s.loadPdcp pdcpOnTx).outAllocated - s.outAllocated))) := by
  refine ⟨(h.callPdcp hw hmax).congr rfl rfl rfl rfl, fun hne => ?_⟩
  have hregion : ((s.llc.base.drop s.llc.getHeaderSize).take s.outSize).length = s.outSize := by
    rw [List.length_take, List.length_drop]
    omega
  unfold TxState.loadPdcp TxState.callPdcp at hne ⊢
  dsimp only at hne ⊢
  rw [setPayloadSize_drop _ hhdr]
  generalize (s.llc.base.drop s.llc.getHeaderSize).take s.outSize = region at hregion hne ⊢
  have hwrites := hw.writes s.pdcp ⟨region, s.outAllocated, s.outTxAvailable⟩
    (by dsimp only; omega) h.pdcp hne
  have hlen := hp.length s.pdcp ⟨region, s.outAllocated, s.outTxAvailable⟩ (by dsimp only; omega)
  have hfits := hp.fits s.pdcp ⟨region, s.outAllocated, s.outTxAvailable⟩ (by dsimp only; omega)
  dsimp only at hwrites hlen hfits
  generalize pdcpOnTx s.pdcp ⟨region, s.outAllocated, s.outTxAvailable⟩ = r
    at hwrites hlen hfits ⊢
  rw [List.take_of_length_le hlen.le]
  have hread : ((s.llc.storePayload r.2.outPdu).base.drop s.llc.getHeaderSize).take
      r.2.outPdu.length = r.2.outPdu := poke_read (by omega)
  rw [← hread, List.take_take, min_eq_left (by omega)] at hwrites
  exact hwrites

/-- The end of a call, behind a payload that satisfies `P`. -/
theorem Conveys.finish {k : Nat} (h : s.Conveys Q P l) (hl : l.Sized) (hload : s.Loaded l n g k)
    (hfit : g ≤ n) (hmax : g ≤ 2047)
    (hpayload : s.front.length ≠ s.outAllocated →
      P s.pdcp ((s.llc.base.drop (3 + l.txCrcSize)).take k)) (slotNumber : Nat)
    (retx : Option Nat) (retxCount : Nat) :
    (s.finish slotNumber s.front.length retx retxCount).Conveys Q P l := by
  by_cases hne : s.front.length = s.outAllocated
  · unfold TxState.finish
    rw [if_pos hne]
    exact h
  · have hP := hpayload hne
    obtain ⟨hcarries, -⟩ := hload.finish_carries hl hfit hmax slotNumber retx retxCount hne
    have hkept := hcarries.kept
    have hpdu := hcarries.pdu
    generalize (s.llc.base.drop (3 + l.txCrcSize)).take k = payload at hP hkept hpdu
    unfold TxState.finish at hkept hpdu ⊢
    rw [if_neg hne] at hkept hpdu ⊢
    dsimp only at hkept hpdu ⊢
    refine ⟨h.pdcp, ?_, fun pdu hmem => ?_⟩
    · dsimp only
      by_cases hmode : s.owner.incrementSn.txConfig.mode = .am
      · rw [if_pos hmode]
        have hnext : Llc.Keeps (P s.pdcp) { s.owner.incrementSn with
            llcTxId := if retx.isNone then s.owner.incrementSn.llcTxId + 1
              else s.owner.incrementSn.llcTxId } := h.copies.congr rfl rfl
        refine hnext.recordSent _ _ _ _ ?_
        unfold TxState.kept at hkept
        dsimp only at hkept
        rw [hkept]
        exact hP
      · rw [if_neg hmode]
        exact h.copies.congr rfl rfl
    · rcases List.mem_append.mp hmem with hold | hnew
      · exact h.pdus pdu hold
      · rw [List.mem_singleton.mp hnew, hpdu]
        exact Or.inr hP

/-- The data PDU. -/
theorem Conveys.allocateData (hp : PdcpOnTxOk pdcpOnTx) (hw : PdcpWrites pdcpOnTx Q P)
    (hl : l.Sized) (h : s.Conveys Q P l) (hfilled : s.Filled l n g) (hfit : g ≤ n)
    (hmax : g ≤ 2047) (hroom : s.llc.getHeaderSize ≤ s.outSize) (slotNumber : Nat) :
    (s.allocateData pdcpOnTx slotNumber).Conveys Q P l := by
  obtain ⟨hstart, hlcid, hspace⟩ := hfilled.startData hroom hfit
  have hlen := hstart.length
  have hhdr := hstart.header
  have halloc := hstart.allocated
  have hconveys : s.startData.Conveys Q P l := h.congr rfl rfl rfl rfl
  have hpop : ∀ others, (s.startData.popRetx others).Filled l n g := fun others =>
    { hstart with setup := hstart.setup.trans ⟨rfl, rfl, rfl, rfl, rfl, rfl, rfl, rfl⟩ }
  -- a payload of the PDCP, whatever has become of the list
  have hnew : ∀ {s' : TxState π}, s'.Filled l n g → s'.Conveys Q P l → s'.llc = s.startData.llc →
      s'.front = s.startData.front → s'.outSize = s.startData.outSize →
      ∀ retx retxCount, ((s'.loadPdcp pdcpOnTx).finish slotNumber s.outAllocated retx
        retxCount).Conveys Q P l := by
    intro s' hfilled' hconveys' hllc hfront hsize retx retxCount
    obtain ⟨k, hload, hsame⟩ := hfilled'.loadPdcp hp hmax hfit (hllc ▸ hlcid)
      (by rw [hfront, hsize]; exact hspace)
    obtain ⟨hloaded, hwritten⟩ := hconveys'.loadPdcp hp hw (by omega)
      (by rw [hllc]; omega) (by rw [hllc]; omega)
    have halloc' := hfilled'.allocated
    have hout := hload.allocated
    rw [hsame] at hout
    have hbytes : s.outAllocated = (s'.loadPdcp pdcpOnTx).front.length := by
      rw [hsame, hfront, ← halloc]
      rfl
    rw [hbytes]
    refine hloaded.finish hl hload hfit hmax (fun hne => ?_) slotNumber retx retxCount
    rw [hsame] at hne
    have hP := hwritten (by omega)
    rwa [hllc, hhdr, show (s'.loadPdcp pdcpOnTx).outAllocated - s'.outAllocated = k by omega] at hP
  rcases s.allocateData_cases pdcpOnTx slotNumber with ⟨-, hres⟩ |
    ⟨retx, others, hcons, ⟨-, hres⟩ | ⟨-, -, -, hres⟩ | ⟨-, -, hres⟩ | ⟨-, hpdu, hres⟩⟩
  · rw [hres]
    exact hnew hstart hconveys rfl rfl rfl _ _
  · rw [hres]
    exact (hconveys.informPdcp hw).congr rfl rfl rfl rfl
  · have hcopies := (hconveys.copies.popRetx hcons).2
    rw [hres]
    exact ⟨hconveys.pdcp, hcopies, hconveys.pdus⟩
  · have hcopies := (hconveys.copies.popRetx hcons).2
    rw [hres]
    exact hnew (hpop others) ⟨hconveys.pdcp, hcopies, hconveys.pdus⟩ rfl rfl rfl _ _
  · obtain ⟨hcopy, hcopies⟩ :=
      hconveys.copies.popRetx hcons
    have hpopped : (s.startData.popRetx others).Conveys Q P l :=
      ⟨hconveys.pdcp, hcopies, hconveys.pdus⟩
    obtain ⟨hload, hfront⟩ := (hpop others).loadRetx hp hmax hfit hlcid hspace hpdu
    have hgoes : ((s.startData.popRetx others).loadRetx pdcpOnTx retx.pdcpPdu).Conveys Q P l := by
      have hbefore : TxState.Conveys Q P l
          { s.startData.popRetx others with
            llc := (s.startData.llc.storePayload retx.pdcpPdu).setPayloadSize retx.pdcpPdu.length
            outAllocated := s.startData.outAllocated + retx.pdcpPdu.length } :=
        hpopped.congr rfl rfl rfl rfl
      exact (hbefore.informPdcp hw).congr rfl rfl rfl rfl
    have hbytes : s.outAllocated =
        ((s.startData.popRetx others).loadRetx pdcpOnTx retx.pdcpPdu).front.length := by
      rw [hfront]
      exact halloc
    rw [hres, hbytes]
    refine hgoes.finish hl hload hfit hmax (fun _ => ?_) slotNumber _ _
    have hread : (((s.startData.popRetx others).loadRetx pdcpOnTx retx.pdcpPdu).llc.base.drop
        (3 + l.txCrcSize)).take retx.pdcpPdu.length = retx.pdcpPdu := by
      show (((s.startData.llc.storePayload retx.pdcpPdu).setPayloadSize
        retx.pdcpPdu.length).base.drop _).take _ = _
      rw [setPayloadSize_drop _ (by omega), ← hhdr]
      exact poke_read (by omega)
    rw [hread]
    exact hw.grows _ _ _ hcopy

end TxState

/-- **A call of `on_tx`**: the PDUs that it writes are acknowledgements, or have a payload
that the PDCP has written, and so have the copies that are kept. -/
theorem Llc.onTx_conveys {π : Type}
    {pdcpOnTx : π → LegacyPdcp.TxInfo → π × LegacyPdcp.TxInfo} {Q : π → Prop}
    {P : π → List UInt8 → Prop} (hp : PdcpOnTxOk pdcpOnTx) (hw : PdcpWrites pdcpOnTx Q P)
    {l : Llc} (hl : l.Sized) {pdcp : π} (hQ : Q pdcp) (hkeeps : l.Keeps (P pdcp))
    (grant : Grant) (hmax : grant.size ≤ 2047) :
    (l.onTx pdcpOnTx pdcp grant.info).Conveys Q P l := by
  have hcheck := l.checkRetransmit_setup grant.slotNumber
  have hsized := hl.of_setup hcheck
  have hstart : ∀ {l' : Llc}, l'.Keeps (P pdcp) →
      (l'.startTx pdcp grant.info).Conveys Q P l := fun h =>
    ⟨hQ, h, fun _ hmem => (List.not_mem_nil hmem).elim⟩
  have hchecked := hkeeps.checkRetransmit grant.slotNumber
  have hacks : 3 + l.txCrcSize < grant.size →
      ((l.checkRetransmit grant.slotNumber).ackStage pdcp grant.info).Conveys Q P l := by
    intro hsize
    rw [← hcheck.txCrcSize] at hsize
    have hshaped := TxState.ackStage_shaped hsized pdcp grant hsize hmax
    obtain ⟨hring, -, hlist, -, -⟩ :=
      (l.checkRetransmit grant.slotNumber).ackStage_kept pdcp grant.info
    have hpdcp : ((l.checkRetransmit grant.slotNumber).ackStage pdcp grant.info).pdcp = pdcp := by
      unfold Llc.ackStage TxState.allocateAcks
      dsimp only
      split_ifs <;> rfl
    refine ⟨hpdcp.symm ▸ hQ, ?_, fun pdu hmem => Or.inl (hshaped.acks pdu hmem)⟩
    rw [hpdcp]
    exact hchecked.congr hring hlist
  rcases l.onTx_cases pdcpOnTx pdcp grant.info with ⟨-, hres⟩ | ⟨-, -, hres⟩ |
    ⟨-, hsize, s, rfl, ⟨-, hres⟩ | ⟨hroom, -, hres⟩⟩
  · rw [hres]
    exact hstart hkeeps
  · rw [hres]
    exact (hstart hchecked).informOnly hw
  · rw [hres]
    exact (hacks hsize).informOnly hw
  · rw [hres]
    have hfilled := TxState.ackStage_filled (l.checkRetransmit grant.slotNumber) pdcp grant.info
      rfl (by rw [hcheck.txCrcSize]; exact hsize) grant.fits hmax
    have hconveys := (hacks hsize).of_crc hcheck.txCrcSize
    exact (hconveys.allocateData hp hw hsized hfilled grant.fits hmax hroom _).of_crc
      hcheck.txCrcSize.symm

end Winject.LegacyLlc
