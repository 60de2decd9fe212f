import Winject.LegacyLlc.Run

/-!
# What a call of `on_tx` does to the PDUs in hand

The data PDUs that are not done with are in the ring, where they wait for an
acknowledgement, or on the retransmission list.  A call of `on_tx` takes the front of
the list, or a new payload of the PDCP, or both: a call that gives up the front goes on
with a new payload.  `Outcome` are these ways, for the LLC behind the check of the slot.

## Main results

* `allocateData_outcome` — the ways through the data PDU.
* `onTx_outcome` — the ways through a call.
* `onTx_branch` — what a call has found when it sends a data PDU or pops the list.
-/

namespace Winject.LegacyLlc

open Winject.Frames
open Winject.Lib.Bytes

/-- The payload that the ring keeps of the PDU under construction. -/
def TxState.kept {π : Type} (s : TxState π) : List UInt8 :=
  (s.llc.base.drop s.llc.getHeaderSize).take s.llc.getPayloadSize

/-- No data PDU was sent. -/
structure Llc.Unsent {π : Type} (l : Llc) (r : TxState π) : Prop where
  number : r.owner.snCounter = l.snCounter
  ring : r.owner.txRing = l.txRing

/-- A data PDU was sent, and the ring has it. -/
structure Llc.SentAs {π : Type} (l : Llc) (slotNumber llcTxId retryCount : Nat)
    (r : TxState π) : Prop where
  number : r.owner.snCounter = l.snCounter + 1
  ring : r.owner.txRing =
    (l.recordSent slotNumber llcTxId retryCount l.snCounter r.kept).txRing
  pdu : r.pdus.getLast? = some (r.llc.base.take r.llc.getSIZE)

/-- The ways through a call: no data PDU and the list as it was; a new payload; the
front of the list sent again, or without any payload; the front given up with a link
failure, or alone, or together with a new payload. -/
inductive Llc.Outcome {π : Type} (l : Llc) (slotNumber : Nat) (r : TxState π) : Prop where
  | quiet (unsent : l.Unsent r) (list : r.owner.toRetxList = l.toRetxList)
      (rlf : r.rlf = false)
  | fresh (list : l.toRetxList = []) (rest : r.owner.toRetxList = [])
      (sent : l.SentAs slotNumber l.llcTxId 0 r) (rlf : r.rlf = false)
  | resent (retx : RetxElem) (others : List RetxElem) (list : l.toRetxList = retx :: others)
      (rest : r.owner.toRetxList = others)
      (count : retx.retryCount + 1 ≤ l.txConfig.maxRetxCount)
      (sent : l.SentAs slotNumber retx.llcTxId (retx.retryCount + 1) r) (rlf : r.rlf = false)
  | swallowed (retx : RetxElem) (others : List RetxElem) (list : l.toRetxList = retx :: others)
      (rest : r.owner.toRetxList = others)
      (count : retx.retryCount + 1 ≤ l.txConfig.maxRetxCount) (empty : retx.pdcpPdu = [])
      (unsent : l.Unsent r) (rlf : r.rlf = false)
  | failed (retx : RetxElem) (others : List RetxElem) (list : l.toRetxList = retx :: others)
      (rest : r.owner.toRetxList = others)
      (count : l.txConfig.maxRetxCount < retx.retryCount + 1)
      (allowed : l.txConfig.allowRlf = true) (unsent : l.Unsent r) (rlf : r.rlf = true)
  | dropped (retx : RetxElem) (others : List RetxElem) (list : l.toRetxList = retx :: others)
      (rest : r.owner.toRetxList = others)
      (count : l.txConfig.maxRetxCount < retx.retryCount + 1)
      (allowed : l.txConfig.allowRlf = false) (unsent : l.Unsent r) (rlf : r.rlf = false)
  | replaced (retx : RetxElem) (others : List RetxElem) (list : l.toRetxList = retx :: others)
      (rest : r.owner.toRetxList = others)
      (count : l.txConfig.maxRetxCount < retx.retryCount + 1)
      (allowed : l.txConfig.allowRlf = false)
      (sent : l.SentAs slotNumber retx.llcTxId (retx.retryCount + 1) r) (rlf : r.rlf = false)

/-- A link failure is reported iff the front is given up and that is allowed. -/
theorem Llc.Outcome.rlf_iff {π : Type} {l : Llc} {slotNumber : Nat} {r : TxState π}
    (h : l.Outcome slotNumber r) {retx : RetxElem} {others : List RetxElem}
    (hcons : l.toRetxList = retx :: others) (hrest : r.owner.toRetxList = others) :
    r.rlf = true ↔
      l.txConfig.maxRetxCount < retx.retryCount + 1 ∧ l.txConfig.allowRlf = true := by
  have hfront : ∀ {retx' others'}, l.toRetxList = retx' :: others' → retx' = retx :=
    fun hcons' => (List.cons.inj (hcons'.symm.trans hcons)).1
  cases h with
  | quiet unsent list rlf =>
      have hlen := congrArg List.length (hrest.symm.trans (list.trans hcons))
      rw [List.length_cons] at hlen
      omega
  | fresh list rest sent rlf => exact absurd (list.symm.trans hcons) (List.cons_ne_nil _ _).symm
  | resent retx' others' list rest count sent rlf =>
      rw [hfront list] at count
      rw [rlf]
      exact ⟨fun hne => absurd hne Bool.false_ne_true, fun hmax => absurd hmax.1 (by omega)⟩
  | swallowed retx' others' list rest count empty unsent rlf =>
      rw [hfront list] at count
      rw [rlf]
      exact ⟨fun hne => absurd hne Bool.false_ne_true, fun hmax => absurd hmax.1 (by omega)⟩
  | failed retx' others' list rest count allowed unsent rlf =>
      rw [hfront list] at count
      exact ⟨fun _ => ⟨count, allowed⟩, fun _ => rlf⟩
  | dropped retx' others' list rest count allowed unsent rlf =>
      rw [rlf, allowed]
      exact ⟨fun hne => absurd hne Bool.false_ne_true, fun hmax => hmax.2⟩
  | replaced retx' others' list rest count allowed sent rlf =>
      rw [rlf, allowed]
      exact ⟨fun hne => absurd hne Bool.false_ne_true, fun hmax => hmax.2⟩

/-- No link failure is reported for a list that is not shorter. -/
theorem Llc.Outcome.no_rlf {π : Type} {l : Llc} {slotNumber : Nat} {r : TxState π}
    (h : l.Outcome slotNumber r) (hlist : r.owner.toRetxList = l.toRetxList) :
    r.rlf = false := by
  cases h with
  | failed retx others list rest count allowed unsent rlf =>
      have hlen := congrArg List.length (rest.symm.trans (hlist.trans list))
      rw [List.length_cons] at hlen
      omega
  | _ => assumption

/-- The ring behind a data PDU depends on the ring and the window only. -/
theorem Llc.recordSent_txRing_congr {l l' : Llc} (hring : l'.txRing = l.txRing)
    (hconfig : l'.txConfig = l.txConfig) (slotNumber llcTxId retryCount : Nat) (sn sn' : UInt8)
    (pdcpPdu : List UInt8) :
    (l'.recordSent slotNumber llcTxId retryCount sn pdcpPdu).txRing =
      (l.recordSent slotNumber llcTxId retryCount sn' pdcpPdu).txRing := by
  unfold Llc.recordSent
  dsimp only
  rw [hring, hconfig]

namespace TxState

variable {π : Type} {pdcpOnTx : π → LegacyPdcp.TxInfo → π × LegacyPdcp.TxInfo}

/-- The end of a call that has come to a payload: nothing was allocated and nothing
happens, or the data PDU is sent. -/
theorem finish_outcome {l : Llc} {s : TxState π} (hmode : s.owner.txConfig.mode = .am)
    (hring : s.owner.txRing = l.txRing) (hnumber : s.owner.snCounter = l.snCounter)
    (hconfig : s.owner.txConfig = l.txConfig) (slotNumber initAlloc : Nat) (retx : Option Nat)
    (retxCount : Nat) :
    (s.finish slotNumber initAlloc retx retxCount).owner.toRetxList = s.owner.toRetxList ∧
      (s.finish slotNumber initAlloc retx retxCount).rlf = s.rlf ∧
      ((initAlloc = s.outAllocated ∧ l.Unsent (s.finish slotNumber initAlloc retx retxCount)) ∨
        l.SentAs slotNumber (retx.getD s.owner.llcTxId) retxCount
          (s.finish slotNumber initAlloc retx retxCount)) := by
  unfold TxState.finish
  by_cases hnone : initAlloc = s.outAllocated
  · rw [if_pos hnone]
    exact ⟨rfl, rfl, Or.inl ⟨hnone, hnumber, hring⟩⟩
  · rw [if_neg hnone]
    dsimp only
    rw [if_pos (show s.owner.incrementSn.txConfig.mode = .am from hmode)]
    refine ⟨rfl, rfl, Or.inr ⟨?_, ?_, ?_⟩⟩
    · show s.owner.snCounter + 1 = l.snCounter + 1
      rw [hnumber]
    · exact Llc.recordSent_txRing_congr hring hconfig _ _ _ 0 _ _
    · exact List.getLast?_concat

/-- The ways through the data PDU. -/
theorem allocateData_outcome (hp : PdcpAllocates pdcpOnTx) {l : Llc} {s : TxState π}
    (hmode : l.txConfig.mode = .am) (hring : s.owner.txRing = l.txRing)
    (hnumber : s.owner.snCounter = l.snCounter) (hconfig : s.owner.txConfig = l.txConfig)
    (hlist : s.owner.toRetxList = l.toRetxList) (hid : s.owner.llcTxId = l.llcTxId)
    (hrlf : s.rlf = false) (slotNumber : Nat) :
    l.Outcome slotNumber (s.allocateData pdcpOnTx slotNumber) := by
  have ham : s.owner.txConfig.mode = .am := by
    rw [hconfig]
    exact hmode
  rcases s.allocateData_cases pdcpOnTx slotNumber with ⟨hnil, hres⟩ |
    ⟨retx, others, hcons, ⟨-, hres⟩ | ⟨-, hcount, hallow, hres⟩ | ⟨hcount, hallow, hres⟩ |
      ⟨hcount, -, hres⟩⟩
  · -- The list is empty.
    obtain ⟨hrest, hflag, ⟨-, hunsent⟩ | hsent⟩ := finish_outcome (l := l)
      (s := s.startData.loadPdcp pdcpOnTx) ham hring hnumber hconfig slotNumber s.outAllocated
      none 0
    · rw [hres]
      exact .quiet hunsent (hrest.trans hlist) (hflag.trans hrlf)
    · rw [hres]
      refine .fresh (hlist.symm.trans hnil) (hrest.trans hnil) ?_ (hflag.trans hrlf)
      rw [← hid]
      exact hsent
  · -- The front does not fit.
    rw [hres]
    exact .quiet ⟨hnumber, hring⟩ hlist hrlf
  · rw [hres]
    exact .failed retx others (hlist.symm.trans hcons) rfl (by rw [← hconfig]; exact hcount)
      (by rw [← hconfig]; exact hallow) ⟨hnumber, hring⟩ rfl
  · -- The front is given up.
    obtain ⟨hrest, hflag, ⟨-, hunsent⟩ | hsent⟩ := finish_outcome (l := l)
      (s := (s.startData.popRetx others).loadPdcp pdcpOnTx) ham hring hnumber hconfig slotNumber
      s.outAllocated (some retx.llcTxId) (retx.retryCount + 1)
    · rw [hres]
      exact .dropped retx others (hlist.symm.trans hcons) hrest (by rw [← hconfig]; exact hcount)
        (by rw [← hconfig]; exact hallow) hunsent (hflag.trans hrlf)
    · rw [hres]
      exact .replaced retx others (hlist.symm.trans hcons) hrest
        (by rw [← hconfig]; exact hcount) (by rw [← hconfig]; exact hallow) hsent
        (hflag.trans hrlf)
  · -- The front is sent again.
    have halloc : ((s.startData.popRetx others).loadRetx pdcpOnTx retx.pdcpPdu).outAllocated =
        s.outAllocated + retx.pdcpPdu.length :=
      hp.idle s.pdcp ⟨_, s.outAllocated + retx.pdcpPdu.length, s.outTxAvailable⟩ rfl
    obtain ⟨hrest, hflag, ⟨hnone, hunsent⟩ | hsent⟩ := finish_outcome (l := l)
      (s := (s.startData.popRetx others).loadRetx pdcpOnTx retx.pdcpPdu) ham hring hnumber hconfig
      slotNumber s.outAllocated (some retx.llcTxId) (retx.retryCount + 1)
    · rw [hres]
      refine .swallowed retx others (hlist.symm.trans hcons) hrest
        (by rw [← hconfig]; exact hcount) ?_ hunsent (hflag.trans hrlf)
      rw [halloc] at hnone
      exact List.length_eq_zero_iff.mp (by omega)
    · rw [hres]
      exact .resent retx others (hlist.symm.trans hcons) hrest (by rw [← hconfig]; exact hcount)
        hsent (hflag.trans hrlf)

end TxState

namespace Llc

/-- The LLC behind the check of the slot. -/
def checked (l : Llc) (slotNumber : Nat) : Llc :=
  if l.isTxEnabled then l.checkRetransmit slotNumber else l

/-- The ACK PDU has nothing to do with the ring and the retransmission list. -/
theorem ackStage_kept {π : Type} (l : Llc) (pdcp : π) (info : TxInfo) :
    (l.ackStage pdcp info).owner.txRing = l.txRing ∧
      (l.ackStage pdcp info).owner.snCounter = l.snCounter ∧
      (l.ackStage pdcp info).owner.toRetxList = l.toRetxList ∧
      (l.ackStage pdcp info).owner.llcTxId = l.llcTxId ∧
      (l.ackStage pdcp info).rlf = false := by
  unfold ackStage TxState.allocateAcks
  dsimp only
  split_ifs <;> exact ⟨rfl, rfl, rfl, rfl, rfl⟩

/-- **The ways through a call** of an acknowledged channel. -/
theorem onTx_outcome {π : Type} {pdcpOnTx : π → LegacyPdcp.TxInfo → π × LegacyPdcp.TxInfo}
    (hp : PdcpAllocates pdcpOnTx) {l : Llc} (hmode : l.txConfig.mode = .am) (pdcp : π)
    (g : Grant) : (l.checked g.slotNumber).Outcome g.slotNumber
      (l.onTx pdcpOnTx pdcp g.info) := by
  have hsetup := l.checkRetransmit_setup g.slotNumber
  rcases l.onTx_cases pdcpOnTx pdcp g.info with ⟨hoff, hres⟩ | ⟨hon, -, hres⟩ |
    ⟨hon, -, s, hs, hdata⟩
  · rw [hres, checked, if_neg (by rw [hoff]; exact Bool.false_ne_true)]
    exact .quiet ⟨rfl, rfl⟩ rfl rfl
  · rw [hres, checked, if_pos hon]
    exact .quiet ⟨rfl, rfl⟩ rfl rfl
  · rw [checked, if_pos hon]
    change s = (l.checkRetransmit g.slotNumber).ackStage pdcp g.info at hs
    generalize l.checkRetransmit g.slotNumber = l₁ at hs hsetup ⊢
    have hconfig := (l₁.ackStage_setup pdcp g.info).txConfig
    obtain ⟨hring, hnumber, hlist, hid, hrlf⟩ := l₁.ackStage_kept pdcp g.info
    rw [← hs] at hconfig hring hnumber hlist hid hrlf
    rcases hdata with ⟨-, hres⟩ | ⟨-, -, hres⟩
    · rw [hres]
      exact .quiet ⟨hnumber, hring⟩ hlist hrlf
    · rw [hres]
      exact TxState.allocateData_outcome hp (by rw [hsetup.txConfig]; exact hmode) hring hnumber
        hconfig hlist hid hrlf g.slotNumber

/-! ## The branch of a call -/

section Branch

variable {π : Type} (pdcpOnTx : π → LegacyPdcp.TxInfo → π × LegacyPdcp.TxInfo)

/-- The locals of a call at its data PDU. -/
def dataStage (l : Llc) (pdcp : π) (info : TxInfo) : TxState π :=
  ((l.checked info.slotNumber).ackStage pdcp info).startData

/-- The call comes to a data PDU: the grant is meant for one, and has room for its
header behind the ACK PDU. -/
structure AllocatesData (l : Llc) (pdcp : π) (info : TxInfo) : Prop where
  enabled : l.isTxEnabled = true
  size : 3 + l.txCrcSize < info.outSize
  allowed : info.inAllowData = true
  room : ((l.checked info.slotNumber).ackStage pdcp info).llc.getHeaderSize ≤
    ((l.checked info.slotNumber).ackStage pdcp info).outSize

/-- The PDCP has a payload for the data PDU. -/
def PdcpLoads (l : Llc) (pdcp : π) (info : TxInfo) : Prop :=
  ((l.dataStage pdcp info).callPdcp pdcpOnTx).outAllocated ≠
    (l.dataStage pdcp info).outAllocated

variable {pdcpOnTx}

/-- A data PDU is finished when the PDCP has allocated something. -/
theorem finish_loads (s s' : TxState π) (hout : s'.outAllocated = s.outAllocated)
    (hnumber : s'.owner.snCounter = s.owner.snCounter) {slotNumber : Nat} {retx : Option Nat}
    {count : Nat}
    (hne : ((s'.loadPdcp pdcpOnTx).finish slotNumber s.outAllocated retx count).owner.snCounter ≠
      s.owner.snCounter) :
    (s'.callPdcp pdcpOnTx).outAllocated ≠ s'.outAllocated := by
  intro heq
  apply hne
  have hnone : s.outAllocated = (s'.loadPdcp pdcpOnTx).outAllocated := hout.symm.trans heq.symm
  unfold TxState.finish
  rw [if_pos hnone]
  exact hnumber

/-- **The branch of a call**: it leaves the list and the number as they are, or it comes
to a data PDU and finds the list empty, or a front that fits. -/
theorem onTx_branch (l : Llc) (pdcp : π) (info : TxInfo) {r : TxState π}
    (hr : r = l.onTx pdcpOnTx pdcp info) :
    (r.owner.snCounter = (l.checked info.slotNumber).snCounter ∧
      r.owner.toRetxList = (l.checked info.slotNumber).toRetxList) ∨
    (l.AllocatesData pdcp info ∧
      (((l.checked info.slotNumber).toRetxList = [] ∧
          (r.owner.snCounter ≠ (l.checked info.slotNumber).snCounter →
            l.PdcpLoads pdcpOnTx pdcp info)) ∨
        ∃ retx others, (l.checked info.slotNumber).toRetxList = retx :: others ∧
          retx.pdcpPdu.length ≤ (l.dataStage pdcp info).outSize ∧
          (l.txConfig.maxRetxCount < retx.retryCount + 1 →
            r.owner.snCounter ≠ (l.checked info.slotNumber).snCounter →
            l.txConfig.allowRlf = false ∧ l.PdcpLoads pdcpOnTx pdcp info))) := by
  rcases l.onTx_cases pdcpOnTx pdcp info with ⟨hoff, hres⟩ | ⟨hon, -, hres⟩ |
    ⟨hon, hsize, s, hs, hdata⟩
  · left
    rw [hr, hres, checked, if_neg (by rw [hoff]; exact Bool.false_ne_true)]
    exact ⟨rfl, rfl⟩
  · left
    rw [hr, hres, checked, if_pos hon]
    exact ⟨rfl, rfl⟩
  · have hchecked : l.checked info.slotNumber = l.checkRetransmit info.slotNumber := if_pos hon
    rw [← hchecked] at hs
    have hsetup := (l.checkRetransmit_setup info.slotNumber).trans
      ((l.checkRetransmit info.slotNumber).ackStage_setup pdcp info)
    rw [← hchecked, ← hs] at hsetup
    have hconfig := hsetup.txConfig
    obtain ⟨-, hnumber, hlist, -, -⟩ := (l.checked info.slotNumber).ackStage_kept pdcp info
    rw [← hs] at hnumber hlist
    rcases hdata with ⟨-, hres⟩ | ⟨hroom, hallow, hres⟩
    · left
      rw [hr, hres]
      exact ⟨hnumber, hlist⟩
    · have hdata : l.AllocatesData pdcp info := ⟨hon, hsize, hallow, by rw [← hs]; exact hroom⟩
      have hstart : l.dataStage pdcp info = s.startData := by rw [dataStage, ← hs]
      rw [← hlist, ← hnumber, ← hconfig]
      unfold PdcpLoads
      rw [hstart]
      rcases s.allocateData_cases pdcpOnTx info.slotNumber with ⟨hnil, hres'⟩ |
        ⟨retx, others, hcons, hway⟩
      · right
        refine ⟨hdata, Or.inl ⟨hnil, fun hne => ?_⟩⟩
        rw [hr, hres, hres'] at hne
        exact finish_loads s s.startData rfl rfl hne
      · by_cases hfit : retx.pdcpPdu.length ≤ s.startData.outSize
        · right
          refine ⟨hdata, Or.inr ⟨retx, others, hcons, hfit, fun hcount hne => ?_⟩⟩
          rcases hway with ⟨hlong, -⟩ | ⟨-, -, -, hres'⟩ | ⟨-, hallow, hres'⟩ | ⟨hless, -, -⟩
          · exact absurd hfit (by omega)
          · rw [hr, hres, hres'] at hne
            exact absurd rfl hne
          · rw [hr, hres, hres'] at hne
            exact ⟨hallow, finish_loads s (s.startData.popRetx others) rfl rfl hne⟩
          · exact absurd hcount (by omega)
        · left
          rw [hr, hres, s.allocateData_long pdcpOnTx _ hcons (by omega)]
          exact ⟨rfl, rfl⟩

end Branch

end Llc

end Winject.LegacyLlc
