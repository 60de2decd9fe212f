import Winject.LegacyLlc.Run

/-!
# Which PDU an acknowledgement reaches

An ACK of a number goes over `sn_ring`, which has one entry for each residue
modulo `arq_window_size`, to the slot in which the last PDU of that residue is
checked, and from there to the element of the slot in which it was sent.  Nothing
compares the number with the one that the PDU in that element was sent with.

In terms of the data PDUs sent so far: the element is the one of the newest PDU
with a congruent number (`resolved`).  So an acknowledgement is right exactly when
that element does not wait, or holds a PDU of the number itself.

## Main results

* `onTx_rings` — what a call of `on_tx` does to the rings.
* `sentElem_eq` — the three hops of an acknowledgement.
* `ackRight_iff` — one acknowledgement.
* `acksRight_iff` — every acknowledgement of a run.
* `duplicate_ack` — a late copy of an ACK PDU with a window of two.
-/

namespace Winject.LegacyLlc

open Winject.Frames
open Winject.Lib.Bytes
open Winject.Lib.Runs

/-! ## The first element of a list -/

/-- Two searches that stop at elements of both kinds stop at the same element. -/
theorem find?_agree {α : Type} {xs : List α} {p q : α → Bool} {a b : α}
    (ha : xs.find? p = some a) (hb : xs.find? q = some b) (hpb : p b = true)
    (hqa : q a = true) : a = b := by
  induction xs with
  | nil => cases ha
  | cons x xs ih =>
      rw [List.find?_cons] at ha hb
      cases hpx : p x with
      | true =>
          rw [hpx] at ha
          cases ha
          rw [hqa] at hb
          cases hb
          rfl
      | false =>
          rw [hpx] at ha
          cases hqx : q x with
          | true =>
              rw [hqx] at hb
              cases hb
              rw [hpb] at hpx
              cases hpx
          | false =>
              rw [hqx] at hb
              exact ih ha hb

/-- A narrower search stops where a wider one does, if that is an element of it. -/
theorem find?_narrow {α : Type} {xs : List α} {p q : α → Bool} {a : α}
    (ha : xs.find? p = some a) (himp : ∀ x, q x = true → p x = true) (hqa : q a = true) :
    xs.find? q = some a := by
  cases hq : xs.find? q with
  | none => exact absurd hqa (List.find?_eq_none.mp hq a (List.mem_of_find?_eq_some ha))
  | some b =>
      rw [find?_agree ha hq (himp b (List.find?_some hq)) hqa]

/-! ## The rings behind a call of `on_tx` -/

/-- Elements of the ring were marked as acknowledged, and nothing else changed. -/
structure Llc.Marked (l l' : Llc) : Prop where
  snRing : l'.snRing = l.snRing
  sentIndex : ∀ i, (l'.txRing i).sentIndex = (l.txRing i).sentIndex
  acknowledged : ∀ i, (l.txRing i).acknowledged = true → (l'.txRing i).acknowledged = true

theorem Llc.Marked.refl (l : Llc) : l.Marked l := ⟨rfl, fun _ => rfl, fun _ h => h⟩

theorem Llc.checkRetransmit_marked (l : Llc) (slotNumber : Nat) :
    l.Marked (l.checkRetransmit slotNumber) ∧
      (l.checkRetransmit slotNumber).snCounter = l.snCounter := by
  unfold Llc.checkRetransmit
  dsimp only
  split_ifs
  · exact ⟨Marked.refl l, rfl⟩
  · exact ⟨Marked.refl l, rfl⟩
  · refine ⟨⟨rfl, fun i => ?_, fun i h => ?_⟩, rfl⟩
    · dsimp only
      rw [Function.update_apply]
      split_ifs with hi
      · rw [hi]
      · rfl
    · dsimp only
      rw [Function.update_apply]
      split_ifs
      · rfl
      · exact h

/-- The rings are the same. -/
def Llc.SameRings (l l' : Llc) : Prop :=
  l'.txRing = l.txRing ∧ l'.snRing = l.snRing ∧ l'.snCounter = l.snCounter

/-- A data PDU was sent: the number went on, and the rings have it. -/
def Llc.RecordedIn (l : Llc) (slotNumber : Nat) (l' : Llc) : Prop :=
  l'.snCounter = l.snCounter + 1 ∧ ∃ id count pdu,
    l'.txRing = (l.recordSent slotNumber id count l.snCounter pdu).txRing ∧
    l'.snRing = (l.recordSent slotNumber id count l.snCounter pdu).snRing

theorem getSN_setSN {p : LlcPdu} (h : 0 < p.base.length) (sn : UInt8) :
    (p.setSN sn).getSN = sn := by
  unfold LlcPdu.getSN LlcPdu.setSN
  rw [LlcPdu.get_set_self h, UInt8.shiftLeft_zero, UInt8.shiftRight_zero]
  exact UInt8.and_neg_one

theorem getSN_writeCrc (l : Llc) (p : LlcPdu) : (l.writeCrc p).getSN = p.getSN := by
  unfold Llc.writeCrc
  split_ifs
  · unfold LlcPdu.getSN
    dsimp only
    rw [LlcPdu.get_storeCRC (by decide), LlcPdu.get_storeCRC (by decide)]
  · rfl

namespace TxState

variable {π : Type} {pdcpOnTx : π → LegacyPdcp.TxInfo → π × LegacyPdcp.TxInfo}

theorem finish_rings (s : TxState π) (hmode : s.owner.txConfig.mode = .am)
    (hbase : 0 < s.llc.base.length) (slotNumber initAlloc : Nat) (retx : Option Nat)
    (retxCount : Nat) :
    s.owner.SameRings (s.finish slotNumber initAlloc retx retxCount).owner ∨
      s.owner.RecordedIn slotNumber (s.finish slotNumber initAlloc retx retxCount).owner := by
  have hsn : (s.owner.writeCrc (s.llc.setSN s.owner.snCounter)).getSN = s.owner.snCounter := by
    rw [getSN_writeCrc, getSN_setSN hbase]
  unfold TxState.finish
  dsimp only
  rw [hsn]
  by_cases halloc : initAlloc = s.outAllocated
  · rw [if_pos halloc]
    exact Or.inl ⟨rfl, rfl, rfl⟩
  · rw [if_neg halloc, if_pos (show s.owner.incrementSn.txConfig.mode = .am from hmode)]
    exact Or.inr ⟨rfl, _, _, _, rfl, rfl⟩

theorem storePayload_length (p : LlcPdu) (bytes : List UInt8) (size : Nat) :
    ((p.storePayload bytes).setPayloadSize size).base.length = p.base.length := by
  unfold LlcPdu.setPayloadSize LlcPdu.setSIZE
  rw [LlcPdu.set_length, LlcPdu.set_length]
  exact poke_length ..

theorem loadPdcp_length (s : TxState π) :
    (s.loadPdcp pdcpOnTx).llc.base.length = s.llc.base.length := storePayload_length ..

theorem loadRetx_length (s : TxState π) (pdcpPdu : List UInt8) :
    (s.loadRetx pdcpOnTx pdcpPdu).llc.base.length = s.llc.base.length := by
  show (LlcPdu.storePayload _ _).base.length = _
  exact (poke_length ..).trans (storePayload_length ..)

theorem startData_length (s : TxState π) :
    s.startData.llc.base.length = s.llc.base.length := by
  unfold TxState.startData LlcPdu.setA LlcPdu.setLCID
  rw [LlcPdu.set_length, LlcPdu.set_length]

variable (pdcpOnTx) in
theorem allocateData_rings (s : TxState π) (hmode : s.owner.txConfig.mode = .am)
    (hbase : 0 < s.llc.base.length) (slotNumber : Nat) :
    s.owner.SameRings (s.allocateData pdcpOnTx slotNumber).owner ∨
      s.owner.RecordedIn slotNumber (s.allocateData pdcpOnTx slotNumber).owner := by
  rw [← startData_length] at hbase
  rcases s.allocateData_cases pdcpOnTx slotNumber with ⟨-, hres⟩ |
    ⟨retx, others, -, ⟨-, hres⟩ | ⟨-, -, hrlf, hres⟩ | ⟨-, -, hres⟩ | ⟨-, hlen, hres⟩⟩
  · rw [hres]
    exact (s.startData.loadPdcp pdcpOnTx).finish_rings hmode
      (by rwa [loadPdcp_length]) _ _ _ _
  · rw [hres]
    exact Or.inl ⟨rfl, rfl, rfl⟩
  · rw [hres]
    exact Or.inl ⟨rfl, rfl, rfl⟩
  · rw [hres]
    exact ((s.startData.popRetx others).loadPdcp pdcpOnTx).finish_rings hmode
      (by rwa [loadPdcp_length]) _ _ _ _
  · rw [hres]
    exact ((s.startData.popRetx others).loadRetx pdcpOnTx retx.pdcpPdu).finish_rings hmode
      (by rwa [loadRetx_length]) _ _ _ _

end TxState

namespace Llc

/-- **The rings behind a call**: an element may have been marked in front of a
retransmission, and if a data PDU was sent, the rings have it. -/
theorem onTx_rings {π : Type} (pdcpOnTx : π → LegacyPdcp.TxInfo → π × LegacyPdcp.TxInfo)
    (l : Llc) (pdcp : π) (g : Grant) (hmode : l.txConfig.mode = .am) :
    ∃ l₁, l.Marked l₁ ∧ l₁.snCounter = l.snCounter ∧ l₁.txConfig = l.txConfig ∧
      (l₁.SameRings (l.onTx pdcpOnTx pdcp g.info).owner ∨
        l₁.RecordedIn g.slotNumber (l.onTx pdcpOnTx pdcp g.info).owner) := by
  obtain ⟨hmark, hsn⟩ := l.checkRetransmit_marked g.info.slotNumber
  have hsetup := l.checkRetransmit_setup g.info.slotNumber
  have hacks := (l.checkRetransmit g.info.slotNumber).ackStage_setup pdcp g.info
  have hrings : (l.checkRetransmit g.info.slotNumber).SameRings
      ((l.checkRetransmit g.info.slotNumber).ackStage pdcp g.info).owner := by
    unfold ackStage TxState.allocateAcks
    dsimp only
    split_ifs <;> exact ⟨rfl, rfl, rfl⟩
  rcases l.onTx_cases pdcpOnTx pdcp g.info with ⟨-, hres⟩ | ⟨-, -, hres⟩ |
    ⟨-, hsize, s, rfl, ⟨-, hres⟩ | ⟨hroom, -, hres⟩⟩
  · exact ⟨l, Marked.refl l, rfl, rfl, Or.inl (by rw [hres]; exact ⟨rfl, rfl, rfl⟩)⟩
  · exact ⟨_, hmark, hsn, hsetup.txConfig, Or.inl (by rw [hres]; exact ⟨rfl, rfl, rfl⟩)⟩
  · exact ⟨_, hmark, hsn, hsetup.txConfig, Or.inl (by rw [hres]; exact hrings)⟩
  · have hspace := (l.checkRetransmit g.info.slotNumber).ackStage_room pdcp g
      (by rw [hsetup.txCrcSize]; exact hsize)
    have hhdr : 3 ≤ ((l.checkRetransmit g.info.slotNumber).ackStage pdcp g.info).llc.getHeaderSize :=
      Nat.le_add_right _ _
    have hdata := TxState.allocateData_rings pdcpOnTx
      ((l.checkRetransmit g.info.slotNumber).ackStage pdcp g.info)
      (by rw [hacks.txConfig, hsetup.txConfig]; exact hmode) (by omega) g.info.slotNumber
    rw [← hres] at hdata
    exact ⟨_, ⟨hrings.2.1.trans hmark.snRing, by rw [hrings.1]; exact hmark.sentIndex,
      by rw [hrings.1]; exact hmark.acknowledged⟩, hrings.2.2.trans hsn,
      hacks.txConfig.trans hsetup.txConfig, hdata⟩

end Llc

/-! ## The PDUs in the ring -/

namespace Channel

variable {π : Type} {pdcpOnTx : π → LegacyPdcp.TxInfo → π × LegacyPdcp.TxInfo}

/-- The data PDU that an element of the ring holds: the newest of its slots. -/
def holder (c : Channel π) (i : Fin 1024) : Option SentPdu :=
  c.sent.find? (fun p => Llc.txRingIndex p.slot = i)

/-- The PDU is still in the ring, and not acknowledged. -/
def awaits (c : Channel π) (p : SentPdu) : Bool :=
  c.holder (Llc.txRingIndex p.slot) = some p &&
    !(c.llc.txRing (Llc.txRingIndex p.slot)).acknowledged

/-- The most recent PDU of a number that is still awaiting acknowledgement. -/
def awaiting (c : Channel π) (sn : UInt8) : Option SentPdu :=
  c.sent.find? (fun p => p.sn = sn && c.awaits p)

/-- What the acknowledgement of a number is for: it sets `acknowledged` only on the
element of the most recent awaiting PDU of the number, never on the element of a PDU
with another number, and on none when no awaiting PDU has it. -/
structure AckRight (c : Channel π) (sn : UInt8) : Prop where
  only : ∀ i, (c.llc.ackOne sn).txRing i ≠ c.llc.txRing i →
    ∃ p, c.awaiting sn = some p ∧ Llc.txRingIndex p.slot = i
  other : ∀ i p, c.holder i = some p → p.sn ≠ sn →
    (c.llc.ackOne sn).txRing i = c.llc.txRing i
  nothing : c.awaiting sn = none → (c.llc.ackOne sn).txRing = c.llc.txRing

/-- The newest PDU with a number congruent to `sn` modulo the window. -/
def congruent (c : Channel π) (sn : UInt8) : Option SentPdu :=
  c.sent.find? (fun p => c.llc.snRingIndex p.sn = c.llc.snRingIndex sn)

/-- The newest PDU that is checked in a slot of element 0, to which `sn_ring` leads
at the start. -/
def checkedAtZero (c : Channel π) : Option SentPdu :=
  c.sent.find? (fun p => Llc.txRingIndex (p.slot + c.llc.txConfig.arqWindowSize) = 0)

/-- The element that an acknowledgement reaches, from the PDUs sent. -/
def resolved (c : Channel π) (sn : UInt8) : Fin 1024 :=
  match c.congruent sn with
  | some p => Llc.txRingIndex p.slot
  | none =>
    match c.checkedAtZero with
    | some p => Llc.txRingIndex p.slot
    | none => 1023

/-- The element does not wait, or holds a PDU of the number. -/
def AckFits (c : Channel π) (sn : UInt8) : Prop :=
  (c.llc.txRing (c.resolved sn)).acknowledged = true ∨
    ∃ p, c.holder (c.resolved sn) = some p ∧ p.sn = sn

/-- What the rings are at any time. -/
structure RingInv (c : Channel π) : Prop where
  mode : c.llc.txConfig.mode = .am
  check : ∀ p ∈ c.sent,
    (c.llc.txRing (Llc.txRingIndex (p.slot + c.llc.txConfig.arqWindowSize))).sentIndex =
      Llc.txRingIndex p.slot
  unset : ∀ i, (∀ p ∈ c.sent,
    Llc.txRingIndex (p.slot + c.llc.txConfig.arqWindowSize) ≠ i) →
      (c.llc.txRing i).sentIndex = sizeMax
  snRing : ∀ sn, c.llc.snRing (c.llc.snRingIndex sn) =
    match c.congruent sn with
    | some p => Llc.txRingIndex (p.slot + c.llc.txConfig.arqWindowSize)
    | none => 0
  free : ∀ i, c.holder i = none → (c.llc.txRing i).acknowledged = true

/-! ## The steps -/

theorem start_elem (lcid : UInt8) (txConfig : TxConfig) (rxConfig : RxConfig)
    (rxEnabled : Bool) (hmode : txConfig.mode = .am) (i : Fin 1024) :
    ((Llc.start lcid txConfig rxConfig rxEnabled).txRing i).acknowledged = true ∧
      ((Llc.start lcid txConfig rxConfig rxEnabled).txRing i).sentIndex = sizeMax := by
  have hring : (Llc.start lcid txConfig rxConfig rxEnabled).txRing = fun i =>
      { (Llc.new lcid txConfig rxConfig).txRing i with
        acknowledged := true
        sentIndex := sizeMax } := if_pos hmode
  rw [hring]
  exact ⟨rfl, rfl⟩

theorem RingInv.start (lcid : UInt8) (txConfig : TxConfig) (rxConfig : RxConfig)
    (rxEnabled : Bool) (pdcp : π) (hmode : txConfig.mode = .am) :
    RingInv { llc := Llc.start lcid txConfig rxConfig rxEnabled, pdcp := pdcp } where
  mode := hmode
  check := fun _ hmem => (List.not_mem_nil hmem).elim
  unset := fun i _ => (start_elem lcid txConfig rxConfig rxEnabled hmode i).2
  snRing := fun _ => rfl
  free := fun i _ => (start_elem lcid txConfig rxConfig rxEnabled hmode i).1

/-- Marks keep the invariant. -/
theorem RingInv.marked {c c' : Channel π} (h : c.RingInv) (hmark : c.llc.Marked c'.llc)
    (hcfg : c'.llc.txConfig = c.llc.txConfig) (hsent : c'.sent = c.sent) : c'.RingInv where
  mode := hcfg ▸ h.mode
  check := by
    rw [hsent, hcfg]
    intro p hmem
    rw [hmark.sentIndex]
    exact h.check p hmem
  unset := by
    rw [hsent, hcfg]
    intro i hnone
    rw [hmark.sentIndex]
    exact h.unset i hnone
  snRing := by
    unfold congruent Llc.snRingIndex
    rw [hsent, hcfg, hmark.snRing]
    exact h.snRing
  free := by
    unfold holder
    rw [hsent]
    intro i hnone
    exact hmark.acknowledged i (h.free i hnone)

/-- The slot of a check is the slot of its PDU, moved by the window. -/
theorem txRingIndex_check {a b w : Nat}
    (h : Llc.txRingIndex (a + w) = Llc.txRingIndex (b + w)) :
    Llc.txRingIndex a = Llc.txRingIndex b := by
  have hval : (a + w) % 1024 = (b + w) % 1024 := congrArg Fin.val h
  apply Fin.ext
  show a % 1024 = b % 1024
  omega

theorem recordSent_sentIndex (l : Llc) (slot id count : Nat) (sn : UInt8)
    (pdu : List UInt8) (i : Fin 1024) :
    ((l.recordSent slot id count sn pdu).txRing i).sentIndex =
      if i = Llc.txRingIndex (slot + l.txConfig.arqWindowSize) then
        (Llc.txRingIndex slot : Nat)
      else (l.txRing i).sentIndex := by
  unfold Llc.recordSent
  dsimp only
  by_cases hcheck : i = Llc.txRingIndex (slot + l.txConfig.arqWindowSize)
  · rw [if_pos hcheck, hcheck, Function.update_self]
  · rw [if_neg hcheck, Function.update_of_ne hcheck, Function.update_apply]
    split_ifs with hslot
    · rw [hslot]
    · rfl

theorem recordSent_acknowledged (l : Llc) (slot id count : Nat) (sn : UInt8)
    (pdu : List UInt8) {i : Fin 1024} (hi : i ≠ Llc.txRingIndex slot) :
    ((l.recordSent slot id count sn pdu).txRing i).acknowledged =
      (l.txRing i).acknowledged := by
  unfold Llc.recordSent
  dsimp only
  by_cases hcheck : i = Llc.txRingIndex (slot + l.txConfig.arqWindowSize)
  · rw [hcheck, Function.update_self]
    rw [hcheck] at hi
    rw [Function.update_of_ne hi]
  · rw [Function.update_of_ne hcheck, Function.update_of_ne hi]

/-- A data PDU that is sent keeps the invariant. -/
theorem RingInv.recorded {c c' : Channel π} (h : c.RingInv) {slot : Nat}
    (hrec : c.llc.RecordedIn slot c'.llc) (hcfg : c'.llc.txConfig = c.llc.txConfig)
    (hsent : c'.sent = ⟨slot, c.llc.snCounter⟩ :: c.sent) : c'.RingInv := by
  obtain ⟨-, id, count, pdu, htx, hsn⟩ := hrec
  refine ⟨hcfg ▸ h.mode, ?_, ?_, ?_, ?_⟩
  · rw [hsent, hcfg, htx]
    intro p hmem
    rw [recordSent_sentIndex]
    split_ifs with hcheck
    · rw [txRingIndex_check hcheck]
    · rcases List.mem_cons.mp hmem with rfl | hold
      · exact absurd rfl hcheck
      · exact h.check p hold
  · rw [hsent, hcfg, htx]
    intro i hnone
    rw [recordSent_sentIndex, if_neg (hnone _ List.mem_cons_self).symm]
    exact h.unset i (fun p hmem => hnone p (List.mem_cons_of_mem _ hmem))
  · unfold congruent Llc.snRingIndex
    rw [hsent, hcfg, hsn]
    intro sn
    rw [List.find?_cons]
    unfold Llc.recordSent
    dsimp only
    rw [Function.update_apply]
    unfold Llc.snRingIndex
    by_cases hres : sn.toNat % c.llc.txConfig.arqWindowSize =
        c.llc.snCounter.toNat % c.llc.txConfig.arqWindowSize
    · rw [if_pos hres, decide_eq_true hres.symm]
    · rw [if_neg hres, decide_eq_false (fun heq => hres heq.symm)]
      exact h.snRing sn
  · unfold holder
    rw [hsent, htx]
    intro i hnone
    rw [List.find?_cons] at hnone
    by_cases hi : Llc.txRingIndex slot = i
    · rw [decide_eq_true hi] at hnone
      cases hnone
    · rw [decide_eq_false hi] at hnone
      rw [recordSent_acknowledged _ _ _ _ _ _ (fun heq => hi heq.symm)]
      exact h.free i hnone

/-! ## One acknowledgement -/

theorem txRingIndex_val (i : Fin 1024) : Llc.txRingIndex i = i :=
  Fin.ext (Nat.mod_eq_of_lt i.isLt)

theorem holder_slot {c : Channel π} {i : Fin 1024} {p : SentPdu} (h : c.holder i = some p) :
    Llc.txRingIndex p.slot = i := by
  have hpred := List.find?_some h
  rwa [decide_eq_true_iff] at hpred

theorem checkedAtZero_slot {c : Channel π} {p : SentPdu} (h : c.checkedAtZero = some p) :
    Llc.txRingIndex (p.slot + c.llc.txConfig.arqWindowSize) = 0 := by
  have hpred := List.find?_some h
  rwa [decide_eq_true_iff] at hpred

/-- **The three hops of an acknowledgement** end at the element of the newest PDU
with a congruent number. -/
theorem RingInv.sentElem_eq {c : Channel π} (h : c.RingInv) (sn : UInt8) :
    c.llc.sentElem sn = c.resolved sn := by
  have hsn := h.snRing sn
  unfold Llc.sentElem resolved
  rw [hsn]
  cases hcong : c.congruent sn with
  | some p =>
      dsimp only
      rw [txRingIndex_val, h.check p (List.mem_of_find?_eq_some hcong), txRingIndex_val]
  | none =>
      dsimp only
      cases hzero : c.checkedAtZero with
      | some p =>
          rw [show Llc.txRingIndex 0 = 0 from rfl, ← checkedAtZero_slot hzero,
            h.check p (List.mem_of_find?_eq_some hzero), txRingIndex_val]
      | none =>
          have hnone : ∀ p ∈ c.sent,
              Llc.txRingIndex (p.slot + c.llc.txConfig.arqWindowSize) ≠ 0 := fun p hmem heq =>
            List.find?_eq_none.mp hzero p hmem (decide_eq_true heq)
          rw [show Llc.txRingIndex 0 = 0 from rfl, h.unset 0 hnone]
          rfl

/-- The one element that an acknowledgement can change. -/
theorem ackOne_changes (l : Llc) (sn : UInt8) (i : Fin 1024) :
    (l.ackOne sn).txRing i ≠ l.txRing i ↔
      i = l.sentElem sn ∧ (l.txRing i).acknowledged = false := by
  unfold Llc.ackOne
  dsimp only
  by_cases hi : i = l.sentElem sn
  · rw [hi, Function.update_self]
    refine ⟨fun hne => ⟨rfl, ?_⟩, fun hfalse heq => ?_⟩
    · by_contra hack
      rw [Bool.not_eq_false] at hack
      exact hne (by rw [← hack])
    · have hack := congrArg TxRingElem.acknowledged heq
      rw [hfalse.2] at hack
      cases hack
  · rw [Function.update_of_ne hi]
    exact ⟨fun hne => absurd rfl hne, fun hand => absurd hand.1 hi⟩

/-- The PDU of an element that is reached over its own number is the most recent one
of that number. -/
theorem RingInv.awaiting_of_holder {c : Channel π} {sn : UInt8} {p : SentPdu}
    (hp : c.holder (c.resolved sn) = some p) (hsn : p.sn = sn)
    (hwait : (c.llc.txRing (c.resolved sn)).acknowledged = false) :
    c.awaiting sn = some p ∧ Llc.txRingIndex p.slot = c.resolved sn := by
  have hslot := holder_slot hp
  obtain ⟨q, hq⟩ : ∃ q, c.congruent sn = some q := by
    refine Option.isSome_iff_exists.mp (List.find?_isSome.mpr ⟨p, ?_, ?_⟩)
    · exact List.mem_of_find?_eq_some hp
    · rw [hsn, decide_eq_true rfl]
  have hres : c.resolved sn = Llc.txRingIndex q.slot := by
    unfold resolved
    rw [hq]
  have hqp : q = p := find?_agree hq hp (by rw [hsn, decide_eq_true rfl])
    (decide_eq_true hres.symm)
  refine ⟨find?_narrow (hqp ▸ hq) (fun x hx => ?_) ?_, hslot⟩
  · rw [Bool.and_eq_true, decide_eq_true_iff] at hx
    rw [hx.1, decide_eq_true rfl]
  · rw [Bool.and_eq_true, decide_eq_true_iff]
    refine ⟨hsn, ?_⟩
    unfold awaits
    rw [hslot, hp, hwait, decide_eq_true rfl]
    rfl

/-- **One acknowledgement** is right iff the element it leads to does not wait, or
holds a PDU of its number. -/
theorem RingInv.ackRight_iff {c : Channel π} (h : c.RingInv) (sn : UInt8) :
    c.AckRight sn ↔ c.AckFits sn := by
  have hchange := ackOne_changes c.llc sn
  rw [h.sentElem_eq] at hchange
  constructor
  · intro hright
    cases hack : (c.llc.txRing (c.resolved sn)).acknowledged with
    | true => exact Or.inl hack
    | false =>
        obtain ⟨p, hp, hslot⟩ := hright.only _ ((hchange _).mpr ⟨rfl, hack⟩)
        have hpred := List.find?_some hp
        rw [Bool.and_eq_true, decide_eq_true_iff] at hpred
        have hholder := (Bool.and_eq_true_iff.mp hpred.2).1
        rw [decide_eq_true_iff, hslot] at hholder
        exact Or.inr ⟨p, hholder, hpred.1⟩
  · intro hfits
    have hreached : ∀ i, (c.llc.ackOne sn).txRing i ≠ c.llc.txRing i →
        i = c.resolved sn ∧ (c.llc.txRing (c.resolved sn)).acknowledged = false ∧
          ∃ p, c.holder (c.resolved sn) = some p ∧ p.sn = sn := by
      intro i hne
      obtain ⟨rfl, hwait⟩ := (hchange i).mp hne
      refine ⟨rfl, hwait, hfits.resolve_left ?_⟩
      rw [hwait]
      exact Bool.false_ne_true
    have honly : ∀ i, (c.llc.ackOne sn).txRing i ≠ c.llc.txRing i →
        ∃ p, c.awaiting sn = some p ∧ Llc.txRingIndex p.slot = i := by
      intro i hne
      obtain ⟨rfl, hwait, p, hp, hsn⟩ := hreached i hne
      exact ⟨p, awaiting_of_holder hp hsn hwait⟩
    refine ⟨honly, fun i p hp hsn => ?_, fun hnone => funext fun i => ?_⟩
    · by_contra hne
      obtain ⟨rfl, -, q, hq, hqsn⟩ := hreached i hne
      rw [hp] at hq
      cases hq
      exact hsn hqsn
    · by_contra hne
      obtain ⟨p, hp, -⟩ := honly i hne
      rw [hnone] at hp
      cases hp

/-! ## Runs -/

/-- The channel inside the loops over an ACK PDU, behind some of its numbers. -/
def afterAcks (c : Channel π) (numbers : List UInt8) : Channel π :=
  { c with llc := numbers.foldl Llc.ackOne c.llc }

/-- Every number that a call acknowledges is acknowledged rightly. -/
def AcksRight (c : Channel π) : Event → Prop
  | .tx _ => True
  | .rx info => ∀ pre sn post, c.llc.ackedNumbers info = pre ++ sn :: post →
      (c.afterAcks pre).AckRight sn

/-- Every number that a call acknowledges leads to an element that does not wait, or
that holds a PDU of the number. -/
def AcksFit (c : Channel π) : Event → Prop
  | .tx _ => True
  | .rx info => ∀ pre sn post, c.llc.ackedNumbers info = pre ++ sn :: post →
      (c.afterAcks pre).AckFits sn

theorem acks_marked (l : Llc) (numbers : List UInt8) :
    l.Marked (numbers.foldl Llc.ackOne l) ∧
      (numbers.foldl Llc.ackOne l).txConfig = l.txConfig := by
  induction numbers generalizing l with
  | nil => exact ⟨Llc.Marked.refl l, rfl⟩
  | cons sn numbers ih =>
      obtain ⟨hrest, hcfg⟩ := ih (l.ackOne sn)
      have hidx : ∀ i, ((l.ackOne sn).txRing i).sentIndex = (l.txRing i).sentIndex := by
        intro i
        unfold Llc.ackOne
        dsimp only
        rw [Function.update_apply]
        split_ifs with hi
        · rw [hi]
        · rfl
      have hack : ∀ i, (l.txRing i).acknowledged = true →
          ((l.ackOne sn).txRing i).acknowledged = true := by
        intro i h
        unfold Llc.ackOne
        dsimp only
        rw [Function.update_apply]
        split_ifs
        · rfl
        · exact h
      exact ⟨⟨hrest.snRing, fun i => (hrest.sentIndex i).trans (hidx i),
        fun i h => hrest.acknowledged i (hack i h)⟩, hcfg⟩

theorem RingInv.afterAcks {c : Channel π} (h : c.RingInv) (numbers : List UInt8) :
    (c.afterAcks numbers).RingInv :=
  h.marked (acks_marked c.llc numbers).1 (acks_marked c.llc numbers).2 rfl

theorem RingInv.onRx {c : Channel π} (h : c.RingInv) (info : RxInfo) : (c.onRx info).RingInv := by
  have htoAck : ∀ sn, c.llc.Marked (c.llc.toAcknowledge sn) ∧
      (c.llc.toAcknowledge sn).txConfig = c.llc.txConfig := by
    intro sn
    unfold Llc.toAcknowledge
    split
    · exact ⟨⟨rfl, fun _ => rfl, fun _ h => h⟩, rfl⟩
    · split_ifs <;> exact ⟨⟨rfl, fun _ => rfl, fun _ h => h⟩, rfl⟩
  obtain ⟨hmark, hcfg⟩ : c.llc.Marked (c.llc.onRx info).llc ∧
      (c.llc.onRx info).llc.txConfig = c.llc.txConfig := by
    rcases c.llc.onRx_cases info with ⟨-, hres⟩ | ⟨sn, -, -, hres⟩
    · rw [hres]
      exact acks_marked c.llc _
    · rw [hres]
      split_ifs
      · exact htoAck sn
      · exact ⟨Llc.Marked.refl _, rfl⟩
  exact h.marked hmark hcfg rfl

theorem RingInv.onTx {c : Channel π} (h : c.RingInv) (g : Grant) :
    (c.onTx pdcpOnTx g).RingInv := by
  have hcfg := (c.llc.onTx_setup pdcpOnTx c.pdcp g.info).txConfig
  obtain ⟨l₁, hmark, hsn, hcfg₁, hrings⟩ := c.llc.onTx_rings pdcpOnTx c.pdcp g h.mode
  have hfirst : RingInv { c with llc := l₁ } := h.marked hmark hcfg₁ rfl
  rcases hrings with ⟨htx, hring, hcount⟩ | hrec
  · refine hfirst.marked ⟨hring, fun i => ?_, fun i hack => ?_⟩ (hcfg.trans hcfg₁.symm) ?_
    · exact congrArg TxRingElem.sentIndex (congrFun htx i)
    · exact (congrArg TxRingElem.acknowledged (congrFun htx i)).trans hack
    · exact if_pos (hcount.trans hsn)
  · refine hfirst.recorded hrec (hcfg.trans hcfg₁.symm) ?_
    have hnext : (c.llc.onTx pdcpOnTx c.pdcp g.info).owner.snCounter ≠ c.llc.snCounter := by
      rw [hrec.1, hsn]
      intro heq
      have hone := congrArg UInt8.toNat heq
      rw [UInt8.toNat_add, show (1 : UInt8).toNat = 1 from rfl] at hone
      omega
    show (if _ then _ else _) = _
    rw [if_neg hnext]
    dsimp only
    rw [hsn]

/-- **No false acknowledgement**, exactly in the runs whose acknowledged numbers all
meet the condition. -/
theorem acksRight_iff (pdcpOnTx : π → LegacyPdcp.TxInfo → π × LegacyPdcp.TxInfo)
    (lcid : UInt8) (txConfig : TxConfig) (rxConfig : RxConfig) (rxEnabled : Bool) (pdcp : π)
    (hmode : txConfig.mode = .am) (events : List Event) :
    Steps (step pdcpOnTx) AcksRight
        { llc := Llc.start lcid txConfig rxConfig rxEnabled, pdcp := pdcp } events ↔
      Steps (step pdcpOnTx) AcksFit
        { llc := Llc.start lcid txConfig rxConfig rxEnabled, pdcp := pdcp } events := by
  refine steps_iff (fun c e h => ?_) (fun c e h => ?_) events
    (RingInv.start lcid txConfig rxConfig rxEnabled pdcp hmode)
  · cases e with
    | tx grant => exact h.onTx grant
    | rx info => exact h.onRx info
  · cases e with
    | tx grant => exact Iff.rfl
    | rx info =>
        refine forall_congr' fun pre => forall_congr' fun sn => forall_congr' fun post => ?_
        exact imp_congr_right fun _ => (h.afterAcks pre).ackRight_iff sn

end Channel

/-! ## A late copy -/

/-- A PDCP that sends the front of its queue when it fits. -/
def fifoOnTx (queue : List (List UInt8)) (info : LegacyPdcp.TxInfo) :
    List (List UInt8) × LegacyPdcp.TxInfo :=
  match queue with
  | [] => ([], info)
  | pdu :: others =>
    if pdu.length > info.outPdu.length then (queue, { info with outTxAvailable := true })
    else (others, { outPdu := poke info.outPdu 0 pdu
                    outAllocated := info.outAllocated + pdu.length
                    outTxAvailable := !others.isEmpty })

theorem fifoOnTx_allocates : PdcpAllocates fifoOnTx where
  grows := by
    intro queue info
    unfold fifoOnTx
    split
    · exact le_refl _
    · split_ifs
      · exact le_refl _
      · exact Nat.le_add_right _ _
  idle := by
    intro queue info hnil
    unfold fifoOnTx
    split
    · rfl
    · next pdu others =>
        split_ifs with hlong
        · rfl
        · rw [hnil, List.length_nil] at hlong
          show info.outAllocated + pdu.length = info.outAllocated
          omega

theorem fifoOnTx_ok : PdcpOnTxOk fifoOnTx where
  length := by
    intro queue info _
    unfold fifoOnTx
    split
    · rfl
    · split_ifs
      · rfl
      · exact poke_length ..
  grows := fun queue info _ => fifoOnTx_allocates.grows queue info
  fits := by
    intro queue info _
    unfold fifoOnTx
    split
    · exact Nat.le_add_right _ _
    · split_ifs with hlong
      · exact Nat.le_add_right _ _
      · dsimp only
        omega

/-- A grant of ten bytes. -/
def tenBytes (slotNumber : Nat) : Grant where
  slotNumber := slotNumber
  buffer := List.replicate 10 0
  size := 10
  fits := by decide

/-- An ACK PDU with one entry. -/
def ackOf (sn count : UInt8) : RxInfo := ⟨[0, 0x18, 5, sn, count], 5⟩

/-- A channel with a window of two and three packets to send. -/
def threePackets : Channel (List (List UInt8)) where
  llc := Llc.start 1 { mode := .am, arqWindowSize := 2, maxRetxCount := 3 } { mode := .am } true
  pdcp := [[0xA0], [0xA1], [0xA2]]

/-- The number 0 is acknowledged in time. -/
theorem ack_in_time :
    Steps (Channel.step fifoOnTx) Channel.AcksRight threePackets
      [.tx (tenBytes 0), .rx (ackOf 0 1)] := by
  refine (Channel.acksRight_iff fifoOnTx 1 _ _ true _ rfl _).mpr ⟨trivial, ?_, trivial⟩
  intro pre sn post hnumbers
  have hacked : ((threePackets.step fifoOnTx (.tx (tenBytes 0))).llc.ackedNumbers
      (ackOf 0 1)) = [0] := by decide +kernel
  obtain ⟨rfl, rfl⟩ : pre = [] ∧ sn = 0 := by
    cases pre with
    | nil => exact ⟨rfl, (List.cons.inj (hacked.symm.trans hnumbers)).1.symm⟩
    | cons x xs =>
        have hlen := congrArg List.length (hacked.symm.trans hnumbers)
        simp only [List.length_cons, List.length_append, List.length_nil] at hlen
        omega
  exact Or.inr ⟨⟨0, 0⟩, by decide +kernel, rfl⟩

/-- The numbers 0, 1 and 2 are sent; 0 and 1 are acknowledged in time.  A copy of the
ACK of 0 that arrives late acknowledges the PDU with the number 2. -/
theorem duplicate_ack :
    ¬ Steps (Channel.step fifoOnTx) Channel.AcksRight threePackets
      [.tx (tenBytes 0), .rx (ackOf 0 1), .tx (tenBytes 1), .rx (ackOf 1 1),
        .tx (tenBytes 2), .rx (ackOf 0 1)] := by
  rintro ⟨-, -, -, -, -, hlast, -⟩
  have hright := hlast [] 0 [] (by decide +kernel)
  have hsame := congrFun (hright.nothing (by decide +kernel)) 2
  exact absurd (congrArg TxRingElem.acknowledged hsame) (by decide +kernel)

end Winject.LegacyLlc
