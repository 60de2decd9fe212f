import Winject.Llc.UlSlots

/-!
# What a call of the LLC uplink does

A data PDU comes into the slot ring when it is accepted.  Its slot comes up and it goes
to the retransmission list, from where it is sent again into a new slot, until it is
acknowledged or given up.  `Transition` is the list of these ways, with everything
that a call changes on each of them and with the PDU that it emits.

## Main results

* `transition` — in every state of a run a call takes one of the ways.
* `Transition.flow` — what it does to the PDUs that are kept.
-/

namespace Winject.Llc

open Winject.Frames
open Winject.Lib.Bytes
open Winject.Lib.Runs

/-- An emitted data PDU: its number, its sequence number and its retry count. -/
structure Emission where
  pdu : Nat
  sn : UInt8
  retryCount : UInt64
  deriving DecidableEq, Repr

/-- The call starts from anew. -/
def Op.restarts : Op → Bool
  | .reset => true
  | .reconfigure _ => true
  | _ => false

/-- What is kept of a PDU in the ring. -/
def TxElem.copy (el : TxElem) : RetxElem :=
  { sn := el.sn, retryCount := el.retryCount, llcPdu := el.llcPdu, pdu := el.pdu }

namespace LlcUl

/-- The data PDU that a call emits. -/
def emission (u : LlcUl) (op : Op) : Option Emission :=
  if u.emits op then
    match op with
    | .writeLlcPdu _ => some ⟨u.accepted, u.snCounter, 0⟩
    | .writeRetransmissionPdu _ =>
      u.retxList.head?.map (fun el => ⟨el.pdu, el.sn, el.retryCount + 1⟩)
    | _ => none
  else none

/-- The slot in which the check of a PDU that is emitted now is looked for first. -/
def checkFrom (u : LlcUl) (retryCount : UInt64) : UInt64 :=
  u.currentSlotNumber + u.recheckSlotSize retryCount

/-- The ways of a call, and the state behind it. -/
inductive Transition (u : LlcUl) : Op → Option Emission → LlcUl → Prop
  /-- Nothing but the status and the next sequence number changes. -/
  | quiet {op : Op} (status : Status) (snCounter : UInt8) (goes : op.restarts = false) :
      Transition u op none { u with status := status, snCounter := snCounter }
  /-- A slot comes up that is free. -/
  | slot (status : Status)
      (free : (u.txElem (u.currentSlotNumber + 1)).acknowledged = true) :
      Transition u (.updateCurrentSlotNumber (u.currentSlotNumber + 1)) none
        { u with status := status, currentSlotNumber := u.currentSlotNumber + 1 }
  /-- A slot comes up whose PDU is outstanding: it goes to the list. -/
  | comesUp (status : Status) {el : TxElem}
      (elem : u.txElem (u.currentSlotNumber + 1) = el) (waits : el.acknowledged = false) :
      Transition u (.updateCurrentSlotNumber (u.currentSlotNumber + 1)) none
        { u.setTxElem (u.currentSlotNumber + 1) { el with acknowledged := true } with
          status := status
          currentSlotNumber := u.currentSlotNumber + 1
          usedTxSlots := u.usedTxSlots - 1
          snRing := Function.update u.snRing el.sn (some ⟨none⟩)
          retxList := u.retxList ++ [el.copy] }
  /-- A PDU of the list is acknowledged. -/
  | ackList (status : Status) {sn : UInt8} {before after : List RetxElem} {el : RetxElem}
      (entry : u.snRing sn = some ⟨none⟩) (list : u.retxList = before ++ el :: after)
      (number : el.sn = sn) :
      Transition u (.acknowledge sn) none
        { u with
          status := status
          retxList := before ++ after
          snRing := Function.update u.snRing sn none
          pendingLlcPduCount := u.pendingLlcPduCount - 1
          ackedPdus := u.ackedPdus ++ [el.pdu] }
  /-- A PDU of the ring is acknowledged. -/
  | ackRing (status : Status) {sn : UInt8} {slot : UInt64}
      (entry : u.snRing sn = some ⟨some slot⟩)
      (waits : (u.txElem slot).acknowledged = false) (number : (u.txElem slot).sn = sn) :
      Transition u (.acknowledge sn) none
        { u.setTxElem slot { u.txElem slot with acknowledged := true } with
          status := status
          pendingLlcPduCount := u.pendingLlcPduCount - 1
          usedTxSlots := u.usedTxSlots - 1
          snRing := Function.update u.snRing sn none
          ackedPdus := u.ackedPdus ++ [(u.txElem slot).pdu] }
  /-- A new data PDU is accepted. -/
  | sent (status : Status) {target : List UInt8} {slot : UInt64} {llc : LlcPdu}
      (sendable : u.Sendable)
      (found : u.findSlot (u.checkFrom 0) u.config.txSize.toNat = some slot)
      (stamped : llc = stampLlcPdu u.config u.snCounter
        (LlcPdu.new target target.length u.config.crcSize))
      (valid : (LlcPdu.new target target.length u.config.crcSize).isValid = true)
      (written : (u.writeLlcPdu target).2 = (llc.base, llc.getSIZE)) :
      Transition u (.writeLlcPdu target) (some ⟨u.accepted, u.snCounter, 0⟩)
        { u.setTxElem slot
            { acknowledged := false, sn := u.snCounter, retryCount := 0, llcPdu := llc.base,
              pdu := u.accepted } with
          status := status
          usedTxSlots := u.usedTxSlots + 1
          snRing := Function.update u.snRing u.snCounter (some ⟨some slot⟩)
          snCounter := u.snCounter + 1
          pendingLlcPduCount := u.pendingLlcPduCount + 1
          accepted := u.accepted + 1 }
  /-- The front of the list has no retransmission left and is given up. -/
  | lost (status : Status) {target : List UInt8} {el : RetxElem} {rest : List RetxElem}
      (list : u.retxList = el :: rest) (spent : u.config.maxRetxCount ≤ el.retryCount)
      (reported : status.snLost = true) :
      Transition u (.writeRetransmissionPdu target) none
        { u with
          status := status
          snRing := Function.update u.snRing el.sn none
          retxList := rest
          pendingLlcPduCount := u.pendingLlcPduCount - 1
          lostPdus := u.lostPdus ++ [el.pdu] }
  /-- The front of the list is sent again. -/
  | again (status : Status) {target : List UInt8} {el : RetxElem} {rest : List RetxElem}
      {slot : UInt64} (list : u.retxList = el :: rest)
      (left : el.retryCount < u.config.maxRetxCount)
      (allocated : u.status.dataPduAllocated = false)
      (found : u.findSlot (u.checkFrom (el.retryCount + 1)) u.config.txSize.toNat = some slot)
      (fits : el.llcPdu.length ≤ target.length)
      (written : (u.writeRetransmissionPdu target).2 =
        (poke target 0 el.llcPdu, el.llcPdu.length)) :
      Transition u (.writeRetransmissionPdu target)
        (some ⟨el.pdu, el.sn, el.retryCount + 1⟩)
        { u.setTxElem slot
            { acknowledged := false, sn := el.sn, retryCount := el.retryCount + 1,
              llcPdu := el.llcPdu, pdu := el.pdu } with
          status := status
          usedTxSlots := u.usedTxSlots + 1
          snRing := Function.update u.snRing el.sn (some ⟨some slot⟩)
          retxList := rest }
  /-- A start from anew. -/
  | restart {op : Op} (config : LlcUlConfig) (fresh : op.restarts = true) :
      Transition u op none (LlcUl.reset { u with config := config })

/-! ## One lemma for each call -/

theorem Bookkeeping.update_transition {u : LlcUl} (h : u.Bookkeeping) (slot : UInt64) :
    u.Transition (.updateCurrentSlotNumber slot) none (u.updateCurrentSlotNumber slot).1 := by
  rcases h.update_cases slot with ⟨-, heq⟩ | ⟨rfl, hack, heq⟩ | ⟨rfl, hun, heq⟩
  · rw [heq]
    exact .quiet _ u.snCounter rfl
  · rw [heq]
    exact .slot _ hack
  · rw [heq]
    exact .comesUp _ rfl hun

theorem Bookkeeping.acknowledge_transition {u : LlcUl} (h : u.Bookkeeping) (sn : UInt8) :
    u.Transition (.acknowledge sn) none (u.acknowledge sn).1 := by
  rcases h.acknowledge_cases sn with ⟨_, heq⟩ | ⟨before, el, after, hentry, hl, hsn, heq⟩ |
    ⟨slot, hentry, hun, hsn, heq⟩
  · rw [heq]
    exact .quiet _ u.snCounter rfl
  · rw [heq]
    exact .ackList _ hentry hl hsn
  · rw [heq]
    exact .ackRing _ hentry hun hsn

/-- The emission of a call that does not emit. -/
theorem emission_none {u : LlcUl} {op : Op} (h : u.emits op = false) : u.emission op = none := by
  unfold emission
  rw [h]
  rfl

/-- Only the two writes emit. -/
theorem isAm_of_emission {u : LlcUl} {op : Op} {e : Emission} (h : u.emission op = some e) :
    op.IsAm := by
  cases op with
  | reconfigure config => cases h
  | _ => trivial

/-- A check with a free slot. -/
theorem enqueueTxCheck_some {u : LlcUl} {status : Status} {llcPdu : List UInt8} {sn : UInt8}
    {retryCount : UInt64} {pdu : Nat} {slot : UInt64}
    (h : u.findSlot (u.checkFrom retryCount) u.config.txSize.toNat = some slot) :
    ({ u with status := status } : LlcUl).enqueueTxCheck llcPdu sn retryCount pdu =
      ({ u.setTxElem slot
          { acknowledged := false, sn := sn, retryCount := retryCount, llcPdu := llcPdu,
            pdu := pdu } with
        status := { status with noTxSlot := false }
        usedTxSlots := u.usedTxSlots + 1 }, some slot) := by
  rcases ({ u with status := status } : LlcUl).enqueueTxCheck_cases llcPdu sn retryCount pdu with
    ⟨hnone, -⟩ | ⟨slot', hsome, heq⟩
  · rw [findSlot_status] at hnone
    exact absurd (h.symm.trans hnone) (Option.some_ne_none _)
  · rw [findSlot_status] at hsome
    cases h.symm.trans hsome
    exact heq

theorem CurrentFree.writeLlcPdu_transition {u : LlcUl} (h : u.CurrentFree)
    (target : List UInt8) :
    u.Transition (.writeLlcPdu target) (u.emission (.writeLlcPdu target))
      (u.writeLlcPdu target).1 := by
  rcases LlcUl.writeLlcPdu_cases h.books.mode target with
    ⟨⟨status, snCounter, hkept, heq⟩, -⟩ | ⟨hsend, status, hkept, hdata, hvalid, heq⟩
  · have hemits : u.emits (.writeLlcPdu target) = false := by
      show ((u.writeLlcPdu target).1.accepted != u.accepted) = false
      rw [heq]
      exact bne_self_eq_false _
    rw [emission_none hemits, heq]
    exact .quiet _ _ rfl
  · have hA := (stampLlcPdu_getA u.config u.snCounter
      (LlcPdu.new target target.length u.config.crcSize)).trans hdata
    generalize hllc : stampLlcPdu u.config u.snCounter
      (LlcPdu.new target target.length u.config.crcSize) = llc at hA heq
    obtain ⟨slot, hslot⟩ := Option.ne_none_iff_exists'.mp
      (h.books.findSlot_ne_none (h.free hsend.allocated) (u.checkFrom 0))
    have hsent : u.writeLlcPdu target =
        ({ u.setTxElem slot
            { acknowledged := false, sn := u.snCounter, retryCount := 0, llcPdu := llc.base,
              pdu := u.accepted } with
          status := { status with noTxSlot := false, dataPduAllocated := true }
          usedTxSlots := u.usedTxSlots + 1
          snRing := Function.update u.snRing u.snCounter (some ⟨some slot⟩)
          snCounter := u.snCounter + 1
          pendingLlcPduCount := u.pendingLlcPduCount + 1
          accepted := u.accepted + 1 }, llc.base, llc.getSIZE) := by
      rw [heq]
      unfold sendLlcPdu
      rw [if_pos (by rw [h.books.mode, hA]; rfl), enqueueTxCheck_some hslot]
      rfl
    have hemits : u.emits (.writeLlcPdu target) = true := by
      show ((u.writeLlcPdu target).1.accepted != u.accepted) = true
      rw [hsent]
      exact bne_iff_ne.mpr (Nat.succ_ne_self u.accepted)
    have hemission : u.emission (.writeLlcPdu target) = some ⟨u.accepted, u.snCounter, 0⟩ :=
      if_pos hemits
    rw [hemission, hsent]
    exact .sent _ hsend hslot hllc.symm hvalid (by rw [hsent])

/-- The front of the list is sent again when it may be. -/
theorem CurrentFree.writeRetransmissionPdu_again {u : LlcUl} (h : u.CurrentFree)
    {target : List UInt8} {el : RetxElem} {rest : List RetxElem}
    (hfront : u.Resendable target el rest) (hleft : el.retryCount < u.config.maxRetxCount) :
    u.Transition (.writeRetransmissionPdu target) (some ⟨el.pdu, el.sn, el.retryCount + 1⟩)
        (u.writeRetransmissionPdu target).1 ∧
      u.emission (.writeRetransmissionPdu target) = some ⟨el.pdu, el.sn, el.retryCount + 1⟩ := by
  have hwrite := h.books.resend hfront
  obtain ⟨slot, hslot⟩ := Option.ne_none_iff_exists'.mp
    (h.books.findSlot_ne_none (h.free hfront.allocated) (u.checkFrom (el.retryCount + 1)))
  rw [if_neg (UInt64.not_le.mpr hleft), enqueueTxCheck_some hslot] at hwrite
  have hemits : u.emits (.writeRetransmissionPdu target) = true := by
    show ((u.writeRetransmissionPdu target).2.2 != 0) = true
    rw [hwrite]
    exact bne_iff_ne.mpr hfront.nonempty
  constructor
  · rw [hwrite]
    exact .again _ hfront.list hleft hfront.allocated hslot hfront.room (by rw [hwrite])
  · unfold emission
    rw [if_pos hemits, hfront.list]
    rfl

theorem CurrentFree.writeRetransmissionPdu_transition {u : LlcUl} (h : u.CurrentFree)
    (target : List UInt8) :
    u.Transition (.writeRetransmissionPdu target) (u.emission (.writeRetransmissionPdu target))
      (u.writeRetransmissionPdu target).1 := by
  have hsilent : (u.writeRetransmissionPdu target).2.2 = 0 →
      u.emission (.writeRetransmissionPdu target) = none := by
    intro hzero
    apply emission_none
    show ((u.writeRetransmissionPdu target).2.2 != 0) = false
    rw [hzero]
    rfl
  rcases h.books.writeRetransmissionPdu_cases target with ⟨small, heq⟩ | ⟨el, rest, hfront⟩
  · rw [hsilent (by rw [heq]), heq]
    exact .quiet _ u.snCounter rfl
  by_cases hspent : el.retryCount ≥ u.config.maxRetxCount
  · have hwrite := h.books.resend hfront
    rw [if_pos hspent] at hwrite
    rw [hsilent (by rw [hwrite]), hwrite]
    exact .lost _ hfront.list hspent rfl
  · obtain ⟨ht, hemission⟩ := h.writeRetransmissionPdu_again hfront (UInt64.not_le.mp hspent)
    rw [hemission]
    exact ht

/-- **Every call takes one of the ways.** -/
theorem CurrentFree.transition {u : LlcUl} (h : u.CurrentFree) {op : Op} (hop : op.IsAm) :
    u.Transition op (u.emission op) (u.step op) := by
  cases op with
  | updateCurrentSlotNumber slot => exact h.books.update_transition slot
  | writeLlcPdu target => exact h.writeLlcPdu_transition target
  | writeRetransmissionPdu target => exact h.writeRetransmissionPdu_transition target
  | acknowledge sn => exact h.books.acknowledge_transition sn
  | reset => exact .restart u.config rfl
  | reconfigure config =>
      have heq : u.step (.reconfigure config) = LlcUl.reset { u with config := config } :=
        if_pos hop.1
      rw [heq]
      exact .restart config rfl

/-! ## The copies that are kept -/

/-- The data PDUs that are kept, in the ring and in the list. -/
def copies (u : LlcUl) : List RetxElem := u.inUse.map TxElem.copy ++ u.retxList

theorem copies_pdu (u : LlcUl) : u.copies.map (·.pdu) = u.outstanding.map Prod.snd := by
  simp only [copies, outstanding, List.map_append, List.map_map]
  rfl

/-- PDUs that are kept have numbers of their own. -/
theorem Bookkeeping.copies_nodup {u : LlcUl} (h : u.Bookkeeping) :
    (u.copies.map (·.pdu)).Nodup := by
  rw [copies_pdu]
  have hall := h.ledger.items.nodup_iff.mpr List.nodup_range
  exact (List.nodup_append.mp hall).1

/-- A PDU that is kept was accepted, and is neither acknowledged nor given up. -/
theorem Bookkeeping.copies_open {u : LlcUl} (h : u.Bookkeeping) {c : RetxElem}
    (hc : c ∈ u.copies) : c.pdu < u.accepted ∧ c.pdu ∉ u.ackedPdus ++ u.lostPdus := by
  have hmem : c.pdu ∈ u.outstanding.map Prod.snd := by
    rw [← copies_pdu]
    exact List.mem_map_of_mem hc
  constructor
  · have hin := h.ledger.items.mem_iff.mp (List.mem_append_left _ hmem)
    exact List.mem_range.mp hin
  · have hall := h.ledger.items.nodup_iff.mpr List.nodup_range
    exact fun hsettled => (List.nodup_append.mp hall).2.2 _ hmem _ hsettled rfl

/-- Nothing is kept behind a start from anew. -/
theorem reset_copies (u : LlcUl) (config : LlcUlConfig) :
    (LlcUl.reset { u with config := config }).copies = [] := by
  unfold copies LlcUl.reset inUse
  rw [List.filter_replicate]
  rfl

/-- A call behind which a PDU is kept did not start from anew with a bad configuration. -/
theorem isAm_of_copies {u : LlcUl} {op : Op} (h : (u.step op).copies ≠ []) : op.IsAm := by
  cases op with
  | reconfigure config =>
      have hsame : (u.step (.reconfigure config)).copies =
          (LlcUl.reset { u with config := config }).copies := by
        show (LlcUl.reset { u with config := config }).validateConfig.copies = _
        unfold validateConfig
        split <;> rfl
      rw [hsame] at h
      exact absurd (reset_copies u config) h
  | _ => trivial

/-- What a call does to the PDUs that are kept: it settles some, accepts one, sends one
again, or starts from anew. -/
inductive Flow (u : LlcUl) (op : Op) : Option Emission → LlcUl → Prop
  | keeps {u' : LlcUl} (gone : List RetxElem) (goes : op.restarts = false)
      (copies : u.copies.Perm (gone ++ u'.copies)) (accepted : u'.accepted = u.accepted)
      (config : u'.config = u.config) : Flow u op none u'
  | enters {u' : LlcUl} {new : RetxElem} (goes : op.restarts = false)
      (number : new.pdu = u.accepted) (fresh : new.retryCount = 0)
      (copies : u'.copies.Perm (new :: u.copies)) (accepted : u'.accepted = u.accepted + 1)
      (config : u'.config = u.config) : Flow u op (some ⟨new.pdu, new.sn, 0⟩) u'
  | repeats {u' : LlcUl} {el : RetxElem} {rest : List RetxElem} (goes : op.restarts = false)
      (left : el.retryCount < u.config.maxRetxCount) (before : u.copies.Perm (el :: rest))
      (copies : u'.copies.Perm ({ el with retryCount := el.retryCount + 1 } :: rest))
      (accepted : u'.accepted = u.accepted) (config : u'.config = u.config) :
      Flow u op (some ⟨el.pdu, el.sn, el.retryCount + 1⟩) u'
  | restarts {u' : LlcUl} (fresh : op.restarts = true) (copies : u'.copies = []) :
      Flow u op none u'

/-- The copies, when the element of a slot is freed. -/
theorem Bookkeeping.copies_free {u : LlcUl} (h : u.Bookkeeping) {slot : UInt64}
    (hun : (u.txElem slot).acknowledged = false) :
    u.copies.Perm ((u.txElem slot).copy ::
      (u.setTxElem slot { u.txElem slot with acknowledged := true }).copies) :=
  ((h.inUse_free hun).map TxElem.copy).append_right u.retxList

/-- The copies, when a free element is taken. -/
theorem Bookkeeping.copies_take {u : LlcUl} (h : u.Bookkeeping) {slot : UInt64} {el : TxElem}
    (hfree : (u.txElem slot).acknowledged = true) (hel : el.acknowledged = false) :
    (u.setTxElem slot el).copies.Perm (el.copy :: u.copies) :=
  ((h.inUse_take hfree hel).map TxElem.copy).append_right u.retxList

theorem Transition.flow {u u' : LlcUl} {op : Op} {e : Option Emission} (h : u.Bookkeeping)
    (ht : u.Transition op e u') : u.Flow op e u' := by
  cases ht with
  | quiet status snCounter goes => exact .keeps [] goes (.refl _) rfl rfl
  | slot status free => exact .keeps [] rfl (.refl _) rfl rfl
  | comesUp status elem waits =>
      subst elem
      refine .keeps [] rfl ((h.copies_free waits).trans ?_) rfl rfl
      exact (List.perm_append_singleton _ _).symm.trans (.of_eq (List.append_assoc ..))
  | @ackList status sn before after el entry list number =>
      refine .keeps [el] rfl ?_ rfl rfl
      unfold copies
      rw [list]
      exact (List.perm_middle.append_left _).trans List.perm_middle
  | @ackRing status sn slot entry waits number =>
      exact .keeps [(u.txElem slot).copy] rfl (h.copies_free waits) rfl rfl
  | @sent status target slot llc sendable found stamped valid written =>
      refine @Flow.enters u _ _ (TxElem.copy ⟨false, u.snCounter, 0, llc.base, u.accepted⟩)
        rfl rfl rfl ?_ rfl rfl
      exact h.copies_take (findSlot_free found) rfl
  | @lost status target el rest list spent reported =>
      refine .keeps [el] rfl ?_ rfl rfl
      unfold copies
      rw [list]
      exact List.perm_middle
  | @again status target el rest slot list left allocated found fits written =>
      have hbefore : u.copies.Perm (el :: (u.inUse.map TxElem.copy ++ rest)) := by
        unfold copies
        rw [list]
        exact List.perm_middle
      refine .repeats rfl left hbefore ?_ rfl rfl
      exact ((h.inUse_take (findSlot_free found) rfl).map TxElem.copy).append_right rest
  | restart config fresh =>
      exact .restarts fresh (reset_copies u config)

end LlcUl

end Winject.Llc
