import Winject.Llc.UlBookkeeping

/-!
# An acknowledgement retires one PDU

`acknowledge` takes one of three ways: the number is free, it belongs to an entry of the
retransmission list, or it points to a slot of the ring.  Under the bookkeeping a number
is taken exactly when one outstanding PDU carries it, and the entry that is found is
that PDU.

## Main results

* `Bookkeeping.retires` — a successful acknowledgement takes one PDU out of its place
  and leaves the others alone.
* `acknowledge_precise` — it succeeds iff exactly one outstanding PDU has the number, in
  every run, and changes nothing but status bits otherwise.
-/

namespace Winject.Llc

namespace LlcUl

/-- A slot of the ring is freed; the list is as it was. -/
structure FreesSlot (u u' : LlcUl) (sn : UInt8) (slot : UInt64) : Prop where
  waited : (u.txElem slot).acknowledged = false ∧ (u.txElem slot).sn = sn
  freed : u'.txRing[u.txRingIndex slot]? = some { u.txElem slot with acknowledged := true }
  others : ∀ i, i ≠ u.txRingIndex slot → u'.txRing[i]? = u.txRing[i]?
  list : u'.retxList = u.retxList
  used : u'.usedTxSlots = u.usedTxSlots - 1

/-- An entry of the list is erased, the others keep their order; the ring is as it
was. -/
structure ErasesEntry (u u' : LlcUl) (sn : UInt8) : Prop where
  entry : ∃ before el after, u.retxList = before ++ el :: after ∧ el.sn = sn ∧
    u'.retxList = before ++ after
  ring : u'.txRing = u.txRing
  used : u'.usedTxSlots = u.usedTxSlots

/-- The PDU with number `sn`, and no other, is retired. -/
structure Retires (u u' : LlcUl) (sn : UInt8) : Prop where
  place : (∃ slot, FreesSlot u u' sn slot) ∨ ErasesEntry u u' sn
  outstanding : ∃ pdu, u.outstanding.Perm ((sn, pdu) :: u'.outstanding)
  cleared : u'.snRing sn = none
  numbers : ∀ x, x ≠ sn → u'.snRing x = u.snRing x
  pending : u'.pendingLlcPduCount = u.pendingLlcPduCount - 1
  config : u'.config = u.config
  slotNumber : u'.currentSlotNumber = u.currentSlotNumber
  snCounter : u'.snCounter = u.snCounter
  status : ∃ found, u'.status = u.status.acknowledged found

/-- An acknowledgement that is accepted retires its PDU. -/
theorem Bookkeeping.retires {u : LlcUl} (h : u.Bookkeeping) {sn : UInt8}
    (htrue : (u.acknowledge sn).2 = true) : Retires u (u.acknowledge sn).1 sn := by
  rcases h.acknowledge_cases sn with ⟨_, heq⟩ | ⟨before, el, after, _, hl, hel, heq⟩ |
    ⟨slot, _, hun, hsn, heq⟩
  · rw [heq] at htrue
    cases htrue
  · rw [heq]
    refine ⟨Or.inr ⟨⟨before, el, after, hl, hel, rfl⟩, rfl, rfl⟩, ⟨el.pdu, ?_⟩,
      Function.update_self .., fun x hx => ?_, rfl, rfl, rfl, rfl, ⟨true, rfl⟩⟩
    · show (u.inUse.map _ ++ u.retxList.map _).Perm (_ :: (u.inUse.map _ ++ List.map _ _))
      rw [hl, List.map_append, List.map_cons, List.map_append, hel, ← List.append_assoc,
        ← List.append_assoc]
      exact List.perm_middle
    · exact Function.update_of_ne hx ..
  · rw [heq]
    refine ⟨Or.inl ⟨slot, ⟨hun, hsn⟩, ?_, fun i hi => ?_, rfl, rfl⟩,
      ⟨(u.txElem slot).pdu, ?_⟩, Function.update_self .., fun x hx => ?_, rfl, rfl, rfl, rfl,
      ⟨true, rfl⟩⟩
    · exact List.getElem?_set_self (h.index_lt slot)
    · exact List.getElem?_set_ne (Ne.symm hi)
    · have hmap := ((h.inUse_free hun).map (fun el => (el.sn, el.pdu))).append_right
        (u.retxList.map (fun el => (el.sn, el.pdu)))
      rw [List.map_cons, hsn] at hmap
      exact hmap
    · exact Function.update_of_ne hx ..

theorem Bookkeeping.acknowledge_true_iff {u : LlcUl} (h : u.Bookkeeping) (sn : UInt8) :
    (u.acknowledge sn).2 = true ↔ (u.outstanding.map Prod.fst).count sn = 1 := by
  rw [← h.ledger.count_key sn]
  rcases h.acknowledge_cases sn with ⟨hsn, heq⟩ | ⟨_, _, _, hsn, _, _, heq⟩ |
    ⟨_, hsn, _, _, heq⟩
  · simp [heq, hsn]
  · simp [heq, hsn]
  · simp [heq, hsn]

theorem Bookkeeping.acknowledge_false {u : LlcUl} (h : u.Bookkeeping) {sn : UInt8}
    (hfalse : (u.acknowledge sn).2 = false) :
    (u.acknowledge sn).1 = { u with status := u.status.acknowledged false } := by
  rcases h.acknowledge_cases sn with ⟨_, heq⟩ | ⟨_, _, _, _, _, _, heq⟩ | ⟨_, _, _, _, heq⟩
  · rw [heq]
  · rw [heq] at hfalse
    cases hfalse
  · rw [heq] at hfalse
    cases hfalse

/-- **An acknowledgement is precise in every run**, for every accepted configuration in
acknowledged mode and every sequence number: it returns `true` iff exactly one
outstanding PDU carries the number, then retires that PDU alone, and changes nothing but
status bits otherwise. -/
theorem acknowledge_precise (config : LlcUlConfig) (hvalid : config.isValid = true)
    (hmode : config.mode = .am) (ops : List Op) (hops : ∀ op ∈ ops, op.IsAm) (sn : UInt8) :
    let u := (new config).run ops
    ((u.acknowledge sn).2 = true ↔ (u.outstanding.map Prod.fst).count sn = 1) ∧
      ((u.acknowledge sn).2 = true → Retires u (u.acknowledge sn).1 sn) ∧
      ((u.acknowledge sn).2 = false →
        (u.acknowledge sn).1 = { u with status := u.status.acknowledged false }) := by
  intro u
  have h : u.Bookkeeping := (Bookkeeping.new hvalid hmode).run hops
  exact ⟨h.acknowledge_true_iff sn, h.retires, h.acknowledge_false⟩

/-- Of two PDUs the second is acknowledged, and the first stays. -/
theorem acknowledge_second_of_two :
    let u := (new { mode := .am, txSize := 4, minRecheckSlotNumber := 1,
                    maxRecheckSlotNumber := 2 }).run
      [.updateCurrentSlotNumber 1, .writeLlcPdu [0, 0, 3], .updateCurrentSlotNumber 2,
        .writeLlcPdu [0, 0, 3]]
    Retires u (u.acknowledge 1).1 1 ∧ (u.acknowledge 1).1.outstanding = [(0, 0)] :=
  ⟨(acknowledge_precise _ (by decide) (by decide) _ (by decide) 1).2.1 (by decide),
    by decide⟩

end LlcUl

end Winject.Llc
