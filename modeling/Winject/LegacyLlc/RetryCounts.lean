import Winject.LegacyLlc.AckRing
import Winject.LegacyLlc.Watch

/-!
# How often a PDU is sent

A PDU that is not acknowledged is put on the retransmission list again and again, and is
given up when its count exceeds `max_retx_count`.  The count of a PDU is in its element of
the ring and goes with it to the list and back.  Three kinds of calls lose it: one that
gives up a PDU and sends a new one, which inherits the count, one that sends a PDU into an
element that still waits, and one that takes an entry without a payload off the list.

## Main results

* `Counted.onTx` — a call without these keeps the counts.
* `full_counts` — in a run of such calls every PDU has its retransmissions.
-/

namespace Winject.LegacyLlc

open Winject.Frames
open Winject.Lib.Bytes
open Winject.Lib.Runs

namespace Watch

/-- How often a PDU was sent. -/
def sends (w : Watch) (pdu : Nat) : Nat := w.log.countP (fun t => t.pdu = pdu)

/-- The PDU waits in the ring or on the list. -/
def InHand (w : Watch) (t : Transmission) : Prop :=
  t ∈ w.queued ∨ ∃ i, w.waiting i = some t

/-- A link failure was reported for every PDU that was given up, or for none. -/
def Raised (w : Watch) : Prop :=
  w.failures = if w.llc.txConfig.allowRlf then w.ended.length else 0

/-- Every PDU that was given up was sent once and as often again as it should.  Every
other one that was not acknowledged is in hand, and was not sent more often. -/
structure FullCounts (w : Watch) : Prop where
  raised : w.Raised
  ended : ∀ t ∈ w.ended, w.sends t.pdu = 1 + w.llc.txConfig.maxRetxCount
  others : ∀ pdu < w.accepted, (∀ t ∈ w.ended, t.pdu ≠ pdu) → (∀ t ∈ w.acked, t.pdu ≠ pdu) →
    (∃ t, w.InHand t ∧ t.pdu = pdu) ∧ w.sends pdu ≤ 1 + w.llc.txConfig.maxRetxCount

/-! ## The condition on a call -/

section Condition

variable {π : Type} (pdcpOnTx : π → LegacyPdcp.TxInfo → π × LegacyPdcp.TxInfo)

/-- No PDU waits in the element of the slot behind its check. -/
def SlotFree (w : Watch) (slotNumber : Nat) : Prop :=
  ((w.llc.checked slotNumber).txRing (Llc.txRingIndex slotNumber)).acknowledged = true

instance (w : Watch) (slotNumber : Nat) : Decidable (w.SlotFree slotNumber) :=
  inferInstanceAs (Decidable (_ = true))

/-- The call takes the front of the list. -/
structure Takes (w : Watch) (pdcp : π) (g : Grant) (retx : RetxElem) : Prop where
  data : w.llc.AllocatesData pdcp g.info
  front : (w.llc.checked g.slotNumber).toRetxList.head? = some retx
  fits : retx.pdcpPdu.length ≤ (w.llc.dataStage pdcp g.info).outSize

/-- A data PDU goes into a free element: a new payload of the PDCP, a front of the list
that has a payload, or, without retransmissions at all, a new payload behind a front that
is given up. -/
structure CallFits (w : Watch) (pdcp : π) (g : Grant) : Prop where
  fresh : w.llc.AllocatesData pdcp g.info → (w.llc.checked g.slotNumber).toRetxList = [] →
    w.llc.PdcpLoads pdcpOnTx pdcp g.info → w.SlotFree g.slotNumber
  again : ∀ retx, w.Takes pdcp g retx → retx.retryCount < w.llc.txConfig.maxRetxCount →
    retx.pdcpPdu ≠ [] ∧ w.SlotFree g.slotNumber
  last : ∀ retx, w.Takes pdcp g retx → w.llc.txConfig.maxRetxCount ≤ retx.retryCount →
    w.llc.txConfig.allowRlf = false → w.llc.PdcpLoads pdcpOnTx pdcp g.info →
    w.llc.txConfig.maxRetxCount = 0 ∧ w.SlotFree g.slotNumber

/-- A call that meets the condition. -/
def CallsFit (w : Watch) : Call π → Prop
  | .onTx pdcp grant => w.CallFits pdcpOnTx pdcp grant
  | _ => True

end Condition

/-! ## The invariant -/

/-- The count of a PDU is the number of its retransmissions. -/
def CountOf (w : Watch) (t : Transmission) : Prop :=
  (w.llc.txConfig.maxRetxCount = 0 ∧ w.sends t.pdu = 1) ∨
    (t.retryCount + 1 = w.sends t.pdu ∧ t.retryCount ≤ w.llc.txConfig.maxRetxCount)

/-- What is in hand or given up was the last transmission of its PDU, in one place only. -/
structure Counted (w : Watch) : Prop where
  numbered : ∀ t ∈ w.log, t.pdu < w.accepted
  latest : ∀ t, w.InHand t ∨ t ∈ w.ended → w.log.find? (fun u => u.pdu = t.pdu) = some t
  once : w.queued.Nodup
  placed : ∀ i t, w.waiting i = some t → t ∉ w.queued
  apart : ∀ t, w.InHand t → t ∉ w.ended
  counts : ∀ t, w.InHand t → w.CountOf t
  full : ∀ t ∈ w.ended, w.sends t.pdu = 1 + w.llc.txConfig.maxRetxCount
  kept : ∀ pdu < w.accepted,
    (∃ t ∈ w.acked, t.pdu = pdu) ∨ ∃ t, (w.InHand t ∨ t ∈ w.ended) ∧ t.pdu = pdu

/-- Two transmissions of one PDU that are in hand or given up are one. -/
theorem Counted.same {w : Watch} (h : w.Counted) {t u : Transmission}
    (ht : w.InHand t ∨ t ∈ w.ended) (hu : w.InHand u ∨ u ∈ w.ended) (hpdu : t.pdu = u.pdu) :
    t = u := by
  have hlast := h.latest t ht
  rw [hpdu, h.latest u hu] at hlast
  exact (Option.some.inj hlast).symm

theorem Counted.mem_log {w : Watch} (h : w.Counted) {t : Transmission}
    (ht : w.InHand t ∨ t ∈ w.ended) : t ∈ w.log := List.mem_of_find?_eq_some (h.latest t ht)

theorem Counted.fullCounts {w : Watch} (h : w.Counted) (hraised : w.Raised) :
    w.FullCounts where
  raised := hraised
  ended := h.full
  others := by
    intro pdu hpdu hended hacked
    rcases h.kept pdu hpdu with ⟨t, ht, hk⟩ | ⟨t, hin | ht, hk⟩
    · exact absurd hk (hacked t ht)
    · refine ⟨⟨t, hin, hk⟩, ?_⟩
      rcases h.counts t hin with ⟨-, hone⟩ | ⟨hsends, hmax⟩
      · rw [← hk, hone]
        omega
      · rw [← hk]
        omega
    · exact absurd hk (hended t ht)

/-! ## The steps -/

/-- A step that sends nothing and loses nothing from sight. -/
theorem Counted.moved {w w' : Watch} (h : w.Counted) (hlog : w'.log = w.log)
    (haccepted : w'.accepted = w.accepted) (hended : w'.ended = w.ended)
    (hmax : w'.llc.txConfig = w.llc.txConfig) (honce : w'.queued.Nodup)
    (hplaced : ∀ i t, w'.waiting i = some t → t ∉ w'.queued)
    (hin : ∀ t, w'.InHand t → w.InHand t)
    (hkept : ∀ t, (w.InHand t → w'.InHand t ∨ t ∈ w'.acked) ∧ (t ∈ w.acked → t ∈ w'.acked)) :
    w'.Counted := by
  have hsends : ∀ pdu, w'.sends pdu = w.sends pdu := by
    intro pdu
    unfold sends
    rw [hlog]
  refine ⟨?_, ?_, honce, hplaced, ?_, ?_, ?_, ?_⟩
  · rw [hlog, haccepted]
    exact h.numbered
  · rw [hlog, hended]
    intro t ht
    exact h.latest t (ht.imp_left (hin t))
  · rw [hended]
    exact fun t ht => h.apart t (hin t ht)
  · intro t ht
    unfold CountOf
    rw [hsends, hmax]
    exact h.counts t (hin t ht)
  · rw [hended, hmax]
    intro t ht
    rw [hsends]
    exact h.full t ht
  · rw [haccepted, hended]
    intro pdu hpdu
    rcases h.kept pdu hpdu with ⟨t, ht, hk⟩ | ⟨t, ht | ht, hk⟩
    · exact Or.inl ⟨t, (hkept t).2 ht, hk⟩
    · rcases (hkept t).1 ht with hstill | hack
      · exact Or.inr ⟨t, Or.inl hstill, hk⟩
      · exact Or.inl ⟨t, hack, hk⟩
    · exact Or.inr ⟨t, Or.inr ht, hk⟩

/-- What waits, the list and the bookkeeping are the same. -/
theorem Counted.congr {w w' : Watch} (h : w.Counted)
    (hwaiting : ∀ i, w'.waiting i = w.waiting i) (hconfig : w'.llc.txConfig = w.llc.txConfig)
    (hlog : w'.log = w.log) (haccepted : w'.accepted = w.accepted)
    (hqueued : w'.queued = w.queued) (hended : w'.ended = w.ended)
    (hacked : w'.acked = w.acked) : w'.Counted := by
  refine h.moved hlog haccepted hended hconfig ?_ ?_ ?_ (fun t => ⟨?_, ?_⟩)
  · rw [hqueued]
    exact h.once
  · intro i t ht
    rw [hwaiting] at ht
    rw [hqueued]
    exact h.placed i t ht
  · unfold InHand
    rw [hqueued]
    intro t ht
    simpa only [hwaiting] using ht
  · unfold InHand
    rw [hqueued]
    intro ht
    left
    simpa only [hwaiting] using ht
  · rw [hacked]
    exact id

/-- A received PDU acknowledges PDUs that wait. -/
theorem Counted.acked {w w' : Watch} (h : w.Counted) (hack : w.llc.Acked w'.llc)
    (hlog : w'.log = w.log) (haccepted : w'.accepted = w.accepted)
    (hqueued : w'.queued = w.queued) (hended : w'.ended = w.ended)
    (hacked : w'.acked = w.ackedBy w'.llc ++ w.acked) : w'.Counted := by
  have hwait : ∀ {i t}, w'.waiting i = some t → w.waiting i = some t :=
    fun {i} _ hwait => waiting_of_marked (hack.ring i) hlog hwait
  refine h.moved hlog haccepted hended hack.config ?_ ?_ ?_ (fun t => ⟨?_, ?_⟩)
  · rw [hqueued]
    exact h.once
  · rw [hqueued]
    exact fun i t ht => h.placed i t (hwait ht)
  · rintro t (ht | ⟨i, ht⟩)
    · rw [hqueued] at ht
      exact Or.inl ht
    · exact Or.inr ⟨i, hwait ht⟩
  · rintro (ht | ⟨i, ht⟩)
    · rw [← hqueued] at ht
      exact Or.inl (Or.inl ht)
    · cases hmark : (w'.llc.txRing i).acknowledged with
      | false =>
          left; right
          refine ⟨i, (waiting_eq_holder hmark).trans ?_⟩
          unfold holder
          rw [hlog]
          exact (waiting_some ht).2
      | true =>
          right
          rw [hacked]
          apply List.mem_append_left
          refine List.mem_filterMap.mpr ⟨i, List.mem_finRange i, ?_⟩
          rw [hmark, if_pos rfl]
          exact ht
  · intro ht
    rw [hacked]
    exact List.mem_append_right _ ht

/-- The check of a slot, as far as the PDUs in hand are concerned. -/
theorem Faithful.check_cases {w : Watch} (h : w.Faithful) (n : Nat) :
    ((w.check n).queued = w.queued ∧ ∀ i, (w.check n).waiting i = w.waiting i) ∨
    ∃ i t, w.waiting i = some t ∧ (w.check n).queued = w.queued ++ [t] ∧
      ∀ j, (w.check n).waiting j = if j = i then none else w.waiting j := by
  rcases Llc.checked_cases h.mode n with ⟨hwhy, hres⟩ | ⟨hon, hun, hres⟩
  · left
    unfold Watch.check
    rw [hres, moved_quiet hwhy, List.append_nil]
    exact ⟨rfl, fun i => rfl⟩
  · right
    obtain ⟨t, hwait⟩ := h.waiting_exists hun
    refine ⟨w.llc.sentIdx n, t, hwait, ?_, fun j => ?_⟩
    · show w.queued ++ w.moved n = _
      rw [moved_waiting hon hwait]
    · have hring : (w.check n).llc.txRing = Function.update w.llc.txRing (w.llc.sentIdx n)
          { w.llc.txRing (w.llc.sentIdx n) with acknowledged := true } :=
        congrArg Llc.txRing hres
      have hholder : (w.check n).holder j = w.holder j := rfl
      unfold waiting
      rw [hring, hholder, Function.update_apply]
      by_cases hj : j = w.llc.sentIdx n
      · rw [if_pos hj, if_pos hj]
        exact if_pos rfl
      · rw [if_neg hj, if_neg hj]

theorem Counted.check {w : Watch} (h : w.Counted) (hw : w.Faithful) (n : Nat) :
    (w.check n).Counted := by
  rcases hw.check_cases n with ⟨hqueued, hwaiting⟩ | ⟨i, t, hwait, hqueued, hwaiting⟩
  · exact h.congr hwaiting (w.check_setup n).txConfig rfl rfl hqueued rfl rfl
  · have hold : ∀ {j u}, (w.check n).waiting j = some u → j ≠ i ∧ w.waiting j = some u := by
      intro j u hu
      rw [hwaiting] at hu
      split_ifs at hu with hj
      · exact ⟨hj, hu⟩
    refine h.moved rfl rfl rfl (w.check_setup n).txConfig ?_ ?_ ?_ (fun u => ⟨?_, id⟩)
    · rw [hqueued, List.nodup_append]
      refine ⟨h.once, List.nodup_singleton t, ?_⟩
      rintro u hu v hv rfl
      rw [List.mem_singleton] at hv
      rw [hv] at hu
      exact h.placed i t hwait hu
    · intro j u hu hmem
      obtain ⟨hj, hu⟩ := hold hu
      rw [hqueued, List.mem_append, List.mem_singleton] at hmem
      rcases hmem with hmem | rfl
      · exact h.placed j u hu hmem
      · -- One transmission is in the element of its slot only.
        have hslot := (holder_slot (waiting_some hu).2).symm.trans
          (holder_slot (waiting_some hwait).2)
        exact hj hslot
    · rintro u (hmem | ⟨j, hu⟩)
      · rw [hqueued, List.mem_append, List.mem_singleton] at hmem
        rcases hmem with hmem | rfl
        · exact Or.inl hmem
        · exact Or.inr ⟨i, hwait⟩
      · exact Or.inr ⟨j, (hold hu).2⟩
    · rintro (hmem | ⟨j, hu⟩)
      · left; left
        rw [hqueued]
        exact List.mem_append_left _ hmem
      · left
        by_cases hj : j = i
        · rw [hj, hwait] at hu
          left
          rw [hqueued, ← Option.some.inj hu]
          exact List.mem_append_right _ (List.mem_singleton_self t)
        · right
          refine ⟨j, ?_⟩
          rw [hwaiting, if_neg hj]
          exact hu

/-- The front of the list is given up. -/
theorem Counted.giveUp {w : Watch} (h : w.Counted) {front : Transmission}
    {rest : List Transmission} (hqueued : w.queued = front :: rest)
    (hfull : w.sends front.pdu = 1 + w.llc.txConfig.maxRetxCount) : w.giveUp.Counted := by
  have hgive : w.giveUp = { w with queued := rest, ended := front :: w.ended } := by
    unfold Watch.giveUp
    rw [hqueued]
    rfl
  have honce : front ∉ rest ∧ rest.Nodup := by
    have hnodup := h.once
    rw [hqueued] at hnodup
    exact List.nodup_cons.mp hnodup
  have hfront : w.InHand front := by
    left
    rw [hqueued]
    exact List.mem_cons_self ..
  have hin : ∀ t, w.giveUp.InHand t → w.InHand t ∧ t ≠ front := by
    rw [hgive]
    rintro t (ht | ⟨i, ht⟩)
    · refine ⟨Or.inl ?_, ?_⟩
      · rw [hqueued]
        exact List.mem_cons_of_mem _ ht
      · rintro rfl
        exact honce.1 ht
    · refine ⟨Or.inr ⟨i, ht⟩, ?_⟩
      rintro rfl
      apply h.placed i t ht
      rw [hqueued]
      exact List.mem_cons_self ..
  have hended : ∀ t, t ∈ w.giveUp.ended → t = front ∨ t ∈ w.ended := by
    rw [hgive]
    exact fun t ht => List.mem_cons.mp ht
  refine ⟨?_, ?_, ?_, ?_, ?_, ?_, ?_, ?_⟩
  · rw [hgive]
    exact h.numbered
  · intro t ht
    have hlast : w.log.find? (fun u => u.pdu = t.pdu) = some t := by
      rcases ht with ht | ht
      · exact h.latest t (Or.inl (hin t ht).1)
      · rcases hended t ht with rfl | ht
        · exact h.latest t (Or.inl hfront)
        · exact h.latest t (Or.inr ht)
    rw [hgive]
    exact hlast
  · rw [hgive]
    exact honce.2
  · rw [hgive]
    intro i t ht hmem
    apply h.placed i t ht
    rw [hqueued]
    exact List.mem_cons_of_mem _ hmem
  · intro t ht hmem
    obtain ⟨hold, hne⟩ := hin t ht
    rcases hended t hmem with heq | hmem
    · exact hne heq
    · exact h.apart t hold hmem
  · intro t ht
    have hcount := h.counts t (hin t ht).1
    rw [hgive]
    exact hcount
  · intro t ht
    have hsends : w.sends t.pdu = 1 + w.llc.txConfig.maxRetxCount := by
      rcases hended t ht with rfl | ht
      · exact hfull
      · exact h.full t ht
    rw [hgive]
    exact hsends
  · rw [hgive]
    intro pdu hpdu
    rcases h.kept pdu hpdu with hack | ⟨t, (ht | ht) | ht, hk⟩
    · exact Or.inl hack
    · right
      rw [hqueued] at ht
      rcases List.mem_cons.mp ht with rfl | ht
      · exact ⟨t, Or.inr (List.mem_cons_self ..), hk⟩
      · exact ⟨t, Or.inl (Or.inl ht), hk⟩
    · exact Or.inr ⟨t, Or.inl (Or.inr ht), hk⟩
    · exact Or.inr ⟨t, Or.inr (List.mem_cons_of_mem _ ht), hk⟩

theorem sends_self {w w' : Watch} {t : Transmission} (hlog : w'.log = t :: w.log) :
    w'.sends t.pdu = w.sends t.pdu + 1 := by
  unfold sends
  rw [hlog]
  exact List.countP_cons_of_pos (decide_eq_true rfl)

theorem sends_other {w w' : Watch} {t : Transmission} (hlog : w'.log = t :: w.log) {pdu : Nat}
    (hne : pdu ≠ t.pdu) : w'.sends pdu = w.sends pdu := by
  unfold sends
  rw [hlog, List.countP_cons_of_neg]
  intro heq
  exact hne (of_decide_eq_true heq).symm

/-- What waits behind a data PDU that was sent into a free element. -/
theorem waiting_free {π : Type} {w w' : Watch} {r : TxState π} {id count pdu : Nat}
    (hs : w.llc.SentAs w.now id count r)
    (hfree : (w.llc.txRing (Llc.txRingIndex w.now)).acknowledged = true)
    (hllc : w'.llc = r.owner) (hlog : w'.log = w.sentBy pdu r :: w.log) {i : Fin 1024}
    {t : Transmission} : w'.waiting i = some t ↔
      (i = Llc.txRingIndex w.now ∧ t = w.sentBy pdu r) ∨ w.waiting i = some t := by
  rw [waiting_sent hs hllc hlog]
  split_ifs with hi
  · rw [hi, waiting_of_acknowledged hfree]
    constructor
    · exact fun heq => Or.inl ⟨rfl, (Option.some.inj heq).symm⟩
    · rintro (⟨-, rfl⟩ | hnone)
      · rfl
      · cases hnone
  · exact ⟨Or.inr, fun hway => hway.resolve_left fun hnew => hi hnew.1⟩

/-- A data PDU is sent into a free element: the PDU is nowhere else. -/
theorem Counted.sent {π : Type} {w w' : Watch} {r : TxState π} {id count : Nat} (pdu : Nat)
    (h : w.Counted) (hs : w.llc.SentAs w.now id count r)
    (hfree : (w.llc.txRing (Llc.txRingIndex w.now)).acknowledged = true)
    (hllc : w'.llc = r.owner) (hconfig : r.owner.txConfig = w.llc.txConfig)
    (hlog : w'.log = w.sentBy pdu r :: w.log) (hended : w'.ended = w.ended)
    (hacked : w'.acked = w.acked) (hsub : w'.queued.Sublist w.queued)
    (hleft : ∀ t ∈ w.queued, t ∈ w'.queued ∨ t.pdu = pdu)
    (hnew : ∀ t, (t ∈ w'.queued ∨ ∃ i, w.waiting i = some t) ∨ t ∈ w.ended → t.pdu ≠ pdu)
    (haccepted : w.accepted ≤ w'.accepted ∧ pdu < w'.accepted ∧
      ∀ k < w'.accepted, k < w.accepted ∨ k = pdu)
    (hcount : (w.llc.txConfig.maxRetxCount = 0 ∧ w.sends pdu = 0) ∨
      (count = w.sends pdu ∧ count ≤ w.llc.txConfig.maxRetxCount)) : w'.Counted := by
  have hmax : w'.llc.txConfig = w.llc.txConfig := by
    rw [hllc, hconfig]
  have hwaiting : ∀ {i t}, w'.waiting i = some t ↔
      (i = Llc.txRingIndex w.now ∧ t = w.sentBy pdu r) ∨ w.waiting i = some t :=
    waiting_free hs hfree hllc hlog
  have hhere : w'.waiting (Llc.txRingIndex w.now) = some (w.sentBy pdu r) :=
    hwaiting.mpr (Or.inl ⟨rfl, rfl⟩)
  have hstill : ∀ {i t}, w.waiting i = some t → w'.waiting i = some t :=
    fun ht => hwaiting.mpr (Or.inr ht)
  have hold : ∀ {i t}, w'.waiting i = some t → t = w.sentBy pdu r ∨ w.waiting i = some t :=
    fun ht => (hwaiting.mp ht).imp_left And.right
  have hin : ∀ {t}, w'.InHand t →
      t = w.sentBy pdu r ∨ (t ∈ w'.queued ∨ ∃ i, w.waiting i = some t) := by
    rintro t (ht | ⟨i, ht⟩)
    · exact Or.inr (Or.inl ht)
    · rcases hold ht with heq | ht
      · exact Or.inl heq
      · exact Or.inr (Or.inr ⟨i, ht⟩)
  have hfore : ∀ {t}, (t ∈ w'.queued ∨ ∃ i, w.waiting i = some t) → w.InHand t :=
    fun ht => ht.imp_left fun hmem => hsub.subset hmem
  have hone : w'.sends pdu = w.sends pdu + 1 := sends_self hlog
  have hsends : ∀ {k}, k ≠ pdu → w'.sends k = w.sends k := fun hk => sends_other hlog hk
  refine ⟨?_, ?_, hsub.nodup h.once, ?_, ?_, ?_, ?_, ?_⟩
  · rw [hlog]
    intro t ht
    rcases List.mem_cons.mp ht with rfl | ht
    · exact haccepted.2.1
    · exact (h.numbered t ht).trans_le haccepted.1
  · -- An older PDU is found behind the new one.
    have hlast : ∀ t, (t ∈ w'.queued ∨ ∃ i, w.waiting i = some t) ∨ t ∈ w.ended →
        w'.log.find? (fun u => u.pdu = t.pdu) = some t := by
      intro t ht
      rw [hlog, List.find?_cons_of_neg]
      · exact h.latest t (ht.imp_left hfore)
      · intro heq
        exact hnew t ht (of_decide_eq_true heq).symm
    intro t ht
    rw [hended] at ht
    rcases ht with ht | ht
    · rcases hin ht with rfl | ht
      · rw [hlog]
        exact List.find?_cons_of_pos (decide_eq_true rfl)
      · exact hlast t (Or.inl ht)
    · exact hlast t (Or.inr ht)
  · intro i t ht hmem
    rcases hold ht with rfl | ht
    · exact hnew _ (Or.inl (Or.inl hmem)) rfl
    · exact h.placed i t ht (hsub.subset hmem)
  · rw [hended]
    intro t ht hmem
    rcases hin ht with rfl | ht
    · exact hnew _ (Or.inr hmem) rfl
    · exact h.apart t (hfore ht) hmem
  · intro t ht
    unfold CountOf
    rw [hmax]
    rcases hin ht with rfl | ht
    · have hretry : (w.sentBy pdu r).retryCount = count := by
        show (r.owner.txRing (Llc.txRingIndex w.now)).retryCount = count
        rw [hs.ring]
        exact (w.llc.recordSent_self ..).2.1
      rw [hretry, show (w.sentBy pdu r).pdu = pdu from rfl, hone]
      omega
    · rw [hsends (hnew t (Or.inl ht))]
      exact h.counts t (hfore ht)
  · rw [hended, hmax]
    intro t ht
    rw [hsends (hnew t (Or.inr ht))]
    exact h.full t ht
  · rw [hended, hacked]
    intro k hk
    rcases haccepted.2.2 k hk with hk | rfl
    · rcases h.kept k hk with hack | ⟨t, (ht | ⟨i, ht⟩) | ht, hpdu⟩
      · exact Or.inl hack
      · rcases hleft t ht with ht | hp
        · exact Or.inr ⟨t, Or.inl (Or.inl ht), hpdu⟩
        · exact Or.inr ⟨_, Or.inl (Or.inr ⟨_, hhere⟩), hp.symm.trans hpdu⟩
      · exact Or.inr ⟨t, Or.inl (Or.inr ⟨i, hstill ht⟩), hpdu⟩
      · exact Or.inr ⟨t, Or.inr ht, hpdu⟩
    · exact Or.inr ⟨_, Or.inl (Or.inr ⟨_, hhere⟩), rfl⟩

/-! ## A call of `on_tx` -/

section Calls

variable {π : Type} {pdcpOnTx : π → LegacyPdcp.TxInfo → π × LegacyPdcp.TxInfo}

/-- What a call that meets the condition has found, behind its check. -/
theorem CallFits.found {w : Watch} {pdcp : π} {g : Grant} (h : w.CallFits pdcpOnTx pdcp g)
    {r : TxState π} (hr : r = w.llc.onTx pdcpOnTx pdcp g.info) {w₁ : Watch}
    (hw₁ : w₁ = w.check g.slotNumber) :
    (w₁.llc.toRetxList = [] → r.owner.snCounter ≠ w₁.llc.snCounter →
      (w₁.llc.txRing (Llc.txRingIndex w₁.now)).acknowledged = true) ∧
    ∀ retx others, w₁.llc.toRetxList = retx :: others → r.owner.toRetxList = others →
      (retx.retryCount < w₁.llc.txConfig.maxRetxCount → retx.pdcpPdu ≠ [] ∧
        (w₁.llc.txRing (Llc.txRingIndex w₁.now)).acknowledged = true) ∧
      (w₁.llc.txConfig.maxRetxCount < retx.retryCount + 1 →
        r.owner.snCounter ≠ w₁.llc.snCounter → w₁.llc.txConfig.maxRetxCount = 0 ∧
          (w₁.llc.txRing (Llc.txRingIndex w₁.now)).acknowledged = true) := by
  have hconfig : w₁.llc.txConfig = w.llc.txConfig := by
    rw [hw₁]
    exact (w.check_setup g.slotNumber).txConfig
  rw [hconfig, hw₁]
  constructor
  · intro hnil hne
    rcases w.llc.onTx_branch pdcp g.info hr with ⟨hsame, -⟩ |
      ⟨hdata, ⟨-, hloads⟩ | ⟨retx, others, hcons, -⟩⟩
    · exact absurd hsame hne
    · exact h.fresh hdata hnil (hloads hne)
    · exact absurd (hnil.symm.trans hcons) (List.cons_ne_nil retx others).symm
  · intro retx others hcons hrest
    rcases w.llc.onTx_branch pdcp g.info hr with ⟨-, hsame⟩ |
      ⟨hdata, ⟨hnil, -⟩ | ⟨retx', others', hcons', hfit, hlast⟩⟩
    · have hlen := congrArg List.length (hrest.symm.trans (hsame.trans hcons))
      rw [List.length_cons] at hlen
      omega
    · exact absurd (hnil.symm.trans hcons) (List.cons_ne_nil retx others).symm
    · have heq := List.cons.inj (hcons.symm.trans hcons')
      rw [← heq.1] at hfit hlast
      have htakes : w.Takes pdcp g retx :=
        ⟨hdata, congrArg List.head? hcons, hfit⟩
      refine ⟨h.again retx htakes, fun hcount hne => ?_⟩
      obtain ⟨hallow, hloads⟩ := hlast hcount hne
      exact h.last retx htakes (by omega) hallow hloads

/-- A new payload of the PDCP is sent into a free element. -/
theorem Counted.accept {w : Watch} {r : TxState π} {id count : Nat} (h : w.Counted)
    (hs : w.llc.SentAs w.now id count r)
    (hfree : (w.llc.txRing (Llc.txRingIndex w.now)).acknowledged = true)
    (hconfig : r.owner.txConfig = w.llc.txConfig)
    (hcount : w.llc.txConfig.maxRetxCount = 0 ∨ count = 0) {failures : Nat} :
    Counted { w.accept r with llc := r.owner, failures := failures } := by
  have hnone : w.sends w.accepted = 0 := by
    apply List.countP_eq_zero.mpr
    intro t ht heq
    have hless := h.numbered t ht
    rw [of_decide_eq_true heq] at hless
    omega
  have hne : ∀ t, w.InHand t ∨ t ∈ w.ended → t.pdu ≠ w.accepted := by
    intro t ht
    have hless := h.numbered t (h.mem_log ht)
    omega
  refine h.sent w.accepted hs hfree rfl hconfig rfl rfl rfl (List.Sublist.refl _)
    (fun t ht => Or.inl ht) hne ⟨Nat.le_succ _, Nat.lt_succ_self _, fun k hk => ?_⟩ ?_
  · change k < w.accepted + 1 at hk
    omega
  · rw [hnone]
    rcases hcount with hzero | hzero
    · exact Or.inl ⟨hzero, rfl⟩
    · exact Or.inr ⟨hzero, by omega⟩

/-- The front of the list is sent again into a free element. -/
theorem Counted.resend {w : Watch} {r : TxState π} {id : Nat} {front : Transmission}
    {rest : List Transmission} (h : w.Counted) (hqueued : w.queued = front :: rest)
    (hs : w.llc.SentAs w.now id (front.retryCount + 1) r)
    (hfree : (w.llc.txRing (Llc.txRingIndex w.now)).acknowledged = true)
    (hconfig : r.owner.txConfig = w.llc.txConfig)
    (hcount : front.retryCount + 1 ≤ w.llc.txConfig.maxRetxCount) {failures : Nat} :
    Counted { w.resend r with llc := r.owner, failures := failures } := by
  have hmem : front ∈ w.queued := by
    rw [hqueued]
    exact List.mem_cons_self ..
  have honce := h.once
  rw [hqueued, List.nodup_cons] at honce
  rw [resend_cons hqueued]
  refine h.sent front.pdu hs hfree rfl hconfig rfl rfl rfl ?_ ?_ ?_
    ⟨le_refl _, h.numbered front (h.mem_log (Or.inl (Or.inl hmem))), fun k hk => Or.inl hk⟩ ?_
  · rw [hqueued]
    exact List.sublist_cons_self front rest
  · rw [hqueued]
    intro t ht
    rcases List.mem_cons.mp ht with rfl | ht
    · exact Or.inr rfl
    · exact Or.inl ht
  · intro t ht hpdu
    have hhand : w.InHand t ∨ t ∈ w.ended := by
      refine ht.imp_left fun ht => ht.imp_left fun ht => ?_
      rw [hqueued]
      exact List.mem_cons_of_mem _ ht
    have heq := h.same hhand (Or.inl (Or.inl hmem)) hpdu
    rw [heq] at ht
    rcases ht with (ht | ⟨i, ht⟩) | ht
    · exact honce.1 ht
    · exact h.placed i front ht hmem
    · exact h.apart front (Or.inl hmem) ht
  · rcases h.counts front (Or.inl hmem) with ⟨hzero, -⟩ | ⟨hsends, -⟩
    · omega
    · exact Or.inr ⟨hsends, hcount⟩

/-- A PDU in hand whose count is used up was sent as often as it should. -/
theorem Counted.used {w : Watch} (h : w.Counted) {t : Transmission} (ht : w.InHand t)
    (hmax : w.llc.txConfig.maxRetxCount < t.retryCount + 1) :
    w.sends t.pdu = 1 + w.llc.txConfig.maxRetxCount := by
  rcases h.counts t ht with ⟨hzero, hone⟩ | ⟨hsends, hle⟩
  · omega
  · omega

/-- **A call that meets the condition keeps the counts.** -/
theorem Counted.onTx (hp : PdcpAllocates pdcpOnTx) {w : Watch} (h : w.Counted)
    (hw : w.Faithful) (pdcp : π) (g : Grant) (hfits : w.CallFits pdcpOnTx pdcp g) :
    (w.onTx pdcpOnTx pdcp g).Counted := by
  obtain ⟨r, hr, hw₁, hconfig, hout, hres⟩ := hw.onTx_cases hp pdcp g
  have h₁ := h.check hw g.slotNumber
  obtain ⟨hfresh, hfront⟩ := hfits.found hr rfl
  rw [hres]
  generalize w.check g.slotNumber = w₁ at hw₁ hconfig hout h₁ hfresh hfront ⊢
  rcases settle_cases hout with ⟨hu, -, hset⟩ | ⟨hnil, -, hs, hset⟩ |
    ⟨retx, others, hcons, hrest, hway⟩
  · rw [hset]
    exact h₁.congr (waiting_congr hu.ring rfl) hconfig rfl rfl rfl rfl rfl
  · rw [hset]
    exact h₁.accept hs (hfresh hnil hs.number_ne) hconfig (Or.inr rfl)
  · obtain ⟨front, rest, hqueued, hretx, -⟩ := hw₁.front hcons
    obtain ⟨hagain, hlast⟩ := hfront retx others hcons hrest
    have hcount : front.retryCount = retx.retryCount := congrArg RetxElem.retryCount hretx
    have hmem : w₁.InHand front := by
      left
      rw [hqueued]
      exact List.mem_cons_self ..
    rcases hway with ⟨hless, hs, hset⟩ | ⟨hwhy, hu, hset⟩ | ⟨hmax, -, hs, hset⟩
    · rw [hset]
      rw [← hcount] at hs hless
      exact h₁.resend hqueued hs (hagain (by omega)).2 hconfig hless
    · have hmax : w₁.llc.txConfig.maxRetxCount < retx.retryCount + 1 := by
        rcases hwhy with hmax | hempty
        · exact hmax
        · by_contra hnot
          exact (hagain (by omega)).1 hempty
      rw [← hcount] at hmax
      rw [hset]
      exact (h₁.giveUp hqueued (h₁.used hmem hmax)).congr (waiting_congr hu.ring rfl) hconfig
        rfl rfl rfl rfl rfl
    · obtain ⟨hzero, hfree⟩ := hlast hmax hs.number_ne
      rw [← hcount] at hmax
      rw [hset]
      exact (h₁.giveUp hqueued (h₁.used hmem hmax)).accept hs hfree hconfig (Or.inl hzero)

/-- The end of a call does not count the link failures. -/
theorem settle_failures (w : Watch) (r : TxState π) : (w.settle r).failures = w.failures := by
  unfold settle resend
  dsimp only
  repeat' split
  all_goals rfl

/-- A PDU that is given up is reported, when that is allowed. -/
theorem Raised.onTx (hp : PdcpAllocates pdcpOnTx) {w : Watch} (h : w.Raised)
    (hw : w.Faithful) (pdcp : π) (g : Grant) (hfits : w.CallFits pdcpOnTx pdcp g) :
    (w.onTx pdcpOnTx pdcp g).Raised := by
  obtain ⟨r, hr, hw₁, hconfig, hout, hres⟩ := hw.onTx_cases hp pdcp g
  have h₁ : (w.check g.slotNumber).Raised := by
    unfold Raised
    rw [(w.check_setup g.slotNumber).txConfig]
    exact h
  obtain ⟨-, hfront⟩ := hfits.found hr rfl
  rw [hres]
  generalize w.check g.slotNumber = w₁ at hw₁ hconfig hout h₁ hfront ⊢
  have hquiet : ∀ {ended}, r.rlf = false → ended = w₁.ended →
      (w₁.failures + if r.rlf = true then 1 else 0) =
        if r.owner.txConfig.allowRlf then ended.length else 0 := by
    intro ended hrlf hended
    rw [hrlf, hconfig, hended, if_neg Bool.false_ne_true, Nat.add_zero]
    exact h₁
  show ((w₁.settle r).failures + if r.rlf = true then 1 else 0) =
    if r.owner.txConfig.allowRlf then (w₁.settle r).ended.length else 0
  rw [settle_failures]
  rcases settle_cases hout with ⟨-, hlist, hset⟩ | ⟨hnil, hrest, -, hset⟩ |
    ⟨retx, others, hcons, hrest, hway⟩
  · exact hquiet (hout.no_rlf hlist) (congrArg ended hset)
  · refine hquiet (hout.no_rlf (hrest.trans hnil.symm)) ?_
    rw [hset]
    rfl
  · obtain ⟨front, rest, hqueued, -, -⟩ := hw₁.front hcons
    have hrlf := hout.rlf_iff hcons hrest
    have hgiven : w₁.giveUp.ended.length = w₁.ended.length + 1 := by
      unfold Watch.giveUp
      rw [hqueued]
      rfl
    rcases hway with ⟨hless, -, hset⟩ | ⟨hwhy, -, hset⟩ | ⟨hmax, hallow, -, hset⟩
    · have hno : r.rlf = false := by
        rw [← Bool.not_eq_true, hrlf]
        omega
      refine hquiet hno ?_
      rw [hset, resend_cons hqueued]
      rfl
    · have hmax : w₁.llc.txConfig.maxRetxCount < retx.retryCount + 1 := by
        rcases hwhy with hmax | hempty
        · exact hmax
        · by_contra hnot
          exact ((hfront retx others hcons hrest).1 (by omega)).1 hempty
      rw [hset, hgiven, hconfig, h₁]
      cases hallow : w₁.llc.txConfig.allowRlf with
      | false =>
          have hno : r.rlf = false := by
            rw [← Bool.not_eq_true, hrlf, hallow]
            exact fun hboth => absurd hboth.2 Bool.false_ne_true
          rw [hno]
          rfl
      | true =>
          rw [hrlf.mpr ⟨hmax, hallow⟩]
          rfl
    · have hno : r.rlf = false := by
        rw [← Bool.not_eq_true, hrlf, hallow]
        exact fun hboth => absurd hboth.2 Bool.false_ne_true
      rw [hno, hconfig, hallow, h₁, hallow]
      rfl

/-! ## Runs -/

/-- The call is not one of those that set up the transmitter. -/
def KeepsTx : Call π → Prop
  | .setTxEnabled _ => False
  | .reconfigureTx _ => False
  | _ => True

/-- What a run keeps. -/
structure Watched (w : Watch) : Prop where
  faithful : w.Faithful
  counted : w.Counted
  raised : w.Raised

theorem Watched.start {l : Llc} (hmode : l.txConfig.mode = .am) (value : Bool) :
    Watched { llc := l.setTxEnabled value } := by
  have hnone : ∀ t, ¬ InHand { llc := l.setTxEnabled value } t := by
    rintro t (ht | ⟨i, ht⟩)
    · exact List.not_mem_nil ht
    · cases (waiting_some ht).2
  refine ⟨Faithful.clear (Clear.setTxEnabled hmode value) rfl, ?_, (ite_self 0).symm⟩
  exact
    { numbered := fun _ ht => (List.not_mem_nil ht).elim
      latest := fun t ht => ht.elim (fun ht => absurd ht (hnone t)) (fun ht => nomatch ht)
      once := List.nodup_nil
      placed := fun _ _ _ => List.not_mem_nil
      apart := fun _ _ => List.not_mem_nil
      counts := fun t ht => absurd ht (hnone t)
      full := fun _ ht => (List.not_mem_nil ht).elim
      kept := fun _ hk => absurd hk (Nat.not_lt_zero _) }

/-- A call that does not set up the transmitter and meets the condition. -/
theorem Watched.step (hp : PdcpAllocates pdcpOnTx) {w : Watch} (h : w.Watched) {c : Call π}
    (hc : KeepsTx c) (hfits : w.CallsFit pdcpOnTx c) : (w.step pdcpOnTx c).Watched := by
  obtain ⟨hw, hcounted, hraised⟩ := h
  cases c with
  | onTx pdcp grant =>
      exact ⟨hw.onTx hp pdcp grant, hcounted.onTx hp hw pdcp grant hfits,
        hraised.onTx hp hw pdcp grant hfits⟩
  | setTxEnabled value => exact hc.elim
  | reconfigureTx config => exact hc.elim
  | reconfigureRx config =>
      exact ⟨hw.step hp trivial, hcounted.congr (fun _ => rfl) rfl rfl rfl rfl rfl rfl, hraised⟩
  | setRxEnabled value =>
      exact ⟨hw.step hp trivial, hcounted.congr (fun _ => rfl) rfl rfl rfl rfl rfl rfl, hraised⟩
  | onRx info =>
      have hack := w.llc.onRx_acked info
      refine ⟨hw.step hp trivial, hcounted.acked hack rfl rfl rfl rfl rfl, ?_⟩
      show w.failures = if (w.llc.onRx info).llc.txConfig.allowRlf then w.ended.length else 0
      rw [hack.config]
      exact hraised

/-- **Every PDU has its retransmissions**: in a run of calls that meet the condition, a PDU
that is given up was sent once and `max_retx_count` times again, a link failure is reported
for it when that is allowed, and no other one that was not acknowledged is lost. -/
theorem full_counts (hp : PdcpAllocates pdcpOnTx) (l : Llc) (hmode : l.txConfig.mode = .am)
    (value : Bool) (calls : List (Call π)) (hcalls : ∀ c ∈ calls, KeepsTx c)
    (hfits : Steps (step pdcpOnTx) (CallsFit pdcpOnTx) { llc := l.setTxEnabled value } calls) :
    FullCounts (calls.foldl (step pdcpOnTx) { llc := l.setTxEnabled value }) := by
  have hkeeps : ∀ (w : Watch) (c : Call π), w.Watched → KeepsTx c ∧ w.CallsFit pdcpOnTx c →
      (w.step pdcpOnTx c).Watched := fun w c h hc => h.step hp hc.1 hc.2
  have hstates := states_of_steps hkeeps (Watched.start hmode value)
    ((steps_of_mem hcalls).and hfits)
  exact hstates.last.counted.fullCounts hstates.last.raised

end Calls

/-! ## An inherited count -/

/-- An acknowledged channel with a window of one slot and one retransmission. -/
def oneRetry : Llc :=
  Llc.new 1 { mode := .am, arqWindowSize := 1, maxRetxCount := 1 } { mode := .am }

/-- A PDU is sent in the slots 0 and 1 and given up in slot 2. -/
theorem sent_twice :
    FullCounts ([.onTx [[0xA0]] (tenBytes 0), .onTx [] (tenBytes 1),
      .onTx [] (tenBytes 2)].foldl (step fifoOnTx) { llc := oneRetry.setTxEnabled true }) := by
  refine full_counts fifoOnTx_allocates oneRetry rfl true _ ?_ ⟨?_, ?_, ?_, trivial⟩
  · intro c hc
    simp only [List.mem_cons, List.not_mem_nil, or_false] at hc
    rcases hc with rfl | rfl | rfl <;> trivial
  · -- The list is empty.
    refine ⟨fun _ _ _ => by decide +kernel, fun retx htakes => ?_, fun retx htakes => ?_⟩
    all_goals cases htakes.front
  · -- The PDU is on the list.
    have hhead : ((step fifoOnTx { llc := oneRetry.setTxEnabled true }
        (.onTx [[0xA0]] (tenBytes 0))).llc.checked 1).toRetxList =
          [{ llcTxId := 0, retryCount := 0, pdcpPdu := [0xA0] }] := by decide +kernel
    refine ⟨fun _ hnil => absurd (hhead.symm.trans hnil) (List.cons_ne_nil _ _),
      fun retx htakes _ => ?_, fun retx htakes hmax => ?_⟩
    all_goals cases (congrArg List.head? hhead).symm.trans htakes.front
    · exact ⟨List.cons_ne_nil _ _, by decide +kernel⟩
    · exact absurd hmax (by decide +kernel)
  · -- It is given up, and the PDCP has nothing to send.
    have hhead : ((step fifoOnTx (step fifoOnTx { llc := oneRetry.setTxEnabled true }
        (.onTx [[0xA0]] (tenBytes 0))) (.onTx [] (tenBytes 1))).llc.checked 2).toRetxList =
          [{ llcTxId := 0, retryCount := 1, pdcpPdu := [0xA0] }] := by decide +kernel
    refine ⟨fun _ hnil => absurd (hhead.symm.trans hnil) (List.cons_ne_nil _ _),
      fun retx htakes hless => ?_, fun retx htakes _ _ hloads => ?_⟩
    all_goals cases (congrArg List.head? hhead).symm.trans htakes.front
    · exact absurd hless (by decide +kernel)
    · exact absurd rfl hloads

/-- The first PDU is given up in slot 2, where the second one is sent for the first time.
It inherits the count, and is given up in slot 3. -/
theorem second_sent_once :
    ¬ FullCounts ([.onTx [[0xA0]] (tenBytes 0), .onTx [] (tenBytes 1),
      .onTx [[0xB0]] (tenBytes 2), .onTx [] (tenBytes 3)].foldl (step fifoOnTx)
        { llc := oneRetry.setTxEnabled true }) := by
  intro h
  have hended : ([.onTx [[0xA0]] (tenBytes 0), .onTx [] (tenBytes 1),
      .onTx [[0xB0]] (tenBytes 2), .onTx [] (tenBytes 3)].foldl (step fifoOnTx)
        { llc := oneRetry.setTxEnabled true }).ended.map Transmission.pdu = [1, 0] := by
    decide +kernel
  obtain ⟨t, ht, hpdu⟩ := List.mem_map.mp
    (show 1 ∈ List.map Transmission.pdu _ from hended ▸ List.mem_cons_self ..)
  have htwice := h.ended t ht
  rw [hpdu] at htwice
  exact absurd htwice (by decide +kernel)

end Watch

end Winject.LegacyLlc
