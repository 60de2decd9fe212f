import Mathlib.Data.Nat.ModEq
import Winject.Llc.UlRetries

/-!
# The slot in which the LLC uplink checks a PDU

The slot of a check is stored by its position in the ring.  A check that lies at most
one lap of the ring ahead is the first slot at its position to come up.  One that lies
further ahead comes up laps too early.

## Main results

* `Pending.step` — a PDU stays in its element until the slot comes up.
* `in_time_iff` — a check is in time iff its distance is at most the size of the ring.
-/

namespace Winject.Llc

open Winject.Lib.Runs

namespace LlcUl

/-! ## Where a PDU waits -/

/-- The PDU waits in the ring. -/
def Waits (u : LlcUl) (pdu : Nat) : Prop := ∃ el ∈ u.inUse, el.pdu = pdu

/-- The PDU is in the retransmission list. -/
def Listed (u : LlcUl) (pdu : Nat) : Prop := ∃ el ∈ u.retxList, el.pdu = pdu

/-- A PDU is in one place. -/
theorem Bookkeeping.not_listed {u : LlcUl} (h : u.Bookkeeping) {pdu : Nat} (hw : u.Waits pdu) :
    ¬ u.Listed pdu := by
  rintro ⟨c, hc, rfl⟩
  obtain ⟨el, hel, heq⟩ := hw
  have hnodup := h.copies_nodup
  rw [copies, List.map_append, List.map_map] at hnodup
  exact (List.nodup_append.mp hnodup).2.2 _ (List.mem_map_of_mem hel) _
    (List.mem_map_of_mem hc) heq

/-- The check of an emitted PDU is in time: it lies as far ahead as it was asked for, and
as long as the PDU waits, it goes to the list in the slot of the check and in no other. -/
def InTime (u : LlcUl) (op : Op) (e : Emission) : Prop :=
  ∃ check, (u.step op).snRing e.sn = some ⟨some check⟩ ∧
    u.config.minRecheckSlotNumber ≤ u.recheckSlotSize e.retryCount ∧
    u.recheckSlotSize e.retryCount ≤ check - u.currentSlotNumber ∧
    ∀ after, States LlcUl.step (fun w => w.Waits e.pdu) (u.step op) after → ∀ slot,
      (((u.step op).run after).updateCurrentSlotNumber slot).1.Listed e.pdu ↔
        slot = ((u.step op).run after).currentSlotNumber + 1 ∧ slot = check

/-! ## Probing -/

/-- The slot that probing finds is the first free one. -/
theorem findSlot_first {u : LlcUl} {slot slot' : UInt64} {n : Nat}
    (h : u.findSlot slot n = some slot') : ∃ k, slot' = slot + UInt64.ofNat k ∧ k < n ∧
      ∀ j, j < k → (u.txElem (slot + UInt64.ofNat j)).acknowledged = false := by
  induction n generalizing slot with
  | zero => cases h
  | succ n ih =>
      unfold findSlot at h
      split_ifs at h with hun
      · obtain ⟨k, heq, hk, hused⟩ := ih h
        refine ⟨k + 1, ?_, Nat.succ_lt_succ hk, fun j hj => ?_⟩
        · rw [heq, UInt64.add_assoc, ← UInt64.ofNat_one, ← UInt64.ofNat_add, Nat.add_comm 1 k]
        · cases j with
          | zero =>
              rw [show UInt64.ofNat 0 = 0 from rfl, UInt64.add_zero]
              simpa using hun
          | succ j =>
              have hnext := hused j (Nat.lt_of_succ_lt_succ hj)
              rwa [UInt64.add_assoc, ← UInt64.ofNat_one, ← UInt64.ofNat_add, Nat.add_comm 1 j]
                at hnext
      · refine ⟨0, ?_, Nat.succ_pos n, fun j hj => absurd hj (Nat.not_lt_zero j)⟩
        rw [show UInt64.ofNat 0 = 0 from rfl, UInt64.add_zero]
        exact (Option.some.inj h).symm

/-- A slot at the distance `d` from the current one. -/
theorem Bookkeeping.index_ahead {u : LlcUl} (h : u.Bookkeeping) (slot : UInt64) :
    u.txRingIndex slot =
      (u.currentSlotNumber.toNat + (slot - u.currentSlotNumber).toNat) % u.txRing.length := by
  rw [← h.index_add, UInt64.ofNat_toNat]
  congr 1
  rw [UInt64.add_comm, UInt64.sub_add_cancel]

/-- Within one lap, only the slot itself has its position in the next slot. -/
theorem Bookkeeping.next_iff {u : LlcUl} (h : u.Bookkeeping) {check : UInt64}
    (hpos : 0 < (check - u.currentSlotNumber).toNat)
    (hlap : (check - u.currentSlotNumber).toNat ≤ u.txRing.length) :
    u.txRingIndex (u.currentSlotNumber + 1) = u.txRingIndex check ↔
      u.currentSlotNumber + 1 = check := by
  refine ⟨fun hidx => ?_, fun heq => by rw [heq]⟩
  have hone : u.txRingIndex (u.currentSlotNumber + 1) =
      (u.currentSlotNumber.toNat + 1) % u.txRing.length := h.index_add _ 1
  rw [hone, h.index_ahead check] at hidx
  have hmod : 1 ≡ (check - u.currentSlotNumber).toNat [MOD u.txRing.length] :=
    Nat.ModEq.add_left_cancel' _ hidx
  have hdvd := (Nat.modEq_iff_dvd' hpos).mp hmod
  have hzero := Nat.eq_zero_of_dvd_of_lt hdvd (by omega)
  have hdist : check - u.currentSlotNumber = 1 := by
    rw [← UInt64.toNat_inj, UInt64.toNat_one]
    omega
  rw [← hdist, UInt64.add_comm, UInt64.sub_add_cancel]

/-! ## Waiting -/

/-- A store into another element. -/
theorem txElem_setTxElem_of_ne {u : LlcUl} {slot slot' : UInt64} {el : TxElem}
    (hne : u.txRingIndex slot ≠ u.txRingIndex slot') :
    (u.setTxElem slot el).txElem slot' = u.txElem slot' := by
  unfold txElem
  rw [setTxElem_txRingIndex]
  unfold setTxElem
  dsimp only
  rw [List.getD_eq_getElem?_getD, List.getElem?_set_ne hne, ← List.getD_eq_getElem?_getD]

theorem Bookkeeping.txElem_setTxElem {u : LlcUl} (h : u.Bookkeeping) (slot : UInt64)
    (el : TxElem) : (u.setTxElem slot el).txElem slot = el := by
  unfold txElem
  rw [setTxElem_txRingIndex]
  unfold setTxElem
  dsimp only
  rw [List.getD_eq_getElem _ _ (by rw [List.length_set]; exact h.index_lt slot),
    List.getElem_set_self]

/-- The PDU waits in the element of the slot of its check. -/
structure Pending (u : LlcUl) (pdu : Nat) (check : UInt64) : Prop where
  current : u.CurrentFree
  waits : (u.txElem check).acknowledged = false
  pdu : (u.txElem check).pdu = pdu

theorem Pending.mem {u : LlcUl} {pdu : Nat} {check : UInt64} (h : u.Pending pdu check) :
    u.txElem check ∈ u.inUse := by
  refine List.mem_filter.mpr ⟨List.mem_of_getElem? (h.current.books.getElem_txElem check), ?_⟩
  rw [h.waits]
  rfl

/-- The PDU is where the states of its run say. -/
theorem Pending.waits_pdu {u : LlcUl} {pdu : Nat} {check : UInt64} (h : u.Pending pdu check) :
    u.Waits pdu := ⟨_, h.mem, h.pdu⟩

/-- A PDU that waits is kept. -/
theorem Waits.kept {u : LlcUl} {pdu : Nat} (h : u.Waits pdu) : ∃ c ∈ u.copies, c.pdu = pdu := by
  obtain ⟨el, hel, hpdu⟩ := h
  exact ⟨el.copy, List.mem_append_left _ (List.mem_map_of_mem hel), hpdu⟩

/-- A PDU that waits is not settled. -/
theorem Bookkeeping.not_settled {u : LlcUl} (h : u.Bookkeeping) {pdu : Nat} (hw : u.Waits pdu) :
    pdu ∉ u.ackedPdus := by
  obtain ⟨c, hc, rfl⟩ := hw.kept
  exact fun hacked => (h.copies_open hc).2 (List.mem_append_left _ hacked)

/-- What a call leaves of the current slot, the ring and the element of a slot. -/
structure Stays (u u' : LlcUl) (check : UInt64) : Prop where
  ring : u'.txRing.length = u.txRing.length
  elem : u'.txElem check = u.txElem check
  current : u'.currentSlotNumber = u.currentSlotNumber ∨
    (u'.currentSlotNumber = u.currentSlotNumber + 1 ∧
      u.txRingIndex (u.currentSlotNumber + 1) ≠ u.txRingIndex check)

/-- A store into another element leaves that of the check alone. -/
theorem stays_of_set {u u' : LlcUl} {slot check : UInt64} {el : TxElem}
    (hne : u.txRingIndex slot ≠ u.txRingIndex check)
    (hring : u'.txRing = (u.setTxElem slot el).txRing)
    (hcurrent : u'.currentSlotNumber = u.currentSlotNumber ∨
      (u'.currentSlotNumber = u.currentSlotNumber + 1 ∧
        u.txRingIndex (u.currentSlotNumber + 1) ≠ u.txRingIndex check)) :
    u.Stays u' check := by
  refine ⟨by rw [hring]; exact List.length_set .., ?_, hcurrent⟩
  have hset : (u.setTxElem slot el).txElem check = u.txElem check := txElem_setTxElem_of_ne hne
  rw [← hset]
  unfold txElem txRingIndex
  rw [hring]

/-- As long as a PDU waits, it stays in its element, and no slot at its position comes
up. -/
theorem Pending.stays {u u' : LlcUl} {pdu : Nat} {check : UInt64} {op : Op}
    {e : Option Emission} (h : u.Pending pdu check) (ht : u.Transition op e u')
    (hbooks : u'.Bookkeeping) (hw : u'.Waits pdu) : u.Stays u' check := by
  have hidx : ∀ slot, u.txRingIndex slot = u.txRingIndex check → u.txElem slot = u.txElem check :=
    fun slot heq => by unfold txElem; rw [heq]
  have hfree : ∀ slot, (u.txElem slot).acknowledged = true →
      u.txRingIndex slot ≠ u.txRingIndex check := by
    intro slot hack heq
    rw [hidx slot heq, h.waits] at hack
    cases hack
  cases ht with
  | quiet status snCounter goes => exact ⟨rfl, rfl, Or.inl rfl⟩
  | slot status free => exact ⟨rfl, rfl, Or.inr ⟨rfl, hfree _ free⟩⟩
  | comesUp status elem waits =>
      subst elem
      have hne : u.txRingIndex (u.currentSlotNumber + 1) ≠ u.txRingIndex check := by
        intro heq
        refine hbooks.not_listed hw ⟨_, List.mem_append_right _ (List.mem_singleton_self _), ?_⟩
        show (u.txElem (u.currentSlotNumber + 1)).pdu = pdu
        rw [hidx _ heq]
        exact h.pdu
      exact stays_of_set hne rfl (Or.inr ⟨rfl, hne⟩)
  | ackList status entry list number => exact ⟨rfl, rfl, Or.inl rfl⟩
  | @ackRing status sn slot entry waits number =>
      have hne : u.txRingIndex slot ≠ u.txRingIndex check := by
        intro heq
        refine hbooks.not_settled hw (List.mem_append_right _ ?_)
        rw [hidx slot heq, h.pdu]
        exact List.mem_singleton_self _
      exact stays_of_set hne rfl (Or.inl rfl)
  | sent status sendable found stamped valid written =>
      exact stays_of_set (hfree _ (findSlot_free found)) rfl (Or.inl rfl)
  | lost status list spent reported => exact ⟨rfl, rfl, Or.inl rfl⟩
  | again status list left allocated found fits written =>
      exact stays_of_set (hfree _ (findSlot_free found)) rfl (Or.inl rfl)
  | restart config fresh =>
      obtain ⟨c, hc, -⟩ := hw.kept
      rw [reset_copies u config] at hc
      exact (List.not_mem_nil hc).elim

theorem Pending.step {u : LlcUl} {pdu : Nat} {check : UInt64} (h : u.Pending pdu check)
    {op : Op} (hw : (u.step op).Waits pdu) :
    u.Stays (u.step op) check ∧ (u.step op).Pending pdu check := by
  obtain ⟨c, hc, -⟩ := hw.kept
  have hop := isAm_of_copies (List.ne_nil_of_mem hc)
  have hcurrent := h.current.step hop
  have hstays := h.stays (h.current.transition hop) hcurrent.books hw
  exact ⟨hstays, hcurrent, hstays.elem ▸ h.waits, hstays.elem ▸ h.pdu⟩

/-- A PDU that waits goes to the list in the next slot at its position. -/
theorem Pending.listed_iff {u : LlcUl} {pdu : Nat} {check : UInt64} (h : u.Pending pdu check)
    (slot : UInt64) : (u.updateCurrentSlotNumber slot).1.Listed pdu ↔
      slot = u.currentSlotNumber + 1 ∧ u.txRingIndex slot = u.txRingIndex check := by
  have hbooks := h.current.books
  have hnot : ¬ u.Listed pdu := hbooks.not_listed h.waits_pdu
  have helem : u.txRingIndex slot = u.txRingIndex check → u.txElem slot = u.txElem check :=
    fun heq => by unfold txElem; rw [heq]
  rcases hbooks.update_cases slot with ⟨hne, heq⟩ | ⟨hslot, hack, heq⟩ | ⟨hslot, hun, heq⟩
  · rw [heq]
    exact iff_of_false hnot fun hboth => hne hboth.1
  · rw [heq]
    refine iff_of_false hnot fun hboth => ?_
    rw [helem hboth.2, h.waits] at hack
    cases hack
  · rw [heq]
    constructor
    · rintro ⟨el, hel, hpdu⟩
      refine ⟨hslot, ?_⟩
      by_contra hne
      -- the PDU that goes to the list is another one
      have hset : (u.setTxElem slot { u.txElem slot with acknowledged := true }).txElem check =
          u.txElem check := txElem_setTxElem_of_ne hne
      have hnext : (u.updateCurrentSlotNumber slot).1.Bookkeeping :=
        hbooks.updateCurrentSlotNumber slot
      rw [heq] at hnext
      refine hnext.not_listed ⟨u.txElem check, ?_, h.pdu⟩ ⟨el, hel, hpdu⟩
      refine List.mem_filter.mpr ⟨?_, by rw [h.waits]; rfl⟩
      rw [← hset]
      have hget := hnext.getElem_txElem check
      exact List.mem_of_getElem? hget
    · rintro ⟨-, hidx⟩
      refine ⟨_, List.mem_append_right _ (List.mem_singleton_self _), ?_⟩
      show (u.txElem slot).pdu = pdu
      rw [helem hidx]
      exact h.pdu

/-- A slot comes nearer. -/
theorem distance_succ {check current : UInt64} (hpos : 0 < (check - current).toNat) :
    (check - (current + 1)).toNat = (check - current).toNat - 1 := by
  have hsub : check - (current + 1) = check - current - 1 := by
    rw [UInt64.sub_eq_iff_eq_add, UInt64.add_comm current, ← UInt64.add_assoc,
      UInt64.sub_add_cancel, UInt64.sub_add_cancel]
  have hone : 1 ≤ check - current := by
    rw [UInt64.le_iff_toNat_le, UInt64.toNat_one]
    exact hpos
  rw [hsub, UInt64.toNat_sub_of_le _ _ hone, UInt64.toNat_one]

/-- Within one lap, a PDU that waits waits within one lap. -/
theorem Pending.run {u : LlcUl} {pdu : Nat} {check : UInt64} (h : u.Pending pdu check)
    (hpos : 0 < (check - u.currentSlotNumber).toNat)
    (hlap : (check - u.currentSlotNumber).toNat ≤ u.txRing.length) {after : List Op}
    (hafter : States LlcUl.step (fun w => w.Waits pdu) u after) :
    (u.run after).Pending pdu check ∧ 0 < (check - (u.run after).currentSlotNumber).toNat ∧
      (check - (u.run after).currentSlotNumber).toNat ≤ (u.run after).txRing.length := by
  induction after generalizing u with
  | nil => exact ⟨h, hpos, hlap⟩
  | cons op after ih =>
      obtain ⟨hstays, hnext⟩ := h.step hafter.2.first
      have hnear : 0 < (check - (u.step op).currentSlotNumber).toNat ∧
          (check - (u.step op).currentSlotNumber).toNat ≤ (u.step op).txRing.length := by
        rw [hstays.ring]
        rcases hstays.current with hsame | ⟨hup, hne⟩
        · rw [hsame]
          exact ⟨hpos, hlap⟩
        · rw [hup, distance_succ hpos]
          have hcheck : ¬ u.currentSlotNumber + 1 = check :=
            fun heq => hne ((h.current.books.next_iff hpos hlap).mpr heq)
          have hone : (check - u.currentSlotNumber).toNat ≠ 1 := by
            intro hdist
            apply hcheck
            have hone : check - u.currentSlotNumber = 1 := UInt64.toNat_inj.mp hdist
            rw [← hone, UInt64.add_comm, UInt64.sub_add_cancel]
          omega
      exact ih hnext hnear.1 hnear.2 hafter.2

/-! ## The check of an emission -/

/-- The element, the table and the slot that an emission leads to. -/
structure Checked (u u' : LlcUl) (e : Emission) (check : UInt64) : Prop where
  found : u.findSlot (u.checkFrom e.retryCount) u.txRing.length = some check
  table : u'.snRing e.sn = some ⟨some check⟩
  pending : u'.Pending e.pdu check
  current : u'.currentSlotNumber = u.currentSlotNumber
  ring : u'.txRing.length = u.txRing.length
  free : (u.txElem u.currentSlotNumber).acknowledged = true

theorem CurrentFree.checked {u : LlcUl} (h : u.CurrentFree) {op : Op} {e : Emission}
    (he : u.emission op = some e) : ∃ check, u.Checked (u.step op) e check := by
  have hnext := h.step (isAm_of_emission he)
  have ht := h.transition (isAm_of_emission he)
  rw [he] at ht
  revert hnext ht
  generalize u.step op = u'
  intro hnext ht
  cases ht with
  | @sent status target slot llc sendable found stamped valid written =>
      rw [← h.books.ringLength] at found
      have hself := h.books.txElem_setTxElem slot
        ⟨false, u.snCounter, 0, llc.base, u.accepted⟩
      exact ⟨slot, found, Function.update_self ..,
        ⟨hnext, congrArg TxElem.acknowledged hself, congrArg TxElem.pdu hself⟩, rfl,
        List.length_set .., h.free sendable.allocated⟩
  | @again status target el rest slot list left allocated found fits written =>
      rw [← h.books.ringLength] at found
      have hself := h.books.txElem_setTxElem slot
        ⟨false, el.sn, el.retryCount + 1, el.llcPdu, el.pdu⟩
      exact ⟨slot, found, Function.update_self ..,
        ⟨hnext, congrArg TxElem.acknowledged hself, congrArg TxElem.pdu hself⟩, rfl,
        List.length_set .., h.free allocated⟩

/-- A check that is asked for within one lap is found within one lap. -/
theorem Checked.within {u u' : LlcUl} {e : Emission} {check : UInt64} (h : u.Checked u' e check)
    (hbooks : u.Bookkeeping) (hlap : (u.recheckSlotSize e.retryCount).toNat ≤ u.txRing.length) :
    (u.recheckSlotSize e.retryCount).toNat ≤ (check - u.currentSlotNumber).toNat ∧
      (check - u.currentSlotNumber).toNat ≤ u.txRing.length := by
  obtain ⟨k, heq, hk, hused⟩ := findSlot_first h.found
  have hring := hbooks.ringLength ▸ u.config.txSize.toNat_lt
  -- the slot one lap ahead has the position of the current one, which is free
  have hfew : (u.recheckSlotSize e.retryCount).toNat + k ≤ u.txRing.length := by
    by_contra hmore
    have hun := hused (u.txRing.length - (u.recheckSlotSize e.retryCount).toNat) (by omega)
    have hidx : u.txRingIndex (u.checkFrom e.retryCount +
        UInt64.ofNat (u.txRing.length - (u.recheckSlotSize e.retryCount).toNat)) =
        u.txRingIndex u.currentSlotNumber := by
      have hsum : u.checkFrom e.retryCount +
          UInt64.ofNat (u.txRing.length - (u.recheckSlotSize e.retryCount).toNat) =
          u.currentSlotNumber + UInt64.ofNat u.txRing.length := by
        unfold checkFrom
        rw [UInt64.add_assoc]
        congr 1
        rw [← UInt64.toNat_inj, UInt64.toNat_add, UInt64.toNat_ofNat', UInt64.toNat_ofNat',
          Nat.add_mod_mod]
        congr 1
        omega
      rw [hsum, hbooks.index_add, Nat.add_mod_right]
      rfl
    have hfree := h.free
    unfold txElem at hun hfree
    rw [hidx, hfree] at hun
    cases hun
  have hdist : (check - u.currentSlotNumber).toNat =
      (u.recheckSlotSize e.retryCount).toNat + k := by
    have hsub : check - u.currentSlotNumber =
        u.recheckSlotSize e.retryCount + UInt64.ofNat k := by
      rw [heq]
      unfold checkFrom
      rw [UInt64.add_assoc, UInt64.add_comm, UInt64.add_sub_cancel]
    rw [hsub, UInt64.toNat_add, UInt64.toNat_ofNat', Nat.add_mod_mod, Nat.mod_eq_of_lt (by omega)]
  omega

/-- A check that is asked for within one lap is in time. -/
theorem Checked.inTime {u : LlcUl} {op : Op} {e : Emission} {check : UInt64}
    (h : u.Checked (u.step op) e check) (hbooks : u.Bookkeeping)
    (hretry : e.retryCount ≤ u.config.maxRetxCount)
    (hlap : (u.recheckSlotSize e.retryCount).toNat ≤ u.txRing.length) : u.InTime op e := by
  obtain ⟨hfar, hnear⟩ := h.within hbooks hlap
  have hmin := (recheckSlotSize_bounds hbooks.valid hretry).1
  refine ⟨check, h.table, hmin, UInt64.le_iff_toNat_le.mpr hfar, fun after hafter slot => ?_⟩
  have hpos : 0 < (check - (u.step op).currentSlotNumber).toNat := by
    have hne := (LlcUlConfig.isValid_iff.mp hbooks.valid).2.1
    have hzero : u.config.minRecheckSlotNumber.toNat ≠ 0 := fun hz => hne (UInt64.toNat_inj.mp hz)
    rw [UInt64.le_iff_toNat_le] at hmin
    rw [h.current]
    omega
  rw [← h.current, ← h.ring] at hnear
  obtain ⟨hpending, hpos', hlap'⟩ := h.pending.run hpos hnear hafter
  rw [hpending.listed_iff]
  refine and_congr_right fun hslot => ?_
  rw [hslot]
  exact hpending.current.books.next_iff hpos' hlap'

/-! ## A lap too early -/

/-- The next `n` slots come up. -/
def advance (slot : UInt64) : Nat → List Op
  | 0 => []
  | n + 1 => .updateCurrentSlotNumber (slot + 1) :: advance (slot + 1) n

/-- A slot at another position comes up. -/
theorem Pending.up {u : LlcUl} {pdu : Nat} {check : UInt64} (h : u.Pending pdu check)
    (hne : u.txRingIndex (u.currentSlotNumber + 1) ≠ u.txRingIndex check) :
    (u.step (.updateCurrentSlotNumber (u.currentSlotNumber + 1))).Pending pdu check ∧
      (u.step (.updateCurrentSlotNumber (u.currentSlotNumber + 1))).currentSlotNumber =
        u.currentSlotNumber + 1 ∧
      (u.step (.updateCurrentSlotNumber (u.currentSlotNumber + 1))).txRing.length =
        u.txRing.length ∧
      (u.step (.updateCurrentSlotNumber (u.currentSlotNumber + 1))).txElem check =
        u.txElem check := by
  have hop : (Op.updateCurrentSlotNumber (u.currentSlotNumber + 1)).IsAm := trivial
  have hnext := h.current.step hop
  revert hnext
  change (u.updateCurrentSlotNumber (u.currentSlotNumber + 1)).1.CurrentFree →
    (u.updateCurrentSlotNumber (u.currentSlotNumber + 1)).1.Pending pdu check ∧
      (u.updateCurrentSlotNumber (u.currentSlotNumber + 1)).1.currentSlotNumber = _ ∧
      (u.updateCurrentSlotNumber (u.currentSlotNumber + 1)).1.txRing.length = _ ∧
      (u.updateCurrentSlotNumber (u.currentSlotNumber + 1)).1.txElem check = _
  rcases h.current.books.update_cases (u.currentSlotNumber + 1) with
    ⟨hno, -⟩ | ⟨-, -, heq⟩ | ⟨-, -, heq⟩
  · exact absurd rfl hno
  · rw [heq]
    exact fun hnext => ⟨⟨hnext, h.waits, h.pdu⟩, rfl, rfl, rfl⟩
  · rw [heq]
    have hset : (u.setTxElem (u.currentSlotNumber + 1)
        { u.txElem (u.currentSlotNumber + 1) with acknowledged := true }).txElem check =
          u.txElem check := txElem_setTxElem_of_ne hne
    exact fun hnext => ⟨⟨hnext, hset.symm ▸ h.waits, hset.symm ▸ h.pdu⟩, rfl,
      List.length_set .., hset⟩

/-- Slots at other positions come up. -/
theorem Pending.advance {u : LlcUl} {pdu : Nat} {check : UInt64} (h : u.Pending pdu check)
    (n : Nat) (hne : ∀ m, 0 < m → m ≤ n →
      u.txRingIndex (u.currentSlotNumber + UInt64.ofNat m) ≠ u.txRingIndex check) :
    States LlcUl.step (fun w => w.Waits pdu) u (LlcUl.advance u.currentSlotNumber n) ∧
      (u.run (LlcUl.advance u.currentSlotNumber n)).Pending pdu check ∧
      (u.run (LlcUl.advance u.currentSlotNumber n)).currentSlotNumber =
        u.currentSlotNumber + UInt64.ofNat n ∧
      (u.run (LlcUl.advance u.currentSlotNumber n)).txRing.length = u.txRing.length ∧
      (u.run (LlcUl.advance u.currentSlotNumber n)).txElem check = u.txElem check := by
  induction n generalizing u with
  | zero => exact ⟨h.waits_pdu, h, (UInt64.add_zero _).symm, rfl, rfl⟩
  | succ n ih =>
      obtain ⟨hnext, hcurrent, hring, helem⟩ := h.up (hne 1 Nat.one_pos (by omega))
      have hshift : ∀ m, u.currentSlotNumber + 1 + UInt64.ofNat m =
          u.currentSlotNumber + UInt64.ofNat (m + 1) := by
        intro m
        rw [UInt64.add_assoc, ← UInt64.ofNat_one, ← UInt64.ofNat_add, Nat.add_comm 1 m]
      show (_ ∧ States LlcUl.step _ (u.step _) _) ∧ Pending ((u.step _).run _) _ _ ∧
        LlcUl.currentSlotNumber ((u.step _).run _) = _ ∧
        List.length (LlcUl.txRing ((u.step _).run _)) = _ ∧
        LlcUl.txElem ((u.step _).run _) check = _
      have hrest := ih hnext (fun m hm hle => by
        have hmore := hne (m + 1) (Nat.succ_pos m) (Nat.succ_le_succ hle)
        unfold txRingIndex at hmore ⊢
        rwa [hcurrent, hring, hshift])
      rw [hcurrent, hring, helem, hshift] at hrest
      exact ⟨⟨h.waits_pdu, hrest.1⟩, hrest.2⟩

/-- The first slot that comes up at the position of a given one. -/
theorem Bookkeeping.first_at {u : LlcUl} (h : u.Bookkeeping) (check : UInt64) :
    ∃ r, r < u.txRing.length ∧
      (∀ m, 0 < m → m ≤ r →
        u.txRingIndex (u.currentSlotNumber + UInt64.ofNat m) ≠ u.txRingIndex check) ∧
      u.txRingIndex (u.currentSlotNumber + UInt64.ofNat (r + 1)) = u.txRingIndex check := by
  have hpos := h.ring_pos
  generalize hd : (check - u.currentSlotNumber).toNat = d
  have hcheck : u.txRingIndex check = (u.currentSlotNumber.toNat + d) % u.txRing.length := by
    rw [← hd]
    exact h.index_ahead check
  generalize hr : (d + u.txRing.length - 1) % u.txRing.length = r
  have hlt : r < u.txRing.length := hr ▸ Nat.mod_lt _ hpos
  have hmod : Nat.ModEq u.txRing.length (r + 1) d := by
    have hsame : Nat.ModEq u.txRing.length r (d + u.txRing.length - 1) := hr ▸ Nat.mod_mod ..
    have hsucc := hsame.add_right 1
    rw [Nat.sub_add_cancel (by omega)] at hsucc
    exact hsucc.trans (Nat.add_mod_right ..)
  refine ⟨r, hlt, fun m hm hmr heq => ?_, ?_⟩
  · rw [h.index_add, hcheck] at heq
    have hother : Nat.ModEq u.txRing.length m (r + 1) :=
      (Nat.ModEq.add_left_cancel' _ heq).trans hmod.symm
    have hdvd := (Nat.modEq_iff_dvd' (by omega)).mp hother
    have hzero := Nat.eq_zero_of_dvd_of_lt hdvd (by omega)
    omega
  · rw [h.index_add, hcheck]
    exact hmod.add_left _

/-- A check that is asked for more than one lap ahead is not in time: either the distance
wraps around, or a slot at its position comes up before. -/
theorem Checked.not_inTime {u : LlcUl} {op : Op} {e : Emission} {check : UInt64}
    (h : u.Checked (u.step op) e check)
    (hfar : u.txRing.length < (u.recheckSlotSize e.retryCount).toNat) : ¬ u.InTime op e := by
  rintro ⟨check', htable, -, hdist, hmoves⟩
  rw [h.table] at htable
  cases htable
  rw [UInt64.le_iff_toNat_le] at hdist
  obtain ⟨r, hr, hbefore, hat⟩ := h.pending.current.books.first_at check
  rw [h.ring] at hr
  obtain ⟨hstates, hpending, hslot, hring, -⟩ := h.pending.advance r hbefore
  have hlisted := (hpending.listed_iff _).mpr ⟨rfl, by
    rw [hslot, UInt64.add_assoc, ← UInt64.ofNat_one, ← UInt64.ofNat_add]
    unfold txRingIndex at hat ⊢
    rwa [hring]⟩
  have heq := ((hmoves _ hstates _).mp hlisted).2
  rw [hslot, h.current, UInt64.add_assoc, ← UInt64.ofNat_one, ← UInt64.ofNat_add] at heq
  have hnear : check - u.currentSlotNumber = UInt64.ofNat (r + 1) := by
    rw [← heq, UInt64.add_comm, UInt64.add_sub_cancel]
  rw [hnear, UInt64.toNat_ofNat'] at hdist
  have hmod := Nat.mod_le (r + 1) (2 ^ 64)
  omega

/-- The check of an emission is in time iff it is asked for within one lap. -/
theorem CurrentFree.inTime_iff {u : LlcUl} (h : u.CurrentFree) {op : Op} {e : Emission}
    (he : u.emission op = some e) :
    u.InTime op e ↔ u.recheckSlotSize e.retryCount ≤ u.config.txSize := by
  have hop := isAm_of_emission he
  obtain ⟨check, hchecked⟩ := h.checked he
  rw [UInt64.le_iff_toNat_le, ← h.books.ringLength]
  constructor
  · intro htime
    by_contra hfar
    exact hchecked.not_inTime (Nat.lt_of_not_le hfar) htime
  · exact hchecked.inTime h.books (emission_le h hop he)

/-- **A check is in time iff its distance is at most one lap of the ring**, for every
data PDU that is emitted, in every run. -/
theorem in_time_iff (config : LlcUlConfig) (hvalid : config.isValid = true)
    (hmode : config.mode = .am) (before : List Op) (hbefore : ∀ op ∈ before, op.IsAm) (op : Op)
    (e : Emission) (he : ((new config).run before).emission op = some e) :
    ((new config).run before).InTime op e ↔
      ((new config).run before).recheckSlotSize e.retryCount ≤
        ((new config).run before).config.txSize :=
  ((CurrentFree.new hvalid hmode).run hbefore).inTime_iff he

/-- A check two slots ahead, in a ring of four. -/
theorem two_slots_in_time :
    ((new { mode := .am, txSize := 4, minRecheckSlotNumber := 2,
            maxRecheckSlotNumber := 3 }).run [.updateCurrentSlotNumber 1]).InTime
      (.writeLlcPdu [0, 0, 3]) ⟨0, 0, 0⟩ :=
  (in_time_iff _ (by decide) rfl _ (by decide) _ _ (by decide)).mpr (by decide)

/-- A ring of two slots, and a check three slots ahead. -/
def twoOfThree : LlcUlConfig where
  mode := .am
  txSize := 2
  minRecheckSlotNumber := 3
  maxRecheckSlotNumber := 3

/-- The check comes up in the next slot. -/
theorem three_slots_too_early :
    ¬ ((new twoOfThree).run [.updateCurrentSlotNumber 1]).InTime
      (.writeLlcPdu [0, 0, 3]) ⟨0, 0, 0⟩ := by
  have hcurrent : ((new twoOfThree).run [.updateCurrentSlotNumber 1]).CurrentFree :=
    (CurrentFree.new (by decide) rfl).run (by decide)
  rw [hcurrent.inTime_iff (by decide)]
  decide

end LlcUl

end Winject.Llc
