import Winject.Lib.Ledger
import Winject.Lib.Runs
import Winject.Llc.Ul

/-!
# Bookkeeping of the LLC uplink

The slot ring, the table of sequence numbers and the retransmission list agree
after every call.  The data PDUs that are outstanding are the entries of a
ledger (`Winject.Lib.Ledger`) whose keys are their sequence numbers: a new PDU
enters it, an acknowledgement or a loss settles one, and a slot that comes up, or
a retransmission, moves one between the ring and the list.

## Main results

* `Bookkeeping.step` — every call keeps the agreement.
* `bookkeeping_holds` — it holds after every run, and the status bits of an
  inconsistency are never set.
-/

namespace Winject.Llc

open Winject.Frames
open Winject.Lib.Bytes
open Winject.Lib
open Winject.Lib.Runs

/-! ## Configurations and slots -/

theorem LlcUlConfig.isValid_iff {c : LlcUlConfig} :
    c.isValid = true ↔ c.txSize.toNat.isPowerOfTwo ∧ c.minRecheckSlotNumber ≠ 0 ∧
      c.maxRecheckSlotNumber ≠ 0 ∧ ¬ c.maxRecheckSlotNumber < c.minRecheckSlotNumber ∧
      c.maxRetxCount ≠ 0 := by
  have hzero : c.txSize = 0 ↔ c.txSize.toNat = 0 := by
    rw [← UInt64.toNat_inj, UInt64.toNat_zero]
  have hpow : (¬ c.txSize = 0 ∧ c.txSize &&& (c.txSize - 1) = 0) ↔
      c.txSize.toNat.isPowerOfTwo := by
    rw [← Nat.ne_zero_and_sub_one_eq_zero_iff_isPowerOfTwo, hzero]
    refine and_congr_right fun hne => ?_
    have hone : (1 : UInt64) ≤ c.txSize := by
      rw [UInt64.le_iff_toNat_le, UInt64.toNat_one]
      omega
    rw [← UInt64.toNat_inj, UInt64.toNat_and, UInt64.toNat_sub_of_le _ _ hone,
      UInt64.toNat_one, UInt64.toNat_zero]
  rw [← hpow]
  simp only [isValid, Bool.and_eq_true, Bool.not_eq_true', Bool.or_eq_false_iff, beq_eq_false_iff_ne,
    bne_eq_false_iff_eq, bne_iff_ne, decide_eq_false_iff_not, ne_eq, and_assoc]

/-- The status bits that a call which sends no data PDU leaves alone. -/
structure Status.Kept (s s' : Status) : Prop where
  dataPduAllocated : s'.dataPduAllocated = s.dataPduAllocated
  spuriousAckTx : s'.spuriousAckTx = s.spuriousAckTx
  shouldNotHappen : s'.shouldNotHappen = s.shouldNotHappen

/-- The status behind an acknowledgement, with or without an outstanding PDU for it. -/
def Status.acknowledged (s : Status) (found : Bool) : Status :=
  { s with spuriousAckSn := !found, spuriousAckTx := false, shouldNotHappen := false }

namespace LlcUl

/-- The ring elements that wait for an acknowledgement. -/
def inUse (u : LlcUl) : List TxElem := u.txRing.filter (fun el => !el.acknowledged)

/-- The outstanding PDUs, with their sequence numbers. -/
def outstanding (u : LlcUl) : List (UInt8 × Nat) :=
  u.inUse.map (fun el => (el.sn, el.pdu)) ++ u.retxList.map (fun el => (el.sn, el.pdu))

/-- What the containers, the counters and the status register have in common. -/
structure Bookkeeping (u : LlcUl) : Prop where
  valid : u.config.isValid = true
  mode : u.config.mode = .am
  ringLength : u.txRing.length = u.config.txSize.toNat
  ledger : Ledger u.outstanding (u.ackedPdus ++ u.lostPdus)
    (fun sn => (u.snRing sn).isSome = true) u.accepted
  inRing : ∀ i el, u.txRing[i]? = some el → el.acknowledged = false →
    ∃ slot, u.snRing el.sn = some ⟨some slot⟩ ∧ u.txRingIndex slot = i
  inList : ∀ el ∈ u.retxList, u.snRing el.sn = some ⟨none⟩
  used : u.usedTxSlots = u.inUse.length
  pending : u.pendingLlcPduCount = u.usedTxSlots + u.retxList.length
  noTx : u.status.spuriousAckTx = false
  noHappen : u.status.shouldNotHappen = false

/-- The fields that the bookkeeping is about are the same. -/
theorem Bookkeeping.of_status {u : LlcUl} (h : u.Bookkeeping) {status : Status}
    {currentSlotNumber : UInt64} {snCounter : UInt8} (htx : status.spuriousAckTx = false)
    (hhappen : status.shouldNotHappen = false) :
    ({ u with
      status := status
      currentSlotNumber := currentSlotNumber
      snCounter := snCounter } : LlcUl).Bookkeeping :=
  ⟨h.valid, h.mode, h.ringLength, h.ledger, h.inRing, h.inList, h.used, h.pending, htx, hhappen⟩

theorem Bookkeeping.ring_pos {u : LlcUl} (h : u.Bookkeeping) : 0 < u.txRing.length := by
  rw [h.ringLength]
  exact Nat.pos_of_isPowerOfTwo (LlcUlConfig.isValid_iff.mp h.valid).1

theorem Bookkeeping.index_lt {u : LlcUl} (h : u.Bookkeeping) (slot : UInt64) :
    u.txRingIndex slot < u.txRing.length := Nat.mod_lt _ h.ring_pos

theorem Bookkeeping.getElem_txElem {u : LlcUl} (h : u.Bookkeeping) (slot : UInt64) :
    u.txRing[u.txRingIndex slot]? = some (u.txElem slot) := by
  rw [txElem, List.getD_eq_getElem _ _ (h.index_lt slot),
    List.getElem?_eq_getElem (h.index_lt slot)]

/-! ## Where a PDU is -/

/-- An element that waits in the ring has its number in the table. -/
theorem Bookkeeping.slot_of_ring {u : LlcUl} (h : u.Bookkeeping) {slot : UInt64}
    (hun : (u.txElem slot).acknowledged = false) :
    ∃ slot', u.snRing (u.txElem slot).sn = some ⟨some slot'⟩ ∧
      u.txRingIndex slot' = u.txRingIndex slot :=
  h.inRing _ _ (h.getElem_txElem slot) hun

/-- A number that points to a slot belongs to the element in it. -/
theorem Bookkeeping.ring_of_slot {u : LlcUl} (h : u.Bookkeeping) {sn : UInt8} {slot : UInt64}
    (hsn : u.snRing sn = some ⟨some slot⟩) :
    (u.txElem slot).acknowledged = false ∧ (u.txElem slot).sn = sn := by
  have hmem := (h.ledger.taken_iff sn).mp (by rw [hsn]; rfl)
  rw [outstanding, List.map_append, List.mem_append, List.map_map, List.map_map] at hmem
  rcases hmem with hring | hlist
  · obtain ⟨el, hel, rfl⟩ := List.mem_map.mp hring
    obtain ⟨hin, hun⟩ := List.mem_filter.mp hel
    obtain ⟨i, hi⟩ := List.mem_iff_getElem?.mp hin
    have hack : el.acknowledged = false := by simpa using hun
    obtain ⟨slot', hslot, hidx⟩ := h.inRing i el hi hack
    have heq : slot' = slot := by
      rw [show u.snRing el.sn = some ⟨some slot⟩ from hsn] at hslot
      exact (Option.some.inj (SnElem.mk.inj (Option.some.inj hslot))).symm
    subst heq
    have hget := h.getElem_txElem slot'
    rw [hidx, hi] at hget
    rw [← Option.some.inj hget]
    exact ⟨hack, rfl⟩
  · obtain ⟨el, hel, rfl⟩ := List.mem_map.mp hlist
    have hnone := h.inList el hel
    rw [show u.snRing el.sn = some ⟨some slot⟩ from hsn] at hnone
    cases hnone

/-- A number without a slot belongs to an entry of the list. -/
theorem Bookkeeping.list_of_none {u : LlcUl} (h : u.Bookkeeping) {sn : UInt8}
    (hsn : u.snRing sn = some ⟨none⟩) : ∃ el ∈ u.retxList, el.sn = sn := by
  have hmem := (h.ledger.taken_iff sn).mp (by rw [hsn]; rfl)
  rw [outstanding, List.map_append, List.mem_append, List.map_map, List.map_map] at hmem
  rcases hmem with hring | hlist
  · obtain ⟨el, hel, rfl⟩ := List.mem_map.mp hring
    obtain ⟨hin, hun⟩ := List.mem_filter.mp hel
    obtain ⟨i, hi⟩ := List.mem_iff_getElem?.mp hin
    obtain ⟨slot', hslot, _⟩ := h.inRing i el hi (by simpa using hun)
    rw [show u.snRing el.sn = some ⟨none⟩ from hsn] at hslot
    cases hslot
  · obtain ⟨el, hel, rfl⟩ := List.mem_map.mp hlist
    exact ⟨el, hel, rfl⟩

/-! ## Writing a slot -/

/-- An element in use is freed. -/
theorem Bookkeeping.inUse_free {u : LlcUl} (h : u.Bookkeeping) {slot : UInt64}
    (hun : (u.txElem slot).acknowledged = false) :
    u.inUse.Perm (u.txElem slot ::
      (u.setTxElem slot { u.txElem slot with acknowledged := true }).inUse) := by
  have hlt := h.index_lt slot
  have hget : u.txRing[u.txRingIndex slot] = u.txElem slot :=
    (List.getD_eq_getElem _ _ hlt).symm
  have hperm := filter_set_remove (p := fun el : TxElem => !el.acknowledged)
    (a := { u.txElem slot with acknowledged := true }) (h.index_lt slot)
    (by rw [hget, hun]; rfl) rfl
  rwa [hget] at hperm

/-- A free element is taken. -/
theorem Bookkeeping.inUse_take {u : LlcUl} (h : u.Bookkeeping) {slot : UInt64} {el : TxElem}
    (hfree : (u.txElem slot).acknowledged = true) (hel : el.acknowledged = false) :
    (u.setTxElem slot el).inUse.Perm (el :: u.inUse) := by
  have hlt := h.index_lt slot
  have hget : u.txRing[u.txRingIndex slot] = u.txElem slot :=
    (List.getD_eq_getElem _ _ hlt).symm
  exact filter_set_add (p := fun el : TxElem => !el.acknowledged) (h.index_lt slot)
    (by rw [hget, hfree]; rfl) (by rw [hel]; rfl)

/-- The ring behind a store: the element itself, or an old one in another
place. -/
theorem setTxElem_get {u : LlcUl} {slot : UInt64} {el x : TxElem} {i : Nat}
    (hx : (u.setTxElem slot el).txRing[i]? = some x) :
    (i = u.txRingIndex slot ∧ x = el) ∨ (i ≠ u.txRingIndex slot ∧ u.txRing[i]? = some x) := by
  by_cases hi : i = u.txRingIndex slot
  · left
    refine ⟨hi, ?_⟩
    subst hi
    obtain ⟨hlt, hget⟩ := List.getElem?_eq_some_iff.mp hx
    rw [← hget]
    exact List.getElem_set_self hlt
  · right
    refine ⟨hi, ?_⟩
    rw [← hx]
    exact (List.getElem?_set_ne (Ne.symm hi)).symm

theorem setTxElem_txRingIndex (u : LlcUl) (slot slot' : UInt64) (el : TxElem) :
    (u.setTxElem slot el).txRingIndex slot' = u.txRingIndex slot' := by
  unfold txRingIndex setTxElem
  rw [List.length_set]

/-! ## The calls -/

section Calls

variable {u : LlcUl} {sn : UInt8} {slot : UInt64}

/-- An element with another number keeps its entry in the table. -/
private theorem update_ring_ne {value : Option SnElem} {el : TxElem} {slot' : UInt64}
    (hne : el.sn ≠ sn) (h : u.snRing el.sn = some ⟨some slot'⟩) :
    Function.update u.snRing sn value el.sn = some ⟨some slot'⟩ := by
  rwa [Function.update_of_ne hne]

/-- The keys when the entry of `sn` is erased. -/
private theorem taken_erase (x : UInt8) :
    (Function.update u.snRing sn none x).isSome = true ↔ x ≠ sn ∧ (u.snRing x).isSome = true := by
  by_cases hx : x = sn
  · subst hx
    rw [Function.update_self]
    exact ⟨fun h => Bool.noConfusion h, fun h => absurd rfl h.1⟩
  · rw [Function.update_of_ne hx]
    exact ⟨fun h => ⟨hx, h⟩, fun h => h.2⟩

/-- The keys when the entry of `sn` gets a value. -/
private theorem taken_store (el : SnElem) (x : UInt8) :
    (Function.update u.snRing sn (some el) x).isSome = true ↔
      x = sn ∨ (u.snRing x).isSome = true := by
  by_cases hx : x = sn
  · subst hx
    rw [Function.update_self]
    exact ⟨fun _ => Or.inl rfl, fun _ => rfl⟩
  · rw [Function.update_of_ne hx]
    exact ⟨Or.inr, fun h => h.resolve_left hx⟩

/-- When the element of a slot is freed and the entry of its number changed, the
other elements keep theirs. -/
theorem Bookkeeping.freed_inRing {slot' : UInt64} (h : u.Bookkeeping)
    (hsn : u.snRing sn = some ⟨some slot'⟩) (hidx : u.txRingIndex slot' = u.txRingIndex slot)
    (value : Option SnElem) (i : Nat) (el : TxElem)
    (hel : (u.setTxElem slot { u.txElem slot with acknowledged := true }).txRing[i]? = some el)
    (hack : el.acknowledged = false) :
    ∃ slot'', Function.update u.snRing sn value el.sn = some ⟨some slot''⟩ ∧
      (u.setTxElem slot { u.txElem slot with acknowledged := true }).txRingIndex slot'' = i := by
  rcases setTxElem_get hel with ⟨_, rfl⟩ | ⟨hi, hold⟩
  · cases hack
  · obtain ⟨slot'', hsn'', hidx''⟩ := h.inRing i el hold hack
    refine ⟨slot'', update_ring_ne ?_ hsn'', (setTxElem_txRingIndex ..).trans hidx''⟩
    intro heq
    rw [heq, hsn] at hsn''
    have hslot := Option.some.inj (SnElem.mk.inj (Option.some.inj hsn''))
    rw [← hidx'', ← hslot, hidx] at hi
    exact hi rfl

theorem Bookkeeping.freed_used (h : u.Bookkeeping) (hun : (u.txElem slot).acknowledged = false) :
    u.usedTxSlots - 1 =
      (u.setTxElem slot { u.txElem slot with acknowledged := true }).inUse.length := by
  have hlen := (h.inUse_free hun).length_eq
  rw [List.length_cons] at hlen
  rw [h.used, hlen]
  omega

theorem Bookkeeping.set_length (h : u.Bookkeeping) (el : TxElem) :
    (u.setTxElem slot el).txRing.length = u.config.txSize.toNat :=
  (List.length_set ..).trans h.ringLength

/-- The slot of an outstanding PDU comes up: it moves to the list. -/
theorem Bookkeeping.toList (h : u.Bookkeeping) (hun : (u.txElem slot).acknowledged = false) :
    ({ u.setTxElem slot { u.txElem slot with acknowledged := true } with
      usedTxSlots := u.usedTxSlots - 1
      snRing := Function.update u.snRing (u.txElem slot).sn (some ⟨none⟩)
      retxList := u.retxList ++
        [{ sn := (u.txElem slot).sn
           retryCount := (u.txElem slot).retryCount
           llcPdu := (u.txElem slot).llcPdu
           pdu := (u.txElem slot).pdu }] } : LlcUl).Bookkeeping := by
  have hperm := h.inUse_free hun
  obtain ⟨slot', hsn, hidx⟩ := h.slot_of_ring hun
  refine ⟨h.valid, h.mode, h.set_length _, ?_, h.freed_inRing hsn hidx _, ?_, h.freed_used hun,
    ?_, h.noTx, h.noHappen⟩
  · refine h.ledger.reorder ?_ (fun x => ?_)
    · show u.outstanding.Perm (_ ++ List.map _ (u.retxList ++ [_]))
      rw [outstanding, List.map_append, ← List.append_assoc]
      have hmap := (hperm.map (fun el => (el.sn, el.pdu))).append_right
        (u.retxList.map (fun el => (el.sn, el.pdu)))
      exact hmap.trans (List.perm_append_singleton _ _).symm
    · rw [taken_store]
      constructor
      · rintro (rfl | hx)
        · rw [hsn]; rfl
        · exact hx
      · exact Or.inr
  · intro el hel
    show Function.update u.snRing _ _ el.sn = _
    by_cases heq : el.sn = (u.txElem slot).sn
    · rw [heq, Function.update_self]
    · rw [Function.update_of_ne heq]
      rcases List.mem_append.mp hel with hold | hnew
      · exact h.inList el hold
      · rw [List.mem_singleton.mp hnew] at heq
        exact absurd rfl heq
  · show u.pendingLlcPduCount = u.usedTxSlots - 1 + ((u.retxList ++ [_]).length : Nat)
    rw [List.length_append, List.length_singleton, h.pending]
    omega

/-- A PDU in the ring is acknowledged. -/
theorem Bookkeeping.ackRing (h : u.Bookkeeping) (hsn : u.snRing sn = some ⟨some slot⟩) :
    ({ u.setTxElem slot { u.txElem slot with acknowledged := true } with
      pendingLlcPduCount := u.pendingLlcPduCount - 1
      usedTxSlots := u.usedTxSlots - 1
      snRing := Function.update u.snRing sn none
      ackedPdus := u.ackedPdus ++ [(u.txElem slot).pdu] } : LlcUl).Bookkeeping := by
  obtain ⟨hun, heqsn⟩ := h.ring_of_slot hsn
  have hperm := h.inUse_free hun
  have hentry : Ledger ((sn, (u.txElem slot).pdu) ::
      ((u.setTxElem slot { u.txElem slot with acknowledged := true }).inUse.map
        (fun el => (el.sn, el.pdu)) ++ u.retxList.map (fun el => (el.sn, el.pdu))))
      (u.ackedPdus ++ u.lostPdus) (fun sn => (u.snRing sn).isSome = true) u.accepted := by
    refine h.ledger.reorder ?_ (fun _ => Iff.rfl)
    have hmap := (hperm.map (fun el => (el.sn, el.pdu))).append_right
      (u.retxList.map (fun el => (el.sn, el.pdu)))
    rw [← heqsn]
    exact hmap
  refine ⟨h.valid, h.mode, h.set_length _, ?_, h.freed_inRing hsn rfl _, ?_, h.freed_used hun,
    ?_, h.noTx, h.noHappen⟩
  · refine hentry.settle ?_ taken_erase
    show ((u.ackedPdus ++ [_]) ++ u.lostPdus).Perm _
    rw [List.append_assoc]
    exact List.perm_middle
  · intro el hel
    show Function.update u.snRing _ _ el.sn = _
    have hnone := h.inList el hel
    rw [Function.update_of_ne ?_]
    · exact hnone
    · intro heq
      rw [heq, hsn] at hnone
      cases hnone
  · show u.pendingLlcPduCount - 1 = u.usedTxSlots - 1 + (u.retxList.length : Nat)
    rw [h.pending]
    omega

/-- An entry of the list is settled: acknowledged or lost. -/
theorem Bookkeeping.dropList (h : u.Bookkeeping) (el : RetxElem) (rest : List RetxElem)
    (acked lost : List Nat) (hrest : u.retxList.Perm (el :: rest))
    (hsettled : (acked ++ lost).Perm (el.pdu :: (u.ackedPdus ++ u.lostPdus))) :
    ({ u with
      retxList := rest
      snRing := Function.update u.snRing el.sn none
      pendingLlcPduCount := u.pendingLlcPduCount - 1
      ackedPdus := acked
      lostPdus := lost } : LlcUl).Bookkeeping := by
  have hnone := h.inList el (hrest.mem_iff.mpr (List.mem_cons_self ..))
  have hentry : Ledger ((el.sn, el.pdu) ::
      (u.inUse.map (fun el => (el.sn, el.pdu)) ++ rest.map (fun el => (el.sn, el.pdu))))
      (u.ackedPdus ++ u.lostPdus) (fun sn => (u.snRing sn).isSome = true) u.accepted := by
    refine h.ledger.reorder ?_ (fun _ => Iff.rfl)
    exact ((hrest.map (fun el => (el.sn, el.pdu))).append_left _).trans List.perm_middle
  refine ⟨h.valid, h.mode, h.ringLength, hentry.settle hsettled taken_erase, ?_, ?_, h.used,
    ?_, h.noTx, h.noHappen⟩
  · intro i x hx hack
    obtain ⟨slot', hsn', hidx'⟩ := h.inRing i x hx hack
    refine ⟨slot', update_ring_ne ?_ hsn', hidx'⟩
    intro heq
    rw [heq, hnone] at hsn'
    cases hsn'
  · intro x hx
    have hne : x.sn ≠ el.sn := by
      have hmem : (x.sn, x.pdu) ∈ u.inUse.map (fun el => (el.sn, el.pdu)) ++
          rest.map (fun el => (el.sn, el.pdu)) :=
        List.mem_append_right _ (List.mem_map_of_mem (f := fun el => (el.sn, el.pdu)) hx)
      exact hentry.key_ne hmem
    show Function.update u.snRing _ _ x.sn = _
    rw [Function.update_of_ne hne]
    exact h.inList x (hrest.mem_iff.mpr (List.mem_cons_of_mem _ hx))
  · show u.pendingLlcPduCount - 1 = u.usedTxSlots + (rest.length : Nat)
    have hlen := hrest.length_eq
    rw [List.length_cons] at hlen
    rw [h.pending, hlen]
    omega

/-- When a free slot is taken under a number that no other element has, the
other elements keep their entries. -/
theorem Bookkeeping.taken_inRing (h : u.Bookkeeping) {new : TxElem}
    (hno : ∀ slot', u.snRing new.sn ≠ some ⟨some slot'⟩) (i : Nat) (el : TxElem)
    (hel : (u.setTxElem slot new).txRing[i]? = some el) (hack : el.acknowledged = false) :
    ∃ slot', Function.update u.snRing new.sn (some ⟨some slot⟩) el.sn = some ⟨some slot'⟩ ∧
      (u.setTxElem slot new).txRingIndex slot' = i := by
  rcases setTxElem_get hel with ⟨hi, rfl⟩ | ⟨_, hold⟩
  · exact ⟨slot, Function.update_self .., (setTxElem_txRingIndex ..).trans hi.symm⟩
  · obtain ⟨slot', hsn', hidx'⟩ := h.inRing i el hold hack
    refine ⟨slot', update_ring_ne ?_ hsn', (setTxElem_txRingIndex ..).trans hidx'⟩
    intro heq
    rw [heq] at hsn'
    exact hno slot' hsn'

theorem Bookkeeping.taken_used (h : u.Bookkeeping) {new : TxElem}
    (hfree : (u.txElem slot).acknowledged = true) (hnew : new.acknowledged = false) :
    u.usedTxSlots + 1 = (u.setTxElem slot new).inUse.length := by
  rw [(h.inUse_take hfree hnew).length_eq, List.length_cons, h.used]
  rfl

/-- A new PDU goes into a free slot. -/
theorem Bookkeeping.enter (h : u.Bookkeeping) (new : TxElem) (snCounter : UInt8)
    (hfree : (u.txElem slot).acknowledged = true) (hnew : new.acknowledged = false)
    (hpdu : new.pdu = u.accepted) (hsn : u.snRing new.sn = none) :
    ({ u.setTxElem slot new with
      usedTxSlots := u.usedTxSlots + 1
      snRing := Function.update u.snRing new.sn (some ⟨some slot⟩)
      snCounter := snCounter
      pendingLlcPduCount := u.pendingLlcPduCount + 1
      accepted := u.accepted + 1 } : LlcUl).Bookkeeping := by
  have hperm := h.inUse_take hfree hnew
  refine ⟨h.valid, h.mode, h.set_length _, ?_, h.taken_inRing (fun slot' => ?_), ?_,
    h.taken_used hfree hnew, ?_, h.noTx, h.noHappen⟩
  · have hentered := h.ledger.enter (k := new.sn)
      (by rw [hsn]; exact Bool.false_ne_true) (taken_store ⟨some slot⟩)
    refine hentered.reorder ?_ (fun _ => Iff.rfl)
    have hmap := (hperm.map (fun el => (el.sn, el.pdu))).append_right
      (u.retxList.map (fun el => (el.sn, el.pdu)))
    rw [List.map_cons, hpdu] at hmap
    exact hmap.symm
  · rw [hsn]
    exact (Option.some_ne_none _).symm
  · intro el hel
    have hnone := h.inList el hel
    show Function.update u.snRing _ _ el.sn = _
    rw [Function.update_of_ne ?_]
    · exact hnone
    · intro heq
      rw [heq, hsn] at hnone
      cases hnone
  · show u.pendingLlcPduCount + 1 = u.usedTxSlots + 1 + (u.retxList.length : Nat)
    rw [h.pending]
    omega

/-- The front of the list goes into a free slot again. -/
theorem Bookkeeping.toRing (h : u.Bookkeeping) (new : TxElem) {el : RetxElem}
    {rest : List RetxElem} (hlist : u.retxList = el :: rest)
    (hfree : (u.txElem slot).acknowledged = true) (hnew : new.acknowledged = false)
    (hsn : new.sn = el.sn) (hpdu : new.pdu = el.pdu) :
    ({ u.setTxElem slot new with
      usedTxSlots := u.usedTxSlots + 1
      snRing := Function.update u.snRing new.sn (some ⟨some slot⟩)
      retxList := rest } : LlcUl).Bookkeeping := by
  have hperm := h.inUse_take hfree hnew
  have hnone : u.snRing new.sn = some ⟨none⟩ := by
    rw [hsn]
    exact h.inList el (by rw [hlist]; exact List.mem_cons_self ..)
  have hmove : u.outstanding.Perm
      ((new.sn, new.pdu) :: (u.inUse.map (fun el => (el.sn, el.pdu)) ++
        rest.map (fun el => (el.sn, el.pdu)))) := by
    rw [outstanding, hlist, List.map_cons, hsn, hpdu]
    exact List.perm_middle
  have hentry := h.ledger.reorder hmove (fun _ => Iff.rfl)
  refine ⟨h.valid, h.mode, h.set_length _, ?_, h.taken_inRing (fun slot' => ?_), ?_,
    h.taken_used hfree hnew, ?_, h.noTx, h.noHappen⟩
  · refine hentry.reorder ?_ (fun x => ?_)
    · exact ((hperm.map (fun el => (el.sn, el.pdu))).append_right
        (rest.map (fun el => (el.sn, el.pdu)))).symm
    · rw [taken_store]
      constructor
      · rintro (rfl | hx)
        · rw [hnone]; rfl
        · exact hx
      · exact Or.inr
  · rw [hnone]
    rintro ⟨⟩
  · intro x hx
    have hne : x.sn ≠ new.sn := by
      have hmem : (x.sn, x.pdu) ∈ u.inUse.map (fun el => (el.sn, el.pdu)) ++
          rest.map (fun el => (el.sn, el.pdu)) :=
        List.mem_append_right _ (List.mem_map_of_mem (f := fun el => (el.sn, el.pdu)) hx)
      exact hentry.key_ne hmem
    show Function.update u.snRing _ _ x.sn = _
    rw [Function.update_of_ne hne]
    exact h.inList x (by rw [hlist]; exact List.mem_cons_of_mem _ hx)
  · show u.pendingLlcPduCount = u.usedTxSlots + 1 + (rest.length : Nat)
    rw [h.pending, hlist, List.length_cons]
    omega

end Calls

/-! ## Every call keeps the books -/

theorem findSlot_free {u : LlcUl} {slot slot' : UInt64} {n : Nat}
    (h : u.findSlot slot n = some slot') : (u.txElem slot').acknowledged = true := by
  induction n generalizing slot with
  | zero => cases h
  | succ n ih =>
      unfold findSlot at h
      split_ifs at h with hun
      · exact ih h
      · rw [← Option.some.inj h]
        simpa using hun

theorem Bookkeeping.reset {u : LlcUl} (hvalid : u.config.isValid = true)
    (hmode : u.config.mode = .am) : u.reset.Bookkeeping := by
  have hin : u.reset.inUse = [] := by
    unfold LlcUl.reset inUse
    rw [List.filter_replicate]
    rfl
  refine ⟨hvalid, hmode, List.length_replicate, ?_, ?_, ?_, ?_, rfl, rfl, rfl⟩
  · have hout : u.reset.outstanding = [] := by
      rw [outstanding, hin]
      rfl
    rw [hout]
    exact Ledger.nil (fun _ h => Bool.noConfusion h)
  · intro i el hel hack
    have hmem := List.mem_of_getElem? hel
    rw [(List.mem_replicate.mp hmem).2] at hack
    cases hack
  · intro el hel
    cases hel
  · rw [hin]
    rfl

theorem Bookkeeping.reconfigure {u : LlcUl} {c : LlcUlConfig} (hvalid : c.isValid = true)
    (hmode : c.mode = .am) : (u.reconfigure c).Bookkeeping := by
  have h : (LlcUl.reset { u with config := c }).Bookkeeping := .reset hvalid hmode
  unfold LlcUl.reconfigure validateConfig
  rw [if_pos (show (LlcUl.reset { u with config := c }).config.isValid = true from hvalid)]
  exact h

/-- What an update of the slot number does. -/
theorem Bookkeeping.update_cases {u : LlcUl} (h : u.Bookkeeping) (slot : UInt64) :
    (slot ≠ u.currentSlotNumber + 1 ∧ u.updateCurrentSlotNumber slot =
        ({ u with status := { u.status with slotSkipped := true } }, false)) ∨
      (slot = u.currentSlotNumber + 1 ∧ (u.txElem slot).acknowledged = true ∧
        u.updateCurrentSlotNumber slot =
          ({ u with
            status := { u.status with dataPduAllocated := false }
            currentSlotNumber := slot }, true)) ∨
      (slot = u.currentSlotNumber + 1 ∧ (u.txElem slot).acknowledged = false ∧
        u.updateCurrentSlotNumber slot =
          ({ u.setTxElem slot { u.txElem slot with acknowledged := true } with
            status := { u.status with
              dataPduAllocated := false, shouldNotHappen := false, spuriousAckSn := false }
            currentSlotNumber := slot
            usedTxSlots := u.usedTxSlots - 1
            snRing := Function.update u.snRing (u.txElem slot).sn (some ⟨none⟩)
            retxList := u.retxList ++
              [{ sn := (u.txElem slot).sn
                 retryCount := (u.txElem slot).retryCount
                 llcPdu := (u.txElem slot).llcPdu
                 pdu := (u.txElem slot).pdu }] }, true)) := by
  unfold LlcUl.updateCurrentSlotNumber
  rw [if_neg (by rw [h.mode]; decide)]
  by_cases hslot : slot = u.currentSlotNumber + 1
  · rw [if_neg (not_not.mpr hslot)]
    right
    have hsame : LlcUl.txElem { u with
        status := { u.status with dataPduAllocated := false }
        currentSlotNumber := slot } slot = u.txElem slot := rfl
    dsimp only
    rw [hsame]
    cases hack : (u.txElem slot).acknowledged with
    | true => exact Or.inl ⟨hslot, rfl, rfl⟩
    | false =>
        obtain ⟨slot', hsn, _⟩ := h.slot_of_ring hack
        refine Or.inr ⟨hslot, rfl, ?_⟩
        dsimp only [setTxElem]
        rw [if_pos (by rfl), hsn]
        rfl
  · rw [if_pos hslot]
    exact Or.inl ⟨hslot, rfl⟩

theorem Bookkeeping.updateCurrentSlotNumber {u : LlcUl} (h : u.Bookkeeping) (slot : UInt64) :
    (u.updateCurrentSlotNumber slot).1.Bookkeeping := by
  rcases h.update_cases slot with ⟨_, heq⟩ | ⟨_, _, heq⟩ | ⟨_, hun, heq⟩
  · rw [heq]
    exact h.of_status h.noTx h.noHappen
  · rw [heq]
    exact h.of_status h.noTx h.noHappen
  · rw [heq]
    exact (h.toList hun).of_status h.noTx rfl

/-- What an acknowledgement does: nothing but the status, or it settles a PDU that is
in the list or in the ring. -/
theorem Bookkeeping.acknowledge_cases {u : LlcUl} (h : u.Bookkeeping) (sn : UInt8) :
    (u.snRing sn = none ∧
        u.acknowledge sn = ({ u with status := u.status.acknowledged false }, false)) ∨
      (∃ before el after, u.snRing sn = some ⟨none⟩ ∧
        u.retxList = before ++ el :: after ∧ el.sn = sn ∧
        u.acknowledge sn =
          ({ u with
            status := u.status.acknowledged true
            retxList := before ++ after
            snRing := Function.update u.snRing sn none
            pendingLlcPduCount := u.pendingLlcPduCount - 1
            ackedPdus := u.ackedPdus ++ [el.pdu] }, true)) ∨
      (∃ slot, u.snRing sn = some ⟨some slot⟩ ∧
        (u.txElem slot).acknowledged = false ∧ (u.txElem slot).sn = sn ∧
        u.acknowledge sn =
          ({ u.setTxElem slot { u.txElem slot with acknowledged := true } with
            status := u.status.acknowledged true
            pendingLlcPduCount := u.pendingLlcPduCount - 1
            usedTxSlots := u.usedTxSlots - 1
            snRing := Function.update u.snRing sn none
            ackedPdus := u.ackedPdus ++ [(u.txElem slot).pdu] }, true)) := by
  unfold LlcUl.acknowledge
  dsimp only
  rcases hsn : u.snRing sn with _ | ⟨_ | slot⟩
  · exact Or.inl ⟨rfl, rfl⟩
  · right; left
    obtain ⟨el', hel', hsn'⟩ := h.list_of_none hsn
    obtain ⟨el, before, after, hno, hp, hl, herase⟩ :=
      List.exists_of_eraseP (p := fun el => el.sn == sn) hel' (by simp [hsn'])
    have hfind : u.retxList.find? (fun el => el.sn == sn) = some el := by
      rw [hl, List.find?_append, List.find?_eq_none.mpr (fun x hx => hno x hx)]
      simp [hp]
    refine ⟨before, el, after, rfl, hl, by simpa using hp, ?_⟩
    dsimp only
    rw [hfind, herase]
    rfl
  · right; right
    obtain ⟨hun, heqsn⟩ := h.ring_of_slot hsn
    refine ⟨slot, rfl, hun, heqsn, ?_⟩
    have hsame : ∀ status, LlcUl.txElem { u with status := status } slot = u.txElem slot :=
      fun _ => rfl
    dsimp only
    rw [hsame, hun]
    rfl

theorem Bookkeeping.acknowledge {u : LlcUl} (h : u.Bookkeeping) (sn : UInt8) :
    (u.acknowledge sn).1.Bookkeeping := by
  rcases h.acknowledge_cases sn with ⟨_, heq⟩ | ⟨before, el, after, _, hl, rfl, heq⟩ |
    ⟨slot, hsn, _, _, heq⟩
  · rw [heq]
    exact h.of_status rfl rfl
  · rw [heq]
    have hnext := h.dropList el (before ++ after) (u.ackedPdus ++ [el.pdu]) u.lostPdus
      (by rw [hl]; exact List.perm_middle)
      (by rw [List.append_assoc]; exact List.perm_middle)
    exact hnext.of_status rfl rfl
  · rw [heq]
    exact (h.ackRing hsn).of_status rfl rfl

/-- Probing does not look at the status. -/
theorem findSlot_status (u : LlcUl) (status : Status) (slot : UInt64) (n : Nat) :
    LlcUl.findSlot { u with status := status } slot n = u.findSlot slot n := by
  induction n generalizing slot with
  | zero => rfl
  | succ n ih =>
      unfold findSlot
      rw [ih]
      rfl

/-- What `enqueue_tx_check` does. -/
theorem enqueueTxCheck_cases (u : LlcUl) (llcPdu : List UInt8) (sn : UInt8)
    (retryCount : UInt64) (pdu : Nat) :
    (u.findSlot (u.currentSlotNumber + u.recheckSlotSize retryCount)
          u.config.txSize.toNat = none ∧
        u.enqueueTxCheck llcPdu sn retryCount pdu =
          ({ u with status := { u.status with noTxSlot := true } }, none)) ∨
      ∃ slot, u.findSlot (u.currentSlotNumber + u.recheckSlotSize retryCount)
          u.config.txSize.toNat = some slot ∧
        u.enqueueTxCheck llcPdu sn retryCount pdu =
          ({ u.setTxElem slot
              { acknowledged := false, sn := sn, retryCount := retryCount, llcPdu := llcPdu,
                pdu := pdu } with
            status := { u.status with noTxSlot := false }
            usedTxSlots := u.usedTxSlots + 1 }, some slot) := by
  unfold enqueueTxCheck
  dsimp only
  have hrecheck : ∀ status, LlcUl.recheckSlotSize { u with status := status } retryCount =
      u.recheckSlotSize retryCount := fun _ => rfl
  rw [u.findSlot_status { u.status with noTxSlot := false },
    hrecheck { u.status with noTxSlot := false }]
  cases u.findSlot (u.currentSlotNumber + u.recheckSlotSize retryCount)
      u.config.txSize.toNat with
  | none => exact Or.inl ⟨rfl, rfl⟩
  | some slot => exact Or.inr ⟨slot, rfl, rfl⟩

/-- The front of the list may be given up or sent again into a buffer. -/
structure Resendable (u : LlcUl) (target : List UInt8) (el : RetxElem) (rest : List RetxElem) :
    Prop where
  allocated : u.status.dataPduAllocated = false
  list : u.retxList = el :: rest
  nonempty : el.llcPdu.length ≠ 0
  room : el.llcPdu.length ≤ target.length

/-- What `write_retransmission_pdu` does with the front of the list. -/
theorem Bookkeeping.resend {u : LlcUl} (h : u.Bookkeeping) {target : List UInt8} {el : RetxElem}
    {rest : List RetxElem} (hfront : u.Resendable target el rest) :
    u.writeRetransmissionPdu target =
      if el.retryCount ≥ u.config.maxRetxCount then
        ({ u with
          status := { u.status with
            writeBufferTooSmall := false, spuriousAckSn := false, shouldNotHappen := false,
            snLost := true }
          snRing := Function.update u.snRing el.sn none
          retxList := rest
          pendingLlcPduCount := u.pendingLlcPduCount - 1
          lostPdus := u.lostPdus ++ [el.pdu] }, target, 0)
      else
        match ({ u with
            status := { u.status with
              writeBufferTooSmall := false, spuriousAckSn := false, shouldNotHappen := false,
              snLost := false } } : LlcUl).enqueueTxCheck
            el.llcPdu el.sn (el.retryCount + 1) el.pdu with
        | (u, none) => (u, poke target 0 el.llcPdu, 0)
        | (u, some slot) =>
          ({ u with
            snRing := Function.update u.snRing el.sn (some ⟨some slot⟩)
            retxList := rest
            status := { u.status with dataPduAllocated := true } },
            poke target 0 el.llcPdu, el.llcPdu.length) := by
  have hlist := hfront.list
  have hsn := h.inList el (by rw [hlist]; exact List.mem_cons_self ..)
  unfold LlcUl.writeRetransmissionPdu
  rw [hfront.allocated, if_neg Bool.false_ne_true, h.mode, if_neg (by decide), hlist]
  dsimp only
  rw [if_neg hfront.nonempty, if_neg (Nat.not_lt.mpr hfront.room)]
  rewrite [hsn, ← hlist]
  rfl

/-- Otherwise a bit of the status may change. -/
theorem Bookkeeping.writeRetransmissionPdu_cases {u : LlcUl} (h : u.Bookkeeping)
    (target : List UInt8) :
    (∃ small, u.writeRetransmissionPdu target =
        ({ u with status := { u.status with writeBufferTooSmall := small } }, target, 0)) ∨
      ∃ el rest, u.Resendable target el rest := by
  cases halloc : u.status.dataPduAllocated with
  | true => exact Or.inl ⟨u.status.writeBufferTooSmall, if_pos halloc⟩
  | false =>
      have hwrite := LlcUl.writeRetransmissionPdu.eq_def u target
      rw [halloc, if_neg Bool.false_ne_true, h.mode, if_neg (by decide)] at hwrite
      obtain hlist | ⟨el, rest, hlist⟩ : u.retxList = [] ∨ ∃ el rest, u.retxList = el :: rest := by
        cases u.retxList with
        | nil => exact Or.inl rfl
        | cons el rest => exact Or.inr ⟨el, rest, rfl⟩
      · rw [hlist] at hwrite
        exact Or.inl ⟨u.status.writeBufferTooSmall, hwrite⟩
      · rw [hlist] at hwrite
        dsimp only at hwrite
        by_cases hempty : el.llcPdu.length = 0
        · rw [if_pos hempty] at hwrite
          exact Or.inl ⟨u.status.writeBufferTooSmall, hwrite⟩
        rw [if_neg hempty] at hwrite
        by_cases hroom : el.llcPdu.length > target.length
        · rw [if_pos hroom, ← hlist] at hwrite
          exact Or.inl ⟨true, hwrite⟩
        · exact Or.inr ⟨el, rest, halloc, hlist, hempty, Nat.not_lt.mp hroom⟩

theorem Bookkeeping.writeRetransmissionPdu {u : LlcUl} (h : u.Bookkeeping)
    (target : List UInt8) : (u.writeRetransmissionPdu target).1.Bookkeeping := by
  rcases h.writeRetransmissionPdu_cases target with ⟨small, heq⟩ | ⟨el, rest, hfront⟩
  · rw [heq]
    exact h.of_status h.noTx h.noHappen
  rw [h.resend hfront]
  split_ifs with hretry
  · have hnext := h.dropList el rest u.ackedPdus (u.lostPdus ++ [el.pdu])
      (by rw [hfront.list]) ?_
    · exact hnext.of_status h.noTx rfl
    · rw [← List.append_assoc]
      exact List.perm_append_singleton _ _
  · have hbook : ({ u with
        status := { u.status with
          writeBufferTooSmall := false, spuriousAckSn := false, shouldNotHappen := false,
          snLost := false } } : LlcUl).Bookkeeping := h.of_status h.noTx rfl
    rcases enqueueTxCheck_cases ({ u with
        status := { u.status with
          writeBufferTooSmall := false, spuriousAckSn := false, shouldNotHappen := false,
          snLost := false } } : LlcUl) el.llcPdu el.sn (el.retryCount + 1) el.pdu with
      ⟨_, heq⟩ | ⟨slot, hslot, heq⟩
    · rw [heq]
      exact hbook.of_status hbook.noTx hbook.noHappen
    · rw [heq]
      have hnext := hbook.toRing
        { acknowledged := false, sn := el.sn, retryCount := el.retryCount + 1,
          llcPdu := el.llcPdu, pdu := el.pdu }
        hfront.list (findSlot_free hslot) rfl rfl rfl
      exact hnext.of_status h.noTx rfl

/-- The header stores leave the flag `A` alone. -/
theorem stampLlcPdu_getA (config : LlcUlConfig) (snCounter : UInt8) (llc : LlcPdu) :
    (stampLlcPdu config snCounter llc).getA = llc.getA := by
  have hsn : (if llc.getA = true then llc.setSN 0 else llc.setSN snCounter).getA =
      llc.getA := by
    split <;> exact LlcPdu.getA_setSN ..
  unfold stampLlcPdu
  dsimp only
  split
  · exact hsn
  · rw [LlcPdu.getA_storeCRC, LlcPdu.getA_storeCRC, hsn]

/-- The state in which `write_llc_pdu` sends a data PDU. -/
structure Sendable (u : LlcUl) : Prop where
  allocated : u.status.dataPduAllocated = false
  free : u.snRing u.snCounter = none

/-- A call that sends no data PDU: bits of the status and the sequence number
may change. -/
def Unsent (u u' : LlcUl) : Prop :=
  ∃ status snCounter, u.status.Kept status ∧
    u' = { u with status := status, snCounter := snCounter }

/-- What `write_llc_pdu` does in acknowledged mode: it sends no data PDU, or it
sends one through `send_llc_pdu`. -/
theorem writeLlcPdu_cases {u : LlcUl} (hmode : u.config.mode = .am) (target : List UInt8) :
    (u.Unsent (u.writeLlcPdu target).1 ∧
        (u.writeLlcPdu target).1.status.noTxSlot = u.status.noTxSlot) ∨
      (u.Sendable ∧ ∃ status, u.status.Kept status ∧
        (LlcPdu.new target target.length u.config.crcSize).getA = false ∧
        (LlcPdu.new target target.length u.config.crcSize).isValid = true ∧
        u.writeLlcPdu target = ({ u with status := status } : LlcUl).sendLlcPdu
          (stampLlcPdu u.config u.snCounter
            (LlcPdu.new target target.length u.config.crcSize))) := by
  unfold LlcUl.writeLlcPdu
  cases halloc : u.status.dataPduAllocated with
  | true => exact Or.inl ⟨⟨u.status, u.snCounter, ⟨rfl, rfl, rfl⟩, rfl⟩, rfl⟩
  | false =>
      dsimp only
      rw [if_neg Bool.false_ne_true]
      generalize LlcPdu.new target target.length u.config.crcSize = llc
      by_cases hfree : (decide (u.config.mode = .am) && !llc.getA &&
          (u.snRing u.snCounter).isSome) = true
      · rw [if_pos hfree]
        refine Or.inl ⟨⟨_, u.snCounter, ?_, rfl⟩, rfl⟩
        exact ⟨rfl, rfl, rfl⟩
      · rw [if_neg hfree]
        cases hvalid : llc.isValid with
        | false =>
            refine Or.inl ⟨⟨_, u.snCounter, ?_, rfl⟩, rfl⟩
            exact ⟨rfl, rfl, rfl⟩
        | true =>
            rw [if_neg (by decide)]
            have hA := stampLlcPdu_getA u.config u.snCounter llc
            cases hack : llc.getA with
            | true =>
                left
                unfold sendLlcPdu
                rw [if_neg (by rw [hA, hack]; simp)]
                refine ⟨⟨_, u.snCounter + 1, ?_, rfl⟩, rfl⟩
                exact ⟨rfl, rfl, rfl⟩
            | false =>
                right
                rw [hmode, hack] at hfree
                refine ⟨⟨halloc, by simpa using hfree⟩, _, ?_, rfl, rfl, rfl⟩
                exact ⟨rfl, rfl, rfl⟩

theorem Bookkeeping.sendLlcPdu {u : LlcUl} (h : u.Bookkeeping) (hfree : u.snRing u.snCounter = none)
    {llc : LlcPdu} (hA : llc.getA = false) : (u.sendLlcPdu llc).1.Bookkeeping := by
  unfold LlcUl.sendLlcPdu
  rw [if_pos (by rw [h.mode, hA]; rfl)]
  rcases u.enqueueTxCheck_cases llc.base u.snCounter 0 u.accepted with
    ⟨_, heq⟩ | ⟨slot, hslot, heq⟩
  · rw [heq]
    exact h.of_status h.noTx h.noHappen
  · rw [heq]
    have hnext := h.enter
      { acknowledged := false, sn := u.snCounter, retryCount := 0, llcPdu := llc.base,
        pdu := u.accepted }
      (u.snCounter + 1) (findSlot_free hslot) rfl rfl hfree
    exact hnext.of_status h.noTx h.noHappen

theorem Bookkeeping.writeLlcPdu {u : LlcUl} (h : u.Bookkeeping) (target : List UInt8) :
    (u.writeLlcPdu target).1.Bookkeeping := by
  rcases writeLlcPdu_cases h.mode target with
    ⟨⟨status, snCounter, hkept, heq⟩, _⟩ | ⟨hsend, status, hkept, hA, -, heq⟩
  · rw [heq]
    exact h.of_status (hkept.spuriousAckTx.trans h.noTx) (hkept.shouldNotHappen.trans h.noHappen)
  · rw [heq]
    have hnext : ({ u with status := status } : LlcUl).Bookkeeping :=
      h.of_status (hkept.spuriousAckTx.trans h.noTx) (hkept.shouldNotHappen.trans h.noHappen)
    exact hnext.sendLlcPdu hsend.free ((stampLlcPdu_getA ..).trans hA)

/-- Every call keeps the books. -/
theorem Bookkeeping.step {u : LlcUl} (h : u.Bookkeeping) {op : Op} (hop : op.IsAm) :
    (u.step op).Bookkeeping := by
  cases op with
  | updateCurrentSlotNumber slot => exact h.updateCurrentSlotNumber slot
  | writeLlcPdu target => exact h.writeLlcPdu target
  | writeRetransmissionPdu target => exact h.writeRetransmissionPdu target
  | acknowledge sn => exact h.acknowledge sn
  | reset => exact .reset h.valid h.mode
  | reconfigure config => exact .reconfigure hop.1 hop.2

theorem Bookkeeping.new {config : LlcUlConfig} (hvalid : config.isValid = true)
    (hmode : config.mode = .am) : (LlcUl.new config).Bookkeeping :=
  Bookkeeping.reconfigure (u := { config := config }) hvalid hmode

theorem Bookkeeping.run {u : LlcUl} (h : u.Bookkeeping) {ops : List Op}
    (hops : ∀ op ∈ ops, op.IsAm) : (u.run ops).Bookkeeping := by
  induction ops generalizing u with
  | nil => exact h
  | cons op ops ih =>
      exact ih (h.step (hops op (List.mem_cons_self ..)))
        (fun x hx => hops x (List.mem_cons_of_mem _ hx))

/-! ## What a user sees -/

/-- The agreement in the terms of `llc_ul`. -/
structure Consistent (u : LlcUl) : Prop where
  /-- Every accepted PDU is in exactly one place. -/
  places : (u.inUse.map (·.pdu) ++ u.retxList.map (·.pdu) ++ u.ackedPdus ++ u.lostPdus).Perm
    (List.range u.accepted)
  /-- A number is taken iff exactly one outstanding PDU has it. -/
  occupied : ∀ sn, (u.snRing sn).isSome = true ↔
    (u.inUse.map (·.sn) ++ u.retxList.map (·.sn)).count sn = 1
  /-- A number with a slot points to its element, which waits. -/
  inRing : ∀ sn slot, u.snRing sn = some ⟨some slot⟩ →
    (u.txElem slot).acknowledged = false ∧ (u.txElem slot).sn = sn
  /-- A number without a slot is in the retransmission list. -/
  inList : ∀ sn, u.snRing sn = some ⟨none⟩ → ∃ el ∈ u.retxList, el.sn = sn
  used : u.usedTxSlots = u.inUse.length
  pending : u.pendingLlcPduCount = u.usedTxSlots + u.retxList.length
  noHappen : u.status.shouldNotHappen = false
  noTx : u.status.spuriousAckTx = false

theorem Bookkeeping.consistent {u : LlcUl} (h : u.Bookkeeping) : u.Consistent where
  places := by
    have hitems := h.ledger.items
    rw [outstanding, List.map_append, List.map_map, List.map_map, ← List.append_assoc] at hitems
    exact hitems
  occupied sn := by
    have hcount := h.ledger.count_key sn
    rw [outstanding, List.map_append, List.map_map, List.map_map] at hcount
    exact hcount
  inRing _ _ := h.ring_of_slot
  inList _ := h.list_of_none
  used := h.used
  pending := h.pending
  noHappen := h.noHappen
  noTx := h.noTx

/-- **The bookkeeping of the LLC uplink holds in every run**, for every accepted
configuration in acknowledged mode. -/
theorem bookkeeping_holds (config : LlcUlConfig) (hvalid : config.isValid = true)
    (hmode : config.mode = .am) (ops : List Op) (hops : ∀ op ∈ ops, op.IsAm) :
    ((new config).run ops).Consistent :=
  ((Bookkeeping.new hvalid hmode).run hops).consistent

/-- A run on a ring of four slots: two PDUs, of which one comes up for
retransmission and the other is acknowledged. -/
theorem bookkeeping_two_pdus :
    let u := (new { mode := .am, txSize := 4, minRecheckSlotNumber := 1,
                    maxRecheckSlotNumber := 2 }).run
      [.updateCurrentSlotNumber 1, .writeLlcPdu [0, 0, 3], .updateCurrentSlotNumber 2,
        .writeLlcPdu [0, 0, 3], .acknowledge 1]
    u.Consistent ∧ u.retxList.length = 1 ∧ u.ackedPdus = [1] :=
  ⟨bookkeeping_holds _ (by decide) rfl _ (by decide), by decide, by decide⟩

end LlcUl

end Winject.Llc
