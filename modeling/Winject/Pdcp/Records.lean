import Winject.Lib.Runs
import Winject.Pdcp.DlSafety
import Winject.Pdcp.Parse

/-!
# The reassembly records of the downlink

A receiver that is given arbitrary bytes keeps its records in two containers, and a
number may have one in each of them.  `Holds` says that a receiver keeps a record for
a number, in an occupied slot or in an overflow entry, and the functions of the
receiver are described by what they do to the records.

## Main results

* `rxReceived_holds`, `rxReceived_delivers` — what the body of the loop of
  `on_pdcp_data` does.
* `flushStep_delivers`, `noneHeld_of_flushStep` — what a flush step does, and what holds
  where the flush stops.
-/

namespace Winject.Pdcp

open Winject.Frames
open Winject.Lib.Bytes

namespace PdcpDl

/-! ## Records -/

/-- The receiver keeps the record `st` for `sn`. -/
def Holds (d : PdcpDl) (sn : Nat) (st : ReassemblyState) : Prop :=
  (∃ slot ∈ d.reorderRing, slot.valid = true ∧ slot.sn = sn ∧ slot.state = st) ∨
    (sn, st) ∈ d.overflowDeque

/-- The record that a segment of number `sn` goes to; empty for a new one. -/
def recordOf (d : PdcpDl) (sn : Nat) : ReassemblyState :=
  (d.locate sn).2.stateAt (d.locate sn).1

/-- The record behind a segment. -/
def recordBehind (d : PdcpDl) (g : Received) : ReassemblyState :=
  (d.recordOf g.sn).receive g.offset g.payload g.last

/-- The completion test on the record behind a segment. -/
def finishes (d : PdcpDl) (g : Received) : Bool :=
  (d.recordBehind g).hasExpectedSize &&
    (d.recordBehind g).accumulatedSize == (d.recordBehind g).expectedSize

theorem finishes_complete {d : PdcpDl} {g : Received} (h : d.finishes g = true) :
    (d.recordBehind g).isComplete = true := by
  unfold recordBehind
  rw [ReassemblyState.receive_isComplete, ReassemblyState.asm_isComplete]
  exact Bool.or_eq_true_iff.mpr (Or.inr h)

/-- The places of a record: a free slot, its own slot, its overflow entry, or a new
one. -/
theorem locate_cases (d : PdcpDl) (sn : Nat) :
    (∃ slot, d.reorderRing[d.slotIndex sn]? = some slot ∧ slot.valid = false ∧
      d.locate sn = (.ring (d.slotIndex sn), { d with
        reorderRing :=
          d.reorderRing.set (d.slotIndex sn) { sn := sn, state := {}, valid := true } })) ∨
    (∃ slot, d.reorderRing[d.slotIndex sn]? = some slot ∧ slot.valid = true ∧
      slot.sn = sn ∧ d.locate sn = (.ring (d.slotIndex sn), d)) ∨
    (∃ i st, d.overflowDeque[i]? = some (sn, st) ∧ d.locate sn = (.overflow i, d)) ∨
    d.locate sn = (.overflow d.overflowDeque.length,
      { d with overflowDeque := d.overflowDeque ++ [(sn, {})] }) := by
  have hover : d.getOrPutSlot sn = (none, d) →
      (∃ i st, d.overflowDeque[i]? = some (sn, st) ∧ d.locate sn = (.overflow i, d)) ∨
        d.locate sn = (.overflow d.overflowDeque.length,
          { d with overflowDeque := d.overflowDeque ++ [(sn, {})] }) := by
    intro hput
    cases hfind : d.findOverflow sn with
    | none =>
        right
        simp only [locate, hput, hfind]
    | some i =>
        left
        obtain ⟨hi, hp, -⟩ := List.findIdx?_eq_some_iff_getElem.mp hfind
        rw [beq_iff_eq] at hp
        refine ⟨i, (d.overflowDeque[i]).2, ?_, ?_⟩
        · rw [List.getElem?_eq_getElem hi, ← hp]
        · simp only [locate, hput, hfind]
  cases hslot : d.reorderRing[d.slotIndex sn]? with
  | none =>
      right
      right
      apply hover
      simp only [getOrPutSlot, hslot]
  | some slot =>
      cases hv : slot.valid with
      | false =>
          left
          refine ⟨slot, rfl, hv, ?_⟩
          simp [locate, getOrPutSlot, hslot, hv]
      | true =>
          right
          by_cases hsn : slot.sn = sn
          · left
            refine ⟨slot, rfl, hv, hsn, ?_⟩
            simp [locate, getOrPutSlot, hslot, hv, hsn]
          · right
            apply hover
            simp [getOrPutSlot, hslot, hv, hsn]

/-- The record of a number is empty or one that the receiver keeps. -/
theorem recordOf_cases (d : PdcpDl) (sn : Nat) :
    d.recordOf sn = {} ∨ d.Holds sn (d.recordOf sn) := by
  unfold recordOf
  rcases d.locate_cases sn with ⟨slot, hslot, -, hloc⟩ | ⟨slot, hslot, hv, hsn, hloc⟩ |
      ⟨i, st, hi, hloc⟩ | hloc
  · left
    obtain ⟨hlt, -⟩ := List.getElem?_eq_some_iff.mp hslot
    rw [hloc]
    simp [stateAt, List.getD_eq_getElem?_getD, hlt]
  · right
    left
    rw [hloc]
    refine ⟨slot, List.mem_of_getElem? hslot, hv, hsn, ?_⟩
    simp [stateAt, List.getD_eq_getElem?_getD, hslot]
  · right
    right
    rw [hloc]
    have hst : d.stateAt (.overflow i) = st := by
      simp [stateAt, List.getD_eq_getElem?_getD, hi]
    rw [hst]
    exact List.mem_of_getElem? hi
  · left
    rw [hloc]
    simp [stateAt, List.getD_eq_getElem?_getD]

/-- The receiver with the record of a segment replaced by the one behind it. -/
def storeReceived (d : PdcpDl) (g : Received) : PdcpDl :=
  (d.locate g.sn).2.setStateAt (d.locate g.sn).1 (d.recordBehind g)

theorem rxReceived_eq (d : PdcpDl) (g : Received) :
    d.rxReceived g =
      if d.finishes g && !d.config.allowReordering then
        (d.storeReceived g).releaseCompleted g.sn (d.locate g.sn).1
      else d.storeReceived g := by
  unfold rxReceived rxSegment
  dsimp only
  rw [setStateAt_config, locate_config]
  rfl

/-- The containers behind a store, by the place of the record. -/
theorem storeReceived_cases (d : PdcpDl) (g : Received) :
    (∃ slot, d.reorderRing[d.slotIndex g.sn]? = some slot ∧
      (slot.valid = true → slot.sn = g.sn ∧ d.recordOf g.sn = slot.state) ∧
      (d.locate g.sn).1 = .ring (d.slotIndex g.sn) ∧
      d.storeReceived g = { d with
        reorderRing := d.reorderRing.set (d.slotIndex g.sn)
          { sn := g.sn, state := d.recordBehind g, valid := true } }) ∨
    (∃ i, d.overflowDeque[i]? = some (g.sn, d.recordOf g.sn) ∧
      (d.locate g.sn).1 = .overflow i ∧
      d.storeReceived g = { d with
        overflowDeque := d.overflowDeque.set i (g.sn, d.recordBehind g) }) ∨
    ((d.locate g.sn).1 = .overflow d.overflowDeque.length ∧
      d.storeReceived g = { d with
        overflowDeque := d.overflowDeque ++ [(g.sn, d.recordBehind g)] }) := by
  unfold storeReceived
  generalize hst : d.recordBehind g = st
  rcases d.locate_cases g.sn with ⟨slot, hslot, hv, hloc⟩ | ⟨slot, hslot, hv, hsn, hloc⟩ |
      ⟨i, st₀, hi, hloc⟩ | hloc
  · left
    obtain ⟨hlt, -⟩ := List.getElem?_eq_some_iff.mp hslot
    refine ⟨slot, hslot, (fun hv' => by rw [hv] at hv'; cases hv'), by rw [hloc], ?_⟩
    rw [hloc]
    simp [setStateAt, List.getD_eq_getElem?_getD, hlt]
  · left
    refine ⟨slot, hslot, fun _ => ⟨hsn, ?_⟩, by rw [hloc], ?_⟩
    · unfold recordOf
      rw [hloc]
      simp [stateAt, List.getD_eq_getElem?_getD, hslot]
    · rw [hloc]
      simp [setStateAt, List.getD_eq_getElem?_getD, hslot, hsn, hv]
  · right
    left
    have hrec : d.recordOf g.sn = st₀ := by
      unfold recordOf
      rw [hloc]
      simp [stateAt, List.getD_eq_getElem?_getD, hi]
    refine ⟨i, by rw [hi, hrec], by rw [hloc], ?_⟩
    rw [hloc]
    simp [setStateAt, List.getD_eq_getElem?_getD, hi]
  · right
    right
    refine ⟨by rw [hloc], ?_⟩
    rw [hloc]
    simp [setStateAt, List.getD_eq_getElem?_getD]

/-- A store changes the record of its number only. -/
theorem storeReceived_holds {d : PdcpDl} {g : Received} {sn : Nat} {st : ReassemblyState}
    (h : (d.storeReceived g).Holds sn st) :
    d.Holds sn st ∨ (sn = g.sn ∧ st = d.recordBehind g) := by
  rcases d.storeReceived_cases g with ⟨slot, -, -, -, heq⟩ | ⟨i, -, -, heq⟩ | ⟨-, heq⟩
  · rw [heq] at h
    rcases h with ⟨slot', hmem, hv, hsn, hstate⟩ | hmem
    · rcases List.mem_or_eq_of_mem_set hmem with hmem | rfl
      · exact Or.inl (Or.inl ⟨slot', hmem, hv, hsn, hstate⟩)
      · exact Or.inr ⟨hsn.symm, hstate.symm⟩
    · exact Or.inl (Or.inr hmem)
  · rw [heq] at h
    rcases h with hring | hmem
    · exact Or.inl (Or.inl hring)
    · rcases List.mem_or_eq_of_mem_set hmem with hmem | hnew
      · exact Or.inl (Or.inr hmem)
      · exact Or.inr (Prod.mk.inj hnew)
  · rw [heq] at h
    rcases h with hring | hmem
    · exact Or.inl (Or.inl hring)
    · rcases List.mem_append.mp hmem with hmem | hnew
      · exact Or.inl (Or.inr hmem)
      · exact Or.inr (Prod.mk.inj (List.mem_singleton.mp hnew))

/-- The record of a stored segment is kept. -/
theorem storeReceived_holds_self (d : PdcpDl) (g : Received) :
    (d.storeReceived g).Holds g.sn (d.recordBehind g) := by
  rcases d.storeReceived_cases g with ⟨slot, hslot, -, -, heq⟩ | ⟨i, hi, -, heq⟩ | ⟨-, heq⟩
  · obtain ⟨hlt, -⟩ := List.getElem?_eq_some_iff.mp hslot
    rw [heq]
    exact Or.inl ⟨_, List.mem_set hlt _, rfl, rfl, rfl⟩
  · obtain ⟨hlt, -⟩ := List.getElem?_eq_some_iff.mp hi
    rw [heq]
    exact Or.inr (List.mem_set hlt _)
  · rw [heq]
    exact Or.inr (List.mem_append_right _ (List.mem_singleton_self _))

/-- A complete record stays, or it is the one that is stored into. -/
theorem storeReceived_keeps_complete {d : PdcpDl} {sn : Nat} {st : ReassemblyState}
    (h : d.Holds sn st) (hc : st.isComplete = true) (g : Received) :
    ∃ st', (d.storeReceived g).Holds sn st' ∧ st'.isComplete = true := by
  have hself : d.recordOf g.sn = st → (d.recordBehind g).isComplete = true := by
    intro hrec
    unfold recordBehind
    rw [ReassemblyState.receive_isComplete, hrec, hc]
    rfl
  have hstored := d.storeReceived_holds_self g
  rcases d.storeReceived_cases g with ⟨slot, hslot, hown, -, heq⟩ | ⟨i, hi, -, heq⟩ | ⟨-, heq⟩
  · rcases h with ⟨slot', hmem, hv, hsn, hstate⟩ | hmem
    · obtain ⟨j, hj⟩ := List.mem_iff_getElem?.mp hmem
      by_cases hij : d.slotIndex g.sn = j
      · rw [← hij, hslot] at hj
        obtain rfl := Option.some.inj hj
        obtain ⟨hgsn, hrec⟩ := hown hv
        rw [← hsn, hgsn]
        exact ⟨_, hstored, hself (hrec.trans hstate)⟩
      · refine ⟨st, ?_, hc⟩
        rw [heq]
        have hkept : slot' ∈ d.reorderRing.set (d.slotIndex g.sn)
            { sn := g.sn, state := d.recordBehind g, valid := true } := by
          refine List.mem_of_getElem? (i := j) ?_
          rw [List.getElem?_set_ne hij]
          exact hj
        exact Or.inl ⟨slot', hkept, hv, hsn, hstate⟩
    · exact ⟨st, by rw [heq]; exact Or.inr hmem, hc⟩
  · rcases h with hring | hmem
    · exact ⟨st, by rw [heq]; exact Or.inl hring, hc⟩
    · obtain ⟨j, hj⟩ := List.mem_iff_getElem?.mp hmem
      by_cases hij : i = j
      · subst hij
        rw [hi] at hj
        obtain ⟨hgsn, hrec⟩ := Prod.mk.inj (Option.some.inj hj)
        rw [← hgsn]
        exact ⟨_, hstored, hself hrec⟩
      · refine ⟨st, ?_, hc⟩
        rw [heq]
        refine Or.inr (List.mem_of_getElem? (i := j) ?_)
        dsimp only
        rw [List.getElem?_set_ne hij]
        exact hj
  · rcases h with hring | hmem
    · exact ⟨st, by rw [heq]; exact Or.inl hring, hc⟩
    · exact ⟨st, by rw [heq]; exact Or.inr (List.mem_append_left _ hmem), hc⟩

/-! ## The body of the loop -/

/-- What a release does, where the record is at its place. -/
theorem releaseCompleted_holds {d : PdcpDl} {sn : Nat} {p : Place} {sn' : Nat}
    {st : ReassemblyState} (h : (d.releaseCompleted sn p).Holds sn' st) :
    st = {} ∨ d.Holds sn' st := by
  cases p with
  | overflow i =>
      rcases h with hring | hmem
      · exact Or.inr (Or.inl hring)
      · rcases List.mem_or_eq_of_mem_set (List.mem_of_mem_eraseP hmem) with hmem | hnew
        · exact Or.inr (Or.inr hmem)
        · exact Or.inl (Prod.mk.inj hnew).2
  | ring i =>
      unfold releaseCompleted at h
      have hcleared : ∀ slot ∈ d.reorderRing.set i { d.reorderRing.getD i {} with state := {} },
          slot ∈ d.reorderRing ∨ slot.state = {} := by
        intro slot hmem
        rcases List.mem_or_eq_of_mem_set hmem with hmem | rfl
        · exact Or.inl hmem
        · exact Or.inr rfl
      have hplain : ∀ slot ∈ d.reorderRing.set i { d.reorderRing.getD i {} with state := {} },
          slot.valid = true → slot.sn = sn' → slot.state = st → st = {} ∨ d.Holds sn' st := by
        intro slot hmem hv hsn hstate
        rcases hcleared slot hmem with hmem | hempty
        · exact Or.inr (Or.inl ⟨slot, hmem, hv, hsn, hstate⟩)
        · exact Or.inl (hstate.symm.trans hempty)
      dsimp only [setStateAt] at h
      split at h
      · split_ifs at h
        · rcases h with ⟨slot', hmem, hv, hsn, hstate⟩ | hmem
          · rcases List.mem_or_eq_of_mem_set hmem with hmem | rfl
            · exact hplain slot' hmem hv hsn hstate
            · cases hv
          · exact Or.inr (Or.inr hmem)
        · rcases h with ⟨slot', hmem, hv, hsn, hstate⟩ | hmem
          · exact hplain slot' hmem hv hsn hstate
          · exact Or.inr (Or.inr hmem)
      · rcases h with ⟨slot', hmem, hv, hsn, hstate⟩ | hmem
        · exact hplain slot' hmem hv hsn hstate
        · exact Or.inr (Or.inr hmem)

/-- What a release hands over. -/
theorem releaseCompleted_delivers (d : PdcpDl) (sn : Nat) (p : Place) :
    (d.releaseCompleted sn p).completedFrames =
        d.completedFrames ++ [(d.stateAt p).buffer] ∧
      (d.releaseCompleted sn p).outstandingBytes =
        d.outstandingBytes + (d.stateAt p).expectedSize ∧
      (d.releaseCompleted sn p).nextExpectedSn = d.nextExpectedSn ∧
      (d.releaseCompleted sn p).status = d.status := by
  cases p with
  | overflow i => exact ⟨rfl, rfl, rfl, rfl⟩
  | ring i =>
      unfold releaseCompleted
      dsimp only [setStateAt]
      split
      · split_ifs <;> exact ⟨rfl, rfl, rfl, rfl⟩
      · exact ⟨rfl, rfl, rfl, rfl⟩

/-- The record behind a store is at its place. -/
theorem storeReceived_stateAt (d : PdcpDl) (g : Received) :
    (d.storeReceived g).stateAt (d.locate g.sn).1 = d.recordBehind g := by
  rcases d.storeReceived_cases g with ⟨slot, hslot, -, hp, heq⟩ | ⟨i, hi, hp, heq⟩ | ⟨hp, heq⟩
  · obtain ⟨hlt, -⟩ := List.getElem?_eq_some_iff.mp hslot
    rw [hp, heq]
    simp [stateAt, List.getD_eq_getElem?_getD, hlt]
  · obtain ⟨hlt, -⟩ := List.getElem?_eq_some_iff.mp hi
    rw [hp, heq]
    simp [stateAt, List.getD_eq_getElem?_getD, hlt]
  · rw [hp, heq]
    simp [stateAt, List.getD_eq_getElem?_getD]

/-- **The records behind a segment** are empty, or those in front of it, or the record
of its number with the segment in it. -/
theorem rxReceived_holds {d : PdcpDl} {g : Received} {sn : Nat} {st : ReassemblyState}
    (h : (d.rxReceived g).Holds sn st) :
    st = {} ∨ d.Holds sn st ∨ (sn = g.sn ∧ st = d.recordBehind g) := by
  rw [rxReceived_eq] at h
  split_ifs at h
  · rcases releaseCompleted_holds h with hempty | hholds
    · exact Or.inl hempty
    · exact Or.inr (storeReceived_holds hholds)
  · exact Or.inr (storeReceived_holds h)

theorem storeReceived_frame (d : PdcpDl) (g : Received) :
    (d.storeReceived g).completedFrames = d.completedFrames ∧
      (d.storeReceived g).outstandingBytes = d.outstandingBytes ∧
      (d.storeReceived g).nextExpectedSn = d.nextExpectedSn ∧
      (d.storeReceived g).status = d.status := by
  rcases d.storeReceived_cases g with ⟨_, _, _, _, heq⟩ | ⟨_, _, _, heq⟩ | ⟨_, heq⟩ <;>
    rw [heq] <;> exact ⟨rfl, rfl, rfl, rfl⟩

/-- **What a segment hands over**: with reordering off, the frame that it finishes. -/
theorem rxReceived_delivers (d : PdcpDl) (g : Received) :
    (d.rxReceived g).nextExpectedSn = d.nextExpectedSn ∧
      (d.rxReceived g).status = d.status ∧
      (((d.rxReceived g).completedFrames = d.completedFrames ∧
          (d.rxReceived g).outstandingBytes = d.outstandingBytes) ∨
        (d.finishes g = true ∧ d.config.allowReordering = false ∧
          (d.rxReceived g).completedFrames =
            d.completedFrames ++ [(d.recordBehind g).buffer] ∧
          (d.rxReceived g).outstandingBytes =
            d.outstandingBytes + (d.recordBehind g).expectedSize)) := by
  obtain ⟨hframes, hbytes, hnext, hstatus⟩ := d.storeReceived_frame g
  rw [rxReceived_eq]
  by_cases hdone : (d.finishes g && !d.config.allowReordering) = true
  · rw [if_pos hdone]
    obtain ⟨hf, hb, hn, hs⟩ :=
      (d.storeReceived g).releaseCompleted_delivers g.sn (d.locate g.sn).1
    rw [storeReceived_stateAt] at hf hb
    rw [Bool.and_eq_true, Bool.not_eq_true'] at hdone
    exact ⟨hn.trans hnext, hs.trans hstatus,
      Or.inr ⟨hdone.1, hdone.2, by rw [hf, hframes], by rw [hb, hbytes]⟩⟩
  · rw [if_neg hdone]
    exact ⟨hnext, hstatus, Or.inl ⟨hframes, hbytes⟩⟩

/-- With reordering on a segment is stored and nothing is released. -/
theorem rxReceived_of_reordering {d : PdcpDl} (hre : d.config.allowReordering = true)
    (g : Received) : d.rxReceived g = d.storeReceived g := by
  rw [rxReceived_eq, hre, Bool.not_true, Bool.and_false]
  rfl

/-! ## The flush -/

/-- **A flush step** hands over a complete record of the next number, and keeps no
record that was not there. -/
theorem flushStep_delivers {d d' : PdcpDl} (h : d.flushStep = some d') :
    d'.config = d.config ∧ d'.status = d.status ∧
      (∃ st, d.Holds d.nextExpectedSn st ∧ st.isComplete = true ∧
        d'.completedFrames = d.completedFrames ++ [st.buffer] ∧
        d'.outstandingBytes = d.outstandingBytes + st.expectedSize) ∧
      ∀ sn st, d'.Holds sn st → d.Holds sn st := by
  rcases flushStep_cases h with ⟨slot, hget, hv, hsn, hc, rfl⟩ | ⟨i, hi, hsn, hc, rfl⟩
  · refine ⟨rfl, rfl, ⟨slot.state, ?_, hc, rfl, rfl⟩, ?_⟩
    · exact Or.inl ⟨slot, List.mem_of_getElem? hget, hv, hsn, rfl⟩
    · rintro sn st (⟨slot', hmem, hv', hsn', hstate⟩ | hmem)
      · rcases List.mem_or_eq_of_mem_set hmem with hmem | rfl
        · exact Or.inl ⟨slot', hmem, hv', hsn', hstate⟩
        · cases hv'
      · exact Or.inr hmem
  · refine ⟨rfl, rfl, ⟨_, ?_, hc, rfl, rfl⟩, ?_⟩
    · right
      rw [← hsn]
      exact List.get_mem _ _
    · rintro sn st (hring | hmem)
      · exact Or.inl hring
      · exact Or.inr (List.mem_of_mem_eraseIdx hmem)

/-- What every flush step keeps. -/
theorem flush_invariant {P : PdcpDl → Prop}
    (hstep : ∀ e e', P e → e.flushStep = some e' → P e') {d : PdcpDl} (h : P d) :
    P d.flushCompletedInOrder := by
  obtain ⟨_, _, hP, _⟩ :=
    flush_rule (P := fun _ e => P e) (fun _ e e' he hs => hstep e e' he hs) 0 d h
  exact hP

/-- An occupied slot is at the index of its number. -/
def Placed (d : PdcpDl) : Prop :=
  ∀ i slot, d.reorderRing[i]? = some slot → slot.valid = true → d.slotIndex slot.sn = i

theorem slotIndex_of_length {d d' : PdcpDl}
    (h : d'.reorderRing.length = d.reorderRing.length) (sn : Nat) :
    d'.slotIndex sn = d.slotIndex sn := by
  unfold slotIndex
  rw [h]

/-- A slot is replaced by a free one, or by one of the number that belongs there. -/
theorem Placed.set {d : PdcpDl} (h : d.Placed) {i : Nat} {slot : Slot}
    (hslot : slot.valid = true → d.slotIndex slot.sn = i) (d' : PdcpDl)
    (hd' : d'.reorderRing = d.reorderRing.set i slot) : d'.Placed := by
  have hlen : d'.reorderRing.length = d.reorderRing.length := by
    rw [hd', List.length_set]
  intro j slot' hget hv
  rw [slotIndex_of_length hlen]
  rw [hd', List.getElem?_set] at hget
  split_ifs at hget with hij hlt
  · subst hij
    obtain rfl := Option.some.inj hget
    exact hslot hv
  · exact h j slot' hget hv

theorem Placed.storeReceived {d : PdcpDl} (h : d.Placed) (g : Received) :
    (d.storeReceived g).Placed := by
  rcases d.storeReceived_cases g with ⟨_, _, _, _, heq⟩ | ⟨_, _, _, heq⟩ | ⟨_, heq⟩
  · have hring : (d.storeReceived g).reorderRing = d.reorderRing.set (d.slotIndex g.sn)
        { sn := g.sn, state := d.recordBehind g, valid := true } := by
      rw [heq]
    refine h.set ?_ _ hring
    exact fun _ => rfl
  · rw [heq]
    exact h
  · rw [heq]
    exact h

theorem Placed.flushStep {d d' : PdcpDl} (h : d.Placed) (hstep : d.flushStep = some d') :
    d'.Placed := by
  rcases flushStep_cases hstep with ⟨slot, _, _, _, _, rfl⟩ | ⟨_, _, _, _, rfl⟩
  · exact h.set (fun hv => by cases hv) _ rfl
  · exact h

/-- No record of the next number is complete. -/
def NoneHeld (d : PdcpDl) : Prop :=
  ∀ st, d.Holds d.nextExpectedSn st → st.isComplete = false

/-- **Where the flush stops**, no record of the next number is complete. -/
theorem noneHeld_of_flushStep {d : PdcpDl} (h : d.Placed) (hstop : d.flushStep = none) :
    d.NoneHeld := by
  obtain ⟨hslot, hfind⟩ := d.flushStep_eq_none_iff.mp hstop
  rintro st (⟨slot, hmem, hv, hsn, rfl⟩ | hmem)
  · obtain ⟨i, hi⟩ := List.mem_iff_getElem?.mp hmem
    have hplace := h i slot hi hv
    rw [hsn] at hplace
    rw [hplace, List.getD_eq_getElem?_getD, hi, Option.getD_some, hv, hsn, beq_self_eq_true,
      Bool.true_and, Bool.true_and] at hslot
    exact hslot
  · have hno := List.findIdx?_eq_none_iff.mp hfind _ hmem
    simpa using hno

end PdcpDl

/-! ## Calls -/

/-- A call on the downlink. -/
inductive DlCall where
  | data (pdcp : List UInt8)
  | pop
  | reset
  | reconfigure (cfg : PdcpDlConfig)
  deriving DecidableEq, Repr

/-- The receiver behind a call; `none` for a call that does not return. -/
def dlCall (d : PdcpDl) : DlCall → Option PdcpDl
  | .data pdcp => (d.onPdcpData pdcp).map Prod.fst
  | .pop => some d.pop.1
  | .reset => some d.reset
  | .reconfigure cfg => some (d.reconfigure cfg)

end Winject.Pdcp
