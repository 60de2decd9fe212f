import Winject.Pdcp.DlSafety

/-!
# When the downlink delivers every frame

`pdcp_dl` keeps the state of a sequence number in a ring slot when the slot is
free and in the overflow deque when it is not, and it decides that again for
every segment.  A frame that was started in the overflow deque while another
frame occupied its slot therefore goes on in the slot as soon as that is
released: its bytes are split over two states and neither ever completes.

`PdcpDl.splits` is the state in which this happens and `noSplitRun` says that
a run never reaches it.  `DlTracks` is the invariant of such runs: for every
frame that is still to be delivered, the state the next segment will be stored
in holds every piece received so far, unless a complete copy is waiting in the
overflow deque.

## Main results

* `DlTracks.rxSegment`, `DlTracks.flushStep` — the invariant is kept.
* `DlTracks.missing_piece` — where a flush stops, some piece is missing.
* `popped_all` — a run that never splits a frame delivers every frame.
* `split_loses_frame` — two frames and a ring of one slot lose a frame.
-/

namespace Winject.Pdcp

open Winject.Frames
open Winject.Lib.Bytes
open Winject.Lib.Reassembly
open Winject.Lib.Segmentation

namespace PdcpDl

/-! ## The step that splits a frame -/

/-- A segment of a frame not delivered yet would go to a free slot although
the overflow deque holds an incomplete state for its number. -/
def splits (d : PdcpDl) (sn : Nat) : Bool :=
  decide (d.nextExpectedSn ≤ sn) && d.slotFree sn &&
    (d.overflowOf sn).any (fun st => !st.isComplete)

/-- No iteration of the loop of `on_pdcp_data` splits a frame. -/
def noSplitLoop (d : PdcpDl) (bytes : List UInt8) : Bool :=
  if bytes.isEmpty then true else
  match d.dataStep bytes with
  | .error _ => true
  | .ok (d', rest) =>
    let sn := if d.config.allowReordering then
        (view d.config.layout bytes).rescan.getSn
      else 0
    !d.splits sn &&
      (if rest.length < bytes.length then noSplitLoop d' rest else true)
termination_by bytes.length

/-- The same over the contents of the segments. -/
def noSplitSegs (d : PdcpDl) : List Seg → Bool
  | [] => true
  | g :: gs =>
    !d.splits (if d.config.allowReordering then g.sn else 0) &&
      (d.rxSeg g).noSplitSegs gs

theorem noSplitLoop_encodeAll (gs : List Seg) (d : PdcpDl)
    (h : ∀ g ∈ gs, g.Fits d.config.layout) :
    d.noSplitLoop (encodeAll d.config.layout gs) = d.noSplitSegs gs := by
  induction gs generalizing d with
  | nil => rw [noSplitLoop]; rfl
  | cons g gs ih =>
      have hg := h g (List.mem_cons_self ..)
      have hlen : (encode d.config.layout g).length = g.wireSize d.config.layout :=
        encode_length ..
      have hpos := headerSize_ge d.config.layout
      have hhdr : d.config.layout.headerSize ≤
          (encode d.config.layout g ++ encodeAll d.config.layout gs).length := by
        rw [List.length_append, hlen, Seg.wireSize]
        omega
      have hne : (encode d.config.layout g ++
          encodeAll d.config.layout gs).isEmpty = false := by
        rw [List.isEmpty_eq_false_iff_exists_mem.mpr]
        apply List.exists_mem_of_length_pos
        omega
      have hread := scan_encode d.config.layout g (encodeAll d.config.layout gs) hg
      have hsn : (if d.config.allowReordering = true then
          (view d.config.layout (encode d.config.layout g ++
            encodeAll d.config.layout gs)).rescan.getSn else 0) =
          if d.config.allowReordering = true then g.sn else 0 := by
        rw [rescan_view _ _ hhdr]
        split
        · rename_i hre
          exact hread.sn hre
        · rfl
      have hshorter : (encodeAll d.config.layout gs).length <
          (encode d.config.layout g ++ encodeAll d.config.layout gs).length := by
        rw [List.length_append, hlen, Seg.wireSize]
        omega
      rw [encodeAll_cons, noSplitLoop, hne, dataStep_encode d g _ hg]
      simp only [Bool.false_eq_true, if_false, hsn]
      rw [if_pos hshorter, noSplitSegs,
        ← ih (d.rxSeg g) (by simpa using fun x hx => h x (List.mem_cons_of_mem _ hx)),
        rxSeg_config]

end PdcpDl

/-- A call splits no frame. -/
def noSplitStep (d : PdcpDl) : DlOp → Bool
  | .data pdu => d.noSplitLoop pdu
  | .pop => true

/-- No call of a run splits a frame. -/
def noSplitRun (d : PdcpDl) : List DlOp → Bool
  | [] => true
  | op :: ops =>
    noSplitStep d op && (dlStep d op).all (fun r => noSplitRun r.1 ops)

/-! ## Lookups after an update -/

namespace PdcpDl

/-- Writing a slot that is free or belongs to `sn` hides no other number. -/
theorem slotOf_set_other {d : PdcpDl} {sn sn' : Nat} {slot new : Slot}
    (hslot : d.reorderRing[d.slotIndex sn]? = some slot)
    (hown : slot.valid = true → slot.sn = sn) (hnew : new.valid = true → new.sn = sn)
    (hne : sn' ≠ sn) :
    ({ d with reorderRing := d.reorderRing.set (d.slotIndex sn) new } : PdcpDl).slotOf
      sn' = d.slotOf sn' := by
  unfold slotOf
  rw [DlSafe.slotIndex_set]
  dsimp only
  by_cases hidx : d.slotIndex sn = d.slotIndex sn'
  · -- the same slot: it belongs to `sn` before and after
    obtain ⟨hlt, _⟩ := List.getElem?_eq_some_iff.mp hslot
    have hold : (slot.valid && slot.sn == sn') = false := by
      rw [Bool.and_eq_false_imp]
      intro hv
      rw [hown hv]
      exact beq_eq_false_iff_ne.mpr (Ne.symm hne)
    have hafter : (new.valid && new.sn == sn') = false := by
      rw [Bool.and_eq_false_imp]
      intro hv
      rw [hnew hv]
      exact beq_eq_false_iff_ne.mpr (Ne.symm hne)
    rw [← hidx, hslot, List.getElem?_set_self hlt]
    simp only [hold, hafter, Bool.false_eq_true, if_false]
  · rw [List.getElem?_set_ne hidx]

theorem slotOf_set_self {d : PdcpDl} {sn : Nat} {slot : Slot} (st : ReassemblyState)
    (hslot : d.reorderRing[d.slotIndex sn]? = some slot) :
    ({ d with
        reorderRing := d.reorderRing.set (d.slotIndex sn)
          { sn := sn, state := st, valid := true } } : PdcpDl).slotOf sn = some st := by
  obtain ⟨hlt, _⟩ := List.getElem?_eq_some_iff.mp hslot
  unfold slotOf
  rw [DlSafe.slotIndex_set]
  dsimp only
  rw [List.getElem?_set_self hlt]
  simp

theorem find?_set_other {l : List (Nat × ReassemblyState)} {i sn sn' : Nat}
    (hi : i < l.length) (hold : (l.get ⟨i, hi⟩).1 = sn) (st : ReassemblyState)
    (hne : sn' ≠ sn) :
    (l.set i (sn, st)).find? (fun p => p.1 == sn') =
      l.find? (fun p => p.1 == sn') := by
  have hfalse : (sn == sn') = false := beq_eq_false_iff_ne.mpr (Ne.symm hne)
  induction l generalizing i with
  | nil => cases hi
  | cons e l ih =>
      cases i with
      | zero =>
          have he : (e.1 == sn') = false := by
            rw [show e.1 = sn from hold]
            exact hfalse
          simp only [List.set_cons_zero, List.find?_cons, hfalse, he]
      | succ i =>
          have hrest := ih (i := i) (by simpa using hi) (by simpa using hold)
          simp only [List.set_cons_succ, List.find?_cons, hrest]

theorem find?_set_self {l : List (Nat × ReassemblyState)} {i sn : Nat}
    (hfind : l.findIdx? (fun p => p.1 == sn) = some i) (st : ReassemblyState) :
    (l.set i (sn, st)).find? (fun p => p.1 == sn) = some (sn, st) := by
  induction l generalizing i with
  | nil => cases hfind
  | cons e l ih =>
      rw [List.findIdx?_cons] at hfind
      cases he : e.1 == sn with
      | true =>
          rw [he, if_pos rfl] at hfind
          obtain rfl := Option.some.inj hfind
          simp
      | false =>
          rw [he, if_neg (by decide)] at hfind
          cases hrec : l.findIdx? (fun p => p.1 == sn) with
          | none => rw [hrec] at hfind; cases hfind
          | some k =>
              rw [hrec] at hfind
              obtain rfl := Option.some.inj hfind
              simp only [List.set_cons_succ, List.find?_cons, he]
              exact ih hrec

theorem find?_eraseIdx_other {l : List (Nat × ReassemblyState)} {i sn sn' : Nat}
    (hi : i < l.length) (hold : (l.get ⟨i, hi⟩).1 = sn) (hne : sn' ≠ sn) :
    (l.eraseIdx i).find? (fun p => p.1 == sn') = l.find? (fun p => p.1 == sn') := by
  induction l generalizing i with
  | nil => cases hi
  | cons e l ih =>
      cases i with
      | zero =>
          have he : (e.1 == sn') = false := by
            rw [show e.1 = sn from hold]
            exact beq_eq_false_iff_ne.mpr (Ne.symm hne)
          simp only [List.eraseIdx_cons_zero, List.find?_cons, he]
      | succ i =>
          have hrest := ih (i := i) (by simpa using hi) (by simpa using hold)
          simp only [List.eraseIdx_cons_succ, List.find?_cons, hrest]

/-- The state found first is the one `find_overflow` points to. -/
theorem overflowOf_of_find {d : PdcpDl} {sn i : Nat} (hi : i < d.overflowDeque.length)
    (hfind : d.findOverflow sn = some i) :
    d.overflowOf sn = some (d.overflowDeque.get ⟨i, hi⟩).2 := by
  obtain ⟨_, hp, hfirst⟩ := List.findIdx?_eq_some_iff_getElem.mp hfind
  have : d.overflowDeque.find? (fun p => p.1 == sn) =
      some (d.overflowDeque.get ⟨i, hi⟩) := by
    rw [List.find?_eq_some_iff_getElem]
    exact ⟨hp, i, hi, rfl, fun j hj => by simpa using hfirst j hj⟩
  rw [overflowOf, this, Option.map_some]

theorem overflowOf_of_find_none {d : PdcpDl} {sn : Nat}
    (hfind : d.findOverflow sn = none) : d.overflowOf sn = none := by
  have hnone := List.findIdx?_eq_none_iff.mp hfind
  rw [overflowOf, List.find?_eq_none.mpr (by simpa using hnone), Option.map_none]

/-- The state that holds `sn` now: its slot, else its overflow entry. -/
def current (d : PdcpDl) (sn : Nat) : Option ReassemblyState :=
  (d.slotOf sn).or (d.overflowOf sn)

/-- A complete state for `sn` is waiting in the overflow deque. -/
def Waiting (d : PdcpDl) (sn : Nat) : Prop :=
  ∃ e ∈ d.overflowDeque, e.1 = sn ∧ e.2.isComplete = true

/-- A state that was found complete stays so. -/
theorem receive_complete {st : ReassemblyState} (h : st.isComplete = true)
    (offset : Nat) (payload : List (Option UInt8)) (last : Bool) :
    (st.receive offset payload last).isComplete = true := by
  rw [ReassemblyState.receive_isComplete, h, Bool.true_or]

/-- Nothing kept for `sn` differs between two receivers, except that an
overflow entry may have become complete. -/
structure SameFor (sn : Nat) (d d' : PdcpDl) : Prop where
  slotOf : d'.slotOf sn = d.slotOf sn
  overflowOf : d'.overflowOf sn = d.overflowOf sn
  waiting : d.Waiting sn → d'.Waiting sn

theorem SameFor.current {sn : Nat} {d d' : PdcpDl} (h : SameFor sn d d') :
    d'.current sn = d.current sn := by
  unfold PdcpDl.current
  rw [h.slotOf, h.overflowOf]

/-- Storing a segment leaves the states of other numbers alone. -/
theorem rxSegment_other {d : PdcpDl} (hre : d.config.allowReordering = true)
    {sn sn' : Nat} (hne : sn' ≠ sn) (offset : Nat) (last : Bool)
    (payload : List (Option UInt8)) :
    SameFor sn' d (d.rxSegment sn offset last payload) := by
  rcases d.rxSegment_cases hre sn offset last payload with
    ⟨slot, hslot, hown, heq⟩ | ⟨_, ⟨i, hi, hfind, heq⟩ | ⟨_, heq⟩⟩
  · rw [heq]
    exact ⟨slotOf_set_other hslot hown (fun _ => rfl) hne, rfl, fun hw => hw⟩
  · rw [heq]
    obtain ⟨_, hp, _⟩ := List.findIdx?_eq_some_iff_getElem.mp hfind
    have hsn : (d.overflowDeque.get ⟨i, hi⟩).1 = sn := beq_iff_eq.mp hp
    refine ⟨rfl, ?_, ?_⟩
    · unfold PdcpDl.overflowOf
      dsimp only
      rw [find?_set_other hi hsn _ hne]
    · rintro ⟨e, he, hesn, hc⟩
      refine ⟨e, ?_, hesn, hc⟩
      obtain ⟨k, hk, hget⟩ := List.getElem_of_mem he
      have hki : i ≠ k := by
        rintro rfl
        rw [List.get_eq_getElem] at hsn
        rw [hget] at hsn
        exact hne (hesn.symm.trans hsn)
      apply List.mem_of_getElem? (i := k)
      rw [List.getElem?_set_ne hki, List.getElem?_eq_getElem hk, hget]
  · rw [heq]
    have hfalse : (sn == sn') = false := beq_eq_false_iff_ne.mpr (Ne.symm hne)
    refine ⟨rfl, ?_, ?_⟩
    · unfold PdcpDl.overflowOf
      dsimp only
      rw [List.find?_append, List.find?_singleton, hfalse]
      simp only [Bool.false_eq_true, if_false, Option.or_none]
    · rintro ⟨e, he, hrest⟩
      exact ⟨e, List.mem_append_left _ he, hrest⟩

/-- Storing a segment updates the state that holds its number, unless the
number has just lost its overflow entry to a free slot. -/
theorem rxSegment_self {d : PdcpDl} (hre : d.config.allowReordering = true)
    (sn offset : Nat) (last : Bool) (payload : List (Option UInt8)) :
    (d.Waiting sn → (d.rxSegment sn offset last payload).Waiting sn) ∧
    (d.slotFree sn = false ∨ d.overflowOf sn = none →
      (d.rxSegment sn offset last payload).current sn =
        some (((d.current sn).getD {}).receive offset payload last)) := by
  rcases d.rxSegment_cases hre sn offset last payload with
    ⟨slot, hslot, hown, heq⟩ | ⟨hother, hcases⟩
  · rw [heq]
    refine ⟨fun hw => hw, ?_⟩
    intro hnosplit
    unfold current
    rw [slotOf_set_self _ hslot]
    have hslotOf : d.slotOf sn = if slot.valid then some slot.state else none := by
      unfold slotOf
      rw [hslot]
      cases hv : slot.valid with
      | false => simp [hv]
      | true => simp [hv, hown hv]
    have hfree : d.slotFree sn = !slot.valid := by
      unfold slotFree
      rw [hslot]
    rw [hslotOf]
    cases hv : slot.valid with
    | true => rfl
    | false =>
        rw [hfree, hv] at hnosplit
        have hnone : d.overflowOf sn = none := by simpa using hnosplit
        rw [hnone]
        rfl
  · have hslotOf : d.slotOf sn = none := by
      unfold slotOf
      split
      · rename_i slot hslot
        rw [if_neg]
        simp [(hother slot hslot).2]
      · rfl
    have hslotOf' : ∀ deque, ({ d with overflowDeque := deque } : PdcpDl).slotOf sn =
        none := fun _ => hslotOf
    rcases hcases with ⟨i, hi, hfind, heq⟩ | ⟨hfind, heq⟩
    · rw [heq]
      constructor
      · rintro ⟨e, he, hesn, hc⟩
        obtain ⟨k, hk, hget⟩ := List.getElem_of_mem he
        by_cases hik : i = k
        · subst hik
          refine ⟨_, List.mem_set hi _, rfl, ?_⟩
          apply receive_complete
          rw [List.get_eq_getElem]
          simp only [hget, hc]
        · refine ⟨e, ?_, hesn, hc⟩
          apply List.mem_of_getElem? (i := k)
          rw [List.getElem?_set_ne hik, List.getElem?_eq_getElem hk, hget]
      · intro _
        unfold current
        rw [hslotOf', hslotOf, overflowOf_of_find hi hfind]
        unfold overflowOf
        dsimp only
        rw [find?_set_self hfind]
        rfl
    · rw [heq]
      constructor
      · rintro ⟨e, he, hrest⟩
        exact ⟨e, List.mem_append_left _ he, hrest⟩
      · intro _
        unfold current
        rw [hslotOf', hslotOf, overflowOf_of_find_none hfind]
        have hnone := List.findIdx?_eq_none_iff.mp hfind
        unfold overflowOf
        dsimp only
        rw [List.find?_append, List.find?_eq_none.mpr (by simpa using hnone)]
        simp

/-- A flush step leaves the states of other numbers alone. -/
theorem flushStep_other {d d' : PdcpDl} (hstep : d.flushStep = some d') {sn' : Nat}
    (hne : sn' ≠ d.nextExpectedSn) : SameFor sn' d d' := by
  rcases flushStep_cases hstep with
    ⟨slot, hget, hvalid, hsn, _, rfl⟩ | ⟨i, hi, hsn, _, rfl⟩
  · have hslotOf : ({ d with
        reorderRing := d.reorderRing.set (d.slotIndex d.nextExpectedSn)
          { slot with state := { slot.state with buffer := [] }, valid := false } } :
        PdcpDl).slotOf sn' = d.slotOf sn' :=
      slotOf_set_other hget (fun _ => hsn) (by intro hv; cases hv) hne
    exact ⟨hslotOf, rfl, fun hw => hw⟩
  · refine ⟨rfl, ?_, ?_⟩
    · unfold PdcpDl.overflowOf
      dsimp only
      rw [find?_eraseIdx_other hi hsn hne]
    · rintro ⟨e, he, hesn, hc⟩
      refine ⟨e, ?_, hesn, hc⟩
      rw [List.mem_eraseIdx_iff_getElem?]
      obtain ⟨k, hk, hgetk⟩ := List.getElem_of_mem he
      refine ⟨k, ?_, by rw [List.getElem?_eq_getElem hk, hgetk]⟩
      rintro rfl
      rw [List.get_eq_getElem, hgetk] at hsn
      exact hne (hesn.symm.trans hsn)

/-- Where a flush stops, no complete state of the next number exists. -/
theorem flushStep_none {d : PdcpDl} (hstop : d.flushStep = none) :
    ¬ d.Waiting d.nextExpectedSn ∧
      ∀ st, d.current d.nextExpectedSn = some st → st.isComplete = false := by
  obtain ⟨hslot, hfind⟩ := d.flushStep_eq_none_iff.mp hstop
  have hno : ∀ e ∈ d.overflowDeque, e.1 = d.nextExpectedSn →
      e.2.isComplete = false := by
    intro e he hsn
    have := List.findIdx?_eq_none_iff.mp hfind e he
    simpa [hsn] using this
  constructor
  · rintro ⟨e, he, hsn, hc⟩
    rw [hno e he hsn] at hc
    cases hc
  · intro st hcur
    unfold current at hcur
    cases hs : d.slotOf d.nextExpectedSn with
    | some st' =>
        rw [hs, Option.some_or] at hcur
        obtain rfl := Option.some.inj hcur
        unfold slotOf at hs
        split at hs
        · rename_i slot hget
          split at hs
          · rename_i hv
            obtain rfl := Option.some.inj hs
            rw [List.getD_eq_getElem?_getD, hget, Option.getD_some, hv,
              Bool.true_and] at hslot
            simpa using hslot
          · cases hs
        · cases hs
    | none =>
        rw [hs, Option.none_or] at hcur
        unfold overflowOf at hcur
        obtain ⟨e, he, rfl⟩ := Option.map_eq_some_iff.mp hcur
        have hmem := List.mem_of_find?_eq_some he
        have hsn := List.find?_some he
        exact hno e hmem (beq_iff_eq.mp hsn)

end PdcpDl

/-! ## The invariant -/

variable {frames : List (List UInt8)} {ps : List Piece} {pos : Nat × Nat}

/-- The state kept for frame `i`, if any, holds exactly the pieces `got`. -/
def Tracked (w : Sent frames ps pos) (i : Nat) (got : Finset Nat) :
    Option ReassemblyState → Prop
  | some st => HoldsFrame w i got st
  | none => got = ∅

/-- Every frame still to be delivered is complete in the overflow deque, or
its current state holds all the pieces received so far. -/
def DlTracks (w : Sent frames ps pos) (hi n : Nat) (recv : Nat → Finset Nat)
    (d : PdcpDl) : Prop :=
  ∀ i, n ≤ i → i < hi →
    d.Waiting (i % 65536) ∨ Tracked w i (recv i) (d.current (i % 65536))

namespace DlTracks

variable {w : Sent frames ps pos} {base hi n : Nat} {d : PdcpDl}
  {recv : Nat → Finset Nat}

/-- Storing a piece, when that does not split its frame. -/
theorem rxSegment (t : DlTracks w hi n recv d) (h : DlSafe w base hi n d)
    {i j : Nat} (hi' : i < frames.length) (hbase : base ≤ i) (hlt : i < hi)
    (hj : j < (w.cut i hi').count)
    (hkeep : n ≤ i → d.slotFree (i % 65536) = true →
      d.overflowOf (i % 65536) = none ∨ d.Waiting (i % 65536)) :
    DlTracks w hi n (Function.update recv i (insert j (recv i)))
      (d.rxSegment (i % 65536) ((w.cut i hi').offset j) ((w.cut i hi').isLast j)
        ((w.cut i hi').piece j)) := by
  intro k hnk hk
  by_cases hki : k = i
  · subst hki
    rw [Function.update_self]
    obtain ⟨hwait, hcur⟩ := PdcpDl.rxSegment_self h.reord (k % 65536)
      ((w.cut k hi').offset j) ((w.cut k hi').isLast j) ((w.cut k hi').piece j)
    by_cases hw : d.Waiting (k % 65536)
    · exact Or.inl (hwait hw)
    · have hfree : d.slotFree (k % 65536) = false ∨
          d.overflowOf (k % 65536) = none := by
        cases hf : d.slotFree (k % 65536) with
        | false => exact Or.inl rfl
        | true => exact Or.inr ((hkeep hnk hf).resolve_right hw)
      right
      rw [hcur hfree]
      have hold := (t k hnk hk).resolve_left hw
      cases hst : d.current (k % 65536) with
      | some st =>
          rw [hst] at hold
          exact HoldsFrame.receive hold hj
      | none =>
          rw [hst] at hold
          have hempty : recv k = ∅ := hold
          rw [hempty]
          exact (HoldsFrame.empty w hi').receive hj
  · rw [Function.update_of_ne hki]
    have hne : k % 65536 ≠ i % 65536 := by
      have hwin := h.window
      have hb := h.base_le
      omega
    have hsame := PdcpDl.rxSegment_other h.reord hne
      ((w.cut i hi').offset j) ((w.cut i hi').isLast j) ((w.cut i hi').piece j)
    rw [hsame.current]
    exact (t k hnk hk).imp hsame.waiting id

/-- A flush step. -/
theorem flushStep (t : DlTracks w hi n recv d) (h : DlSafe w base hi n d)
    {d' : PdcpDl} (hstep : d.flushStep = some d') :
    DlTracks w hi (n + 1) recv d' := by
  intro k hnk hk
  have hne : k % 65536 ≠ d.nextExpectedSn := by
    have hnext := h.next
    have hwin := h.window
    have hb := h.base_le
    omega
  have hsame := PdcpDl.flushStep_other hstep hne
  rw [hsame.current]
  exact (t k (by omega) hk).imp hsame.waiting id

/-- Where a flush stops, a piece of the next frame is still missing. -/
theorem missing_piece (t : DlTracks w hi n recv d) (h : DlSafe w base hi n d)
    (hstop : d.flushStep = none) (hn : n < hi) (hlen : n < frames.length) :
    ∃ j, j < (w.cut n hlen).count ∧ j ∉ recv n := by
  obtain ⟨hwait, hcur⟩ := PdcpDl.flushStep_none hstop
  rw [h.next] at hwait hcur
  have hplace := (t n (Nat.le_refl n) hn).resolve_left hwait
  cases hst : d.current (n % 65536) with
  | some st =>
      rw [hst] at hplace
      have hholds : HoldsFrame w n (recv n) st := hplace
      by_contra hnone
      have hall : ∀ j, j < (w.cut n hlen).count → j ∈ recv n :=
        fun j hj => by_contra fun hmiss => hnone ⟨j, hj, hmiss⟩
      have hcomplete : st.isComplete = true := by
        refine hholds.complete_iff.mpr (Finset.Subset.antisymm ?_ ?_)
        · intro j hj
          exact Finset.mem_range.mpr (hholds.holds.sub j hj)
        · intro j hj
          exact hall j (Finset.mem_range.mp hj)
      rw [hcur st hst] at hcomplete
      cases hcomplete
  | none =>
      rw [hst] at hplace
      have hempty : recv n = ∅ := hplace
      refine ⟨0, (w.cut n hlen).count_pos, ?_⟩
      rw [hempty]
      exact Finset.notMem_empty 0

end DlTracks

/-! ## Runs -/

/-- The piece is among the received ones. -/
def Got (w : Sent frames ps pos) (recv : Nat → Finset Nat) (p : Piece) : Prop :=
  ∃ (hi : p.frame < frames.length) (j : Nat), j < (w.cut p.frame hi).count ∧
    j ∈ recv p.frame ∧ p.offset = (w.cut p.frame hi).offset j

theorem Got.mono {w : Sent frames ps pos} {recv recv' : Nat → Finset Nat} {p : Piece}
    (h : Got w recv p) (hsub : ∀ i, recv i ⊆ recv' i) : Got w recv' p := by
  obtain ⟨hi, j, hj, hmem, hoff⟩ := h
  exact ⟨hi, j, hj, hsub _ hmem, hoff⟩

/-- A state that does not split the next frame keeps the pieces together. -/
theorem keep_of_not_splits {d : PdcpDl} {n i : Nat} (hnext : d.nextExpectedSn = n % 65536)
    (hi : i < 65536) (hns : d.splits (i % 65536) = false) (hn : n ≤ i)
    (hfree : d.slotFree (i % 65536) = true) :
    d.overflowOf (i % 65536) = none ∨ d.Waiting (i % 65536) := by
  have hle : d.nextExpectedSn ≤ i % 65536 := by omega
  cases hov : d.overflowOf (i % 65536) with
  | none => exact Or.inl rfl
  | some st =>
      right
      unfold PdcpDl.splits at hns
      rw [decide_eq_true hle, hfree, hov] at hns
      have hcomplete : st.isComplete = true := by simpa using hns
      unfold PdcpDl.overflowOf at hov
      obtain ⟨e, he, rfl⟩ := Option.map_eq_some_iff.mp hov
      have hsn := List.find?_some he
      exact ⟨e, List.mem_of_find?_eq_some he, beq_iff_eq.mp hsn, hcomplete⟩

/-- The segments of one PDU. -/
theorem foldl_tracks {w : Sent frames ps pos} (hlen : frames.length ≤ 65535)
    {n : Nat} {popped : List (List (Option UInt8))} (qs : List Piece)
    (hqs : ∀ p ∈ qs, p ∈ ps) {d : PdcpDl}
    (hwhole : d.config.allowSegmentation = false → ∀ p ∈ ps, p.offset = 0)
    (h : DlInv w 0 frames.length n popped d) {recv : Nat → Finset Nat}
    (t : DlTracks w frames.length n recv d)
    (hns : d.noSplitSegs (qs.map (segOf frames)) = true) :
    ∃ recv', DlTracks w frames.length n recv'
        ((qs.map (segOf frames)).foldl PdcpDl.rxSeg d) ∧
      (∀ i, recv i ⊆ recv' i) ∧ ∀ p ∈ qs, Got w recv' p := by
  induction qs generalizing d recv with
  | nil => exact ⟨recv, t, fun _ => Finset.Subset.refl _, by simp⟩
  | cons p qs ih =>
      have hp := hqs p (List.mem_cons_self ..)
      have hlt : p.frame < frames.length := (w.emits.mem_bounds hp).1
      rw [List.map_cons, PdcpDl.noSplitSegs, if_pos h.reord, Bool.and_eq_true,
        Bool.not_eq_true'] at hns
      obtain ⟨hns₁, hns₂⟩ := hns
      obtain ⟨j, hj, hoff, _, hrx⟩ := rxSeg_piece w hwhole hp hlt
      rw [if_pos h.reord] at hrx
      have hstep := t.rxSegment h.toDlSafe hlt (Nat.zero_le _) hlt hj
        (keep_of_not_splits h.next (by omega) hns₁)
      rw [← hrx] at hstep
      obtain ⟨recv', t', hsub, hgot⟩ := ih
        (fun q hq => hqs q (List.mem_cons_of_mem _ hq))
        (by rw [PdcpDl.rxSeg_config]; exact hwhole)
        (h.rxSeg hwhole hp (Nat.zero_le _) hlt) hstep hns₂
      have hsub₁ : ∀ i, recv i ⊆ Function.update recv p.frame
          (insert j (recv p.frame)) i := by
        intro i
        by_cases hi : i = p.frame
        · subst hi
          rw [Function.update_self]
          exact Finset.subset_insert _ _
        · rw [Function.update_of_ne hi]
      refine ⟨recv', t', fun i => (hsub₁ i).trans (hsub i), ?_⟩
      intro q hq
      rcases List.mem_cons.mp hq with rfl | hq
      · refine ⟨hlt, j, hj, hsub _ ?_, hoff⟩
        rw [Function.update_self]
        exact Finset.mem_insert_self _ _
      · exact hgot q hq

/-- What a run that splits no frame maintains. -/
structure DlFull (w : Sent frames ps pos) (n : Nat)
    (popped : List (List (Option UInt8))) (recv : Nat → Finset Nat) (d : PdcpDl) :
    Prop extends DlInv w 0 frames.length n popped d where
  tracks : DlTracks w frames.length n recv d
  stopped : d.flushStep = none

/-- Segments of written pieces have no content outside their layout. -/
theorem segOf_canonical {l : Layout} (hsn : l.hasSn = true) {p : Piece}
    (hoff : l.hasOffset = false → p.offset = 0) : (segOf frames p).Canonical l :=
  ⟨fun h => absurd (hsn.symm.trans h) (by decide), hoff⟩

/-- Two PDUs with the same bytes carry the same pieces. -/
theorem Got.of_pduOf_eq {l : Layout} {w : Sent frames ps pos}
    (hlen : frames.length ≤ 65535) (hsn : l.hasSn = true)
    (hoff : l.hasOffset = false → ∀ p ∈ ps, p.offset = 0)
    {recv : Nat → Finset Nat} {qs rs : List Piece} (hqs : ∀ p ∈ qs, p ∈ ps)
    (hrs : ∀ p ∈ rs, p ∈ ps) (hlq : (pduOf l frames qs).length ≤ 32767)
    (heq : pduOf l frames rs = pduOf l frames qs) (hgot : ∀ p ∈ qs, Got w recv p) :
    ∀ p ∈ rs, Got w recv p := by
  have hfits : ∀ ts : List Piece, (∀ p ∈ ts, p ∈ ps) →
      (pduOf l frames ts).length ≤ 32767 →
      ∀ g ∈ ts.map (segOf frames), g.Fits l ∧ g.Canonical l := by
    intro ts hts hlts g hg
    have hf := pduOf_fits w.ok (fun p hp => w.emits.mem_bounds (hts p hp)) hlts g hg
    obtain ⟨p, hp, rfl⟩ := List.mem_map.mp hg
    exact ⟨hf, segOf_canonical hsn (fun h => hoff h p (hts p hp))⟩
  have hsegs := encodeAll_inj l _ _ (hfits rs hrs (by rw [heq]; exact hlq))
    (hfits qs hqs hlq) heq
  intro p hp
  have hmem : segOf frames p ∈ qs.map (segOf frames) := by
    rw [← hsegs]
    exact List.mem_map.mpr ⟨p, hp, rfl⟩
  obtain ⟨q, hq, hpq⟩ := List.mem_map.mp hmem
  have hpf := (w.emits.mem_bounds (hrs p hp)).1
  have hqf := (w.emits.mem_bounds (hqs q hq)).1
  have hframe : q.frame = p.frame := by
    have hmod : q.frame % 65536 = p.frame % 65536 := congrArg Seg.sn hpq
    omega
  have hoffset : q.offset = p.offset := congrArg Seg.offset hpq
  obtain ⟨p₁, p₂, p₃⟩ := p
  obtain ⟨q₁, q₂, q₃⟩ := q
  dsimp only at hframe hoffset
  subst hframe hoffset
  obtain ⟨hi, j, hj, hrecv, ho⟩ := hgot _ hq
  exact ⟨hi, j, hj, hrecv, ho⟩

theorem DlFull.pop {w : Sent frames ps pos} {n : Nat}
    {popped : List (List (Option UInt8))} {recv : Nat → Finset Nat} {d : PdcpDl}
    (h : DlFull w n popped recv d) :
    DlFull w n (popped ++ if d.getOutstandingPacket = 0 then [] else [d.pop.2]) recv
      d.pop.1 := by
  have hinv := h.toDlInv.pop
  refine ⟨hinv, ?_, ?_⟩
  · have hkeep : ∀ sn, (d.pop.1.Waiting sn ↔ d.Waiting sn) ∧
        d.pop.1.current sn = d.current sn := by
      intro sn
      unfold PdcpDl.pop
      split <;> exact ⟨Iff.rfl, rfl⟩
    intro i hn hi
    rw [(hkeep _).2]
    exact (h.tracks i hn hi).imp (hkeep _).1.mpr id
  · have hstop := d.flushStep_eq_none_iff.mp h.stopped
    rw [PdcpDl.flushStep_eq_none_iff]
    unfold PdcpDl.pop
    split <;> exact hstop

/-- Delivering a written PDU. -/
theorem DlFull.data {w : Sent frames ps pos} (hlen : frames.length ≤ 65535)
    {n : Nat} {popped : List (List (Option UInt8))} {recv : Nat → Finset Nat}
    {d : PdcpDl} (h : DlFull w n popped recv d)
    (hwhole : d.config.allowSegmentation = false → ∀ p ∈ ps, p.offset = 0)
    {qs : List Piece} (hne : qs ≠ []) (hqs : ∀ p ∈ qs, p ∈ ps)
    (hsize : (pduOf d.config.layout frames qs).length ≤ 32767)
    (hns : d.noSplitLoop (pduOf d.config.layout frames qs) = true) :
    ∃ d' n' recv', d.onPdcpData (pduOf d.config.layout frames qs) = some (d', true) ∧
      d'.config = d.config ∧ DlFull w n' popped recv' d' ∧
      (∀ i, recv i ⊆ recv' i) ∧ ∀ p ∈ qs, Got w recv' p := by
  have hin : ∀ p ∈ qs, p ∈ ps ∧ 0 ≤ p.frame ∧ p.frame < frames.length :=
    fun p hp => ⟨hqs p hp, Nat.zero_le _, (w.emits.mem_bounds (hqs p hp)).1⟩
  have hfits := pduOf_fits (l := d.config.layout) w.ok
    (fun p hp => w.emits.mem_bounds (hqs p hp)) hsize
  rw [pduOf, PdcpDl.noSplitLoop_encodeAll _ _ hfits] at hns
  obtain ⟨recv', t', hsub, hgot⟩ :=
    foldl_tracks hlen qs hqs hwhole h.toDlInv h.tracks hns
  have hfold := h.toDlInv.foldl_rxSeg hwhole qs hin
  obtain ⟨n', _, ⟨hinv, htracks⟩, hstop⟩ := PdcpDl.flush_rule
    (P := fun m e => DlInv w 0 frames.length m popped e ∧
      DlTracks w frames.length m recv' e)
    (fun m e e' he hs => ⟨he.1.flushStep hs, he.2.flushStep he.1.toDlSafe hs⟩) n _
    ⟨hfold, t'⟩
  refine ⟨_, n', recv', ?_, ?_, ⟨hinv, htracks, hstop⟩, hsub, hgot⟩
  · rw [pduOf, d.onPdcpData_encodeAll _ (by simpa using hne) hfits, if_pos h.reord]
  · rw [PdcpDl.flush_config, PdcpDl.foldl_rxSeg_config]

/-- The invariant along a run that splits no frame. -/
theorem dlRun_full {ucfg : PdcpUlConfig} {dcfg : PdcpDlConfig}
    (hpair : Paired ucfg dcfg) {pss : List (List Piece)}
    {r : PdcpUl × List (List UInt8)}
    (hul : RunEmitted ucfg 32767 frames (0, 0) pss pos r)
    (w : Sent frames pss.flatten pos) (hlen : frames.length ≤ 65535)
    (ops : List DlOp) (hops : ∀ op ∈ ops, op.DrawnFrom r.2) (n : Nat)
    (popped : List (List (Option UInt8))) (recv : Nat → Finset Nat) (d : PdcpDl)
    (hcfg : d.config = dcfg) (h : DlFull w n popped recv d)
    (hns : noSplitRun d ops = true) :
    ∃ d' n' later recv', dlRun d ops = some (d', later) ∧
      DlFull w n' (popped ++ later) recv' d' ∧ (∀ i, recv i ⊆ recv' i) ∧
      ∀ qs ∈ pss, DlOp.data (pduOf ucfg.layout frames qs) ∈ ops →
        ∀ p ∈ qs, Got w recv' p := by
  induction ops generalizing n popped recv d with
  | nil =>
      exact ⟨d, n, [], recv, rfl, by rwa [List.append_nil],
        fun _ => Finset.Subset.refl _, by simp⟩
  | cons op ops ih =>
      have hrest : ∀ o ∈ ops, o.DrawnFrom r.2 :=
        fun o ho => hops o (List.mem_cons_of_mem _ ho)
      rw [noSplitRun, Bool.and_eq_true] at hns
      cases op with
      | pop =>
          have hpopcfg : d.pop.1.config = dcfg := by
            rw [← hcfg]
            unfold PdcpDl.pop
            split <;> rfl
          obtain ⟨d', n', later, recv', hrun, hfull, hsub, hgot⟩ :=
            ih hrest n _ recv _ hpopcfg h.pop hns.2
          refine ⟨d', n', _, recv', ?_, by rw [List.append_assoc] at hfull; exact hfull,
            hsub, ?_⟩
          · simp only [dlRun, dlStep, Option.bind_eq_bind, Option.bind_some, hrun]
            rfl
          · intro qs hqs hmem
            rcases List.mem_cons.mp hmem with hpop | hmem
            · cases hpop
            · exact hgot qs hqs hmem
      | data pdu =>
          have hmem : pdu ∈ r.2 := hops (.data pdu) (List.mem_cons_self ..)
          rw [hul.pdus] at hmem
          obtain ⟨qs, hqs, rfl⟩ := List.mem_map.mp hmem
          have hlayout : ucfg.layout = d.config.layout := by rw [hcfg, hpair.layout]
          have hsize : ∀ qs ∈ pss, (pduOf d.config.layout frames qs).length ≤ 32767 := by
            rw [← hlayout]
            exact hul.length
          have hwhole : d.config.allowSegmentation = false →
              ∀ p ∈ pss.flatten, p.offset = 0 := by
            intro hseg p hp
            rw [hcfg, hpair.seg] at hseg
            exact (hul.whole hseg p hp).1
          have hflat : ∀ qs ∈ pss, ∀ p ∈ qs, p ∈ pss.flatten :=
            fun qs hqs p hp => List.mem_flatten.mpr ⟨qs, hqs, hp⟩
          rw [hlayout] at hns ⊢
          obtain ⟨d₁, n₁, recv₁, hcall, hcfg₁, hfull₁, hsub₁, hgot₁⟩ :=
            h.data hlen hwhole (hul.nonempty qs hqs) (hflat qs hqs) (hsize qs hqs) hns.1
          have hstep : dlStep d (.data (pduOf d.config.layout frames qs)) =
              some (d₁, []) := by
            simp only [dlStep, hcall, Option.map_some]
          rw [hstep] at hns
          obtain ⟨d', n', later, recv', hrun, hfull, hsub, hgot⟩ :=
            ih hrest n₁ popped recv₁ d₁ (hcfg₁.trans hcfg) hfull₁ hns.2
          refine ⟨d', n', later, recv', ?_, hfull,
            fun i => (hsub₁ i).trans (hsub i), ?_⟩
          · simp only [dlRun, hstep, Option.bind_eq_bind, Option.bind_some, hrun]
            rfl
          · intro rs hrs hmemr
            rcases List.mem_cons.mp hmemr with heq | hmemr
            · apply Got.of_pduOf_eq hlen (l := d.config.layout) h.reord hwhole
                (hflat qs hqs) (hflat rs hrs) (hsize qs hqs) (DlOp.data.inj heq)
              exact fun p hp => (hgot₁ p hp).mono hsub
            · exact hgot rs hrs (by rw [hlayout]; exact hmemr)

/-- A fresh receiver holds nothing. -/
theorem DlFull.init (w : Sent frames ps pos) (cfg : PdcpDlConfig)
    (hre : cfg.allowReordering = true) (hlen : frames.length ≤ 65535) :
    DlFull w 0 [] (fun _ => ∅) (PdcpDl.init cfg) := by
  have hinvalid : ∀ (idx : Nat) (slot : Slot),
      (PdcpDl.init cfg).reorderRing[idx]? = some slot → slot.valid = false := by
    intro idx slot hget
    obtain rfl := (List.mem_replicate.mp (List.mem_of_getElem? hget)).2
    rfl
  refine ⟨DlInv.init w cfg hre hlen, ?_, ?_⟩
  · intro i _ _
    right
    have hslot : (PdcpDl.init cfg).slotOf (i % 65536) = none := by
      unfold PdcpDl.slotOf
      split
      · rename_i slot hget
        rw [hinvalid _ slot hget]
        rfl
      · rfl
    unfold PdcpDl.current
    rw [hslot]
    exact rfl
  · rw [PdcpDl.flushStep_eq_none_iff]
    refine ⟨?_, rfl⟩
    rw [List.getD_eq_getElem?_getD]
    cases hget : (PdcpDl.init cfg).reorderRing[
        (PdcpDl.init cfg).slotIndex (PdcpDl.init cfg).nextExpectedSn]? with
    | none => rfl
    | some slot =>
        rw [Option.getD_some, hinvalid _ slot hget]
        rfl

/-- Every pushed frame is delivered, in order and once, by a run in which each
PDU arrives at least once and no segment splits its frame. -/
theorem popped_all (ucfg : PdcpUlConfig) (dcfg : PdcpDlConfig)
    (hpair : Paired ucfg dcfg) (uops : List UlOp)
    (huops : ∀ op ∈ uops, OpOk 32767 op)
    (hcount : (pushedFrames uops).length ≤ 65535)
    (hdrained : (ulRun { config := ucfg } uops).1.getOutstandingBytes = 0)
    (dops : List DlOp)
    (hdops : ∀ op ∈ dops, op.DrawnFrom (ulRun { config := ucfg } uops).2)
    (hall : ∀ pdu ∈ (ulRun { config := ucfg } uops).2, DlOp.data pdu ∈ dops)
    (hns : noSplitRun (PdcpDl.init dcfg) dops = true) :
    ∃ d popped, dlRun (PdcpDl.init dcfg) dops = some (d, popped) ∧
      popped ++ d.popAll = (pushedFrames uops).map (·.map some) := by
  obtain ⟨pss, pos, hul⟩ := ulRun_emits (Nat.le_refl 32767) uops huops []
    (by simp) _ _ (UlAt.init ucfg)
  rw [List.nil_append] at hul
  have w : Sent (pushedFrames uops) pss.flatten pos :=
    ⟨hul.emits, pushedFrames_ok uops huops⟩
  obtain ⟨d, n, popped, recv, hrun, hfull, _, hgot⟩ := dlRun_full hpair hul w hcount
    dops hdops 0 [] _ (PdcpDl.init dcfg) rfl (DlFull.init w dcfg hpair.dl hcount) hns
  rw [List.nil_append] at hfull
  refine ⟨d, popped, hrun, ?_⟩
  rw [PdcpDl.popAll_eq, hfull.out]
  have hn : n = (pushedFrames uops).length := by
    by_contra hne
    have hlt : n < (pushedFrames uops).length :=
      Nat.lt_of_le_of_ne hfull.le_hi hne
    obtain ⟨j, hj, hmissing⟩ :=
      hfull.tracks.missing_piece hfull.toDlSafe hfull.stopped hlt hlt
    have hsent : pos = ((pushedFrames uops).length, 0) :=
      hul.state.drained w.ok hdrained
    -- the missing piece was written, so its PDU was delivered
    have hmem := w.mem hlt (by rw [hsent]; exact hlt) hj
    obtain ⟨qs, hqs, hp⟩ := List.mem_flatten.mp hmem
    have hdelivered := hall (pduOf ucfg.layout (pushedFrames uops) qs) (by
      rw [hul.pdus]
      exact List.mem_map.mpr ⟨qs, hqs, rfl⟩)
    obtain ⟨_, j', hj', hrecv, hoff⟩ := hgot qs hqs hdelivered _ hp
    dsimp only at hj' hrecv hoff
    rw [← (w.cut n hlt).offset_inj hj hj' hoff] at hrecv
    exact hmissing hrecv
  rw [hn, List.take_length]

/-- Two frames in two PDUs over a ring of one slot, the second PDU delivered
first and again at the end. -/
theorem popped_all_reordered :
    ∃ d popped, dlRun (PdcpDl.init ⟨true, true, 1⟩)
      [.data [128, 7, 0, 0, 0, 1, 2, 128, 7, 0, 1, 0, 0, 3],
        .data [0, 7, 0, 0, 0, 0, 1], .pop,
        .data [128, 7, 0, 0, 0, 1, 2, 128, 7, 0, 1, 0, 0, 3]] = some (d, popped) ∧
      popped ++ d.popAll = [[some 1, some 2], [some 3]] :=
  popped_all ⟨true, true, 7⟩ ⟨true, true, 1⟩ ⟨rfl, rfl, rfl⟩
    [.frame [1, 2], .frame [3], .write (List.replicate 7 0),
      .write (List.replicate 16 0)]
    (by decide) (by decide) (by decide +kernel) _ (by decide +kernel)
    (by decide +kernel) (by decide +kernel)

/-- Frames `[1, 2]` and `[3, 4]`, one byte to a PDU, over a ring of one slot.
The first half of the second frame arrives while the slot belongs to the first
frame and the second half when the slot is free again: every PDU is delivered
exactly once and the second frame is lost. -/
theorem split_loses_frame :
    let uops : List UlOp := [.frame [1, 2], .frame [3, 4],
      .write (List.replicate 7 0), .write (List.replicate 7 0),
      .write (List.replicate 7 0), .write (List.replicate 7 0)]
    let r := ulRun { config := ⟨true, true, 7⟩ } uops
    let dops : List DlOp := [.data [0, 7, 0, 0, 0, 0, 1], .data [0, 7, 0, 1, 0, 0, 3],
      .data [128, 7, 0, 0, 0, 1, 2], .data [128, 7, 0, 1, 0, 1, 4]]
    (∀ op ∈ uops, OpOk 32767 op) ∧ r.1.getOutstandingBytes = 0 ∧
      (∀ op ∈ dops, op.DrawnFrom r.2) ∧ (∀ pdu ∈ r.2, DlOp.data pdu ∈ dops) ∧
      (dlRun (PdcpDl.init ⟨true, true, 1⟩) dops).map (fun x => x.2 ++ x.1.popAll) =
        some [[some 1, some 2]] ∧
      [[some 1, some 2]] ≠ (pushedFrames uops).map (·.map some) := by
  decide +kernel

end Winject.Pdcp
