import Mathlib.Data.Nat.ModEq
import Winject.Pdcp.DlCompleteness

/-!
# The downlink fed with PDUs in order

When the PDUs of an uplink arrive once each and in order, the receiver holds at
any time only frames of the PDU in progress and the one unfinished frame.
`Exact w n recv d` says that the occupied states are exactly those of the
frames from `n` on of which something has been received, each in one place and
each holding all of it.  It is kept by a segment that does not move its frame
from the overflow deque to the ring (`Exact.rxSegment`) and by a flush step
(`Exact.flushStep`), and across a PDU the next expected frame is the one the
transmitter stands at (`Exact.pdu`).

The last section treats receivers without sequence numbers (`Plain`), where
every frame goes through slot 0 and is handed over as soon as it is complete.
-/

namespace Winject.Pdcp

open Winject.Frames
open Winject.Lib.Bytes
open Winject.Lib.Reassembly
open Winject.Lib.Segmentation

variable {frames : List (List UInt8)} {ps : List Piece} {pos : Nat × Nat}

/-! ## The pieces received so far -/

/-- The pieces of frame `i` among `done`. -/
def recvOf (w : Sent frames ps pos) (done : List Piece) (i : Nat) : Finset Nat :=
  if h : i < frames.length then
    (Finset.range (w.cut i h).count).filter
      (fun j => ⟨i, (w.cut i h).offset j, (w.cut i h).size j⟩ ∈ done)
  else ∅

theorem mem_recvOf (w : Sent frames ps pos) (done : List Piece) {i : Nat}
    (hi : i < frames.length) (j : Nat) :
    j ∈ recvOf w done i ↔ j < (w.cut i hi).count ∧
      ⟨i, (w.cut i hi).offset j, (w.cut i hi).size j⟩ ∈ done := by
  rw [recvOf, dif_pos hi, Finset.mem_filter, Finset.mem_range]

/-- Only frames with a piece among `done` have received anything. -/
theorem recvOf_nonempty {w : Sent frames ps pos} {done : List Piece} {i : Nat}
    (h : recvOf w done i ≠ ∅) : ∃ p ∈ done, p.frame = i := by
  obtain ⟨j, hj⟩ := Finset.nonempty_iff_ne_empty.mpr h
  unfold recvOf at hj
  split at hj
  · exact ⟨_, (Finset.mem_filter.mp hj).2, rfl⟩
  · exact absurd hj (Finset.notMem_empty j)

theorem mem_recvOf_piece (w : Sent frames ps pos) {done : List Piece} {p : Piece}
    (hp : p ∈ ps) (hdone : p ∈ done) : ∃ (hi : p.frame < frames.length) (j : Nat),
      j ∈ recvOf w done p.frame ∧ p.offset = (w.cut p.frame hi).offset j := by
  have hi := (w.emits.mem_bounds hp).1
  obtain ⟨j, hj, hoff, hsize, _⟩ := w.piece hp hi
  refine ⟨hi, j, (mem_recvOf w done hi j).mpr ⟨hj, ?_⟩, hoff⟩
  rw [← hoff, ← hsize]
  exact hdone

theorem recvOf_snoc (w : Sent frames ps pos) (done : List Piece) {p : Piece}
    (hi : p.frame < frames.length) {j : Nat} (hj : j < (w.cut p.frame hi).count)
    (hoff : p.offset = (w.cut p.frame hi).offset j)
    (hsize : p.len = (w.cut p.frame hi).size j) :
    recvOf w (done ++ [p]) =
      Function.update (recvOf w done) p.frame (insert j (recvOf w done p.frame)) := by
  funext i
  by_cases hif : i = p.frame
  · subst hif
    rw [Function.update_self]
    ext k
    rw [mem_recvOf w _ hi, Finset.mem_insert, mem_recvOf w _ hi, List.mem_append,
      List.mem_singleton]
    constructor
    · rintro ⟨hk, hold | hnew⟩
      · exact Or.inr ⟨hk, hold⟩
      · have hoffk : (w.cut p.frame hi).offset k = p.offset :=
          congrArg Piece.offset hnew
        exact Or.inl ((w.cut p.frame hi).offset_inj hk hj (hoffk.trans hoff))
    · rintro (rfl | ⟨hk, hold⟩)
      · refine ⟨hj, Or.inr ?_⟩
        rw [← hoff, ← hsize]
      · exact ⟨hk, Or.inl hold⟩
  · rw [Function.update_of_ne hif]
    by_cases hlt : i < frames.length
    · ext k
      rw [mem_recvOf w _ hlt, mem_recvOf w _ hlt, List.mem_append, List.mem_singleton]
      constructor
      · rintro ⟨hk, hold | hnew⟩
        · exact ⟨hk, hold⟩
        · exact absurd (congrArg Piece.frame hnew) hif
      · rintro ⟨hk, hold⟩
        exact ⟨hk, Or.inl hold⟩
    · rw [recvOf, recvOf, dif_neg hlt, dif_neg hlt]

/-- A frame behind the position has been received in full. -/
theorem recvOf_full {w : Sent frames ps pos} {done rest : List Piece}
    {pos' : Nat × Nat} (hrest : Emits frames pos' rest pos)
    (hps : ps = done ++ rest) {m : Nat} (hm : m < frames.length) (hlt : m < pos'.1) :
    recvOf w done m = Finset.range (w.cut m hm).count := by
  ext j
  rw [mem_recvOf w done hm, Finset.mem_range]
  refine ⟨fun h => h.1, fun hj => ⟨hj, ?_⟩⟩
  have hmem := w.mem hm (Nat.lt_of_lt_of_le hlt hrest.pos_le) hj
  have hsplit : ∀ p ∈ ps, p ∈ done ∨ p ∈ rest := by
    intro p hp
    rw [hps] at hp
    exact List.mem_append.mp hp
  refine (hsplit _ hmem).resolve_right ?_
  intro hlater
  have := (hrest.mem_frame hlater).1
  dsimp only at this
  omega

/-! ## Exactly one state for every frame in progress -/

/-- The state of `sn` holds everything received of one frame from `n` on. -/
def ExactEntry (w : Sent frames ps pos) (n : Nat) (recv : Nat → Finset Nat)
    (sn : Nat) (st : ReassemblyState) : Prop :=
  ∃ i, n ≤ i ∧ i % 65536 = sn ∧ recv i ≠ ∅ ∧ HoldsFrame w i (recv i) st

/-- The receiver holds the frames in progress and nothing else, each in one
place. -/
structure Exact (w : Sent frames ps pos) (n : Nat) (recv : Nat → Finset Nat)
    (d : PdcpDl) : Prop where
  reord : d.config.allowReordering = true
  ring : ∀ (idx : Nat) (slot : Slot), d.reorderRing[idx]? = some slot →
    slot.valid = true →
    idx = d.slotIndex slot.sn ∧ ExactEntry w n recv slot.sn slot.state
  overflow : ∀ e ∈ d.overflowDeque, ExactEntry w n recv e.1 e.2
  nodup : (d.overflowDeque.map Prod.fst).Nodup
  alone : ∀ e ∈ d.overflowDeque, d.slotOf e.1 = none
  present : ∀ i, n ≤ i → recv i ≠ ∅ → d.current (i % 65536) ≠ none
  next : d.nextExpectedSn = n % 65536
  out : d.completedFrames = (frames.take n).map (·.map some)

/-- The frames in progress span less than the sequence number space. -/
def InWindow (n : Nat) (recv : Nat → Finset Nat) : Prop :=
  ∀ i, recv i ≠ ∅ → i < n + 65535

namespace Exact

variable {w : Sent frames ps pos} {n : Nat} {recv : Nat → Finset Nat} {d : PdcpDl}

/-- An entry found under the number of frame `i` is that of frame `i`. -/
theorem entry_frame (hwin : InWindow n recv) {i : Nat} (hn : n ≤ i)
    (hi : i < n + 65535) {st : ReassemblyState}
    (hentry : ExactEntry w n recv (i % 65536) st) :
    recv i ≠ ∅ ∧ HoldsFrame w i (recv i) st := by
  obtain ⟨k, hk, hmod, hne, hold⟩ := hentry
  have hklt := hwin k hne
  obtain rfl : k = i := by omega
  exact ⟨hne, hold⟩

/-- The state in the slot of a number is one of the ring's entries. -/
theorem slotOf_entry (h : Exact w n recv d) {sn : Nat} {st : ReassemblyState}
    (hslot : d.slotOf sn = some st) : ExactEntry w n recv sn st := by
  unfold PdcpDl.slotOf at hslot
  split at hslot
  · rename_i slot hget
    split at hslot
    · rename_i hv
      rw [Bool.and_eq_true, beq_iff_eq] at hv
      obtain rfl := Option.some.inj hslot
      have hentry := (h.ring _ slot hget hv.1).2
      rwa [hv.2] at hentry
    · cases hslot
  · cases hslot

theorem overflowOf_mem {sn : Nat} {st : ReassemblyState}
    (hov : d.overflowOf sn = some st) : (sn, st) ∈ d.overflowDeque := by
  unfold PdcpDl.overflowOf at hov
  obtain ⟨e, he, rfl⟩ := Option.map_eq_some_iff.mp hov
  have hsn := List.find?_some he
  have hmem := List.mem_of_find?_eq_some he
  rwa [← show e.1 = sn from beq_iff_eq.mp hsn]

/-- The state kept for a number is one of the entries. -/
theorem current_entry (h : Exact w n recv d) {sn : Nat} {st : ReassemblyState}
    (hcur : d.current sn = some st) : ExactEntry w n recv sn st := by
  unfold PdcpDl.current at hcur
  cases hslot : d.slotOf sn with
  | some st' =>
      rw [hslot, Option.some_or] at hcur
      obtain rfl := Option.some.inj hcur
      exact h.slotOf_entry hslot
  | none =>
      rw [hslot, Option.none_or] at hcur
      exact h.overflow _ (overflowOf_mem hcur)

/-- What is kept for frame `i` is what has been received of it. -/
theorem tracked (h : Exact w n recv d) (hwin : InWindow n recv) {i : Nat}
    (hn : n ≤ i) (hi : i < n + 65535) :
    Tracked w i (recv i) (d.current (i % 65536)) := by
  cases hcur : d.current (i % 65536) with
  | some st => exact (entry_frame hwin hn hi (h.current_entry hcur)).2
  | none =>
      show recv i = ∅
      by_contra hne
      exact h.present i hn hne hcur

/-- The weaker invariants used under loss and reordering. -/
theorem toTracks (h : Exact w n recv d) (hwin : InWindow n recv) :
    DlTracks w (n + 65535) n recv d :=
  fun _ hn hi => Or.inr (h.tracked hwin hn hi)

theorem toInv (h : Exact w n recv d) (hwin : InWindow n recv) :
    DlInv w n (n + 65535) n [] d where
  reord := h.reord
  ring := by
    intro idx slot hget hvalid
    obtain ⟨hidx, i, hn, hmod, hne, hold⟩ := h.ring idx slot hget hvalid
    exact ⟨hidx, i, _, hn, hwin i hne, hmod, hold⟩
  overflow := by
    intro e he
    obtain ⟨i, hn, hmod, hne, hold⟩ := h.overflow e he
    exact ⟨i, _, hn, hwin i hne, hmod, hold⟩
  next := h.next
  base_le := Nat.le_refl n
  le_hi := by omega
  window := Nat.le_refl _
  out := h.out

/-- Entries of other frames do not see a new piece. -/
theorem entry_update_other {i j sn : Nat} {st : ReassemblyState}
    (hne : sn ≠ i % 65536) (h : ExactEntry w n recv sn st) :
    ExactEntry w n (Function.update recv i (insert j (recv i))) sn st := by
  obtain ⟨k, hk, hmod, hgot, hold⟩ := h
  have hki : k ≠ i := by
    rintro rfl
    exact hne hmod.symm
  refine ⟨k, hk, hmod, ?_, ?_⟩
  · rwa [Function.update_of_ne hki]
  · rwa [Function.update_of_ne hki]

/-- The entry of the frame itself after a new piece. -/
theorem entry_update_self {i j : Nat} (hi' : i < frames.length) (hn : n ≤ i)
    (hj : j < (w.cut i hi').count) {o : Option ReassemblyState}
    (htracked : Tracked w i (recv i) o) :
    ExactEntry w n (Function.update recv i (insert j (recv i))) (i % 65536)
      ((o.getD {}).receive ((w.cut i hi').offset j) ((w.cut i hi').piece j)
        ((w.cut i hi').isLast j)) := by
  refine ⟨i, hn, rfl, ?_, ?_⟩
  · rw [Function.update_self]
    exact Finset.insert_ne_empty _ _
  · rw [Function.update_self]
    cases o with
    | some st => exact HoldsFrame.receive htracked hj
    | none =>
        rw [show recv i = ∅ from htracked]
        exact (HoldsFrame.empty w hi').receive hj

/-- Writing the slot of `sn` without touching another number's state. -/
private theorem rxSegment_ring (h : Exact w n recv d) (hwin : InWindow n recv)
    {i j : Nat} (hi' : i < frames.length) (hn : n ≤ i) (hlt : i < n + 65535)
    (hj : j < (w.cut i hi').count)
    (hkeep : d.slotFree (i % 65536) = true → d.overflowOf (i % 65536) = none)
    {slot : Slot} (hslot : d.reorderRing[d.slotIndex (i % 65536)]? = some slot)
    (hown : slot.valid = true → slot.sn = i % 65536) :
    (∀ e ∈ d.overflowDeque, e.1 ≠ i % 65536) ∧
    ExactEntry w n (Function.update recv i (insert j (recv i))) (i % 65536)
      ((if slot.valid then slot.state else {}).receive ((w.cut i hi').offset j)
        ((w.cut i hi').piece j) ((w.cut i hi').isLast j)) := by
  have htracked := h.tracked hwin hn hlt
  have hslotOf : d.slotOf (i % 65536) =
      if slot.valid then some slot.state else none := by
    unfold PdcpDl.slotOf
    rw [hslot]
    cases hv : slot.valid with
    | false => simp [hv]
    | true => simp [hv, hown hv]
  have hfree : d.slotFree (i % 65536) = !slot.valid := by
    unfold PdcpDl.slotFree
    rw [hslot]
  constructor
  · intro e he hsn
    have halone := h.alone e he
    rw [hsn, hslotOf] at halone
    cases hv : slot.valid with
    | true => rw [hv] at halone; cases halone
    | false =>
        have hnone := hkeep (by rw [hfree, hv]; rfl)
        unfold PdcpDl.overflowOf at hnone
        rw [Option.map_eq_none_iff, List.find?_eq_none] at hnone
        exact hnone e he (beq_iff_eq.mpr hsn)
  · have hcur : (if slot.valid then slot.state else {}) =
        (d.current (i % 65536)).getD {} := by
      unfold PdcpDl.current
      rw [hslotOf]
      cases hv : slot.valid with
      | true => rfl
      | false =>
          rw [hkeep (by rw [hfree, hv]; rfl)]
          rfl
    rw [hcur]
    exact entry_update_self hi' hn hj htracked

/-- Updating the state of an overflow entry keeps the numbers. -/
theorem map_fst_set {deque : List (Nat × ReassemblyState)} {k sn : Nat}
    (hk : k < deque.length) (hsn : (deque.get ⟨k, hk⟩).1 = sn) (st : ReassemblyState) :
    (deque.set k (sn, st)).map Prod.fst = deque.map Prod.fst := by
  rw [List.map_set]
  apply List.ext_getElem?
  intro m
  rw [List.getElem?_set]
  split
  · rename_i hkm
    subst hkm
    rw [List.length_map, if_pos hk, List.getElem?_map, List.getElem?_eq_getElem hk,
      Option.map_some]
    exact congrArg some hsn.symm
  · rfl

/-- Changing the overflow deque for one number that has no slot. -/
private theorem replace_deque (h : Exact w n recv d) {i j : Nat}
    (hslotOf : d.slotOf (i % 65536) = none) {deque : List (Nat × ReassemblyState)}
    (hold : ∀ e ∈ deque, e.1 ≠ i % 65536 → e ∈ d.overflowDeque)
    (hnew : ∀ e ∈ deque, e.1 = i % 65536 →
      ExactEntry w n (Function.update recv i (insert j (recv i))) e.1 e.2)
    (hnodup : (deque.map Prod.fst).Nodup)
    (hpresent : ∀ k, n ≤ k → Function.update recv i (insert j (recv i)) k ≠ ∅ →
      ({ d with overflowDeque := deque } : PdcpDl).current (k % 65536) ≠ none) :
    Exact w n (Function.update recv i (insert j (recv i)))
      { d with overflowDeque := deque } := by
  refine ⟨h.reord, ?_, ?_, hnodup, ?_, hpresent, h.next, h.out⟩
  · intro idx slot hget hvalid
    obtain ⟨hpos, hentry⟩ := h.ring idx slot hget hvalid
    refine ⟨hpos, entry_update_other ?_ hentry⟩
    intro hsn
    have hsome : d.slotOf slot.sn = some slot.state := by
      unfold PdcpDl.slotOf
      rw [← hpos]
      dsimp only at hget
      rw [hget]
      simp [hvalid]
    rw [hsn, hslotOf] at hsome
    cases hsome
  · intro e he
    by_cases hsn : e.1 = i % 65536
    · exact hnew e he hsn
    · exact entry_update_other hsn (h.overflow e (hold e he hsn))
  · intro e he
    show d.slotOf e.1 = none
    by_cases hsn : e.1 = i % 65536
    · rw [hsn]
      exact hslotOf
    · exact h.alone e (hold e he hsn)

/-- A new state in the slot of the number. -/
private theorem replace_slot (h : Exact w n recv d) {i j : Nat} {slot : Slot}
    {st : ReassemblyState} (hslot : d.reorderRing[d.slotIndex (i % 65536)]? = some slot)
    (hown : slot.valid = true → slot.sn = i % 65536)
    (hfar : ∀ e ∈ d.overflowDeque, e.1 ≠ i % 65536)
    (hentry : ExactEntry w n (Function.update recv i (insert j (recv i))) (i % 65536) st)
    (hpresent : ∀ k, n ≤ k → Function.update recv i (insert j (recv i)) k ≠ ∅ →
      ({ d with
        reorderRing := d.reorderRing.set (d.slotIndex (i % 65536))
          { sn := i % 65536, valid := true, state := st } } : PdcpDl).current (k % 65536) ≠ none) :
    Exact w n (Function.update recv i (insert j (recv i)))
      { d with
        reorderRing := d.reorderRing.set (d.slotIndex (i % 65536))
          { sn := i % 65536, valid := true, state := st } } := by
  refine ⟨h.reord, ?_, ?_, h.nodup, ?_, hpresent, h.next, h.out⟩
  · intro idx s hs hvalid
    rw [DlSafe.slotIndex_set]
    dsimp only at hs
    rw [List.getElem?_set] at hs
    split at hs
    · rename_i hidx
      split at hs
      · obtain rfl := Option.some.inj hs
        exact ⟨hidx.symm, hentry⟩
      · cases hs
    · rename_i hidx
      obtain ⟨hpos, hold⟩ := h.ring idx s hs hvalid
      refine ⟨hpos, entry_update_other ?_ hold⟩
      intro hsn
      rw [hsn] at hpos
      exact hidx hpos.symm
  · intro e he
    exact entry_update_other (hfar e he) (h.overflow e he)
  · intro e he
    rw [PdcpDl.slotOf_set_other hslot hown (fun _ => rfl) (hfar e he)]
    exact h.alone e he

/-- A new state in the overflow entry of the number. -/
private theorem replace_entry (h : Exact w n recv d) {i j k : Nat}
    (hslotOf : d.slotOf (i % 65536) = none) (hk : k < d.overflowDeque.length)
    (hsn : (d.overflowDeque.get ⟨k, hk⟩).1 = i % 65536) {st : ReassemblyState}
    (hentry : ExactEntry w n (Function.update recv i (insert j (recv i))) (i % 65536) st)
    (hpresent : ∀ m, n ≤ m → Function.update recv i (insert j (recv i)) m ≠ ∅ →
      ({ d with overflowDeque := d.overflowDeque.set k (i % 65536, st) } : PdcpDl).current
        (m % 65536) ≠ none) :
    Exact w n (Function.update recv i (insert j (recv i)))
      { d with overflowDeque := d.overflowDeque.set k (i % 65536, st) } := by
  have hnodup := h.nodup
  rw [← map_fst_set hk hsn st] at hnodup
  refine h.replace_deque hslotOf ?_ ?_ hnodup hpresent
  · intro e he hne
    rcases List.mem_or_eq_of_mem_set he with hmem | rfl
    · exact hmem
    · exact absurd rfl hne
  · intro e he hesn
    -- the deque has no second entry for this number
    have hone := List.inj_on_of_nodup_map hnodup he (List.mem_set hk _) hesn
    rw [hone]
    exact hentry

/-- A new overflow entry. -/
private theorem append_entry (h : Exact w n recv d) {i j : Nat}
    (hslotOf : d.slotOf (i % 65536) = none) (hnotin : ∀ e ∈ d.overflowDeque, e.1 ≠ i % 65536)
    {st : ReassemblyState}
    (hentry : ExactEntry w n (Function.update recv i (insert j (recv i))) (i % 65536) st)
    (hpresent : ∀ m, n ≤ m → Function.update recv i (insert j (recv i)) m ≠ ∅ →
      ({ d with overflowDeque := d.overflowDeque ++ [(i % 65536, st)] } : PdcpDl).current
        (m % 65536) ≠ none) :
    Exact w n (Function.update recv i (insert j (recv i)))
      { d with overflowDeque := d.overflowDeque ++ [(i % 65536, st)] } := by
  refine h.replace_deque hslotOf ?_ ?_ ?_ hpresent
  · intro e he hne
    rcases List.mem_append.mp he with hmem | hnew
    · exact hmem
    · obtain rfl := List.mem_singleton.mp hnew
      exact absurd rfl hne
  · intro e he hesn
    rcases List.mem_append.mp he with hmem | hnew
    · exact absurd hesn (hnotin e hmem)
    · obtain rfl := List.mem_singleton.mp hnew
      exact hentry
  · rw [List.map_append, List.nodup_append]
    refine ⟨h.nodup, by simp, ?_⟩
    intro a ha b hb
    obtain ⟨e, he, rfl⟩ := List.mem_map.mp ha
    obtain rfl : b = i % 65536 := by simpa using hb
    exact hnotin e he

/-- Every frame in progress has its state behind a new piece. -/
private theorem present_rxSegment (h : Exact w n recv d) (hwin : InWindow n recv) {i j : Nat}
    (hn : n ≤ i) (hlt : i < n + 65535) (offset : Nat) (last : Bool) (payload : List (Option UInt8))
    (hkeep : d.slotFree (i % 65536) = true → d.overflowOf (i % 65536) = none) :
    ∀ k, n ≤ k → Function.update recv i (insert j (recv i)) k ≠ ∅ →
      (d.rxSegment (i % 65536) offset last payload).current (k % 65536) ≠ none := by
  have hself := (PdcpDl.rxSegment_self h.reord (i % 65536) offset last payload).2
  have hnosplit : d.slotFree (i % 65536) = false ∨ d.overflowOf (i % 65536) = none := by
    cases hf : d.slotFree (i % 65536) with
    | false => exact Or.inl rfl
    | true => exact Or.inr (hkeep hf)
  intro k hk hne
  by_cases hki : k = i
  · subst hki
    rw [hself hnosplit]
    exact Option.some_ne_none _
  · rw [Function.update_of_ne hki] at hne
    have hklt := hwin k hne
    rw [(PdcpDl.rxSegment_other h.reord (by omega) _ _ _).current]
    exact h.present k hk hne

/-- Storing the next piece keeps the states exact, unless it takes a free slot
while the overflow deque holds the frame. -/
theorem rxSegment (h : Exact w n recv d) (hwin : InWindow n recv) {i j : Nat}
    (hi' : i < frames.length) (hn : n ≤ i) (hlt : i < n + 65535)
    (hj : j < (w.cut i hi').count)
    (hkeep : d.slotFree (i % 65536) = true → d.overflowOf (i % 65536) = none) :
    Exact w n (Function.update recv i (insert j (recv i)))
      (d.rxSegment (i % 65536) ((w.cut i hi').offset j) ((w.cut i hi').isLast j)
        ((w.cut i hi').piece j)) := by
  have hpresent := h.present_rxSegment (j := j) hwin hn hlt ((w.cut i hi').offset j)
    ((w.cut i hi').isLast j) ((w.cut i hi').piece j) hkeep
  have hentry := entry_update_self hi' hn hj (h.tracked hwin hn hlt)
  rcases d.rxSegment_cases h.reord (i % 65536) ((w.cut i hi').offset j)
      ((w.cut i hi').isLast j) ((w.cut i hi').piece j) with
    ⟨slot, hslot, hown, heq⟩ | ⟨hother, hcases⟩
  · obtain ⟨hfar, hentry⟩ :=
      h.rxSegment_ring hwin hi' hn hlt hj hkeep hslot hown
    rw [heq] at hpresent ⊢
    exact h.replace_slot hslot hown hfar hentry hpresent
  · have hslotOf : d.slotOf (i % 65536) = none := by
      unfold PdcpDl.slotOf
      split
      · rename_i slot hslot
        rw [if_neg]
        simp [(hother slot hslot).2]
      · rfl
    have hcurrent : d.current (i % 65536) = d.overflowOf (i % 65536) := by
      unfold PdcpDl.current
      rw [hslotOf, Option.none_or]
    rw [hcurrent] at hentry
    rcases hcases with ⟨k, hk, hfind, heq⟩ | ⟨hfind, heq⟩
    · obtain ⟨_, hp, _⟩ := List.findIdx?_eq_some_iff_getElem.mp hfind
      rw [PdcpDl.overflowOf_of_find hk hfind, Option.getD_some] at hentry
      rw [heq] at hpresent ⊢
      exact h.replace_entry hslotOf hk (beq_iff_eq.mp hp) hentry hpresent
    · have hnotin : ∀ e ∈ d.overflowDeque, e.1 ≠ i % 65536 := by
        intro e he hesn
        have := List.findIdx?_eq_none_iff.mp hfind e he
        simp [hesn] at this
      rw [PdcpDl.overflowOf_of_find_none hfind, Option.getD_none] at hentry
      rw [heq] at hpresent ⊢
      exact h.append_entry hslotOf hnotin hentry hpresent

/-- An entry of another number belongs to a later frame. -/
theorem entry_succ {sn : Nat} {st : ReassemblyState} (hne : sn ≠ n % 65536)
    (h : ExactEntry w n recv sn st) : ExactEntry w (n + 1) recv sn st := by
  obtain ⟨i, hi, hmod, hrest⟩ := h
  have hin : i ≠ n := by
    rintro rfl
    exact hne hmod.symm
  exact ⟨i, by omega, hmod, hrest⟩

/-- A flush step hands over frame `n` and forgets it. -/
theorem flushStep (h : Exact w n recv d) (hwin : InWindow n recv) {d' : PdcpDl}
    (hstep : d.flushStep = some d') :
    Exact w (n + 1) recv d' ∧
      ∃ hn : n < frames.length, recv n = Finset.range (w.cut n hn).count := by
  have hinv := (h.toInv hwin).flushStep hstep
  have hpresent : ∀ i, n + 1 ≤ i → recv i ≠ ∅ → d'.current (i % 65536) ≠ none := by
    intro i hi hne
    have hlt := hwin i hne
    have hnext := h.next
    rw [(PdcpDl.flushStep_other hstep (by omega)).current]
    exact h.present i (by omega) hne
  have hout : d'.completedFrames = (frames.take (n + 1)).map (·.map some) := hinv.out
  rcases PdcpDl.flushStep_cases hstep with
    ⟨slot, hget, hvalid, hsn, hcomplete, rfl⟩ | ⟨k, hk, hsn, hcomplete, rfl⟩
  · have hentry := (h.ring _ slot hget hvalid).2
    rw [hsn, h.next] at hentry
    have hheld := (entry_frame hwin (Nat.le_refl n) (by omega) hentry).2
    have hfar : ∀ e ∈ d.overflowDeque, e.1 ≠ d.nextExpectedSn := by
      intro e he hesn
      have halone := h.alone e he
      unfold PdcpDl.slotOf at halone
      rw [hesn, hget] at halone
      simp [hvalid, hsn] at halone
    refine ⟨⟨h.reord, ?_, ?_, h.nodup, ?_, hpresent, hinv.next, hout⟩, hheld.lt,
      hheld.complete_iff.mp hcomplete⟩
    · intro idx s hs hv
      show idx = ({ d with reorderRing := _ } : PdcpDl).slotIndex s.sn ∧ _
      rw [DlSafe.slotIndex_set]
      dsimp only at hs
      rw [List.getElem?_set] at hs
      split at hs
      · split at hs
        · obtain rfl := Option.some.inj hs
          cases hv
        · cases hs
      · rename_i hidx
        obtain ⟨hpos, hold⟩ := h.ring idx s hs hv
        refine ⟨hpos, entry_succ ?_ hold⟩
        intro hsn'
        rw [hsn', ← h.next] at hpos
        exact hidx hpos.symm
    · intro e he
      exact entry_succ (by rw [← h.next]; exact hfar e he) (h.overflow e he)
    · intro e he
      have hother : ({ d with
          reorderRing := d.reorderRing.set (d.slotIndex d.nextExpectedSn)
            { slot with state := { slot.state with buffer := [] }, valid := false } } :
          PdcpDl).slotOf e.1 = d.slotOf e.1 :=
        PdcpDl.slotOf_set_other hget (fun _ => hsn) (by intro hv; cases hv) (hfar e he)
      exact hother.trans (h.alone e he)
  · have hentry := h.overflow _ (List.get_mem d.overflowDeque ⟨k, hk⟩)
    rw [hsn, h.next] at hentry
    have hheld := (entry_frame hwin (Nat.le_refl n) (by omega) hentry).2
    have hslotOf : d.slotOf d.nextExpectedSn = none := by
      have halone := h.alone _ (List.get_mem d.overflowDeque ⟨k, hk⟩)
      rwa [hsn] at halone
    refine ⟨⟨h.reord, ?_, ?_, ?_, ?_, hpresent, hinv.next, hout⟩, hheld.lt,
      hheld.complete_iff.mp hcomplete⟩
    · intro idx s hs hv
      obtain ⟨hpos, hold⟩ := h.ring idx s hs hv
      refine ⟨hpos, entry_succ ?_ hold⟩
      intro hsn'
      unfold PdcpDl.slotOf at hslotOf
      rw [h.next, ← hsn', ← hpos] at hslotOf
      dsimp only at hs
      rw [hs] at hslotOf
      simp [hv] at hslotOf
    · intro e he
      refine entry_succ ?_ (h.overflow e ((List.eraseIdx_sublist _ _).subset he))
      intro hesn
      -- the erased entry was the only one with this number
      obtain ⟨m, hmk, hm⟩ := List.mem_eraseIdx_iff_getElem?.mp he
      have hlen : m < d.overflowDeque.length := (List.getElem?_eq_some_iff.mp hm).1
      apply hmk
      refine (List.getElem?_inj (by simpa using hlen) h.nodup).mp ?_
      rw [List.getElem?_map, hm, List.getElem?_map, List.getElem?_eq_getElem hk,
        Option.map_some, Option.map_some, hesn, ← h.next]
      exact congrArg some hsn.symm
    · exact h.nodup.sublist ((List.eraseIdx_sublist _ _).map Prod.fst)
    · intro e he
      exact h.alone e ((List.eraseIdx_sublist _ _).subset he)

/-! ## One PDU -/

/-- What must be known about a receiver besides `Exact` for no piece of `qs` to
split its frame; `limit` bounds the frames of one PDU. -/
def StepSafe (w : Sent frames ps pos) (n limit : Nat) (I : PdcpDl → Prop)
    (qs : List Piece) : Prop :=
  ∀ (done : List Piece) (p : Piece) (e : PdcpDl),
    (∀ q ∈ done, q.frame < p.frame ∨
      q.frame = p.frame ∧ q.offset + q.len ≤ p.offset) →
    p ∈ qs → p ∈ ps → n ≤ p.frame → p.frame < n + limit →
    Exact w n (recvOf w done) e → I e →
    (e.slotFree (p.frame % 65536) = true → e.overflowOf (p.frame % 65536) = none) ∧
      I (e.rxSeg (segOf frames p))

/-- The frames in progress are those of the PDU. -/
theorem inWindow_of_emits {done : List Piece} {pos' : Nat × Nat}
    (hdone : Emits frames (0, 0) done pos') (hlt : pos'.1 < n + 65535) :
    InWindow n (recvOf w done) := by
  intro i hne
  obtain ⟨p, hp, rfl⟩ := recvOf_nonempty hne
  rcases hdone.mem_before hp with hbefore | ⟨hbefore, _⟩ <;> omega

/-- A frame whose pieces have all been received lies behind the position. -/
theorem complete_lt {done : List Piece} {pos' : Nat × Nat}
    (hdone : Emits frames (0, 0) done pos') {m : Nat} (hm : m < frames.length)
    (hall : recvOf w done m = Finset.range (w.cut m hm).count) : m < pos'.1 := by
  have hpos := (w.cut m hm).count_pos
  have hmem : (w.cut m hm).count - 1 ∈ recvOf w done m := by
    rw [hall]
    exact Finset.mem_range.mpr (by omega)
  obtain ⟨_, hpiece⟩ := (mem_recvOf w done hm _).mp hmem
  refine hdone.last_mem_lt hpiece (beq_iff_eq.mpr ?_)
  have hend := (w.cut m hm).end_of_isLast (j := (w.cut m hm).count - 1) (by omega)
  rw [w.cut_frame, List.length_map] at hend
  exact hend

/-- The segments of one PDU. -/
theorem foldl_rxSeg {I : PdcpDl → Prop} {limit : Nat} (hlimit : limit ≤ 65534)
    {done qs : List Piece} (hI : StepSafe w n limit I qs) {posA posB : Nat × Nat}
    (hdone : Emits frames (0, 0) done posA) (hqs : Emits frames posA qs posB)
    (hn : n = posA.1) (hsub : ∀ p ∈ qs, p ∈ ps)
    (hwhole : d.config.allowSegmentation = false → ∀ p ∈ ps, p.offset = 0)
    (hlen : qs.length ≤ limit) (h : Exact w n (recvOf w done) d) (hId : I d) :
    Exact w n (recvOf w (done ++ qs))
        ((qs.map (segOf frames)).foldl PdcpDl.rxSeg d) ∧
      I ((qs.map (segOf frames)).foldl PdcpDl.rxSeg d) := by
  induction hqs with
  | nil => exact ⟨by rwa [List.append_nil], hId⟩
  | @snoc qs k off len hqs hk hpos hle ih =>
      rw [List.length_append, List.length_singleton] at hlen
      obtain ⟨hexact, hIe⟩ := ih
        (fun done p e hb hp => hI done p e hb (List.mem_append_left _ hp))
        (fun p hp => hsub p (List.mem_append_left _ hp)) (by omega)
      have hp : (⟨k, off, len⟩ : Piece) ∈ ps :=
        hsub _ (List.mem_append_right _ (List.mem_singleton.mpr rfl))
      have hall := hdone.append hqs
      have hreach := hqs.pos_le_add
      have hstart := hqs.pos_le
      dsimp only at hreach hstart
      obtain ⟨hkeep, hIe'⟩ := hI (done ++ qs) ⟨k, off, len⟩ _
        (fun q hq => hall.mem_before hq)
        (List.mem_append_right _ (List.mem_singleton.mpr rfl)) hp (by dsimp only; omega)
        (by dsimp only; omega) hexact hIe
      obtain ⟨j, hj, hoff, hsize, hrx⟩ := rxSeg_piece w
        (d := (qs.map (segOf frames)).foldl PdcpDl.rxSeg d)
        (by rw [PdcpDl.foldl_rxSeg_config]; exact hwhole) hp hk
      rw [if_pos hexact.reord] at hrx
      have hstep := hexact.rxSegment
        (inWindow_of_emits hall (by dsimp only; omega)) hk (by omega) (by omega) hj
        hkeep
      rw [List.map_append, List.foldl_append, List.map_singleton, List.foldl_cons,
        List.foldl_nil, ← List.append_assoc, recvOf_snoc w _ hk hj hoff hsize]
      refine ⟨?_, hIe'⟩
      rw [hrx]
      exact hstep

/-- A flush delivers every frame that has been received in full. -/
theorem flush {I : PdcpDl → Prop} {done rest : List Piece} {pos' : Nat × Nat}
    (hdone : Emits frames (0, 0) done pos') (hrest : Emits frames pos' rest pos)
    (hps : ps = done ++ rest) (hn : n ≤ pos'.1) (hlt : pos'.1 < n + 65535)
    (hflush : ∀ (m : Nat) (e e' : PdcpDl), n ≤ m → m < pos'.1 →
      e.nextExpectedSn = m % 65536 → I e → e.flushStep = some e' → I e')
    (h : Exact w n (recvOf w done) d) (hId : I d) :
    Exact w pos'.1 (recvOf w done) d.flushCompletedInOrder ∧
      I d.flushCompletedInOrder := by
  have hwin : ∀ m, n ≤ m → InWindow m (recvOf w done) :=
    fun m hm => inWindow_of_emits hdone (by omega)
  obtain ⟨m, _, ⟨hm, hexact, hIm, hmB⟩, hstop⟩ := PdcpDl.flush_rule
    (P := fun m e => n ≤ m ∧ Exact w m (recvOf w done) e ∧ I e ∧ m ≤ pos'.1)
    (by
      rintro m e e' ⟨hm, hex, hIe, _⟩ hs
      obtain ⟨hex', hlt, hrange⟩ := hex.flushStep (hwin m hm) hs
      have hbehind := complete_lt hdone hlt hrange
      exact ⟨by omega, hex', hflush m e e' hm hbehind hex.next hIe hs, hbehind⟩)
    n d ⟨Nat.le_refl n, h, hId, hn⟩
  have hcaught : m = pos'.1 := by
    by_contra hne
    have hlt : m < pos'.1 := by omega
    have hlen : m < frames.length := Nat.lt_of_lt_of_le hlt hdone.cutState.k_le
    obtain ⟨j, hj, hmissing⟩ := (hexact.toTracks (hwin m hm)).missing_piece
      (hexact.toInv (hwin m hm)).toDlSafe hstop (by omega) hlen
    apply hmissing
    rw [recvOf_full hrest hps hlen hlt]
    exact Finset.mem_range.mpr hj
  rw [← hcaught]
  exact ⟨hexact, hIm⟩

/-- Across a PDU the receiver catches up with the transmitter. -/
theorem pdu {I : PdcpDl → Prop} {limit : Nat} (hlimit : limit ≤ 65534)
    {done qs rest : List Piece} (hI : StepSafe w n limit I qs)
    (hflush : ∀ e e' : PdcpDl, I e → e.flushStep = some e' → I e')
    {posA posB : Nat × Nat}
    (hdone : Emits frames (0, 0) done posA) (hqs : Emits frames posA qs posB)
    (hrest : Emits frames posB rest pos) (hps : ps = done ++ qs ++ rest)
    (hn : n = posA.1)
    (hwhole : d.config.allowSegmentation = false → ∀ p ∈ ps, p.offset = 0)
    (hlen : qs.length ≤ limit) (h : Exact w n (recvOf w done) d) (hId : I d) :
    Exact w posB.1 (recvOf w (done ++ qs))
        ((qs.map (segOf frames)).foldl PdcpDl.rxSeg d).flushCompletedInOrder ∧
      I ((qs.map (segOf frames)).foldl PdcpDl.rxSeg d).flushCompletedInOrder := by
  have hsub : ∀ p ∈ qs, p ∈ ps := by
    intro p hp
    rw [hps]
    exact List.mem_append_left _ (List.mem_append_right _ hp)
  obtain ⟨hexact, hIe⟩ := foldl_rxSeg hlimit hI hdone hqs hn hsub hwhole hlen h hId
  have hreach := hqs.pos_le_add
  have hstart := hqs.pos_le
  exact hexact.flush (hdone.append hqs) hrest hps (by omega) (by omega)
    (fun _ e e' _ _ _ hIe hs => hflush e e' hIe hs) hIe

/-! ## Receivers that never split a frame -/

/-- The frames in progress are at most that of the next piece. -/
theorem recvOf_le {done : List Piece} {p : Piece}
    (hbefore : ∀ q ∈ done, q.frame < p.frame ∨
      q.frame = p.frame ∧ q.offset + q.len ≤ p.offset)
    {i : Nat} (hne : recvOf w done i ≠ ∅) : i ≤ p.frame := by
  obtain ⟨q, hq, rfl⟩ := recvOf_nonempty hne
  rcases hbefore q hq with h | ⟨h, _⟩ <;> omega

/-- Nothing of a frame has arrived before the piece at its start. -/
theorem stepSafe_whole {limit : Nat} (hlimit : limit ≤ 65534) {qs : List Piece}
    (hwhole : ∀ p ∈ qs, p.offset = 0) {I : PdcpDl → Prop}
    (hI : ∀ p ∈ qs, ∀ e : PdcpDl, e.config.allowReordering = true → I e →
      I (e.rxSeg (segOf frames p))) : StepSafe w n limit I qs := by
  intro done p e hbefore hq hp hn hlt hexact hIe
  refine ⟨fun _ => ?_, hI p hq e hexact.reord hIe⟩
  have hempty : recvOf w done p.frame = ∅ := by
    by_contra hne
    have hframe := (w.emits.mem_bounds hp).1
    obtain ⟨j, hj⟩ := Finset.nonempty_iff_ne_empty.mpr hne
    obtain ⟨hcount, hmem⟩ := (mem_recvOf w done hframe j).mp hj
    have hsize := (w.cut p.frame hframe).size_pos hcount
    have hoff := hwhole p hq
    have hend := hbefore _ hmem
    dsimp only at hend
    omega
  cases hov : e.overflowOf (p.frame % 65536) with
  | none => rfl
  | some st =>
      obtain ⟨i, hi, hmod, hne, _⟩ := hexact.overflow _ (overflowOf_mem hov)
      have hle := recvOf_le hbefore hne
      dsimp only at hmod
      have hsame : i = p.frame := by omega
      rw [hsame] at hne
      exact absurd hempty hne

end Exact

/-- Two frames of one PDU share a slot only across the wrap of the sequence
number, and only when the ring size leaves a small remainder there. -/
theorem slot_ne {R i k : Nat} (hR : 512 ≤ R)
    (hq : 65536 % R = 0 ∨ 292 ≤ 65536 % R) (hik : i < k) (hk : k < i + 292) :
    i % 65536 % R ≠ k % 65536 % R := by
  intro heq
  have hmod : Nat.ModEq R (i % 65536) (k % 65536) := heq
  have hsmall : (k - i) % R = k - i := Nat.mod_eq_of_lt (by omega)
  rcases Nat.lt_or_ge (i % 65536 + (k - i)) 65536 with hlt | hge
  · have hk' : k % 65536 = i % 65536 + (k - i) := by omega
    rw [hk'] at hmod
    have hzero : Nat.ModEq R 0 (k - i) := by
      apply Nat.ModEq.add_left_cancel' (i % 65536)
      simpa using hmod
    have : 0 % R = (k - i) % R := hzero
    rw [hsmall, Nat.zero_mod] at this
    omega
  · have hk' : k % 65536 + 65536 = i % 65536 + (k - i) := by omega
    have hwrap : Nat.ModEq R 65536 (k - i) := by
      apply Nat.ModEq.add_left_cancel' (k % 65536)
      rw [hk']
      exact hmod.add_right _
    have : 65536 % R = (k - i) % R := hwrap
    rw [hsmall] at this
    omega

/-- The receiver has a ring of `R` slots and has never used the deque. -/
def RingOnly (R : Nat) (d : PdcpDl) : Prop :=
  d.reorderRing.length = R ∧ d.overflowDeque = []

theorem RingOnly.slotIndex {R : Nat} (hR : 512 ≤ R) {d : PdcpDl} (h : RingOnly R d)
    (sn : Nat) : d.slotIndex sn = sn % R := by
  unfold PdcpDl.slotIndex
  rw [h.1, if_pos (by omega)]

theorem RingOnly.flushStep {R : Nat} (d d' : PdcpDl) (h : RingOnly R d)
    (hstep : d.flushStep = some d') : RingOnly R d' := by
  rcases PdcpDl.flushStep_cases hstep with ⟨_, _, _, _, _, rfl⟩ | ⟨k, hk, _⟩
  · exact ⟨by dsimp only; rw [List.length_set]; exact h.1, h.2⟩
  · rw [h.2] at hk
    cases hk

namespace Exact

variable {w : Sent frames ps pos} {n : Nat}

/-- A receiver uses its ring only as long as the frames of a PDU have slots of
their own. -/
theorem stepSafe_ring {R : Nat} (hR : 512 ≤ R) {qs : List Piece}
    (hslots : ∀ p ∈ qs, ∀ i, n ≤ i → i < p.frame → p.frame < i + 292 →
      i % 65536 % R ≠ p.frame % 65536 % R) :
    StepSafe w n 292 (RingOnly R) qs := by
  intro done p e hbefore hqs hp hn hlt hexact hring
  refine ⟨fun _ => by unfold PdcpDl.overflowOf; rw [hring.2]; rfl, ?_⟩
  have hcases := e.rxSegment_cases hexact.reord (p.frame % 65536)
    (if e.config.allowSegmentation then p.offset else 0) (p.isLast frames)
    ((p.bytes frames).map some)
  have hrx : e.rxSeg (segOf frames p) = e.rxSegment (p.frame % 65536)
      (if e.config.allowSegmentation then p.offset else 0) (p.isLast frames)
      ((p.bytes frames).map some) := by
    unfold PdcpDl.rxSeg
    rw [if_pos hexact.reord]
    rfl
  rw [hrx]
  rcases hcases with ⟨slot, hslot, _, heq⟩ | ⟨hother, _⟩
  · rw [heq]
    exact ⟨by dsimp only; rw [List.length_set]; exact hring.1, hring.2⟩
  · -- the slot would have to belong to another frame of the same PDU
    have hidx : e.slotIndex (p.frame % 65536) < e.reorderRing.length := by
      rw [hring.slotIndex hR, hring.1]
      exact Nat.mod_lt _ (by omega)
    obtain ⟨slot, hslot⟩ : ∃ slot,
        e.reorderRing[e.slotIndex (p.frame % 65536)]? = some slot :=
      ⟨_, List.getElem?_eq_getElem hidx⟩
    obtain ⟨hvalid, hsn⟩ := hother slot hslot
    obtain ⟨hpos, i, hi, hmod, hne, _⟩ := hexact.ring _ slot hslot hvalid
    rw [hring.slotIndex hR, hring.slotIndex hR, ← hmod] at hpos
    have hle := recvOf_le hbefore hne
    have hik : i < p.frame := by
      refine Nat.lt_of_le_of_ne hle ?_
      rintro rfl
      exact hsn hmod.symm
    exact absurd hpos.symm (hslots p hqs i hi hik (by omega))

end Exact

/-! ## Receivers without sequence numbers -/

/-- The receiver is at position `pos'` of the stream: slot 0 holds the pieces
of the frame in progress and the earlier frames have been handed over. -/
structure Plain (w : Sent frames ps pos) (done : List Piece) (pos' : Nat × Nat)
    (d : PdcpDl) : Prop where
  reord : d.config.allowReordering = false
  slot : ∃ slot, d.reorderRing[0]? = some slot ∧
    (slot.valid = true → slot.sn = 0) ∧
    (pos'.1 < frames.length →
      HoldsFrame w pos'.1 (recvOf w done pos'.1) (if slot.valid then slot.state else {}))
  out : d.completedFrames = (frames.take pos'.1).map (·.map some)

namespace Plain

variable {w : Sent frames ps pos} {d : PdcpDl}

/-- Nothing has been received of the frame after a finished one. -/
private theorem recvOf_next {done : List Piece} {k : Nat}
    (hdone : Emits frames (0, 0) done (k, 0)) : recvOf w done k = ∅ := by
  by_contra hne
  obtain ⟨p, hp, hpk⟩ := recvOf_nonempty hne
  have hpos := (hdone.mem_bounds hp).2.1
  have hbefore := hdone.mem_before hp
  dsimp only at hbefore
  omega

/-- The next piece of the stream. -/
theorem rxSeg {done rest : List Piece} {p : Piece}
    (hone : Emits frames (0, 0) (done ++ [p]) (p.next frames))
    (hrest : Emits frames (p.next frames) rest pos) (hps : ps = done ++ [p] ++ rest)
    (hwhole : d.config.allowSegmentation = false → ∀ p ∈ ps, p.offset = 0)
    (h : Plain w done (p.frame, p.offset) d) :
    Plain w (done ++ [p]) (p.next frames) (d.rxSeg (segOf frames p)) := by
  have hp : p ∈ ps := by
    rw [hps]
    exact List.mem_append_left _ (List.mem_append_right _ (List.mem_singleton.mpr rfl))
  have hlen : p.frame < frames.length := (w.emits.mem_bounds hp).1
  obtain ⟨slot, hslot, hown, hheld⟩ := h.slot
  obtain ⟨hlt, _⟩ := List.getElem?_eq_some_iff.mp hslot
  obtain ⟨j, hj, hoff, hsize, hrx⟩ := rxSeg_piece w hwhole hp hlen
  rw [h.reord, if_neg (by decide)] at hrx
  have hnew := (hheld hlen).receive hj
  have hrecv : recvOf w (done ++ [p]) p.frame = insert j (recvOf w done p.frame) := by
    rw [recvOf_snoc w done hlen hj hoff hsize, Function.update_self]
  dsimp only at hnew
  rw [← hrecv] at hnew
  generalize hst : (if slot.valid then slot.state else {}).receive
    ((w.cut p.frame hlen).offset j) ((w.cut p.frame hlen).piece j)
    ((w.cut p.frame hlen).isLast j) = st at hnew
  have hstored := d.rxSegment_plain h.reord hslot hown
    ((w.cut p.frame hlen).offset j) ((w.cut p.frame hlen).isLast j)
    ((w.cut p.frame hlen).piece j) hst
  rw [hrx, hstored, ← ReassemblyState.asm_isComplete, ← hnew.flag]
  by_cases hlast : p.isLast frames = true
  · -- the frame is complete
    have hnext : p.next frames = (p.frame + 1, 0) := by
      rw [Piece.next, if_pos hlast]
    have hcomplete : st.isComplete = true :=
      hnew.complete_iff.mpr (recvOf_full hrest hps hlen (by rw [hnext]; simp))
    rw [if_pos hcomplete, hnext]
    rw [hnext] at hone
    refine ⟨h.reord, ⟨_, List.getElem?_set_self hlt, (by intro hv; cases hv), ?_⟩, ?_⟩
    · intro hlt'
      dsimp only
      rw [recvOf_next hone]
      exact HoldsFrame.empty w hlt'
    · dsimp only
      rw [h.out, hnew.buffer_eq hcomplete, List.take_add_one,
        List.getElem?_eq_getElem hlen, List.getD_eq_getElem?_getD,
        List.getElem?_eq_getElem hlen, List.map_append]
      rfl
  · have hnext : p.next frames = (p.frame, p.offset + p.len) := by
      rw [Piece.next, if_neg hlast]
    have hcomplete : ¬ st.isComplete = true := by
      intro hc
      have := Exact.complete_lt hone hlen (hnew.complete_iff.mp hc)
      rw [hnext] at this
      exact Nat.lt_irrefl _ this
    rw [if_neg hcomplete, hnext]
    exact ⟨h.reord, ⟨_, List.getElem?_set_self hlt, fun _ => rfl, fun _ => hnew⟩, h.out⟩

/-- The segments of one PDU. -/
theorem foldl_rxSeg {done qs rest : List Piece} {posA posB : Nat × Nat}
    (hdone : Emits frames (0, 0) done posA) (hqs : Emits frames posA qs posB)
    (hrest : Emits frames posB rest pos) (hps : ps = done ++ qs ++ rest)
    (hwhole : d.config.allowSegmentation = false → ∀ p ∈ ps, p.offset = 0)
    (h : Plain w done posA d) :
    Plain w (done ++ qs) posB ((qs.map (segOf frames)).foldl PdcpDl.rxSeg d) := by
  induction hqs generalizing rest with
  | nil => rwa [List.append_nil]
  | @snoc qs k off len hqs hk hpos hle ih =>
      have hrest' : Emits frames (k, off) ([⟨k, off, len⟩] ++ rest) pos :=
        (Emits.single hk hpos hle).append hrest
      have hprev := ih hrest' (by rw [hps]; simp [List.append_assoc])
      have hbefore := hdone.append hqs
      have hone := hbefore.append (Emits.single hk hpos hle)
      have hstep := rxSeg (p := ⟨k, off, len⟩) hone hrest
        (by rw [hps]; simp [List.append_assoc])
        (by rw [PdcpDl.foldl_rxSeg_config]; exact hwhole) hprev
      rw [List.map_append, List.foldl_append, ← List.append_assoc]
      exact hstep

end Plain

end Winject.Pdcp
