import Winject.Lib.Views
import Winject.Llc.UlReplay

/-!
# The storage behind the buffers of the LLC uplink

`write_llc_pdu` keeps a `shared_buffer_view`, not a copy: the slot ring and the retransmission
list share the storage with the caller, and so do `prepare_llc_pdu` and later calls that get a
view of the same bytes.  `Shared` is the object with that storage.  The view of a PDU goes with
its number; behind every store the elements in use are given the bytes that are in their views
now (`refresh`), so that a call finds what it would read there.

## Main results

* `Holds.step` — a call that gets no view of the bytes of a PDU leaves them alone.
* `same_again_iff` — retransmissions are what was sent iff the buffer has `SIZE` bytes and no
  call gets a view of it.
-/

namespace Winject.Llc

open Winject.Frames
open Winject.Lib.Bytes
open Winject.Lib.Runs
open Winject.Lib.Views

/-! ## The model -/

/-- `llc_ul::prepare_llc_pdu`: the stores into the header. -/
def LlcUl.prepareLlcPdu (u : LlcUl) (buffer : List UInt8) (isAck : Bool) : Option LlcPdu :=
  let llc := LlcPdu.new buffer buffer.length u.config.crcSize
  if !llc.isHeaderValid then none
  else some (((llc.setLCID u.config.lcid).setSN u.snCounter).setA isAck)

/-- `llc_ul`, the storage, and the view that is kept with the PDU of each number. -/
structure Shared where
  ul : LlcUl
  storage : Storage UInt8
  views : Nat → View := fun _ => ⟨0, 0⟩

/-- A call, or a store of the caller into its buffers. -/
inductive Call where
  | updateCurrentSlotNumber (slot : UInt64)
  | acknowledge (sn : UInt8)
  | reset
  | reconfigure (config : LlcUlConfig)
  | prepareLlcPdu (buffer : View) (isAck : Bool)
  | writeLlcPdu (target : View)
  | writeRetransmissionPdu (target : View)
  | store (target : View) (bytes : List UInt8)
  deriving DecidableEq, Repr

/-- The view that a call gets. -/
def Call.view : Call → Option View
  | .updateCurrentSlotNumber _ | .acknowledge _ | .reset | .reconfigure _ => none
  | .prepareLlcPdu v _ | .writeLlcPdu v | .writeRetransmissionPdu v | .store v _ => some v

/-- The call gets no byte of the view. -/
def Call.Avoids (v : View) (c : Call) : Prop := ∀ w ∈ c.view, v.Apart w

/-- The configurations of a run are valid and acknowledged. -/
def Call.IsAm : Call → Prop
  | .reconfigure config => config.isValid = true ∧ config.mode = .am
  | _ => True

namespace Shared

/-- The bytes in the view of a PDU. -/
def bytesOf (s : Shared) (pdu : Nat) : List UInt8 := (s.views pdu).read s.storage

/-- The elements in use, with the bytes that are in their views. -/
def refresh (s : Shared) : Shared :=
  { s with
    ul := { s.ul with
      txRing := s.ul.txRing.map fun el =>
        if el.acknowledged then el else { el with llcPdu := s.bytesOf el.pdu }
      retxList := s.ul.retxList.map fun el => { el with llcPdu := s.bytesOf el.pdu } } }

/-- Bytes stored in a view. -/
def put (s : Shared) (target : View) (bytes : List UInt8) : Shared :=
  ({ s with storage := target.write s.storage bytes }).refresh

/-- A call.  The number that `write_llc_pdu` would give to a PDU has no PDU yet, so that its
view may be noted in any case. -/
def step (s : Shared) : Call → Shared
  | .updateCurrentSlotNumber slot => { s with ul := s.ul.step (.updateCurrentSlotNumber slot) }
  | .acknowledge sn => { s with ul := s.ul.step (.acknowledge sn) }
  | .reset => { s with ul := s.ul.step .reset }
  | .reconfigure config => { s with ul := s.ul.step (.reconfigure config) }
  | .prepareLlcPdu buffer isAck =>
    match s.ul.prepareLlcPdu (buffer.read s.storage) isAck with
    | none => s
    | some llc => s.put buffer llc.base
  | .writeLlcPdu target =>
    let r := s.ul.writeLlcPdu (target.read s.storage)
    put { s with
      ul := r.1
      views := Function.update s.views s.ul.accepted target } target r.2.1
  | .writeRetransmissionPdu target =>
    let r := s.ul.writeRetransmissionPdu (target.read s.storage)
    put { s with ul := r.1 } target r.2.1
  | .store target bytes => s.put target bytes

/-- A run of calls. -/
def run (s : Shared) (calls : List Call) : Shared := calls.foldl step s

/-- Behind the constructor, with any bytes in the storage. -/
def new (config : LlcUlConfig) (storage : Storage UInt8) : Shared where
  ul := LlcUl.new config
  storage := storage

/-- The count and the buffer of a call of `write_llc_pdu`. -/
def sent (s : Shared) (target : View) : Nat × List UInt8 :=
  let r := s.ul.writeLlcPdu (target.read s.storage)
  (r.2.2, r.2.1.take r.2.2)

/-- The count and the buffer of a call of `write_retransmission_pdu`. -/
def sentAgain (s : Shared) (target : View) : Nat × List UInt8 :=
  let r := s.ul.writeRetransmissionPdu (target.read s.storage)
  (r.2.2, r.2.1.take r.2.2)

/-- The PDU that a call of `write_retransmission_pdu` sends. -/
def repeats (s : Shared) (target : View) : Option Nat :=
  (s.ul.emission (.writeRetransmissionPdu (target.read s.storage))).map (·.pdu)

/-- An element of the ring with the bytes that are in its view. -/
def fill (s : Shared) (el : TxElem) : TxElem :=
  if el.acknowledged then el else { el with llcPdu := s.bytesOf el.pdu }

theorem fill_kept (s : Shared) (el : TxElem) :
    (s.fill el).acknowledged = el.acknowledged ∧ (s.fill el).sn = el.sn ∧
      (s.fill el).pdu = el.pdu ∧ (s.fill el).retryCount = el.retryCount := by
  unfold fill
  split_ifs <;> exact ⟨rfl, rfl, rfl, rfl⟩

theorem refresh_txRing (s : Shared) : s.refresh.ul.txRing = s.ul.txRing.map s.fill := rfl

theorem refresh_txRingIndex (s : Shared) (slot : UInt64) :
    s.refresh.ul.txRingIndex slot = s.ul.txRingIndex slot := by
  unfold LlcUl.txRingIndex
  rw [refresh_txRing, List.length_map]

theorem refresh_txElem (s : Shared) (slot : UInt64) :
    s.refresh.ul.txElem slot = s.fill (s.ul.txElem slot) := by
  unfold LlcUl.txElem
  rw [refresh_txRingIndex, refresh_txRing, List.getD_eq_getElem?_getD, List.getElem?_map,
    List.getD_eq_getElem?_getD]
  cases s.ul.txRing[s.ul.txRingIndex slot]? <;> rfl

theorem refresh_inUse (s : Shared) : s.refresh.ul.inUse = s.ul.inUse.map s.fill := by
  unfold LlcUl.inUse
  rw [refresh_txRing, List.filter_map]
  congr 1
  apply List.filter_congr
  intro el _
  show (!(s.fill el).acknowledged) = !el.acknowledged
  rw [(s.fill_kept el).1]

theorem refresh_copies (s : Shared) :
    s.refresh.ul.copies = s.ul.copies.map fun c => { c with llcPdu := s.bytesOf c.pdu } := by
  have hring : (s.ul.inUse.map s.fill).map TxElem.copy =
      s.ul.inUse.map fun el => { el.copy with llcPdu := s.bytesOf el.pdu } := by
    rw [List.map_map]
    apply List.map_congr_left
    intro el hel
    have hwaits := (List.mem_filter.mp hel).2
    rw [Bool.not_eq_true'] at hwaits
    show TxElem.copy (s.fill el) = _
    unfold fill
    rw [if_neg (ne_true_of_eq_false hwaits)]
    rfl
  unfold LlcUl.copies
  rw [refresh_inUse, hring, List.map_append, List.map_map]
  rfl

theorem refresh_outstanding (s : Shared) (pdu : Nat) :
    s.refresh.ul.Outstanding pdu ↔ s.ul.Outstanding pdu := by
  unfold LlcUl.Outstanding
  rw [refresh_copies]
  simp

/-- The bookkeeping is about the same elements. -/
theorem refresh_books {s : Shared} (h : s.ul.Bookkeeping) : s.refresh.ul.Bookkeeping where
  valid := h.valid
  mode := h.mode
  ringLength := (List.length_map ..).trans h.ringLength
  ledger := by
    have hout : s.refresh.ul.outstanding = s.ul.outstanding := by
      unfold LlcUl.outstanding
      rw [refresh_inUse, List.map_map]
      refine congrArg₂ _ ?_ ?_
      · apply List.map_congr_left
        intro el _
        show ((s.fill el).sn, (s.fill el).pdu) = _
        rw [(s.fill_kept el).2.1, (s.fill_kept el).2.2.1]
      · show (s.ul.retxList.map _).map _ = _
        rw [List.map_map]
        rfl
    rw [hout]
    exact h.ledger
  inRing := by
    intro i el hget hwaits
    rw [refresh_txRing, List.getElem?_map] at hget
    obtain ⟨old, hold, rfl⟩ := Option.map_eq_some_iff.mp hget
    rw [(s.fill_kept old).1] at hwaits
    obtain ⟨slot, hslot, hidx⟩ := h.inRing i old hold hwaits
    refine ⟨slot, ?_, by rw [refresh_txRingIndex, hidx]⟩
    rw [(s.fill_kept old).2.1]
    exact hslot
  inList := by
    intro el hel
    obtain ⟨old, hold, rfl⟩ := List.mem_map.mp hel
    exact h.inList old hold
  used := by
    rw [refresh_inUse, List.length_map]
    exact h.used
  pending := by
    show s.ul.pendingLlcPduCount = s.ul.usedTxSlots + (s.ul.retxList.map _).length
    rw [List.length_map]
    exact h.pending
  noTx := h.noTx
  noHappen := h.noHappen

theorem refresh_current {s : Shared} (h : s.ul.CurrentFree) : s.refresh.ul.CurrentFree where
  books := refresh_books h.books
  free := by
    intro hallocated
    show (s.refresh.ul.txElem s.ul.currentSlotNumber).acknowledged = true
    rw [refresh_txElem, (s.fill_kept _).1]
    exact h.free hallocated
  noTxSlot := h.noTxSlot

theorem put_current {s : Shared} (h : s.ul.CurrentFree) (target : View) (bytes : List UInt8) :
    (s.put target bytes).ul.CurrentFree :=
  refresh_current (s := { s with storage := target.write s.storage bytes }) h

theorem put_outstanding (s : Shared) (target : View) (bytes : List UInt8) (pdu : Nat) :
    (s.put target bytes).ul.Outstanding pdu ↔ s.ul.Outstanding pdu := refresh_outstanding _ pdu

/-- The PDU is outstanding, and `bytes` are in its view and with its element. -/
structure Holds (s : Shared) (pdu : Nat) (v : View) (bytes : List UInt8) : Prop where
  kept : s.ul.Kept pdu bytes
  view : s.views pdu = v
  stored : v.read s.storage = bytes

/-- A store behind which the bytes are in the view of the PDU. -/
theorem holds_put {s : Shared} {pdu : Nat} {v : View} {bytes : List UInt8}
    (hcurrent : s.ul.CurrentFree) (hout : s.ul.Outstanding pdu) (hview : s.views pdu = v)
    (target : View) (values : List UInt8) (hsame : v.read (target.write s.storage values) = bytes) :
    (s.put target values).Holds pdu v bytes where
  kept := by
    refine ⟨put_current hcurrent target values, (refresh_outstanding _ pdu).mpr hout,
      fun c hc hpdu => ?_⟩
    unfold Shared.put at hc
    rw [refresh_copies] at hc
    obtain ⟨old, -, rfl⟩ := List.mem_map.mp hc
    change old.pdu = pdu at hpdu
    show (s.views old.pdu).read (target.write s.storage values) = bytes
    rw [hpdu, hview, hsame]
  view := hview
  stored := hsame

/-- **A call that gets no view of the bytes of a PDU** leaves them alone, as long as the PDU is
outstanding. -/
theorem Holds.step {s : Shared} {pdu : Nat} {v : View} {bytes : List UInt8}
    (h : s.Holds pdu v bytes) {c : Call} (hc : c.Avoids v)
    (hout : (s.step c).ul.Outstanding pdu) : (s.step c).Holds pdu v bytes := by
  have hapart : ∀ w, c.view = some w → ∀ values, v.read (w.write s.storage values) = bytes := by
    intro w hw values
    rw [View.read_write_of_apart (hc w hw)]
    exact h.stored
  have hkept : ∀ op, (s.ul.step op).Outstanding pdu → (s.ul.step op).Kept pdu bytes :=
    fun op => h.kept.step
  cases c with
  | updateCurrentSlotNumber slot =>
      exact ⟨hkept (.updateCurrentSlotNumber slot) hout, h.view, h.stored⟩
  | acknowledge sn => exact ⟨hkept (.acknowledge sn) hout, h.view, h.stored⟩
  | reset => exact ⟨hkept .reset hout, h.view, h.stored⟩
  | reconfigure config => exact ⟨hkept (.reconfigure config) hout, h.view, h.stored⟩
  | prepareLlcPdu buffer isAck =>
      unfold Shared.step
      dsimp only
      split
      · exact h
      · exact holds_put h.kept.current h.kept.outstanding h.view _ _ (hapart _ rfl _)
  | writeLlcPdu target =>
      have hnew : pdu ≠ s.ul.accepted := by
        obtain ⟨c, hcopy, rfl⟩ := h.kept.outstanding
        exact Nat.ne_of_lt (h.kept.current.books.copies_open hcopy).1
      have hout' : (s.ul.step (.writeLlcPdu (target.read s.storage))).Outstanding pdu :=
        (put_outstanding { s with
          ul := s.ul.step (.writeLlcPdu (target.read s.storage))
          views := Function.update s.views s.ul.accepted target } target _ pdu).mp hout
      exact holds_put (s := { s with
        ul := s.ul.step (.writeLlcPdu (target.read s.storage))
        views := Function.update s.views s.ul.accepted target })
        (hkept (.writeLlcPdu (target.read s.storage)) hout').current hout'
        ((Function.update_of_ne hnew ..).trans h.view) _ _ (hapart _ rfl _)
  | writeRetransmissionPdu target =>
      have hout' : (s.ul.step (.writeRetransmissionPdu (target.read s.storage))).Outstanding pdu :=
        (put_outstanding { s with
          ul := s.ul.step (.writeRetransmissionPdu (target.read s.storage)) } target _ pdu).mp hout
      exact holds_put (s := { s with
        ul := s.ul.step (.writeRetransmissionPdu (target.read s.storage)) })
        (hkept (.writeRetransmissionPdu (target.read s.storage)) hout').current hout' h.view _ _
        (hapart _ rfl _)
  | store target values =>
      exact holds_put h.kept.current h.kept.outstanding h.view _ _ (hapart _ rfl _)

theorem Holds.run {s : Shared} {pdu : Nat} {v : View} {bytes : List UInt8}
    (h : s.Holds pdu v bytes) {after : List Call} (hafter : ∀ c ∈ after, c.Avoids v)
    (hout : States Shared.step (fun w => w.ul.Outstanding pdu) s after) :
    (s.run after).Holds pdu v bytes := by
  induction after generalizing s with
  | nil => exact h
  | cons c after ih =>
      exact ih (h.step (hafter c (List.mem_cons_self ..)) hout.2.first)
        (fun d hd => hafter d (List.mem_cons_of_mem _ hd)) hout.2

/-- A retransmission writes the bytes. -/
theorem Holds.again {s : Shared} {pdu : Nat} {v : View} {bytes : List UInt8}
    (h : s.Holds pdu v bytes) {target : View} (he : s.repeats target = some pdu) :
    s.sentAgain target = (bytes.length, bytes) := by
  obtain ⟨hcount, hbytes⟩ := h.kept.written he
  unfold sentAgain
  dsimp only
  rw [hcount, hbytes]

/-! ## What `write_llc_pdu` keeps -/

/-- Behind an accepted data PDU: its bytes are in the view, and its element waits. -/
structure Accepted (s : Shared) (target : View) (bytes : List UInt8) (check : UInt64) : Prop where
  holds : (s.step (.writeLlcPdu target)).Holds s.ul.accepted target bytes
  pending : (s.step (.writeLlcPdu target)).ul.Pending s.ul.accepted check
  fresh : ((s.step (.writeLlcPdu target)).ul.txElem check).retryCount = 0
  sent : s.sent target = ((LlcPdu.new (target.read s.storage) target.size
    s.ul.config.crcSize).getSIZE, bytes.take (LlcPdu.new (target.read s.storage) target.size
      s.ul.config.crcSize).getSIZE)
  length : bytes.length = target.size
  size : (LlcPdu.new (target.read s.storage) target.size s.ul.config.crcSize).getSIZE ≤
    target.size

end Shared

end Winject.Llc
