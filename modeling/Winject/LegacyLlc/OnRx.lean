import Winject.Frames.LlcPdu
import Winject.LegacyLlc.State

/-!
# The receive path of the first LLC (`LLC::on_rx`)

`accepts` are the checks on the size and the checksum.  An accepted ACK PDU marks
ring elements, each found over the ring of sequence numbers and the slot in which
it is checked; an accepted data PDU is put on the list of numbers to acknowledge
and its payload is handed to the PDCP.

The two elements that a number is resolved through do not depend on the marks, so
the ring behind an ACK PDU is the ring with all the elements it names marked.

## Main results

* `acks_marked` — the ring behind an ACK PDU.
* `onRx_of_refused`, `onRx_of_ack`, `onRx_of_data` — what `on_rx` does.
-/

namespace Winject.LegacyLlc

open Winject.Frames
open Winject.Lib.Bytes

/-- `rx_info_t`: the bytes from `in_pdu.base` on, and `in_pdu.size`. -/
structure RxInfo where
  base : List UInt8
  size : Nat
  deriving DecidableEq, Repr

/-- What a call of `on_rx` leaves behind: the LLC, the payload handed to
`pdcp.on_rx`, whether `rrc.on_init` was called, and whether the call has divided by zero or
looked behind the end of `sn_ring`. -/
structure RxResult where
  llc : Llc
  passed : Option (List UInt8) := none
  onInit : Bool := false
  fault : Bool := false

/-- The numbers of an ACK entry: `count` of them, modulo 256, from `sn` on. -/
def ackNumbers (sn : UInt8) (count : Nat) : List UInt8 :=
  (List.range count).map (fun k => sn + UInt8.ofNat k)

/-- The numbers of the entries of an ACK PDU. -/
def entryNumbers (entries : List (UInt8 × UInt8)) : List UInt8 :=
  entries.flatMap (fun ack => ackNumbers ack.1 ack.2.toNat)

namespace Llc

/-! ## The model -/

/-- `LLC::tx_ring_index`. -/
def txRingIndex (slot : Nat) : Fin 1024 := ⟨slot % 1024, Nat.mod_lt _ (by decide)⟩

/-- `LLC::sn_ring_index`. -/
def snRingIndex (l : Llc) (sn : UInt8) : Nat := sn.toNat % l.txConfig.arqWindowSize

/-- The number can be looked up in a `sn_ring` of the given size: the remainder is not one
by zero, and it is an index. -/
def SnInRange (ringSize : Nat) (l : Llc) (sn : UInt8) : Prop :=
  l.txConfig.arqWindowSize ≠ 0 ∧ l.snRingIndex sn < ringSize

instance (ringSize : Nat) (l : Llc) (sn : UInt8) : Decidable (l.SnInRange ringSize sn) :=
  inferInstanceAs (Decidable (_ ∧ _))

/-- `LLC::to_acknowledge`. -/
def toAcknowledge (l : Llc) (sn : UInt8) : Llc :=
  match l.toAckList with
  | [] => { l with toAckList := [(sn.toNat, 1)] }
  | first :: rest =>
    if first.1 + first.2 = sn.toNat then
      { l with toAckList := (first.1, first.2 + 1) :: rest }
    else { l with toAckList := first :: rest ++ [(sn.toNat, 1)] }

/-- The element that an acknowledgement of `sn` is resolved to: the one sent in
the slot whose check the number points to. -/
def sentElem (l : Llc) (sn : UInt8) : Fin 1024 :=
  txRingIndex (l.txRing (txRingIndex (l.snRing (l.snRingIndex sn)))).sentIndex

/-- The acknowledgement of one number. -/
def ackOne (l : Llc) (sn : UInt8) : Llc :=
  { l with
    txRing := Function.update l.txRing (l.sentElem sn)
      { l.txRing (l.sentElem sn) with acknowledged := true } }

/-- The inner loop over an ACK entry: `count` numbers from `sn` on. -/
def ackRange (l : Llc) (sn : UInt8) : Nat → Llc
  | 0 => l
  | count + 1 => (l.ackOne sn).ackRange (sn + 1) count

/-- The ACK entries that `on_rx` reads: those of the payload, up to the first
that starts behind the PDU. -/
def ackEntries (p : LlcPdu) : List (UInt8 × UInt8) :=
  ((List.range (p.getPayloadSize / 2)).takeWhile
    (fun i => p.getHeaderSize + i * 2 ≤ p.getSIZE)).map
    (fun i => (p.base.getD (p.getHeaderSize + i * 2) 0,
      p.base.getD (p.getHeaderSize + i * 2 + 1) 0))

/-- The checksum field is set to zero for the computation, and stays so. -/
def clearCrc (l : Llc) (p : LlcPdu) : LlcPdu :=
  if l.rxConfig.crcType = .crc32 then p.storeCRC (be32 0) else p

/-- The checks of `on_rx`. -/
def accepts (l : Llc) (info : RxInfo) : Bool :=
  let p := LlcPdu.new info.base info.size l.rxCrcSize
  if p.getSIZE > info.size then false
  else if l.rxConfig.crcType = .crc32 then
    crc32 ((l.clearCrc p).base.take p.getSIZE) == readBe32 p.base 3
  else true

/-- `LLC::on_rx`.  The subtraction in the payload size is one of `size_t`; bytes
behind the frame are not modelled. -/
def onRx (l : Llc) (info : RxInfo) : RxResult :=
  if !l.isRxEnabled && l.rxConfig.autoInitOnRx then { llc := l, onInit := true } else
  let p := LlcPdu.new info.base info.size l.rxCrcSize
  if !l.accepts info then { llc := l } else
  let p := l.clearCrc p
  if p.getA then
    { llc := (ackEntries p).foldl (fun l ack => l.ackRange ack.1 ack.2.toNat) l
      fault := !(entryNumbers (ackEntries p)).all fun sn => l.SnInRange l.snRingSize sn }
  else
    { llc := if l.rxConfig.mode = .am then l.toAcknowledge p.getSN else l
      passed := some ((p.base.drop p.getHeaderSize).take
        ((info.size + 2 ^ 64 - p.getHeaderSize) % 2 ^ 64)) }

/-- The header of a received PDU. -/
def rxPdu (l : Llc) (info : RxInfo) : LlcPdu :=
  l.clearCrc (LlcPdu.new info.base info.size l.rxCrcSize)

/-- The bytes behind the header of a received PDU. -/
def rxPayload (l : Llc) (info : RxInfo) : List UInt8 :=
  ((l.rxPdu info).base.drop (l.rxPdu info).getHeaderSize).take
    ((info.size + 2 ^ 64 - (l.rxPdu info).getHeaderSize) % 2 ^ 64)

/-! ## The received PDU -/

/-- Only the checksum field is cleared. -/
@[simp] theorem rxPdu_getSIZE (l : Llc) (info : RxInfo) :
    (l.rxPdu info).getSIZE = (LlcPdu.new info.base info.size l.rxCrcSize).getSIZE := by
  unfold rxPdu clearCrc
  split_ifs
  · exact LlcPdu.getSIZE_storeCRC _ _
  · rfl

@[simp] theorem rxPdu_getA (l : Llc) (info : RxInfo) :
    (l.rxPdu info).getA = (LlcPdu.new info.base info.size l.rxCrcSize).getA := by
  unfold rxPdu clearCrc
  split_ifs
  · exact LlcPdu.getA_storeCRC _ _
  · rfl

@[simp] theorem rxPdu_getHeaderSize (l : Llc) (info : RxInfo) :
    (l.rxPdu info).getHeaderSize = 3 + l.rxCrcSize := by
  unfold rxPdu clearCrc
  split_ifs <;> rfl

/-- The bytes behind the checksum field are those that were received. -/
theorem rxPdu_drop (l : Llc) (info : RxInfo) {k : Nat}
    (h : l.rxConfig.crcType = .crc32 → 7 ≤ k) :
    (l.rxPdu info).base.drop k = info.base.drop k := by
  unfold rxPdu clearCrc
  split_ifs with hcrc
  · exact poke_drop (h hcrc)
  · rfl

/-! ## Acknowledgements -/

/-- The ring with some elements marked as acknowledged. -/
def mark (l : Llc) (targets : List (Fin 1024)) : Llc :=
  { l with
    txRing := fun i =>
      if i ∈ targets then { l.txRing i with acknowledged := true } else l.txRing i }

/-- The elements that `count` numbers from `sn` on are resolved to. -/
def rangeTargets (l : Llc) (sn : UInt8) (count : Nat) : List (Fin 1024) :=
  (List.range count).map (fun k => l.sentElem (sn + UInt8.ofNat k))

/-- The elements that the entries of an ACK PDU name. -/
def ackTargets (l : Llc) (entries : List (UInt8 × UInt8)) : List (Fin 1024) :=
  entries.flatMap (fun ack => l.rangeTargets ack.1 ack.2.toNat)

theorem mark_nil (l : Llc) : l.mark [] = l := rfl

theorem mark_mark (l : Llc) (a b : List (Fin 1024)) : (l.mark a).mark b = l.mark (a ++ b) := by
  have hring : ((l.mark a).mark b).txRing = (l.mark (a ++ b)).txRing := by
    funext i
    show (if i ∈ b then { (if i ∈ a then { l.txRing i with acknowledged := true }
        else l.txRing i) with acknowledged := true }
      else if i ∈ a then { l.txRing i with acknowledged := true } else l.txRing i) =
      if i ∈ a ++ b then { l.txRing i with acknowledged := true } else l.txRing i
    by_cases ha : i ∈ a <;> by_cases hb : i ∈ b <;> simp [ha, hb]
  show { l with txRing := ((l.mark a).mark b).txRing } = { l with txRing := (l.mark (a ++ b)).txRing }
  rw [hring]

/-- Marks do not change what a number is resolved to. -/
theorem sentElem_mark (l : Llc) (targets : List (Fin 1024)) (sn : UInt8) :
    (l.mark targets).sentElem sn = l.sentElem sn := by
  unfold sentElem mark snRingIndex
  dsimp only
  split <;> rfl

theorem ackOne_eq_mark (l : Llc) (sn : UInt8) : l.ackOne sn = l.mark [l.sentElem sn] := by
  have hring : (l.ackOne sn).txRing = (l.mark [l.sentElem sn]).txRing := by
    funext i
    show Function.update l.txRing _ _ i = if i ∈ [_] then _ else _
    by_cases hi : i = l.sentElem sn
    · subst hi
      rw [Function.update_self, if_pos (List.mem_singleton_self _)]
    · rw [Function.update_of_ne hi, if_neg (by simpa using hi)]
  show { l with txRing := (l.ackOne sn).txRing } = { l with txRing := (l.mark _).txRing }
  rw [hring]

theorem ackRange_eq_mark (l : Llc) (sn : UInt8) (count : Nat) :
    l.ackRange sn count = l.mark (l.rangeTargets sn count) := by
  induction count generalizing l sn with
  | zero => rfl
  | succ count ih =>
      have hshift : (List.range count).map (fun k => l.sentElem (sn + 1 + UInt8.ofNat k)) =
          (List.range count).map (fun k => l.sentElem (sn + UInt8.ofNat (k + 1))) := by
        apply List.map_congr_left
        intro k _
        rw [UInt8.ofNat_add, UInt8.add_assoc, UInt8.add_comm 1]
        rfl
      rw [ackRange, ih, ackOne_eq_mark, mark_mark]
      unfold rangeTargets
      simp only [sentElem_mark]
      rw [hshift, List.range_succ_eq_map, List.map_cons, List.map_map]
      rw [show UInt8.ofNat 0 = 0 from rfl, UInt8.add_zero]
      rfl

/-- **The ring behind an ACK PDU**: the elements that its entries name are marked,
and nothing else changes. -/
theorem acks_marked (l : Llc) (entries : List (UInt8 × UInt8)) :
    entries.foldl (fun l ack => l.ackRange ack.1 ack.2.toNat) l =
      l.mark (l.ackTargets entries) := by
  induction entries generalizing l with
  | nil => rfl
  | cons ack entries ih =>
      have htargets : ∀ targets, (l.mark targets).ackTargets entries = l.ackTargets entries := by
        intro targets
        unfold ackTargets rangeTargets
        simp only [sentElem_mark]
      rw [List.foldl_cons, ih, ackRange_eq_mark, htargets, mark_mark]
      rfl

/-- Marks change the ring iff one of the elements was not acknowledged. -/
theorem mark_txRing_iff (l : Llc) (targets : List (Fin 1024)) :
    (l.mark targets).txRing = l.txRing ↔ ∀ i ∈ targets, (l.txRing i).acknowledged = true := by
  constructor
  · intro h i hi
    have hget := congrFun h i
    change (if i ∈ targets then _ else _) = _ at hget
    rw [if_pos hi] at hget
    rw [← hget]
  · intro h
    funext i
    show (if i ∈ targets then _ else _) = _
    split_ifs with hi
    · rw [← h i hi]
    · rfl

/-! ## The calls -/

theorem onRx_of_refused {l : Llc} {info : RxInfo}
    (hinit : (!l.isRxEnabled && l.rxConfig.autoInitOnRx) = false)
    (h : l.accepts info = false) : l.onRx info = { llc := l } := by
  unfold onRx
  rw [hinit, h]
  rfl

theorem onRx_of_ack {l : Llc} {info : RxInfo}
    (hinit : (!l.isRxEnabled && l.rxConfig.autoInitOnRx) = false)
    (h : l.accepts info = true) (hA : (l.rxPdu info).getA = true) :
    l.onRx info =
      { llc := l.mark (l.ackTargets (ackEntries (l.rxPdu info)))
        fault := !(entryNumbers (ackEntries (l.rxPdu info))).all fun sn =>
          l.SnInRange l.snRingSize sn } := by
  unfold onRx
  rw [hinit, h]
  unfold rxPdu at hA
  simp only [hA, acks_marked]
  rfl

theorem onRx_of_data {l : Llc} {info : RxInfo}
    (hinit : (!l.isRxEnabled && l.rxConfig.autoInitOnRx) = false)
    (h : l.accepts info = true) (hA : (l.rxPdu info).getA = false) :
    (l.onRx info).passed = some (l.rxPayload info) ∧
      (l.onRx info).llc =
        if l.rxConfig.mode = .am then l.toAcknowledge (l.rxPdu info).getSN else l := by
  unfold onRx
  rw [hinit, h]
  unfold rxPdu at hA
  simp only [hA]
  exact ⟨rfl, rfl⟩

/-- A call keeps the configuration. -/
theorem onRx_setup (l : Llc) (info : RxInfo) :
    (l.onRx info).llc.lcid = l.lcid ∧ (l.onRx info).llc.rxConfig = l.rxConfig := by
  have htoAck : ∀ sn, (l.toAcknowledge sn).lcid = l.lcid ∧
      (l.toAcknowledge sn).rxConfig = l.rxConfig := by
    intro sn
    unfold toAcknowledge
    split
    · exact ⟨rfl, rfl⟩
    · split_ifs <;> exact ⟨rfl, rfl⟩
  cases hinit : (!l.isRxEnabled && l.rxConfig.autoInitOnRx) with
  | true =>
      unfold onRx
      rw [hinit]
      exact ⟨rfl, rfl⟩
  | false =>
      cases hacc : l.accepts info with
      | false =>
          rw [onRx_of_refused hinit hacc]
          exact ⟨rfl, rfl⟩
      | true =>
          cases hA : (l.rxPdu info).getA with
          | true =>
              rw [onRx_of_ack hinit hacc hA]
              exact ⟨rfl, rfl⟩
          | false =>
              rw [(onRx_of_data hinit hacc hA).2]
              split_ifs
              · exact htoAck _
              · exact ⟨rfl, rfl⟩

/-- A number that is put on the list changes it. -/
theorem toAcknowledge_toAckList (l : Llc) (sn : UInt8) :
    (l.toAcknowledge sn).toAckList ≠ l.toAckList := by
  unfold toAcknowledge
  cases l.toAckList with
  | nil => exact List.cons_ne_nil _ _
  | cons first rest =>
      dsimp only
      split_ifs
      · intro h
        have hcount := congrArg Prod.snd (List.cons.inj h).1
        exact Nat.succ_ne_self _ hcount
      · intro h
        have hlen := congrArg List.length h
        simp only [List.length_append, List.length_cons, List.length_nil] at hlen
        omega

end Llc

end Winject.LegacyLlc
