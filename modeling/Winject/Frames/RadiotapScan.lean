import Winject.Frames.Wifi
import Winject.Lib.Alignment

/-!
# The scan of a radiotap header (`radiotap.hpp`)

```
 VERSION, PAD                  | 01 each
 LENGTH                        | 02
 PRESENCE                      | 04
 PRESENCE_EXT (bit 31)         | 04
 the fields of PRESENCE        | in bit order, aligned
 the fields of PRESENCE_EXT    | in bit order, aligned
```

`rescan` pads by the absolute address and goes on by what `sizeof` and `alignof` say.  The
size and the alignment that stand beside the structs of the source are `stated`: they are
the ones of the format, where offsets count from the header.  The two differ for
`ampdu_status_t`, which starts with a 32-bit word, and for `timestamp_t`, whose end is
padded.

## Main results

* `rescan_scanned` — a scan is a layout from the address of the header on.
-/

namespace Winject.Frames

open Winject.Lib.Alignment

/-! ## Fields -/

/-- The fields that `rescan` reads, in its order. -/
inductive RadiotapField
  | tsft
  | flags
  | rate
  | channel
  | fhss
  | antennaSignal
  | antennaNoise
  | lockQuality
  | txAttenuation
  | dbTxAttenuation
  | dbmTxPower
  | antenna
  | dbAntennaSignal
  | dbAntennaNoise
  | rxFlags
  | txFlags
  | rtsRetries
  | dataRetries
  | mcs
  | ampduStatus
  | vht
  | timestamp
  deriving DecidableEq, Repr

namespace RadiotapField

/-- The bit of `E_FIELD_PRESENCE`. -/
def bit : RadiotapField → Nat
  | tsft => 0
  | flags => 1
  | rate => 2
  | channel => 3
  | fhss => 4
  | antennaSignal => 5
  | antennaNoise => 6
  | lockQuality => 7
  | txAttenuation => 8
  | dbTxAttenuation => 9
  | dbmTxPower => 10
  | antenna => 11
  | dbAntennaSignal => 12
  | dbAntennaNoise => 13
  | rxFlags => 14
  | txFlags => 15
  | rtsRetries => 16
  | dataRetries => 17
  | mcs => 19
  | ampduStatus => 20
  | vht => 21
  | timestamp => 22

/-- The size and the alignment beside the struct. -/
def stated : RadiotapField → Shape
  | tsft => ⟨8, 8⟩
  | flags => ⟨1, 1⟩
  | rate => ⟨1, 1⟩
  | channel => ⟨4, 2⟩
  | fhss => ⟨2, 2⟩
  | antennaSignal => ⟨1, 1⟩
  | antennaNoise => ⟨1, 1⟩
  | lockQuality => ⟨2, 2⟩
  | txAttenuation => ⟨2, 2⟩
  | dbTxAttenuation => ⟨2, 2⟩
  | dbmTxPower => ⟨1, 1⟩
  | antenna => ⟨1, 1⟩
  | dbAntennaSignal => ⟨1, 1⟩
  | dbAntennaNoise => ⟨1, 1⟩
  | rxFlags => ⟨2, 2⟩
  | txFlags => ⟨2, 2⟩
  | rtsRetries => ⟨1, 1⟩
  | dataRetries => ⟨1, 1⟩
  | mcs => ⟨3, 1⟩
  | ampduStatus => ⟨8, 2⟩
  | vht => ⟨12, 2⟩
  | timestamp => ⟨12, 8⟩

/-- `sizeof` and `alignof` of the struct on x86-64. -/
def abi : RadiotapField → Shape
  | ampduStatus => ⟨8, 4⟩
  | timestamp => ⟨16, 8⟩
  | f => f.stated

/-- The fields in front of bit 18. -/
def low : List RadiotapField :=
  [tsft, flags, rate, channel, fhss, antennaSignal, antennaNoise, lockQuality, txAttenuation,
    dbTxAttenuation, dbmTxPower, antenna, dbAntennaSignal, dbAntennaNoise, rxFlags, txFlags,
    rtsRetries, dataRetries]

/-- The fields behind bit 18. -/
def high : List RadiotapField := [mcs, ampduStatus, vht, timestamp]

end RadiotapField

/-! ## The scan -/

/-- `presence` has the bit. -/
def hasBit (presence : UInt32) (bit : Nat) : Bool :=
  presence &&& ((1 : UInt32) <<< UInt32.ofNat bit) ≠ 0

/-- `status_e`. -/
inductive ScanStatus
  | statusOk
  | statusPartial
  | statusFailed
  deriving DecidableEq, Repr

/-- The members of `radiotap_t` that `rescan` sets, and its local `cp`.  `placed` are the
fields in the order in which they have been found. -/
structure RadiotapScan where
  scanStatus : ScanStatus := .statusFailed
  scanLength : Nat := 0
  presenceExt : Option Nat := none
  members : RadiotapField → Option Nat := fun _ => none
  cp : Nat := 0
  placed : List (RadiotapField × Nat) := []

namespace RadiotapScan

/-- `radiotap_t::reset`. -/
def reset (s : RadiotapScan) : RadiotapScan :=
  { s with presenceExt := none, members := fun _ => none, placed := [] }

/-- `radiotap_t::process_sequence`. -/
def processSequence (s : RadiotapScan) (presence : UInt32) (m : RadiotapField) : RadiotapScan :=
  if hasBit presence m.bit then
    let field := s.cp + (m.abi.align - s.cp % m.abi.align) % m.abi.align
    { s with
      members := Function.update s.members m (some field)
      cp := field + m.abi.size
      placed := s.placed ++ [(m, field)] }
  else s

/-- The lines of `rescan` for one presence word; the flag is false at a `return`. -/
def processWord (s : RadiotapScan) (presence : UInt32) : RadiotapScan × Bool :=
  let s := RadiotapField.low.foldl (fun s m => s.processSequence presence m) s
  if hasBit presence 18 then (s, false)
  else
    let s := RadiotapField.high.foldl (fun s m => s.processSequence presence m) s
    (s, !([23, 24, 25, 26, 27, 28, 29, 30].any (hasBit presence)))

end RadiotapScan

/-- A little-endian load of 32 bits. -/
def Memory.readLe32 (mem : Memory) (p : Nat) : UInt32 :=
  (mem p).toUInt32 ||| ((mem (p + 1)).toUInt32 <<< 8) ||| ((mem (p + 2)).toUInt32 <<< 16) |||
    ((mem (p + 3)).toUInt32 <<< 24)

/-- A little-endian store of 16 bits. -/
def Memory.writeLe16 (mem : Memory) (p value : Nat) : Memory :=
  Function.update (Function.update mem p (UInt8.ofNat value)) (p + 1) (UInt8.ofNat (value / 256))

namespace Radiotap

/-- `header->presence`. -/
def presence (r : Radiotap) (mem : Memory) : UInt32 := mem.readLe32 (r.header + 4)

/-- The start of `rescan`: the second word, if there is one, stands in front of the
fields. -/
def startScan (r : Radiotap) (s : RadiotapScan) (mem : Memory) : RadiotapScan :=
  let s := { s.reset with scanStatus := .statusPartial, cp := r.header + 8 }
  if hasBit (r.presence mem) 31 then { s with presenceExt := some s.cp, cp := s.cp + 4 } else s

/-- The fields of both words; the flag is false at a `return`. -/
def processWords (r : Radiotap) (s : RadiotapScan) (mem : Memory) : RadiotapScan × Bool :=
  match s.processWord (r.presence mem) with
  | (s, false) => (s, false)
  | (s, true) =>
      match s.presenceExt with
      | some presenceExt => s.processWord (mem.readLe32 presenceExt)
      | none => (s, true)

/-- The end of `rescan`. -/
def finishScan (r : Radiotap) (s : RadiotapScan) (calculateLen : Bool) (mem : Memory) :
    RadiotapScan × Memory :=
  let s := { s with scanLength := (s.cp - r.header) % 65536 }
  if calculateLen then
    ({ s with scanStatus := .statusOk }, mem.writeLe16 (r.header + 2) s.scanLength)
  else if s.scanLength > r.size mem then ({ s with scanStatus := .statusFailed }, mem)
  else ({ s with scanStatus := .statusOk }, mem)

/-- `radiotap_t::rescan`. -/
def rescan (r : Radiotap) (s : RadiotapScan) (calculateLen : Bool) (mem : Memory) :
    RadiotapScan × Memory :=
  match r.processWords (r.startScan s mem) mem with
  | (s, false) => (s, mem)
  | (s, true) => r.finishScan s calculateLen mem

end Radiotap

/-! ## A scan is a layout -/

namespace RadiotapField

/-- The fields of a presence word, in bit order. -/
def ofPresence (presence : UInt32) : List RadiotapField :=
  (low ++ high).filter fun m => hasBit presence m.bit

/-- The word has bits of known fields only, besides bit 31. -/
def KnownFields (presence : UInt32) : Prop :=
  ∀ bit ∈ [18, 23, 24, 25, 26, 27, 28, 29, 30], hasBit presence bit = false

instance (presence : UInt32) : Decidable (KnownFields presence) :=
  inferInstanceAs (Decidable (∀ bit ∈ _, hasBit presence bit = false))

theorem abi_pos (m : RadiotapField) : 0 < m.abi.align := by
  cases m <;> decide

theorem abi_le (m : RadiotapField) : m.abi.align + m.abi.size ≤ 24 := by
  cases m <;> decide

theorem length_ofPresence_le (presence : UInt32) : (ofPresence presence).length ≤ 22 :=
  List.length_filter_le _ _

end RadiotapField

/-- The members once a field has been found. -/
def putMember (members : RadiotapField → Option Nat) (m : RadiotapField × Nat) :
    RadiotapField → Option Nat :=
  Function.update members m.1 (some m.2)

/-- `s'` comes from `s` by finding `fields`. -/
structure Found (s : RadiotapScan) (fields : List RadiotapField) (s' : RadiotapScan) : Prop where
  placed : s'.placed = s.placed ++ places RadiotapField.abi s.cp fields
  cp : s'.cp = placesEnd RadiotapField.abi s.cp fields
  presenceExt : s'.presenceExt = s.presenceExt
  members : s'.members = (places RadiotapField.abi s.cp fields).foldl putMember s.members

namespace Found

variable {s s' s'' : RadiotapScan} {fields fields' : List RadiotapField}

theorem refl (s : RadiotapScan) : Found s [] s where
  placed := (List.append_nil _).symm
  cp := rfl
  presenceExt := rfl
  members := rfl

theorem trans (h : Found s fields s') (h' : Found s' fields' s'') :
    Found s (fields ++ fields') s'' where
  placed := by
    rw [h'.placed, h.placed, h.cp, List.append_assoc, places_append]
  cp := by rw [h'.cp, h.cp, placesEnd_append]
  presenceExt := h'.presenceExt.trans h.presenceExt
  members := by rw [h'.members, h.members, h.cp, places_append, List.foldl_append]

end Found

namespace RadiotapScan

theorem processSequence_found (s : RadiotapScan) (presence : UInt32) (m : RadiotapField) :
    Found s ([m].filter fun m => hasBit presence m.bit) (s.processSequence presence m) := by
  unfold processSequence
  split_ifs with h
  · have hone : ([m].filter fun m => hasBit presence m.bit) = [m] := by simp [h]
    rw [hone]
    exact ⟨rfl, rfl, rfl, rfl⟩
  · have hnone : ([m].filter fun m => hasBit presence m.bit) = [] := by simp [h]
    rw [hnone]
    exact Found.refl s

theorem processSequences_found (presence : UInt32) (ms : List RadiotapField)
    (s : RadiotapScan) :
    Found s (ms.filter fun m => hasBit presence m.bit)
      (ms.foldl (fun s m => s.processSequence presence m) s) := by
  induction ms generalizing s with
  | nil => exact Found.refl s
  | cons m ms ih =>
      have hsplit : (m :: ms).filter (fun m => hasBit presence m.bit) =
          [m].filter (fun m => hasBit presence m.bit) ++
            ms.filter (fun m => hasBit presence m.bit) := by
        rw [← List.filter_append]
        rfl
      rw [hsplit]
      exact (s.processSequence_found presence m).trans (ih _)

/-- A word of known fields is read to its end. -/
theorem processWord_found {presence : UInt32} (h : RadiotapField.KnownFields presence)
    (s : RadiotapScan) :
    ∃ s', s.processWord presence = (s', true) ∧
      Found s (RadiotapField.ofPresence presence) s' := by
  have hmid : ¬ hasBit presence 18 = true := by
    rw [h 18 (by decide)]
    exact Bool.false_ne_true
  have hlast : ([23, 24, 25, 26, 27, 28, 29, 30].any (hasBit presence)) = false := by
    rw [List.any_eq_false]
    intro bit hbit
    rw [h bit (List.mem_cons_of_mem _ hbit)]
    exact Bool.false_ne_true
  have hfound := (processSequences_found presence RadiotapField.low s).trans
    (processSequences_found presence RadiotapField.high _)
  rw [← List.filter_append] at hfound
  refine ⟨_, ?_, hfound⟩
  unfold processWord
  rw [if_neg hmid, hlast]
  rfl

end RadiotapScan

namespace Radiotap

/-- `*presence_ext`, which stands behind `presence`. -/
def presenceExt (r : Radiotap) (mem : Memory) : UInt32 := mem.readLe32 (r.header + 8)

/-- The fields of the header: those of `presence`, and those of `*presence_ext` if it is
there. -/
def fields (r : Radiotap) (mem : Memory) : List RadiotapField :=
  RadiotapField.ofPresence (r.presence mem) ++
    if hasBit (r.presence mem) 31 then RadiotapField.ofPresence (r.presenceExt mem) else []

/-- The offset at which the fields start. -/
def start (r : Radiotap) (mem : Memory) : Nat := if hasBit (r.presence mem) 31 then 12 else 8

/-- The presence words have bits of known fields only. -/
structure KnownFields (r : Radiotap) (mem : Memory) : Prop where
  presence : RadiotapField.KnownFields (r.presence mem)
  presenceExt : hasBit (r.presence mem) 31 = true →
    RadiotapField.KnownFields (r.presenceExt mem)

/-- The outcome of a scan: its fields are laid out from the address of the header on. -/
structure Scanned (r : Radiotap) (mem : Memory) (s : RadiotapScan) : Prop where
  placed : s.placed =
    places RadiotapField.abi (r.header + r.start mem) (r.fields mem)
  scanLength : s.scanLength =
    placesEnd RadiotapField.abi (r.header + r.start mem) (r.fields mem) - r.header
  members : s.members = s.placed.foldl putMember fun _ => none

/-- Both words are read to their ends. -/
theorem processWords_found {r : Radiotap} {mem : Memory} (h : r.KnownFields mem)
    (s : RadiotapScan) :
    ∃ s', r.processWords (r.startScan s mem) mem = (s', true) ∧
      Found (r.startScan s mem) (r.fields mem) s' := by
  obtain ⟨s₁, hs₁, hfound₁⟩ := (r.startScan s mem).processWord_found h.presence
  unfold processWords fields
  rw [hs₁]
  dsimp only
  rw [hfound₁.presenceExt]
  by_cases hext : hasBit (r.presence mem) 31 = true
  · obtain ⟨s₂, hs₂, hfound₂⟩ := s₁.processWord_found (h.presenceExt hext)
    have hplace : (r.startScan s mem).presenceExt = some (r.header + 8) := by
      rw [startScan, if_pos hext]
    rw [hplace, if_pos hext]
    exact ⟨s₂, hs₂, hfound₁.trans hfound₂⟩
  · have hplace : (r.startScan s mem).presenceExt = none := by
      rw [startScan, if_neg hext]
      rfl
    rw [hplace, if_neg hext, List.append_nil]
    exact ⟨s₁, rfl, hfound₁⟩

theorem startScan_cp (r : Radiotap) (s : RadiotapScan) (mem : Memory) :
    (r.startScan s mem).cp = r.header + r.start mem ∧ (r.startScan s mem).placed = [] ∧
      (r.startScan s mem).members = fun _ => none := by
  unfold startScan start
  split_ifs <;> exact ⟨rfl, rfl, rfl⟩

theorem finishScan_fields (r : Radiotap) (s : RadiotapScan) (calculateLen : Bool)
    (mem : Memory) :
    (r.finishScan s calculateLen mem).1.placed = s.placed ∧
      (r.finishScan s calculateLen mem).1.members = s.members ∧
      (r.finishScan s calculateLen mem).1.scanLength = (s.cp - r.header) % 65536 := by
  unfold finishScan
  dsimp only
  split_ifs <;> exact ⟨rfl, rfl, rfl⟩

/-- A header is far shorter than 65536 bytes. -/
theorem placesEnd_fields_le (r : Radiotap) (mem : Memory) :
    placesEnd RadiotapField.abi (r.header + r.start mem) (r.fields mem) ≤ r.header + 1068 := by
  have hend := placesEnd_le (fun m => ⟨m.abi_pos, m.abi_le⟩) (r.header + r.start mem)
    (r.fields mem)
  have hstart : r.start mem ≤ 12 := by
    unfold start
    split_ifs <;> omega
  have hlength : (r.fields mem).length ≤ 44 := by
    have hpresence := RadiotapField.length_ofPresence_le (r.presence mem)
    have hext := RadiotapField.length_ofPresence_le (r.presenceExt mem)
    unfold fields
    rw [List.length_append]
    split_ifs
    · omega
    · rw [List.length_nil]
      omega
  omega

/-- **A scan is a layout** by `sizeof` and `alignof` from the address of the header. -/
theorem rescan_scanned {r : Radiotap} {mem : Memory} (h : r.KnownFields mem) (s : RadiotapScan)
    (calculateLen : Bool) : r.Scanned mem (r.rescan s calculateLen mem).1 := by
  obtain ⟨s', hs', hfound⟩ := processWords_found h s
  obtain ⟨hcp, hplaced, hmembers⟩ := r.startScan_cp s mem
  obtain ⟨hplaced', hmembers', hlength⟩ := r.finishScan_fields s' calculateLen mem
  have hend := r.placesEnd_fields_le mem
  have hp : s'.placed = places RadiotapField.abi (r.header + r.start mem) (r.fields mem) := by
    rw [hfound.placed, hplaced, hcp, List.nil_append]
  unfold rescan
  rw [hs']
  refine ⟨hplaced'.trans hp, ?_, ?_⟩
  · rw [hlength, hfound.cp, hcp, Nat.mod_eq_of_lt (by omega)]
  · rw [hmembers', hfound.members, hplaced', hp, hcp, hmembers]

/-- A scan that calculates the length stores it. -/
theorem rescan_memory {r : Radiotap} {mem : Memory} (h : r.KnownFields mem) (s : RadiotapScan) :
    (r.rescan s true mem).2 =
      mem.writeLe16 (r.header + 2) (r.rescan s true mem).1.scanLength := by
  obtain ⟨s', hs', -⟩ := processWords_found h s
  unfold rescan
  rw [hs']
  rfl

end Radiotap

end Winject.Frames
