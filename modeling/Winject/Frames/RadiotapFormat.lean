import Winject.Frames.RadiotapScan

/-!
# Where the format has the fields of a radiotap header

The comments beside the structs of `radiotap.hpp` state a size and an alignment, and
offsets count from the header.  `rescan` differs in three ways.

* It pads by the address, which the alignments of the fields have to divide.
* It aligns `ampdu_status_t` to four bytes.
* It goes on behind the padding of `timestamp_t`, four bytes too far.  Only a TSFT makes up
  for that, the first field of the second word.

## Main results

* `moved_iff_suits` — when a list of fields is found where it is.
* `rescan_finds_stated_iff` — when a scan finds the stated layout.
-/

namespace Winject.Frames

open Winject.Lib.Alignment

namespace RadiotapField

theorem stated_pos (m : RadiotapField) : 0 < m.stated.align := by
  cases m <;> decide

theorem stated_align_cases (m : RadiotapField) : m.stated.align = 8 ∨ m.stated.align ≤ 2 := by
  cases m <;> decide

theorem abi_align_of_eight {m : RadiotapField} (h : m.stated.align = 8) : m.abi.align = 8 := by
  cases m <;> first | rfl | (exact absurd h (by decide))

theorem eq_of_eight {m : RadiotapField} (h : m.stated.align = 8) : m = tsft ∨ m = timestamp := by
  cases m <;> first | exact Or.inl rfl | exact Or.inr rfl | exact absurd h (by decide)

theorem abi_eq_stated {m : RadiotapField} (hampdu : m ≠ ampduStatus) (htime : m ≠ timestamp) :
    m.abi = m.stated := by
  cases m <;> first | rfl | contradiction

theorem mem_ofPresence {presence : UInt32} {m : RadiotapField} :
    m ∈ ofPresence presence ↔ hasBit presence m.bit = true := by
  have hmem : m ∈ low ++ high := by cases m <;> decide
  rw [ofPresence, List.mem_filter]
  exact and_iff_right hmem

/-- The padding behind a timestamp is taken up by the alignment of the next field. -/
def Absorbed : List RadiotapField → Prop
  | [] => True
  | m :: ms => (m = timestamp → ∃ next ∈ ms.head?, next.stated.align = 8) ∧ Absorbed ms

/-- The address `base` and the fields behind offset `n` hide the differences. -/
structure Suits (base n : Nat) (ms : List RadiotapField) : Prop where
  aligned : ∀ m ∈ ms, m ≠ ampduStatus → m.stated.align ∣ base
  ampdu : ∀ offset, (ampduStatus, offset) ∈ places stated n ms → 4 ∣ base + offset
  absorbed : Absorbed ms

theorem suits_nil (base n : Nat) : Suits base n [] where
  aligned := by simp
  ampdu := by simp [places]
  absorbed := trivial

theorem suits_cons {base n : Nat} {m : RadiotapField} {ms : List RadiotapField} :
    Suits base n (m :: ms) ↔
      ((m ≠ ampduStatus → m.stated.align ∣ base) ∧
        (m = ampduStatus → 4 ∣ base + alignUp m.stated.align n) ∧
        (m = timestamp → ∃ next ∈ ms.head?, next.stated.align = 8)) ∧
      Suits base (alignUp m.stated.align n + m.stated.size) ms := by
  constructor
  · rintro ⟨haligned, hampdu, habsorbed⟩
    refine ⟨⟨haligned m List.mem_cons_self, fun h => ?_, habsorbed.1⟩,
      fun m' hm' => haligned m' (List.mem_cons_of_mem _ hm'),
      fun offset h => hampdu offset (List.mem_cons_of_mem _ h), habsorbed.2⟩
    apply hampdu
    rw [places, h]
    exact List.mem_cons_self
  · rintro ⟨⟨halign, hfour, hnext⟩, hrest⟩
    refine ⟨List.forall_mem_cons.mpr ⟨halign, hrest.aligned⟩, fun offset h => ?_,
      hnext, hrest.absorbed⟩
    rcases List.mem_cons.mp h with heq | hmem
    · cases heq
      exact hfour rfl
    · exact hrest.ampdu offset hmem

/-- Behind a timestamp the scan is four bytes ahead, and only an alignment of eight makes
up for that. -/
theorem moved_behind_timestamp {base n : Nat} (hbase : 8 ∣ base) (hn : n % 8 = 4)
    (ms : List RadiotapField) :
    Moved abi stated base (base + n + 4) n ms ↔
      (∃ next ∈ ms.head?, next.stated.align = 8) ∧ Moved abi stated base (base + n) n ms := by
  cases ms with
  | nil =>
      rw [moved_nil]
      simp
  | cons next ms =>
      rw [moved_cons, moved_cons]
      rcases next.stated_align_cases with height | hsmall
      · have hsame : alignUp 8 (base + n + 4) = alignUp 8 (base + n) := by
          rw [alignUp_of_dvd (by decide) (show 8 ∣ base + n + 4 by omega)]
          exact ((alignUp_eq_iff (by decide)).mpr ⟨by omega, by omega, by omega⟩).symm
        rw [abi_align_of_eight height, hsame]
        simp [height]
      · have hlt := alignUp_lt next.stated_pos n
        have hle := le_alignUp next.abi.align (base + n + 4)
        constructor
        · rintro ⟨h, -⟩
          omega
        · rintro ⟨⟨m, hm, h⟩, -⟩
          cases hm
          omega

theorem moved_ampduStatus {base n : Nat} :
    alignUp ampduStatus.abi.align (base + n) = base + alignUp ampduStatus.stated.align n ↔
      4 ∣ base + alignUp ampduStatus.stated.align n := by
  have hle := le_alignUp ampduStatus.stated.align n
  have hlt : alignUp ampduStatus.stated.align n < n + 2 := alignUp_lt (by decide) n
  rw [alignUp_eq_iff ampduStatus.abi_pos]
  constructor
  · rintro ⟨-, -, h⟩
    exact h
  · intro h
    refine ⟨by omega, ?_, h⟩
    show base + alignUp ampduStatus.stated.align n < base + n + 4
    omega

/-- A field of the stated size leaves the scan where the format is. -/
theorem moved_cons_of_size {base n : Nat} {m : RadiotapField} {ms : List RadiotapField}
    (hsize : m.abi.size = m.stated.size) :
    Moved abi stated base (base + n) n (m :: ms) ↔
      alignUp m.abi.align (base + n) = base + alignUp m.stated.align n ∧
        Moved abi stated base (base + (alignUp m.stated.align n + m.stated.size))
          (alignUp m.stated.align n + m.stated.size) ms := by
  rw [moved_cons]
  apply and_congr_right
  intro hplace
  rw [hplace, hsize, Nat.add_assoc]

/-- A timestamp needs a field behind it. -/
theorem moved_cons_timestamp {base n : Nat} {ms : List RadiotapField} :
    Moved abi stated base (base + n) n (timestamp :: ms) ↔
      timestamp.stated.align ∣ base ∧ (∃ next ∈ ms.head?, next.stated.align = 8) ∧
        Moved abi stated base
          (base + (alignUp timestamp.stated.align n + timestamp.stated.size))
          (alignUp timestamp.stated.align n + timestamp.stated.size) ms := by
  rw [moved_cons, show timestamp.abi.align = timestamp.stated.align from rfl,
    alignUp_add_iff timestamp.stated_pos]
  apply and_congr_right
  intro hdvd
  have hoffset : 8 ∣ alignUp timestamp.stated.align n := dvd_alignUp timestamp.stated_pos n
  have hahead : alignUp timestamp.stated.align (base + n) + timestamp.abi.size =
      base + (alignUp timestamp.stated.align n + timestamp.stated.size) + 4 := by
    rw [(alignUp_add_iff timestamp.stated_pos base n).mpr hdvd,
      show timestamp.abi.size = timestamp.stated.size + 4 from rfl]
    omega
  have hmod : (alignUp timestamp.stated.align n + timestamp.stated.size) % 8 = 4 := by
    rw [show timestamp.stated.size = 12 from rfl]
    omega
  rw [hahead, moved_behind_timestamp hdvd hmod]

/-- **When the scan is the stated layout**: the address suits the fields. -/
theorem moved_iff_suits {base n : Nat} {ms : List RadiotapField} :
    Moved abi stated base (base + n) n ms ↔ Suits base n ms := by
  induction ms generalizing n with
  | nil => simp [moved_nil, suits_nil]
  | cons m ms ih =>
      rw [suits_cons]
      by_cases hampdu : m = ampduStatus
      · subst hampdu
        rw [moved_cons_of_size rfl, moved_ampduStatus, ih]
        simp
      · by_cases htime : m = timestamp
        · subst htime
          rw [moved_cons_timestamp, ih]
          simp [and_assoc]
        · have hshape := abi_eq_stated hampdu htime
          rw [moved_cons_of_size (congrArg Shape.size hshape), hshape,
            alignUp_add_iff m.stated_pos, ih]
          simp [hampdu, htime]

/-! ### Timestamps -/

/-- The fields of a word in front of the timestamp. -/
theorem ofPresence_split (presence : UInt32) :
    ∃ ms, timestamp ∉ ms ∧
      ofPresence presence = ms ++ if hasBit presence 22 then [timestamp] else [] := by
  refine ⟨(low ++ [mcs, ampduStatus, vht]).filter fun m => hasBit presence m.bit, ?_, ?_⟩
  · intro h
    exact absurd (List.mem_of_mem_filter h) (by decide)
  · have hsplit : low ++ high = low ++ [mcs, ampduStatus, vht] ++ [timestamp] := rfl
    rw [ofPresence, hsplit, List.filter_append]
    congr 1
    cases h : hasBit presence 22 <;> simp [bit, h]

theorem absorbed_append {ms ms' : List RadiotapField} (h : timestamp ∉ ms) :
    Absorbed (ms ++ ms') ↔ Absorbed ms' := by
  induction ms with
  | nil => rfl
  | cons m ms ih =>
      rw [List.mem_cons, not_or] at h
      rw [List.cons_append, Absorbed, ih h.2]
      exact and_iff_right fun hm => absurd hm.symm h.1

/-- A timestamp at the end of a word depends on what follows the word. -/
theorem absorbed_ofPresence (presence : UInt32) (ms : List RadiotapField) :
    Absorbed (ofPresence presence ++ ms) ↔
      (hasBit presence 22 = true → ∃ next ∈ ms.head?, next.stated.align = 8) ∧ Absorbed ms := by
  obtain ⟨front, hfront, hsplit⟩ := ofPresence_split presence
  rw [hsplit, List.append_assoc, absorbed_append hfront]
  cases hasBit presence 22
  · simp
  · simp [Absorbed]

/-- The last word has no timestamp. -/
theorem absorbed_last (presence : UInt32) :
    Absorbed (ofPresence presence) ↔ hasBit presence 22 = false := by
  have h := absorbed_ofPresence presence []
  rw [List.append_nil] at h
  rw [h]
  simp [Absorbed]

/-- A word starts with an alignment of eight iff it has a TSFT, or nothing but a timestamp. -/
theorem head_ofPresence {presence : UInt32} (h : hasBit presence 22 = false) :
    (∃ next ∈ (ofPresence presence).head?, next.stated.align = 8) ↔
      hasBit presence 0 = true := by
  constructor
  · rintro ⟨next, hnext, height⟩
    have hmem := mem_ofPresence.mp (List.mem_of_mem_head? hnext)
    rcases eq_of_eight height with rfl | rfl
    · exact hmem
    · exact absurd hmem (by simp [bit, h])
  · intro htsft
    refine ⟨tsft, ?_, rfl⟩
    simp [ofPresence, low, List.filter_cons, bit, htsft]

end RadiotapField

namespace Radiotap

/-- The scan finds the fields where the format has them. -/
structure FindsStated (r : Radiotap) (mem : Memory) (s : RadiotapScan) : Prop where
  placed : s.placed = (places RadiotapField.stated (r.start mem) (r.fields mem)).map
    fun (m, offset) => (m, r.header + offset)
  members : s.members = s.placed.foldl putMember fun _ => none
  scanLength : s.scanLength = placesEnd RadiotapField.stated (r.start mem) (r.fields mem)

/-- The address and the presence words hide the differences. -/
structure SuitsFormat (r : Radiotap) (mem : Memory) : Prop where
  aligned : ∀ m ∈ r.fields mem, m ≠ .ampduStatus → m.stated.align ∣ r.header
  ampduStatus : ∀ offset,
    (.ampduStatus, offset) ∈ places RadiotapField.stated (r.start mem) (r.fields mem) →
      4 ∣ r.header + offset
  timestamp : hasBit (r.presence mem) 22 = true →
    hasBit (r.presence mem) 31 = true ∧ hasBit (r.presenceExt mem) 0 = true
  timestampExt : hasBit (r.presence mem) 31 = true → hasBit (r.presenceExt mem) 22 = false

theorem absorbed_fields (r : Radiotap) (mem : Memory) :
    RadiotapField.Absorbed (r.fields mem) ↔
      (hasBit (r.presence mem) 22 = true →
        hasBit (r.presence mem) 31 = true ∧ hasBit (r.presenceExt mem) 0 = true) ∧
      (hasBit (r.presence mem) 31 = true → hasBit (r.presenceExt mem) 22 = false) := by
  rw [fields, RadiotapField.absorbed_ofPresence]
  cases hext : hasBit (r.presence mem) 31
  · simp [RadiotapField.Absorbed]
  · simp only [if_true, RadiotapField.absorbed_last, true_and, forall_const]
    apply and_congr_left
    intro hlast
    rw [RadiotapField.head_ofPresence hlast]

theorem suitsFormat_iff (r : Radiotap) (mem : Memory) :
    r.SuitsFormat mem ↔ RadiotapField.Suits r.header (r.start mem) (r.fields mem) := by
  constructor
  · intro h
    exact ⟨h.aligned, h.ampduStatus, (r.absorbed_fields mem).mpr ⟨h.timestamp, h.timestampExt⟩⟩
  · intro h
    obtain ⟨htime, hext⟩ := (r.absorbed_fields mem).mp h.absorbed
    exact ⟨h.aligned, h.ampdu, htime, hext⟩

/-- **When a scan finds the stated layout**: exactly when the address and the presence
words suit it. -/
theorem rescan_finds_stated_iff {r : Radiotap} {mem : Memory} (h : r.KnownFields mem)
    (s : RadiotapScan) (calculateLen : Bool) :
    r.FindsStated mem (r.rescan s calculateLen mem).1 ↔ r.SuitsFormat mem := by
  have hscan := rescan_scanned h s calculateLen
  have hle := le_placesEnd RadiotapField.abi (r.header + r.start mem) (r.fields mem)
  rw [suitsFormat_iff, ← RadiotapField.moved_iff_suits, Moved]
  constructor
  · rintro ⟨hplaced, -, hlength⟩
    rw [← hscan.placed]
    refine ⟨hplaced, ?_⟩
    rw [← hlength, hscan.scanLength]
    omega
  · rintro ⟨hplaced, hend⟩
    refine ⟨hscan.placed.trans hplaced, hscan.members, ?_⟩
    rw [hscan.scanLength, hend]
    omega

/-- A header with FLAGS, RATE, TX_FLAGS and MCS, as the frames that are sent have it. -/
theorem rescan_finds_sent_fields :
    let mem : Memory := fun i => [0, 0, 0, 0, 0x06, 0x80, 0x08, 0x00].getD i 0
    FindsStated ⟨0⟩ mem (rescan ⟨0⟩ {} true mem).1 ↔ SuitsFormat ⟨0⟩ mem :=
  rescan_finds_stated_iff ⟨by decide, fun h => absurd h (by decide)⟩ {} true

/-- The three ways to miss the format: a channel behind an odd address, FLAGS in front of
an A-MPDU status, and a timestamp at the end. -/
theorem rescan_misses_format :
    let channel : Memory := Function.update (fun _ => 0) 5 0x08
    let ampdu : Memory := Function.update (Function.update (fun _ => 0) 4 0x02) 6 0x10
    let timestamp : Memory := Function.update (fun _ => 0) 6 0x40
    (KnownFields ⟨1⟩ channel ∧ ¬ FindsStated ⟨1⟩ channel (rescan ⟨1⟩ {} false channel).1) ∧
    (KnownFields ⟨0⟩ ampdu ∧ ¬ FindsStated ⟨0⟩ ampdu (rescan ⟨0⟩ {} false ampdu).1) ∧
      KnownFields ⟨0⟩ timestamp ∧
        ¬ FindsStated ⟨0⟩ timestamp (rescan ⟨0⟩ {} false timestamp).1 := by
  refine ⟨⟨⟨by decide, fun h => absurd h (by decide)⟩, fun h => ?_⟩,
    ⟨⟨by decide, fun h => absurd h (by decide)⟩, fun h => ?_⟩,
    ⟨by decide, fun h => absurd h (by decide)⟩, fun h => ?_⟩
  · exact absurd h.placed (by decide)
  · exact absurd h.placed (by decide)
  · exact absurd h.scanLength (by decide)

end Radiotap

end Winject.Frames
