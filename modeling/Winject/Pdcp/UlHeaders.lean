import Winject.Pdcp.UlSegments

/-!
# Headers that describe what was written

A segment header has 15 bits for `SIZE` and 16 bits for `OFFSET`, and nothing
bounds the frames of `on_frame_data` or the output buffer of `write_pdcp`.  The
bytes a call lays out are determined by what is left of the queued frames: frame
`i` begins behind the headers and bytes of the frames in front of it.

## Main results

* `segmentsOf_fit_iff` — when all segments of a loop fit their fields.
* `headers_describe_iff` — the headers of a successful call describe its segments,
  and their sizes sum to the count it returns, iff the laid out pieces fit.
* `frame_32766_misdescribed` — an unsegmented frame of 32766 bytes is misdescribed.
-/

namespace Winject.Pdcp

open Winject.Frames

/-! ## The bytes a call lays out -/

/-- The piece of every frame that begins inside `room` bytes takes, with its header, at
most 32767 of them.  Without segmentation only a whole frame is laid out. -/
def SizesFit (cfg : PdcpUlConfig) (remaining : List Nat) (room : Nat) : Prop :=
  ∀ before r after, remaining = before ++ r :: after →
    let start := (before.map (cfg.layout.headerSize + ·)).sum
    start + cfg.layout.headerSize < room →
    (cfg.allowSegmentation = true ∨ start + (cfg.layout.headerSize + r) ≤ room) →
    min (cfg.layout.headerSize + r) (room - start) ≤ 32767

/-- A call that begins with a segment begins at an offset of 16 bits. -/
def OffsetFits (u : PdcpUl) (room : Nat) : Prop :=
  u.config.allowSegmentation = true → u.config.layout.headerSize < room →
    u.dataOffset ≤ 65535

theorem sizesFit_nil (cfg : PdcpUlConfig) (room : Nat) : SizesFit cfg [] room := by
  intro before r after h
  cases before <;> cases h

theorem sizesFit_of_le {cfg : PdcpUlConfig} {rs : List Nat} {room : Nat}
    (h : room ≤ cfg.layout.headerSize) : SizesFit cfg rs room := by
  intro before r after _
  dsimp only
  omega

/-- The first frame, and the others in the room behind it. -/
theorem sizesFit_cons (cfg : PdcpUlConfig) (r : Nat) (rs : List Nat) (room : Nat) :
    SizesFit cfg (r :: rs) room ↔
      (cfg.layout.headerSize < room →
        (cfg.allowSegmentation = true ∨ cfg.layout.headerSize + r ≤ room) →
        min (cfg.layout.headerSize + r) room ≤ 32767) ∧
      SizesFit cfg rs (room - (cfg.layout.headerSize + r)) := by
  have hge := headerSize_ge cfg.layout
  constructor
  · intro h
    refine ⟨fun hroom hlay => ?_, fun before q after heq => ?_⟩
    · have hfirst := h [] r rs rfl
      simp only [List.map_nil, List.sum_nil, Nat.zero_add, Nat.sub_zero] at hfirst
      exact hfirst hroom hlay
    · have hlater := h (r :: before) q after (by rw [heq]; rfl)
      simp only [List.map_cons, List.sum_cons] at hlater ⊢
      generalize (before.map (cfg.layout.headerSize + ·)).sum = start at hlater ⊢
      intro hstart hlay
      have hmin := hlater (by omega) (hlay.imp_right (by omega))
      omega
  · rintro ⟨hfirst, hrest⟩ before q after heq
    cases before with
    | nil =>
        obtain ⟨rfl, rfl⟩ := List.cons.inj heq
        simp only [List.map_nil, List.sum_nil, Nat.zero_add, Nat.sub_zero]
        exact hfirst
    | cons b before =>
        obtain ⟨rfl, rfl⟩ := List.cons.inj heq
        have hlater := hrest before q after rfl
        simp only [List.map_cons, List.sum_cons] at hlater ⊢
        generalize (before.map (cfg.layout.headerSize + ·)).sum = start at hlater ⊢
        intro hstart hlay
        have hmin := hlater (by omega) (hlay.imp_right (by omega))
        omega

/-- What is left behind a piece of the front frame. -/
theorem PdcpUl.advance_fits_iff {u : PdcpUl} {front : List UInt8}
    {others : List (List UInt8)} (hq : u.outstandingBuffers = front :: others)
    {n room : Nat} (hle : u.dataOffset + n ≤ front.length)
    (hn : n = min (front.length - u.dataOffset) (room - u.config.layout.headerSize)) :
    (SizesFit u.config (u.advance front others n).remaining
        (room - (u.config.layout.headerSize + n)) ∧
      OffsetFits (u.advance front others n) (room - (u.config.layout.headerSize + n))) ↔
      SizesFit u.config (others.map List.length)
        (room - (u.config.layout.headerSize + (front.length - u.dataOffset))) := by
  by_cases hend : front.length ≤ u.dataOffset + n
  · have hrem : (u.advance front others n).remaining = others.map List.length := by
      simp only [PdcpUl.advance, if_pos hend, PdcpUl.remaining]
      cases others <;> rfl
    have hoff : (u.advance front others n).dataOffset = 0 := by
      simp only [PdcpUl.advance, if_pos hend]
    have hlen : front.length - u.dataOffset = n := by omega
    rw [hrem, hlen]
    refine ⟨fun h => h.1, fun h => ⟨h, fun _ _ => ?_⟩⟩
    rw [hoff]
    exact Nat.zero_le _
  · -- the piece takes what is left of the buffer
    have hzero : room - (u.config.layout.headerSize + n) = 0 := by omega
    have hzero' : room - (u.config.layout.headerSize + (front.length - u.dataOffset)) = 0 := by
      omega
    rw [hzero, hzero']
    exact ⟨fun _ => sizesFit_of_le (Nat.zero_le _),
      fun _ => ⟨sizesFit_of_le (Nat.zero_le _), fun _ h => absurd h (Nat.not_lt_zero _)⟩⟩

/-- All segments of a loop fit their fields iff the bytes it lays out do. -/
theorem segmentsOf_fit_iff (s : WriteState) (h : s.ul.Settled) :
    (∀ g ∈ segmentsOf s, g.FitsFields s.ul.config.layout) ↔
      SizesFit s.ul.config s.ul.remaining s.rest.length ∧
        OffsetFits s.ul s.rest.length := by
  induction s, h using settled_induction with
  | stop s hs hnone hstuck =>
      rw [segmentsOf_of_none hnone]
      refine ⟨fun _ => ?_, fun _ g hg => by cases hg⟩
      rcases hstuck with hq | hroom | ⟨hseg, r, hr, hlt⟩
      · have hrem : s.ul.remaining = [] := by simp only [PdcpUl.remaining, hq]
        rw [hrem]
        refine ⟨sizesFit_nil _ _, fun _ _ => ?_⟩
        rw [hs.offset_of_empty hq]
        exact Nat.zero_le _
      · exact ⟨sizesFit_of_le hroom, fun _ hlt => absurd hlt (Nat.not_lt.mpr hroom)⟩
      · refine ⟨?_, fun htrue => by rw [hseg] at htrue; cases htrue⟩
        obtain ⟨rs, hrs⟩ := List.head?_eq_some_iff.mp hr
        rw [hrs, sizesFit_cons]
        refine ⟨fun _ hlay => ?_, sizesFit_of_le (by omega)⟩
        rw [hseg] at hlay
        simp only [Bool.false_eq_true, false_or] at hlay
        omega
  | write s s' front others n hs hs' hstep hw ih =>
      have hcfg := (writeStep_settled hs hstep).2
      have hle := hw.inside hs
      have hsize := hw.size
      have hpos := hw.pos
      have hroom := hw.room
      have hwhole := hw.whole
      have hrem : s.ul.remaining =
          (front.length - s.ul.dataOffset) :: others.map List.length := by
        simp only [PdcpUl.remaining, hw.queue]
      have hfirst : SegmentAt.FitsFields s.ul.config.layout
            ⟨s.totalPdcpWritten, front, s.ul.dataOffset, n⟩ ↔
          (s.ul.config.layout.headerSize < s.rest.length →
            (s.ul.config.allowSegmentation = true ∨ s.ul.config.layout.headerSize +
              (front.length - s.ul.dataOffset) ≤ s.rest.length) →
            min (s.ul.config.layout.headerSize + (front.length - s.ul.dataOffset))
              s.rest.length ≤ 32767) ∧ OffsetFits s.ul s.rest.length := by
        have hlay : s.ul.config.allowSegmentation = true ∨ s.ul.config.layout.headerSize +
            (front.length - s.ul.dataOffset) ≤ s.rest.length := by
          cases hseg : s.ul.config.allowSegmentation with
          | true => exact Or.inl rfl
          | false =>
              have hall := hwhole hseg
              exact Or.inr (by omega)
        have hlt : s.ul.config.layout.headerSize < s.rest.length := by omega
        constructor
        · intro hfit
          have hsz := hfit.1
          dsimp only at hsz
          exact ⟨fun _ _ => by omega, fun hseg _ => hfit.2 hseg⟩
        · rintro ⟨hmin, hoff⟩
          have hsz := hmin hlt hlay
          exact ⟨by dsimp only; omega, fun hseg => hoff hseg hlt⟩
      rw [segmentsOf_of_some hstep, hw.emittedBy, List.forall_mem_append,
        List.forall_mem_singleton, hrem, sizesFit_cons]
      -- behind a segment that fits, the loop goes on in the room left over
      have hgoes : SegmentAt.FitsFields s.ul.config.layout
            ⟨s.totalPdcpWritten, front, s.ul.dataOffset, n⟩ →
          ((∀ g ∈ segmentsOf s', g.FitsFields s.ul.config.layout) ↔
            SizesFit s.ul.config (others.map List.length) (s.rest.length -
              (s.ul.config.layout.headerSize + (front.length - s.ul.dataOffset)))) := by
        intro hfit
        obtain ⟨-, hrest, -⟩ := hw.appends hs hfit
        rw [← PdcpUl.advance_fits_iff hw.queue hle hsize, ← hw.ul,
          ← List.length_drop, ← hrest, ← hcfg]
        exact ih
      constructor
      · rintro ⟨hfit, hall⟩
        have hhead := hfirst.mp hfit
        exact ⟨⟨hhead.1, (hgoes hfit).mp hall⟩, hhead.2⟩
      · rintro ⟨⟨hmin, hall⟩, hoff⟩
        have hfit := hfirst.mpr ⟨hmin, hoff⟩
        exact ⟨hfit, (hgoes hfit).mpr hall⟩

/-! ## A whole call -/

/-- The headers in the finished buffer describe the emitted segments, the sizes they
report sum to the returned count, and that is at most the buffer length. -/
structure HeadersDescribe (u : PdcpUl) (buffer : List UInt8) (count : Nat) : Prop where
  each : ∀ g ∈ u.segments buffer,
    Describes u.config.layout (u.writePdcp buffer).buffer g
  sum : ((u.segments buffer).map (fun g => (view u.config.layout
    ((u.writePdcp buffer).buffer.drop g.position)).rescan.getSize)).sum = count
  bound : count ≤ buffer.length

/-- A successful call has run its loop. -/
theorem writePdcp_loop {u : PdcpUl} {buffer : List UInt8} {count : Nat}
    (h : (u.writePdcp buffer).count = some count) :
    u.segments buffer = segmentsOf ⟨u, [], buffer, 0, 0⟩ ∧
      count = (writeLoop ⟨u, [], buffer, 0, 0⟩).totalPdcpWritten ∧
      (u.writePdcp buffer).buffer = (writeLoop ⟨u, [], buffer, 0, 0⟩).written ++
        (writeLoop ⟨u, [], buffer, 0, 0⟩).rest := by
  have hsegs : u.segments buffer = segmentsOf ⟨u, [], buffer, 0, 0⟩ := by
    rw [PdcpUl.segments, h]
    rfl
  refine ⟨hsegs, ?_⟩
  unfold PdcpUl.writePdcp at h ⊢
  dsimp only at h ⊢
  split_ifs at h ⊢
  exact ⟨(Option.some.inj h).symm, rfl⟩

/-- In a settled state the headers of a successful call are right iff the bytes it lays
out fit them. -/
theorem PdcpUl.Settled.headers_iff {u : PdcpUl} (hu : u.Settled) {buffer : List UInt8}
    {count : Nat} (h : (u.writePdcp buffer).count = some count) :
    HeadersDescribe u buffer count ↔
      SizesFit u.config u.remaining buffer.length ∧ OffsetFits u buffer.length := by
  obtain ⟨hsegs, hcount, hbuffer⟩ := writePdcp_loop h
  have hiff := segmentsOf_fit_iff ⟨u, [], buffer, 0, 0⟩ hu
  dsimp only at hiff
  rw [← hiff]
  constructor
  · intro hd g hg
    exact described_fits (hd.each g (by rw [hsegs]; exact hg))
  · intro hfits
    have hw := writeLoop_wrote ⟨u, [], buffer, 0, 0⟩ hu rfl hfits
    have heach : ∀ g ∈ u.segments buffer,
        Describes u.config.layout (u.writePdcp buffer).buffer g := by
      intro g hg
      rw [hsegs] at hg
      rw [hbuffer]
      exact hw.each g hg _
    have htotal := hw.total
    have hroom := hw.room
    have hlen := hw.written
    simp only [List.length_nil, Nat.zero_add] at htotal hroom
    refine ⟨heach, ?_, by omega⟩
    rw [hcount, htotal, ← hsegs]
    congr 1
    exact List.map_congr_left (fun g hg => (heach g hg).size)

/-- Behind any events, with any frame, buffer and configuration: the headers of a
successful `write_pdcp` describe what it wrote iff every piece it lays out takes at most
32767 bytes and it begins at most at byte 65535 of the front frame. -/
theorem headers_describe_iff (cfg : PdcpUlConfig) (events : List UlEvent)
    (buffer : List UInt8) (count : Nat)
    (h : ((events.foldl ulEvent { config := cfg }).writePdcp buffer).count = some count) :
    HeadersDescribe (events.foldl ulEvent { config := cfg }) buffer count ↔
      SizesFit (events.foldl ulEvent { config := cfg }).config
          (events.foldl ulEvent { config := cfg }).remaining buffer.length ∧
        OffsetFits (events.foldl ulEvent { config := cfg }) buffer.length :=
  (settled_run cfg events).headers_iff h

/-- Three bytes, with numbers and offsets in the header, and room for them. -/
theorem three_bytes_described :
    ∃ count, HeadersDescribe ([UlEvent.call (.frame [1, 2, 3])].foldl ulEvent
      { config := { allowSegmentation := true, allowReordering := true } })
      (List.replicate 16 0) count := by
  have hsome := ((settled_run { allowSegmentation := true, allowReordering := true }
    [.call (.frame [1, 2, 3])]).count_isSome_iff (List.replicate 16 0)).mpr
      ⟨by decide, by unfold PdcpUl.Stuck; decide⟩
  obtain ⟨count, hcount⟩ := Option.isSome_iff_exists.mp hsome
  refine ⟨count, (headers_describe_iff _ _ _ count hcount).mpr ⟨?_, fun _ _ => by decide⟩⟩
  exact (sizesFit_cons _ 3 [] 16).mpr ⟨fun _ _ => by decide, sizesFit_nil _ _⟩

/-- A fresh uplink behind its first frame. -/
theorem first_frame (cfg : PdcpUlConfig) {packet : List UInt8} (hne : packet ≠ []) :
    ([UlEvent.call (.frame packet)].foldl ulEvent { config := cfg }).remaining = [packet.length] ∧
      ([UlEvent.call (.frame packet)].foldl ulEvent { config := cfg }).config = cfg ∧
      ([UlEvent.call (.frame packet)].foldl ulEvent { config := cfg }).outstandingBuffers = [packet] := by
  cases packet with
  | nil => exact absurd rfl hne
  | cons b bs => exact ⟨rfl, rfl, rfl⟩

/-- An unsegmented frame of 32766 bytes, with its header one byte too long for `SIZE`. -/
theorem frame_32766_misdescribed :
    ∃ count, ((([UlEvent.call (.frame (List.replicate 32766 0))].foldl ulEvent
        { config := {} }).writePdcp (List.replicate 40000 0)).count = some count) ∧
      ¬ HeadersDescribe ([UlEvent.call (.frame (List.replicate 32766 0))].foldl ulEvent
        { config := {} }) (List.replicate 40000 0) count := by
  have hplen : (List.replicate 32766 (0 : UInt8)).length = 32766 := List.length_replicate
  have hblen : (List.replicate 40000 (0 : UInt8)).length = 40000 := List.length_replicate
  generalize List.replicate 32766 (0 : UInt8) = packet at hplen
  generalize List.replicate 40000 (0 : UInt8) = buffer at hblen
  have hne : packet ≠ [] := List.ne_nil_of_length_pos (by omega)
  have hsettled := settled_run {} [.call (.frame packet)]
  obtain ⟨hrem, hcfg, hqueue⟩ := first_frame {} hne
  generalize [UlEvent.call (.frame packet)].foldl ulEvent { config := {} } = u
    at hsettled hrem hcfg hqueue
  have hhdr : (PdcpUlConfig.layout {}).headerSize = 2 := rfl
  have hsome := (hsettled.count_isSome_iff buffer).mpr (by
    rw [PdcpUl.Stuck, hrem, hcfg, hqueue, hhdr, hblen, hplen]
    simp)
  obtain ⟨count, hcount⟩ := Option.isSome_iff_exists.mp hsome
  refine ⟨count, hcount, fun hd => ?_⟩
  have hfit := ((hsettled.headers_iff hcount).mp hd).1
  rw [hrem, hcfg, hblen, hplen] at hfit
  have hmin := ((sizesFit_cons {} 32766 [] 40000).mp hfit).1
  rw [hhdr] at hmin
  have hle := hmin (by omega) (Or.inr (by omega))
  omega

end Winject.Pdcp
