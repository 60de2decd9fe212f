import Winject.Pdcp.UlHeaders

/-!
# Whole frames under reconfiguration

`reconfigure` replaces the configuration and leaves the queue and the offset into
the front frame alone.  A frame of which a part has been sent as a segment may
therefore be finished while segmentation is off, by a segment that has no offset.

## Main results

* `segmentsOf_whole` — without segmentation only the first segment of a call can
  begin inside a frame.
* `write_whole_iff` — when the segments of one call carry whole frames.
* `whole_frames_iff` — a run emits whole frames while segmentation is off iff no such
  call finishes a frame that was begun before.
-/

namespace Winject.Pdcp

open Winject.Frames
open Winject.Lib.Runs

/-! ## The run -/

/-- The uplink and the frames pushed so far. -/
structure UlHistory where
  ul : PdcpUl
  pushed : List (List UInt8) := []
  deriving DecidableEq, Repr

/-- One call; an accepted frame is pushed. -/
def UlHistory.call (s : UlHistory) (c : UlCall) : UlHistory where
  ul := ulCall s.ul c
  pushed := match c with
    | .frame packet =>
      if (s.ul.onFrameData packet).2 then s.pushed ++ [packet] else s.pushed
    | _ => s.pushed

/-- An output buffer of at most 32767 bytes. -/
def UlCall.BufferOk : UlCall → Prop
  | .write buffer => buffer.length ≤ 32767
  | _ => True

/-- The payload of the segment at a position of a buffer. -/
def payloadAt (l : Layout) (buffer : List UInt8) (position : Nat) : List UInt8 :=
  let segment := (view l (buffer.drop position)).rescan
  (buffer.drop (position + segment.getHeaderSize)).take segment.getPayloadSize

/-- The segment in the buffer carries the frame it was cut from, and all of it. -/
def CarriesWhole (l : Layout) (buffer : List UInt8) (pushed : List (List UInt8))
    (g : SegmentAt) : Prop :=
  g.frame ∈ pushed ∧ payloadAt l buffer g.position = g.frame

/-- Every segment that the call emits while segmentation is off carries a whole pushed
frame. -/
def EmitsWhole (s : UlHistory) : UlCall → Prop
  | .write buffer =>
    s.ul.config.allowSegmentation = false → ∀ g ∈ s.ul.segments buffer,
      CarriesWhole s.ul.config.layout (s.ul.writePdcp buffer).buffer s.pushed g
  | _ => True

/-- The call does not finish a begun frame while segmentation is off: no frame has been
begun, or the buffer is too small for a commit or for the rest of the frame. -/
def StartsWhole (s : UlHistory) : UlCall → Prop
  | .write buffer =>
    s.ul.config.allowSegmentation = true ∨ s.ul.dataOffset = 0 ∨
      buffer.length < s.ul.config.minCommitSize ∨
      ∃ r ∈ s.ul.remaining.head?, buffer.length < s.ul.config.layout.headerSize + r
  | _ => True

/-! ## One call -/

/-- Without segmentation every segment ends its frame, and from the start of a frame on
every segment begins its frame. -/
theorem segmentsOf_whole (s : WriteState) (h : s.ul.Settled)
    (hns : s.ul.config.allowSegmentation = false) :
    ∀ g ∈ segmentsOf s, g.offset + g.copied = g.frame.length ∧
      (s.ul.dataOffset = 0 → g.offset = 0) := by
  induction s, h using settled_induction with
  | stop s _ hnone _ => simp [segmentsOf_of_none hnone]
  | write s s' front others n hs hs' hstep hw ih =>
      have hall := hw.whole hns
      have hnext : s'.ul.dataOffset = 0 := by
        rw [hw.ul, PdcpUl.advance, if_pos (by omega)]
      intro g hg
      rw [segmentsOf_of_some hstep, hw.emittedBy] at hg
      rcases List.mem_append.mp hg with hg | hg
      · obtain rfl := List.mem_singleton.mp hg
        exact ⟨hall, fun h0 => h0⟩
      · have hcfg := (writeStep_settled hs hstep).2
        obtain ⟨hend, hzero⟩ := ih (by rw [hcfg]; exact hns) g hg
        exact ⟨hend, fun _ => hzero hnext⟩

/-- The payload behind a header that describes its segment. -/
theorem Describes.payloadAt {l : Layout} {buffer : List UInt8} {g : SegmentAt}
    (h : Describes l buffer g) :
    payloadAt l buffer g.position = (g.frame.drop g.offset).take g.copied := by
  have hhdr : (view l (buffer.drop g.position)).rescan.getHeaderSize = l.headerSize :=
    (rescan_frame _).2
  have hfits := (described_fits h).1
  have hsize : (view l (buffer.drop g.position)).rescan.getPayloadSize = g.copied := by
    rw [PdcpSegment.getPayloadSize, h.size, hhdr]
    omega
  rw [Pdcp.payloadAt, hhdr, hsize, h.payload]

/-- The segments of an unsegmented call on at most 32767 bytes. -/
theorem unsegmented_payload {u : PdcpUl} (hu : u.Settled)
    (hns : u.config.allowSegmentation = false) {buffer : List UInt8}
    (hlen : buffer.length ≤ 32767) {g : SegmentAt} (hg : g ∈ u.segments buffer) :
    payloadAt u.config.layout (u.writePdcp buffer).buffer g.position =
      g.frame.drop g.offset := by
  cases hcount : (u.writePdcp buffer).count with
  | none =>
      rw [PdcpUl.segments, hcount] at hg
      cases hg
  | some count =>
      have hfit : SizesFit u.config u.remaining buffer.length := by
        intro before r after _
        dsimp only
        omega
      have hoff : OffsetFits u buffer.length := by
        intro hseg
        rw [hns] at hseg
        cases hseg
      have hd := ((hu.headers_iff hcount).mpr ⟨hfit, hoff⟩).each g hg
      rw [(writePdcp_loop hcount).1] at hg
      have hend := (segmentsOf_whole _ hu hns g hg).1
      rw [hd.payloadAt, List.take_of_length_le]
      rw [List.length_drop]
      omega

/-- What every call keeps: the queue is settled and holds pushed frames. -/
structure UlHistory.Sound (s : UlHistory) : Prop where
  settled : s.ul.Settled
  queued : ∀ f ∈ s.ul.outstandingBuffers, f ∈ s.pushed

/-- Segments of one call carry whole frames iff the call starts with a whole frame. -/
theorem write_whole_iff {s : UlHistory} (h : s.Sound) {buffer : List UInt8}
    (hlen : buffer.length ≤ 32767) :
    EmitsWhole s (.write buffer) ↔ StartsWhole s (.write buffer) := by
  have hu := h.settled
  unfold EmitsWhole StartsWhole
  cases hseg : s.ul.config.allowSegmentation with
  | true => simp
  | false =>
  simp only [Bool.false_eq_true, false_or, forall_const]
  constructor
  · -- the first segment begins at the offset
    intro hall
    by_contra hbad
    simp only [not_or, not_exists, not_and, Nat.not_lt] at hbad
    obtain ⟨hoff, hcommit, hroom⟩ := hbad
    obtain ⟨front, others, hq, hlt⟩ := hu.inside.resolve_left hoff
    have hrem : s.ul.remaining.head? = some (front.length - s.ul.dataOffset) := by
      simp only [PdcpUl.remaining, hq, List.head?_cons]
    have hfits := hroom _ hrem
    rcases writeStep_stops_or_writes (s := ⟨s.ul, [], buffer, 0, 0⟩) hu with
      ⟨-, hstuck⟩ | ⟨t, front', others', n, hstep, hw⟩
    · rcases hstuck with hnil | hle | ⟨-, r, hr, hless⟩
      · rw [hq] at hnil
        cases hnil
      · dsimp only at hle
        omega
      · have hge := hroom r hr
        dsimp only at hless
        omega
    · have hsome := (hu.count_isSome_iff buffer).mpr ⟨hcommit, hw.not_stuck⟩
      have hin : (⟨0, front', s.ul.dataOffset, n⟩ : SegmentAt) ∈ s.ul.segments buffer := by
        rw [PdcpUl.segments, if_pos hsome, segmentsOf_of_some hstep, hw.emittedBy]
        exact List.mem_append_left _ (List.mem_singleton_self _)
      have hwhole := (hall _ hin).2
      rw [unsegmented_payload hu hseg hlen hin] at hwhole
      have hlength := congrArg List.length hwhole
      rw [List.length_drop] at hlength
      have hfront := hu.front_lt hw.queue
      dsimp only at hlength
      omega
  · intro hok g hg
    cases hcount : (s.ul.writePdcp buffer).count with
    | none =>
        rw [PdcpUl.segments, hcount] at hg
        cases hg
    | some count =>
        have hpayload := unsegmented_payload hu hseg hlen hg
        have hsome := (hu.count_isSome_iff buffer).mp (by rw [hcount]; rfl)
        rw [(writePdcp_loop hcount).1] at hg
        refine ⟨h.queued _ (segmentsOf_frame _ hu g hg), ?_⟩
        rcases hok with hzero | hcommit | ⟨r, hr, hless⟩
        · rw [hpayload, (segmentsOf_whole _ hu hseg g hg).2 hzero, List.drop_zero]
        · omega
        · exact absurd (Or.inr (Or.inr ⟨hseg, r, hr, hless⟩)) hsome.2

/-! ## A whole run -/

theorem sound_init (cfg : PdcpUlConfig) : UlHistory.Sound ⟨{ config := cfg }, []⟩ :=
  ⟨settled_init cfg, by simp⟩

theorem UlHistory.Sound.call {s : UlHistory} (h : s.Sound) (c : UlCall) :
    (s.call c).Sound := by
  refine ⟨ulCall_settled h.settled c, ?_⟩
  cases c with
  | write buffer =>
      intro f hf
      exact h.queued f (writePdcp_queue h.settled buffer f hf)
  | reconfigure cfg => exact h.queued
  | frame packet =>
      intro f hf
      cases hempty : packet.isEmpty with
      | true =>
          simp only [UlHistory.call, ulCall, PdcpUl.onFrameData, hempty, if_true,
            Bool.false_eq_true, if_false] at hf ⊢
          exact h.queued f hf
      | false =>
          simp only [UlHistory.call, ulCall, PdcpUl.onFrameData, hempty, if_true,
            Bool.false_eq_true, if_false] at hf ⊢
          rcases List.mem_append.mp hf with hf | hf
          · exact List.mem_append_left _ (h.queued f hf)
          · exact List.mem_append_right _ hf

theorem emitsWhole_iff {s : UlHistory} (h : s.Sound) {c : UlCall} (hc : c.BufferOk) :
    EmitsWhole s c ↔ StartsWhole s c := by
  cases c with
  | write buffer => exact write_whole_iff h hc
  | frame packet => exact Iff.rfl
  | reconfigure cfg => exact Iff.rfl

/-- Runs from a fresh uplink, under any order of calls with buffers of at most 32767
bytes. -/
private theorem run_whole_iff (cfg : PdcpUlConfig) (calls : List UlCall)
    (h : ∀ c ∈ calls, c.BufferOk) :
    Steps UlHistory.call EmitsWhole ⟨{ config := cfg }, []⟩ calls ↔
      Steps UlHistory.call StartsWhole ⟨{ config := cfg }, []⟩ calls :=
  steps_iff_of_mem (fun _ c hs => hs.call c) calls
    (fun _ c hc hs => emitsWhole_iff hs (h c hc)) (sound_init cfg)

/-- A run emits nothing but whole pushed frames while segmentation is off iff no call
finishes, with segmentation off, a frame that was begun before. -/
theorem whole_frames_iff (cfg : PdcpUlConfig) (calls : List UlCall)
    (h : ∀ c ∈ calls, c.BufferOk) :
    Steps UlHistory.call EmitsWhole ⟨{ config := cfg }, []⟩ calls ↔
      Steps UlHistory.call StartsWhole ⟨{ config := cfg }, []⟩ calls :=
  run_whole_iff cfg calls h

/-- Segmentation switched off between two frames. -/
theorem switched_between_frames :
    Steps UlHistory.call EmitsWhole ⟨{ config := { allowSegmentation := true } }, []⟩
      [.frame [1, 2, 3], .reconfigure {}, .write (List.replicate 16 0)] :=
  (whole_frames_iff _ _ (by simp [UlCall.BufferOk])).mpr
    ⟨trivial, trivial, Or.inr (Or.inl rfl), trivial⟩

/-- An uplink behind the first four bytes of a frame of six. -/
def fourOfSix : PdcpUl where
  config := { allowSegmentation := true }
  outstandingBuffers := [[1, 2, 3, 4, 5, 6]]
  dataOffset := 4
  totalInBytes := 6
  totalOutBytes := 4

private theorem fourOfSix_written :
    ([UlCall.frame [1, 2, 3, 4, 5, 6], .write (List.replicate 8 0)].foldl ulCall
      { config := { allowSegmentation := true } }) = fourOfSix := by
  have hstep : writeStep ⟨(ulCall { config := { allowSegmentation := true } }
      (.frame [1, 2, 3, 4, 5, 6])), [], List.replicate 8 0, 0, 0⟩ =
        some ⟨fourOfSix, [0, 8, 0, 0, 1, 2, 3, 4], [], 8, 1⟩ := by
    decide
  have hstop : writeStep ⟨fourOfSix, [0, 8, 0, 0, 1, 2, 3, 4], [], 8, 1⟩ = none := by
    decide
  change (PdcpUl.writePdcp (ulCall { config := { allowSegmentation := true } }
    (.frame [1, 2, 3, 4, 5, 6])) (List.replicate 8 0)).ul = fourOfSix
  unfold PdcpUl.writePdcp
  rw [writeLoop_of_some hstep, writeLoop_of_none hstop]
  rfl

/-- Segmentation switched off inside that frame: the other two bytes follow alone. -/
theorem switched_inside_frame :
    ¬ Steps UlHistory.call EmitsWhole ⟨{ config := { allowSegmentation := true } }, []⟩
      [.frame [1, 2, 3, 4, 5, 6], .write (List.replicate 8 0), .reconfigure {},
        .write (List.replicate 16 0)] := by
  rw [run_whole_iff _ _ (by simp [UlCall.BufferOk])]
  rintro ⟨-, -, -, hlast, -⟩
  have hstarts : StartsWhole ⟨([UlCall.frame [1, 2, 3, 4, 5, 6],
      .write (List.replicate 8 0)].foldl ulCall
        { config := { allowSegmentation := true } }).reconfigure {}, [[1, 2, 3, 4, 5, 6]]⟩
      (.write (List.replicate 16 0)) := hlast
  rw [fourOfSix_written] at hstarts
  have hnot : ¬ StartsWhole ⟨fourOfSix.reconfigure {}, [[1, 2, 3, 4, 5, 6]]⟩
      (.write (List.replicate 16 0)) := by
    unfold StartsWhole
    decide
  exact hnot hstarts

end Winject.Pdcp
