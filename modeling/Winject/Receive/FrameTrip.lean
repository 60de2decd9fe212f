import Winject.Frames.BaseFrame
import Winject.Receive.WifiRx

/-!
# From `perform_tx` to `process_rx_frame`

In every slot the scheduler writes a region of `tx_buff` behind the headers that
`setup_80211_base_frame` has left there, and `perform_tx` sends the buffer up to the end of
what the scheduler has used.  The peer gets the 802.11 frame behind a radiotap header and in
front of an FCS: of its device, or, with `WIFIUDP`, of the sender's own buffer.

## Main results

* `TxFrame.slot_spec` — one slot.
* `frames_arrive` — what the peer hands to `process_rx_frame`, in every run.
-/

namespace Winject.Receive

open Winject.Frames
open Winject.Lib.Alignment
open Winject.Lib.ClassicBpf

/-! ## The model -/

/-- `frame_t::set_body_size`; the size has 16 bits. -/
def setBodySize (f : Frame80211) (size : Nat) : Frame80211 :=
  { f with fcs := f.frameBody.map (· + size % 65536) }

/-- `frame_t::end`. -/
def frameEnd (f : Frame80211) (isEnabledFcs : Bool) : Option Nat :=
  f.fcs.map fun fcs => if isEnabledFcs then fcs + 4 else fcs

/-- `frame_t::size`. -/
def frameSize (f : Frame80211) (isEnabledFcs : Bool) : Option Nat :=
  (frameEnd f isEnabledFcs).map (· - f.frameControl)

/-- A call of `IWIFI::send`: `size` bytes from `buff` on. -/
structure SendCall where
  mem : Memory
  buff : Nat
  size : Nat

/-- The datagram of `WIFIUDP::send`. -/
def SendCall.wifiudp (c : SendCall) : List UInt8 := c.mem.slice c.buff (c.size + 4)

/-- The 802.11 frame: what is behind the radiotap header. -/
def SendCall.frame (c : SendCall) : List UInt8 :=
  (c.mem.slice c.buff c.size).drop (Radiotap.size ⟨c.buff⟩ c.mem)

/-- The buffer of `AppRRC` for sending, with `tx_frame` in it.  Its FCS is not enabled. -/
structure TxFrame where
  txBuff : Nat
  mem : Memory
  txFrame : Frame80211

/-- What a slot does: the region behind the headers, and `send_size`. -/
structure Slot where
  region : List UInt8
  sendSize : Nat
  le : sendSize ≤ region.length

/-- What is sent of the region. -/
def Slot.payload (s : Slot) : List UInt8 := s.region.take s.sendSize

/-- The payloads of the slots in which there is something to send. -/
def payloads (slots : List Slot) : List (List UInt8) :=
  (slots.filter fun s => decide (s.sendSize > 1)).map Slot.payload

/-- Stores of the bytes from `p` on. -/
def Memory.store (mem : Memory) (p : Nat) (bytes : List UInt8) : Memory :=
  fun i => if p ≤ i ∧ i < p + bytes.length then bytes.getD (i - p) 0 else mem i

namespace TxFrame

/-- `setup_80211_base_frame`, in the constructor. -/
def setup (txBuff : Nat) (srcraw dstraw : UInt64) (old : Memory) : Option TxFrame :=
  (setup80211BaseFrame txBuff srcraw dstraw old).map fun r => ⟨txBuff, r.1, r.2⟩

/-- `AppRRC::perform_tx`. -/
def performTx (t : TxFrame) (payloadSize : Nat) : Option (TxFrame × SendCall) :=
  let txFrame := setBodySize t.txFrame payloadSize
  (frameSize txFrame false).map fun size =>
    ({ t with txFrame := txFrame },
      ⟨t.mem, t.txBuff, Radiotap.size ⟨t.txBuff⟩ t.mem + size⟩)

/-- One slot: the scheduler writes behind the headers, and calls `perform_tx`. -/
def slot (t : TxFrame) (s : Slot) : Option (TxFrame × Option SendCall) :=
  t.txFrame.frameBody.bind fun body =>
    let t := { t with mem := Memory.store t.mem body s.region }
    if s.sendSize > 1 then (t.performTx s.sendSize).map fun r => (r.1, some r.2)
    else some (t, none)

/-- The calls of `IWIFI::send` in a run. -/
def run (t : TxFrame) : List Slot → Option (List SendCall)
  | [] => some []
  | s :: slots => (t.slot s).bind fun r => (r.1.run slots).map (r.2.toList ++ ·)

end TxFrame

/-- `on_wifi_rx` on one datagram after the other; each of them leaves its bytes in
`rx_buff`.  The result is what `process_rx_frame` is called with. -/
def rxRun (old : Memory) : List (List UInt8) → List (List UInt8)
  | [] => []
  | datagram :: datagrams =>
    let mem := old.receive datagram
    ((onWifiRx mem (received datagram)).map fun c =>
      mem.slice c.frameBody c.size.toNat).toList ++ rxRun mem datagrams

/-- A datagram with the frame behind a radiotap header, which has its own length, and in
front of an FCS. -/
structure Carries (frame datagram : List UInt8) : Prop where
  parts : ∃ radiotapHeader fcs, datagram = radiotapHeader ++ frame ++ fcs ∧ fcs.length = 4 ∧
    4 ≤ radiotapHeader.length ∧ (radiotapHeader.getD 2 0).toNat +
      256 * (radiotapHeader.getD 3 0).toNat = radiotapHeader.length

/-! ## Sending -/

theorem store_of_out {mem : Memory} {p i : Nat} {bytes : List UInt8}
    (h : i < p ∨ p + bytes.length ≤ i) : Memory.store mem p bytes i = mem i :=
  if_neg (by omega)

theorem slice_store_of_out {mem : Memory} {p base size : Nat} {bytes : List UInt8}
    (h : base + size ≤ p) : (Memory.store mem p bytes).slice base size = mem.slice base size :=
  Memory.slice_congr fun _ _ _ => store_of_out (by omega)

theorem slice_store {mem : Memory} {p n : Nat} {bytes : List UInt8} (h : n ≤ bytes.length) :
    (Memory.store mem p bytes).slice p n = bytes.take n := by
  apply List.ext_getElem
  · rw [Memory.slice, List.length_map, List.length_range, List.length_take]
    omega
  · intro i hi hi'
    have hn : i < n := by simpa [Memory.slice] using hi
    have hlen : i < bytes.length := by omega
    simp [Memory.slice, Memory.store, hlen]

/-- Where `setup_80211_base_frame` ends the radiotap header. -/
def frameStart (txBuff : Nat) : Nat := alignUp 2 (txBuff + 10) + 5

theorem frameStart_bounds (txBuff : Nat) :
    txBuff + 15 ≤ frameStart txBuff ∧ frameStart txBuff ≤ txBuff + 16 := by
  have hle := le_alignUp 2 (txBuff + 10)
  have hlt := alignUp_lt (show 0 < 2 by decide) (txBuff + 10)
  unfold frameStart
  omega

/-- What every slot keeps. -/
structure TxFrame.Ready (srcraw dstraw : UInt64) (t : TxFrame) : Prop where
  radiotap : Radiotap.end_ ⟨t.txBuff⟩ t.mem = frameStart t.txBuff
  header : t.mem.slice (frameStart t.txBuff) 24 = baseFrame srcraw dstraw
  control : t.txFrame.frameControl = frameStart t.txBuff
  body : t.txFrame.frameBody = some (frameStart t.txBuff + 24)

/-- The frame that `setup_80211_base_frame` scans. -/
theorem setupFrame_frame {txBuff : Nat} {mem mem' : Memory} {srcraw dstraw : UInt64}
    {f : Frame80211} (h : HeaderWritten txBuff mem)
    (hset : setupFrame txBuff srcraw dstraw mem = some (mem', f)) :
    f.frameControl = frameStart txBuff ∧ f.frameBody = some (frameStart txBuff + 24) := by
  have hend : Radiotap.end_ ⟨txBuff⟩ mem = frameStart txBuff := h.end_
  have hbounds := frameStart_bounds txBuff
  have hclear : mem (frameStart txBuff + 1) = 0 :=
    h.clear _ (by unfold frameStart; omega) (by unfold txBuffSize; omega)
  generalize frameStart txBuff = start at hend hclear ⊢
  have hdata : FrameControl.isData ((mem.writeByte start FrameControl.typeData) start) = true := by
    rw [Memory.writeByte_self]
    rfl
  have hflags : (mem.writeByte start FrameControl.typeData) (start + 1) = 0 := by
    rw [Memory.writeByte_of_ne (by omega), hclear]
  have hbody := Frame80211.rescan_frameBody start (txBuff + txBuffSize)
    (mem.writeByte start FrameControl.typeData)
  rw [hdata, if_pos rfl, hflags] at hbody
  obtain ⟨haddress1, haddress2, haddress3⟩ :=
    Frame80211.rescan_addresses start (txBuff + txBuffSize) hdata
  unfold setupFrame at hset
  dsimp only at hset
  rw [hend] at hset
  dsimp only [Frame80211.new] at haddress1 haddress2 haddress3 hbody hset
  rw [haddress1, haddress2, haddress3] at hset
  obtain ⟨-, rfl⟩ := Prod.mk.inj (Option.some.inj hset)
  refine ⟨?_, hbody⟩
  unfold Frame80211.rescan
  dsimp only
  split_ifs <;> rfl

namespace TxFrame

theorem setup_ready (txBuff : Nat) (srcraw dstraw : UInt64) (old : Memory) :
    ∃ t, setup txBuff srcraw dstraw old = some t ∧ t.Ready srcraw dstraw := by
  obtain ⟨mem, hmem, hwritten⟩ := setupRadiotap_written txBuff old
  obtain ⟨mem', f, hframe, hend, hslice⟩ := setupFrame_spec hwritten srcraw dstraw
  obtain ⟨hcontrol, hbody⟩ := setupFrame_frame hwritten hframe
  refine ⟨⟨txBuff, mem', f⟩, ?_, hend, hslice, hcontrol, hbody⟩
  rw [setup, setup80211BaseFrame, hmem, Option.bind_some, hframe]
  rfl

variable {srcraw dstraw : UInt64} {t : TxFrame}

theorem Ready.size_eq (h : t.Ready srcraw dstraw) :
    Radiotap.size ⟨t.txBuff⟩ t.mem = frameStart t.txBuff - t.txBuff := by
  have hend := h.radiotap
  unfold Radiotap.end_ at hend
  dsimp only at hend
  omega

/-- The scheduler writes behind the headers. -/
theorem Ready.store (h : t.Ready srcraw dstraw) (region : List UInt8) :
    Ready srcraw dstraw
      { t with mem := Memory.store t.mem (frameStart t.txBuff + 24) region } where
  radiotap := by
    have hbounds := frameStart_bounds t.txBuff
    have hsize : Radiotap.size ⟨t.txBuff⟩
        (Memory.store t.mem (frameStart t.txBuff + 24) region) =
          Radiotap.size ⟨t.txBuff⟩ t.mem := by
      unfold Radiotap.size
      rw [store_of_out (by dsimp only; omega), store_of_out (by dsimp only; omega)]
    unfold Radiotap.end_
    dsimp only
    rw [hsize]
    exact h.radiotap
  header := by
    rw [← h.header]
    exact slice_store_of_out (le_refl _)
  control := h.control
  body := h.body

end TxFrame

/-- A call with the frame of a payload, and a buffer that has room for it and for an FCS. -/
structure Sends (srcraw dstraw : UInt64) (payload : List UInt8) (c : SendCall) : Prop where
  frame : c.frame = baseFrame srcraw dstraw ++ payload
  udp : Carries c.frame c.wifiudp
  fits : c.wifiudp.length ≤ rxBuffSize

theorem length_slice (mem : Memory) (base size : Nat) : (mem.slice base size).length = size := by
  rw [Memory.slice, List.length_map, List.length_range]

theorem getD_slice {mem : Memory} {base size i : Nat} (h : i < size) :
    (mem.slice base size).getD i 0 = mem (base + i) := by
  simp [Memory.slice, h]

namespace TxFrame

variable {srcraw dstraw : UInt64} {t : TxFrame}

/-- The headers, the payload, and for `WIFIUDP` four bytes more. -/
theorem Ready.sends (h : t.Ready srcraw dstraw) {s : Slot}
    (hroom : s.sendSize + 44 ≤ rxBuffSize)
    (hregion : t.mem.slice (frameStart t.txBuff + 24) s.sendSize = s.payload) :
    Sends srcraw dstraw s.payload
      ⟨t.mem, t.txBuff, Radiotap.size ⟨t.txBuff⟩ t.mem + (24 + s.sendSize)⟩ := by
  have hbounds := frameStart_bounds t.txBuff
  have hsize := h.size_eq
  have hpos : t.txBuff + Radiotap.size ⟨t.txBuff⟩ t.mem = frameStart t.txBuff := h.radiotap
  have hbehind : t.mem.slice (frameStart t.txBuff) (24 + s.sendSize) =
      baseFrame srcraw dstraw ++ s.payload := by
    rw [Memory.slice_add, h.header, hregion]
  have hframe : SendCall.frame ⟨t.mem, t.txBuff,
      Radiotap.size ⟨t.txBuff⟩ t.mem + (24 + s.sendSize)⟩ =
        baseFrame srcraw dstraw ++ s.payload := by
    unfold SendCall.frame
    dsimp only
    rw [Memory.slice_add, List.drop_left' (length_slice ..), hpos, hbehind]
  refine ⟨hframe, ⟨t.mem.slice t.txBuff (Radiotap.size ⟨t.txBuff⟩ t.mem),
    t.mem.slice (frameStart t.txBuff + (24 + s.sendSize)) 4, ?_, length_slice .., ?_, ?_⟩, ?_⟩
  · rw [hframe]
    unfold SendCall.wifiudp
    dsimp only
    rw [Memory.slice_add, Memory.slice_add, hpos, hbehind, ← hpos, ← Nat.add_assoc]
  · rw [length_slice]
    omega
  · rw [length_slice, getD_slice (by omega), getD_slice (by omega)]
    rfl
  · unfold SendCall.wifiudp
    rw [length_slice]
    dsimp only
    omega

/-- **One slot.** -/
theorem slot_spec (h : t.Ready srcraw dstraw) {s : Slot}
    (hroom : s.region.length + 44 ≤ rxBuffSize) :
    ∃ t' sent, t.slot s = some (t', sent) ∧ t'.Ready srcraw dstraw ∧
      List.Forall₂ (Sends srcraw dstraw) (payloads [s]) sent.toList := by
  have hstored := h.store s.region
  have hle := s.le
  unfold slot
  rw [h.body, Option.bind_some]
  dsimp only
  by_cases hsend : s.sendSize > 1
  · have hsends := hstored.sends (by omega) (slice_store hle)
    have hsize : frameSize (setBodySize t.txFrame s.sendSize) false =
        some (24 + s.sendSize) := by
      have hmod : s.sendSize % 65536 = s.sendSize :=
        Nat.mod_eq_of_lt (by unfold rxBuffSize at hroom; omega)
      unfold frameSize frameEnd setBodySize
      dsimp only
      rw [h.body, h.control, Option.map_some, Option.map_some, Option.map_some,
        if_neg Bool.false_ne_true, hmod, Nat.add_assoc, Nat.add_sub_cancel_left]
    rw [if_pos hsend]
    unfold performTx
    dsimp only
    rw [hsize]
    refine ⟨_, _, rfl, ⟨hstored.radiotap, hstored.header, h.control, h.body⟩, ?_⟩
    have hone : payloads [s] = [s.payload] := by
      simp [payloads, hsend]
    rw [hone]
    exact .cons hsends .nil
  · rw [if_neg hsend]
    refine ⟨_, _, rfl, hstored, ?_⟩
    have hnone : payloads [s] = [] := by
      simp [payloads, hsend]
    rw [hnone]
    exact .nil

theorem run_spec (h : t.Ready srcraw dstraw) (slots : List Slot)
    (hroom : ∀ s ∈ slots, s.region.length + 44 ≤ rxBuffSize) :
    ∃ sent, t.run slots = some sent ∧
      List.Forall₂ (Sends srcraw dstraw) (payloads slots) sent := by
  induction slots generalizing t with
  | nil => exact ⟨[], rfl, .nil⟩
  | cons s slots ih =>
      obtain ⟨t', one, hslot, hready, hone⟩ := slot_spec h (hroom s (List.mem_cons_self ..))
      obtain ⟨sent, hrun, hsent⟩ := ih hready fun s' hs' => hroom s' (List.mem_cons_of_mem _ hs')
      refine ⟨one.toList ++ sent, ?_, ?_⟩
      · rw [run, hslot, Option.bind_some, hrun]
        rfl
      · have hsplit : payloads (s :: slots) = payloads [s] ++ payloads slots := by
          rw [payloads, payloads, payloads, ← List.map_append, ← List.filter_append]
          rfl
        rw [hsplit]
        exact List.rel_append hone hsent

end TxFrame

/-! ## Receiving -/

/-- A datagram with a frame is received, whatever `rx_buff` had before. -/
theorem Carries.arrives {srcraw dstraw : UInt64} {payload datagram : List UInt8}
    (h : Carries (baseFrame srcraw dstraw ++ payload) datagram)
    (hfits : datagram.length ≤ rxBuffSize) (old : Memory) :
    ∃ c, onWifiRx (old.receive datagram) (received datagram) = some c ∧
      (old.receive datagram).slice c.frameBody c.size.toNat = payload := by
  obtain ⟨radiotapHeader, fcs, hparts, hfcs, hlong, hlength⟩ := h.parts
  have hbytes : ∀ i (hi : i < radiotapHeader.length),
      radiotapHeader.getD i 0 = radiotapHeader[i] := fun i hi => by
    rw [List.getD_eq_getElem?_getD, List.getElem?_eq_getElem hi, Option.getD_some]
  let f : WifiFrame := ⟨radiotapHeader, baseFrame srcraw dstraw, payload, fcs, hlong,
    by rw [← hbytes 2 (by omega), ← hbytes 3 (by omega)]; exact hlength,
    by show 2 ≤ 24; decide, show FrameControl.isData FrameControl.typeData = true from rfl,
    show 24 = FrameControl.headerSize 0 from rfl, hfcs⟩
  have hdatagram : datagram = f.bytes := by
    rw [hparts, WifiFrame.bytes, ← List.append_assoc]
  rw [hdatagram] at hfits ⊢
  obtain ⟨c, hcall, -, hbody⟩ := f.onWifiRx_frame old hfits
  exact ⟨c, hcall, hbody⟩

/-- The filter of the peer keeps it. -/
theorem Carries.accepted {src : UInt32} {dstraw : UInt64} (hdst : dstraw.toNat < 2 ^ 24)
    {payload datagram : List UInt8}
    (h : Carries (baseFrame src.toUInt64 dstraw ++ payload) datagram) : Accepts src datagram := by
  obtain ⟨radiotapHeader, fcs, rfl, hfcs, hlong, hlength⟩ := h.parts
  have hbyte : ∀ i < radiotapHeader.length, (radiotapHeader ++
      (baseFrame src.toUInt64 dstraw ++ payload) ++ fcs).getD i 0 = radiotapHeader.getD i 0 := by
    intro i hi
    simp [List.getD_eq_getElem?_getD, List.getElem?_append_left, hi]
  refine accepts_baseFrame src hdst (by simp; omega) ?_
  unfold frameBytes radiotapLength
  rw [hbyte 2 (by omega), hbyte 3 (by omega), hlength, Nat.add_zero, List.append_assoc,
    List.drop_left' rfl, List.append_assoc]
  exact List.take_left' rfl

/-- What arrives is, for each datagram, the payload of its call. -/
theorem rxRun_arrives {srcraw dstraw : UInt64} {pairs : List (List UInt8 × List UInt8)}
    (h : ∀ p ∈ pairs, Carries (baseFrame srcraw dstraw ++ p.1) p.2 ∧ p.2.length ≤ rxBuffSize)
    (old : Memory) : rxRun old (pairs.map Prod.snd) = pairs.map Prod.fst := by
  induction pairs generalizing old with
  | nil => rfl
  | cons p pairs ih =>
      obtain ⟨hcarries, hfits⟩ := h p (List.mem_cons_self ..)
      obtain ⟨c, hcall, hbody⟩ := hcarries.arrives hfits old
      rw [List.map_cons, rxRun, hcall, ih fun q hq => h q (List.mem_cons_of_mem _ hq)]
      dsimp only [Option.map_some]
      rw [hbody]
      rfl

/-- **Every frame arrives as it was sent.**  In every run of slots that leave room for the
headers and an FCS, each datagram of `WIFIUDP` carries its frame; and whatever datagrams
with frames of the run reach the peer, in any order and any number of times, each of them
passes the filter of the peer, which hands exactly the payload of its slot to
`process_rx_frame`. -/
theorem frames_arrive (txBuff : Nat) (src : UInt32) {dstraw : UInt64}
    (hdst : dstraw.toNat < 2 ^ 24) (old : Memory) (slots : List Slot)
    (hroom : ∀ s ∈ slots, s.region.length + 44 ≤ rxBuffSize) :
    ∃ t sent, TxFrame.setup txBuff src.toUInt64 dstraw old = some t ∧
      t.run slots = some sent ∧
      (∀ c ∈ sent, Carries c.frame c.wifiudp ∧ c.wifiudp.length ≤ rxBuffSize) ∧
      ∀ (arrived : List (Nat × List UInt8)), (∀ a ∈ arrived, a.2.length ≤ rxBuffSize ∧
          ∃ c, sent[a.1]? = some c ∧ Carries c.frame a.2) →
        ∀ rxBuff : Memory, (∀ a ∈ arrived, Accepts src a.2) ∧
          rxRun rxBuff (arrived.map Prod.snd) =
            arrived.map fun a => (payloads slots).getD a.1 [] := by
  obtain ⟨t, hsetup, hready⟩ := TxFrame.setup_ready txBuff src.toUInt64 dstraw old
  obtain ⟨sent, hrun, hsent⟩ := TxFrame.run_spec hready slots hroom
  refine ⟨t, sent, hsetup, hrun, ?_, ?_⟩
  · intro c hc
    obtain ⟨k, hk, rfl⟩ := List.mem_iff_getElem.mp hc
    have hsends := (List.forall₂_iff_get.mp hsent).2 k (by rw [hsent.length_eq]; exact hk) hk
    exact ⟨hsends.udp, hsends.fits⟩
  · intro arrived harrived rxBuff
    have hcarries : ∀ a ∈ arrived,
        Carries (baseFrame src.toUInt64 dstraw ++ (payloads slots).getD a.1 []) a.2 := by
      intro a ha
      obtain ⟨-, c, hc, hcarries⟩ := harrived a ha
      obtain ⟨hk, rfl⟩ := List.getElem?_eq_some_iff.mp hc
      have hlt : a.1 < (payloads slots).length := by rw [hsent.length_eq]; exact hk
      have hsends := (List.forall₂_iff_get.mp hsent).2 a.1 hlt hk
      have hpayload : (payloads slots).getD a.1 [] = (payloads slots).get ⟨a.1, hlt⟩ := by
        rw [List.getD_eq_getElem?_getD, List.getElem?_eq_getElem hlt]
        rfl
      rw [hpayload, ← hsends.frame]
      exact hcarries
    refine ⟨fun a ha => (hcarries a ha).accepted hdst, ?_⟩
    have hpairs := @rxRun_arrives src.toUInt64 dstraw
      (arrived.map fun a => ((payloads slots).getD a.1 [], a.2)) (fun p hp => by
        obtain ⟨a, ha, rfl⟩ := List.mem_map.mp hp
        exact ⟨hcarries a ha, (harrived a ha).1⟩) rxBuff
    rwa [List.map_map, List.map_map] at hpairs

/-- A slot with two bytes, one with nothing to send and one with three bytes. -/
def threeSlots : List Slot :=
  [⟨[1, 2, 0], 2, by decide⟩, ⟨[3], 1, by decide⟩, ⟨[4, 5, 6], 3, by decide⟩]

theorem frames_arrive_threeSlots :
    ∃ t sent, TxFrame.setup 0 (0x7890ab : UInt32).toUInt64 0x123456 (fun _ => 0) = some t ∧
      t.run threeSlots = some sent ∧
      (∀ c ∈ sent, Carries c.frame c.wifiudp ∧ c.wifiudp.length ≤ rxBuffSize) ∧
      ∀ (arrived : List (Nat × List UInt8)), (∀ a ∈ arrived, a.2.length ≤ rxBuffSize ∧
          ∃ c, sent[a.1]? = some c ∧ Carries c.frame a.2) →
        ∀ rxBuff : Memory, (∀ a ∈ arrived, Accepts 0x7890ab a.2) ∧
          rxRun rxBuff (arrived.map Prod.snd) =
            arrived.map fun a => (payloads threeSlots).getD a.1 [] :=
  frames_arrive 0 0x7890ab (by decide) _ threeSlots (by decide)

end Winject.Receive
