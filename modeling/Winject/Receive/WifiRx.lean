import Mathlib.Algebra.Group.Int.Defs
import Mathlib.Algebra.Group.Nat.Defs
import Winject.Frames.Wifi

/-!
# The receipt of a datagram (`AppRRC::on_wifi_rx`)

`on_wifi_rx` finds the body of the 802.11 frame in the datagram that `recv` has left in
`rx_buff` and gives it to `process_rx_frame`, without the four bytes of the FCS.  The
position of the body comes from the datagram alone: the length in the radiotap header and
the frame control behind it.  The number of received bytes is looked at only in
`frame80211end - frame80211.frame_body - 4`, which is stored in a `size_t`.

## Main results

* `bounded_iff` — what is handed over lies in the received bytes iff they reach behind the
  headers and an FCS.
* `onWifiRx_receive_congr` — with the frame control received, nothing else in `rx_buff`
  matters for the call.
* `onWifiRx_frame` — of a data frame behind its radiotap header, the body is handed over.
-/

namespace Winject.Receive

open Winject.Frames
open Winject.Frames.FrameControl

/-- `sizeof(rx_buff)`. -/
def rxBuffSize : Nat := 1024 * 2

/-- A call of `process_rx_frame`. -/
structure RxCall where
  frameBody : Nat
  size : UInt64
  deriving DecidableEq, Repr

/-- `radiotap`. -/
def radiotap : Radiotap := ⟨0⟩

/-- `frame80211`, behind its scan. -/
def frame80211 (mem : Memory) : Frame80211 :=
  (Frame80211.new (radiotap.end_ mem) rxBuffSize).rescan mem

/-- `AppRRC::on_wifi_rx` behind the call of `recv`: `rx_buff` is at the start of the memory,
and `rv` is what `recv` has returned.  Without a body the size is not used. -/
def onWifiRx (mem : Memory) (rv : Int32) : Option RxCall :=
  if rv < 0 then none
  else
    match (frame80211 mem).frameBody with
    | none => none
    | some frameBody => some ⟨frameBody, UInt64.ofInt (rv.toInt - frameBody - 4)⟩

/-- The frame behind the radiotap header is a data frame. -/
def isDataFrame (mem : Memory) : Bool := isData (mem (radiotap.size mem))

/-- The bytes of both headers: the length in the one and the frame control decide. -/
def headersSize (mem : Memory) : Nat :=
  radiotap.size mem + headerSize (mem (radiotap.size mem + 1))

/-! ## The call -/

theorem radiotap_end (mem : Memory) : radiotap.end_ mem = radiotap.size mem := Nat.zero_add _

theorem frameBody_eq (mem : Memory) :
    (frame80211 mem).frameBody = if isDataFrame mem then some (headersSize mem) else none := by
  unfold frame80211 isDataFrame headersSize
  rw [Frame80211.rescan_frameBody, radiotap_end]

theorem headersSize_lt (mem : Memory) : headersSize mem < 65566 := by
  have hsize := radiotap.size_lt mem
  unfold headersSize headerSize
  split_ifs <;> omega

/-- What a call has behind a receipt. -/
theorem onWifiRx_eq (mem : Memory) (rv : Int32) : onWifiRx mem rv =
    if 0 ≤ rv.toInt ∧ isDataFrame mem = true then
      some ⟨headersSize mem, UInt64.ofInt (rv.toInt - headersSize mem - 4)⟩
    else none := by
  have hsign : rv < 0 ↔ ¬ 0 ≤ rv.toInt := by
    rw [Int32.lt_iff_toInt_lt, Int.not_le]
    rfl
  unfold onWifiRx
  rw [frameBody_eq]
  by_cases hfailed : rv < 0
  · rw [if_pos hfailed, if_neg fun h => hsign.mp hfailed h.1]
  · have hreceived : 0 ≤ rv.toInt := Int.not_lt.mp fun h => hfailed (hsign.mpr (Int.not_le.mpr h))
    rw [if_neg hfailed]
    by_cases hdata : isDataFrame mem = true
    · rw [if_pos hdata, if_pos ⟨hreceived, hdata⟩]
    · rw [if_neg hdata, if_neg fun h => hdata h.2]

/-- The conversion to `size_t` keeps a value that is not below zero, and wraps the others. -/
theorem toNat_ofInt {x : Int} (hlow : -(2 ^ 63) ≤ x) (hhigh : x < 2 ^ 63) :
    ((UInt64.ofInt x).toNat : Int) = if 0 ≤ x then x else x + 2 ^ 64 := by
  have hmod : ((UInt64.ofInt x).toNat : Int) = x % 2 ^ 64 := by
    unfold UInt64.ofInt
    rw [UInt64.toNat_ofNat_of_lt' (by unfold UInt64.size; omega)]
    omega
  rw [hmod]
  split_ifs <;> omega

/-! ## Bounded calls -/

/-- The body begins in the `rv` received bytes, the size is the difference to their end
without the FCS, and the body ends there. -/
structure RxCall.Bounded (c : RxCall) (rv : Int32) : Prop where
  inside : (c.frameBody : Int) < rv.toInt
  size : (c.size.toNat : Int) = rv.toInt - c.frameBody - 4
  stop : (c.frameBody : Int) + c.size.toNat ≤ rv.toInt - 4

/-- The received bytes reach behind the headers of a data frame and an FCS. -/
def LongEnough (mem : Memory) (rv : Int32) : Prop :=
  0 ≤ rv.toInt → isDataFrame mem = true → (headersSize mem : Int) + 4 ≤ rv.toInt

theorem call_bounded_iff (mem : Memory) (rv : Int32) (h : 0 ≤ rv.toInt) :
    RxCall.Bounded ⟨headersSize mem, UInt64.ofInt (rv.toInt - headersSize mem - 4)⟩ rv ↔
      (headersSize mem : Int) + 4 ≤ rv.toInt := by
  have hstart := headersSize_lt mem
  have hmax := rv.toInt_lt
  have hsize := toNat_ofInt (x := rv.toInt - headersSize mem - 4) (by omega) (by omega)
  constructor
  · intro hbounded
    have hstop := hbounded.stop
    dsimp only at hstop
    omega
  · intro hroom
    rw [if_pos (by omega)] at hsize
    exact ⟨by dsimp only; omega, hsize, by dsimp only; omega⟩

/-- **A call of `process_rx_frame` stays in the received bytes iff they reach behind the
headers and an FCS**, whatever the datagram and the memory behind it are. -/
theorem bounded_iff (mem : Memory) (rv : Int32) :
    (∀ c, onWifiRx mem rv = some c → c.Bounded rv) ↔ LongEnough mem rv := by
  rw [onWifiRx_eq]
  unfold LongEnough
  by_cases hcall : 0 ≤ rv.toInt ∧ isDataFrame mem = true
  · rw [if_pos hcall]
    have hiff := call_bounded_iff mem rv hcall.1
    constructor
    · exact fun h _ _ => hiff.mp (h _ rfl)
    · intro h c hc
      cases hc
      exact hiff.mpr (h hcall.1 hcall.2)
  · rw [if_neg hcall]
    constructor
    · exact fun _ hreceived hdata => absurd ⟨hreceived, hdata⟩ hcall
    · exact fun _ c hc => by cases hc

/-- Eight bytes of radiotap header and the frame control of a data frame: the size wraps. -/
theorem short_frame_unbounded :
    let mem := Memory.receive (fun _ => 0) [0, 0, 8, 0, 0, 0, 0, 0, 0x08, 0]
    ∃ c, onWifiRx mem 10 = some c ∧ 10 < c.frameBody ∧ c.size.toNat = 2 ^ 64 - 26 ∧
      ¬ c.Bounded 10 := by
  refine ⟨⟨32, UInt64.ofInt (-26)⟩, rfl, by decide, rfl, fun h => ?_⟩
  exact absurd h.inside (by decide)

/-! ## Datagrams -/

/-- The number of received bytes of a datagram. -/
def received (datagram : List UInt8) : Int32 := Int32.ofNat datagram.length

theorem toInt_received {datagram : List UInt8} (h : datagram.length ≤ rxBuffSize) :
    (received datagram).toInt = datagram.length :=
  Int32.toInt_ofNat_of_lt (Nat.lt_of_le_of_lt h (by decide))

/-- A bounded call hands over bytes of the datagram, whatever was in the buffer before. -/
theorem RxCall.Bounded.slice {c : RxCall} {datagram : List UInt8} {old : Memory}
    (h : c.Bounded (received datagram)) (hfits : datagram.length ≤ rxBuffSize) :
    (old.receive datagram).slice c.frameBody c.size.toNat =
      (datagram.drop c.frameBody).take c.size.toNat := by
  have hstop := h.stop
  rw [toInt_received hfits] at hstop
  exact Memory.slice_receive (by omega)

/-- The call depends on the datagram alone when that has the frame control. -/
theorem onWifiRx_receive_congr {old : Memory} {datagram : List UInt8}
    (hlong : 4 ≤ datagram.length)
    (hcontrol : radiotap.size (old.receive datagram) + 2 ≤ datagram.length) (old' : Memory)
    (rv : Int32) : onWifiRx (old'.receive datagram) rv = onWifiRx (old.receive datagram) rv := by
  have hbyte : ∀ i, i < datagram.length → old'.receive datagram i = old.receive datagram i := by
    intro i hi
    rw [Memory.receive_of_lt hi, Memory.receive_of_lt hi]
  have hsize : radiotap.size (old'.receive datagram) = radiotap.size (old.receive datagram) := by
    unfold Radiotap.size
    rw [hbyte (radiotap.header + 2) (by show 0 + 2 < _; omega),
      hbyte (radiotap.header + 3) (by show 0 + 3 < _; omega)]
  have hdata : isDataFrame (old'.receive datagram) = isDataFrame (old.receive datagram) := by
    unfold isDataFrame
    rw [hsize, hbyte _ (by omega)]
  have hheaders : headersSize (old'.receive datagram) = headersSize (old.receive datagram) := by
    unfold headersSize
    rw [hsize, hbyte _ (by omega)]
  rw [onWifiRx_eq, onWifiRx_eq, hdata, hheaders]

/-- A data frame behind its radiotap header. -/
structure WifiFrame where
  radiotapHeader : List UInt8
  header : List UInt8
  body : List UInt8
  fcs : List UInt8
  long : 4 ≤ radiotapHeader.length
  length : radiotapHeader[2].toNat + 256 * radiotapHeader[3].toNat = radiotapHeader.length
  control : 2 ≤ header.length
  type : isData header[0] = true
  addresses : header.length = headerSize header[1]
  check : fcs.length = 4

/-- The datagram of a frame. -/
def WifiFrame.bytes (f : WifiFrame) : List UInt8 := f.radiotapHeader ++ f.header ++ f.body ++ f.fcs

namespace WifiFrame

theorem length_bytes (f : WifiFrame) :
    f.bytes.length = f.radiotapHeader.length + f.header.length + f.body.length + 4 := by
  simp [bytes, f.check, Nat.add_assoc]

variable (f : WifiFrame) (old : Memory)

/-- A byte of the radiotap header. -/
theorem receive_radiotap {i : Nat} (h : i < f.radiotapHeader.length) :
    old.receive f.bytes i = f.radiotapHeader[i] := by
  have hlength := f.length_bytes
  rw [Memory.receive_of_lt (by omega)]
  simp [bytes, List.getElem_append_left, h]

/-- A byte of the 802.11 header. -/
theorem receive_header {i : Nat} (h : i < f.header.length) :
    old.receive f.bytes (f.radiotapHeader.length + i) = f.header[i] := by
  have hlength := f.length_bytes
  rw [Memory.receive_of_lt (by omega)]
  simp [bytes, List.getElem_append_right, List.getElem_append_left, h]

theorem radiotap_size : radiotap.size (old.receive f.bytes) = f.radiotapHeader.length := by
  have hlong := f.long
  have hlow := f.receive_radiotap old (i := 2) (by omega)
  have hhigh := f.receive_radiotap old (i := 3) (by omega)
  rw [← f.length, ← hlow, ← hhigh]
  rfl

theorem isDataFrame_receive : isDataFrame (old.receive f.bytes) = true := by
  have hcontrol := f.control
  have htype := f.receive_header old (i := 0) (by omega)
  unfold isDataFrame
  rw [f.radiotap_size old]
  exact (congrArg isData htype).trans f.type

theorem headersSize_receive : headersSize (old.receive f.bytes) =
    f.radiotapHeader.length + f.header.length := by
  have hflags := f.receive_header old (i := 1) f.control
  unfold headersSize
  rw [f.radiotap_size old, hflags, f.addresses]

/-- **The body of a frame** is handed over. -/
theorem onWifiRx_frame (hfits : f.bytes.length ≤ rxBuffSize) :
    ∃ c, onWifiRx (old.receive f.bytes) (received f.bytes) = some c ∧
      c.Bounded (received f.bytes) ∧
      (old.receive f.bytes).slice c.frameBody c.size.toNat = f.body := by
  have hlength := f.length_bytes
  have hrv := toInt_received hfits
  have hstart := f.headersSize_receive old
  obtain ⟨c, hcall, hbounded, hbody⟩ :
      ∃ c, onWifiRx (old.receive f.bytes) (received f.bytes) = some c ∧
        c.Bounded (received f.bytes) ∧ c.frameBody = headersSize (old.receive f.bytes) := by
    refine ⟨_, ?_, (call_bounded_iff _ _ (by omega)).mpr (by omega), rfl⟩
    rw [onWifiRx_eq, if_pos ⟨by omega, f.isDataFrame_receive old⟩]
  have hsize := hbounded.size
  have hlast : c.size.toNat = f.body.length := by omega
  refine ⟨c, hcall, hbounded, ?_⟩
  rw [hbounded.slice hfits, hbody, hstart, hlast]
  unfold bytes
  rw [List.append_assoc, List.drop_left' List.length_append]
  exact List.take_left' rfl

example : ∃ f : WifiFrame, f.body = [7] ∧ f.bytes.length ≤ rxBuffSize :=
  ⟨⟨[0, 0, 8, 0, 0, 0, 0, 0], 8 :: List.replicate 23 0, [7], [0, 0, 0, 0], by decide, by decide,
    by decide, by decide, by decide, by decide⟩, rfl, by decide⟩

end WifiFrame

end Winject.Receive
