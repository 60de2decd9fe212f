import Winject.Lib.Bytes

/-!
# The PDCP segment header (`frames/basic_pdcp_segment.cpp`)

`PdcpSegment` is the view object `basic_pdcp_segment_t`: a byte range, the two
flags that say which optional fields the layout has, and the field pointers
that `rescan` computes with a `safe_checker`.  A pointer is an index into the
byte range and a null pointer is `none`.

```
00 | L | SIZE (15 bits)      |
   | PACKET SN   (optional)  |
   | OFFSET      (optional)  |
   | PAYLOAD                 |
```

The second half relates the view to the segment it describes: `Seg` is the
content of one segment, `encode` its bytes, and

* `scan_encode` says what the getters read from an encoded segment, and
* `store_encode` says that the setters, in the order the transmitters call
  them, leave exactly the encoding in the buffer.
-/

namespace Winject.Frames

open Winject.Lib.Bytes

/-! ## `safe_checker` -/

/-- `safe_checker`: a cursor over `[0, stop)` and the shared validity flag. -/
structure SafeChecker where
  current : Nat
  stop : Nat
  validity : Bool
  deriving DecidableEq, Repr

/-- `safe_checker::get<T>` with `sizeof(T) = n`, and `get_n`. -/
def SafeChecker.get (c : SafeChecker) (n : Nat) : Option Nat × SafeChecker :=
  if c.current + n > c.stop then (none, { c with validity := false })
  else (some c.current, { c with current := c.current + n })

/-- `safe_checker::remaining`. -/
def SafeChecker.remaining (c : SafeChecker) : Nat := c.stop - c.current

/-! ## The view object -/

/-- `basic_pdcp_segment_t`. -/
structure PdcpSegment where
  base : List UInt8
  hasSn : Bool
  hasOffset : Bool
  size : Option Nat := none
  sn : Option Nat := none
  offset : Option Nat := none
  payload : Option Nat := none
  isValid : Bool := false
  deriving DecidableEq, Repr

namespace PdcpSegment

/-- `basic_pdcp_segment_t::get_max_size`. -/
def getMaxSize (s : PdcpSegment) : Nat := s.base.length

/-- `basic_pdcp_segment_t::get_header_size`. -/
def getHeaderSize (s : PdcpSegment) : Nat :=
  2 + s.hasSn.toNat * 2 + s.hasOffset.toNat * 2

/-- `basic_pdcp_segment_t::rescan`: recompute the field pointers.  Each field
the checker cannot fit ends the scan with the flag cleared. -/
def rescan (s : PdcpSegment) : PdcpSegment :=
  let (size, c) := SafeChecker.get ⟨0, s.base.length, true⟩ 2
  let s := { s with size := size, isValid := c.validity }
  if !c.validity then s else
  let (sn, c) := if s.hasSn then c.get 2 else (s.sn, c)
  let s := { s with sn := sn, isValid := c.validity }
  if !c.validity then s else
  let (offset, c) := if s.hasOffset then c.get 2 else (s.offset, c)
  let s := { s with offset := offset, isValid := c.validity }
  if !c.validity then s else
  let (payload, c) := c.get c.remaining
  { s with payload := payload, isValid := c.validity }

/-- `basic_pdcp_segment_t::is_header_valid`. -/
def isHeaderValid (s : PdcpSegment) : Bool := s.getHeaderSize ≤ s.getMaxSize

/-- Load through a field pointer.  Reading a null pointer is undefined in the
source; every caller modelled here tests `is_header_valid` and the layout flag
first. -/
def load (s : PdcpSegment) (p : Option Nat) : Nat :=
  match p with
  | some p => readBe16 s.base p
  | none => 0

/-- Store through a field pointer.  A store through a null pointer is undefined in the
source and does nothing here; `PDCP::on_tx` makes one without `allow_reordering`, and
`Winject.LegacyPdcp.Stores` says which accesses a call makes. -/
def store (s : PdcpSegment) (p : Option Nat) (v : Nat) : PdcpSegment :=
  match p with
  | some p => { s with base := blit s.base p (be16 v) }
  | none => s

/-- `get_SN`. -/
def getSn (s : PdcpSegment) : Nat := s.load s.sn

/-- `set_SN`. -/
def setSn (s : PdcpSegment) (value : Nat) : PdcpSegment := s.store s.sn value

/-- `get_OFFSET`. -/
def getOffset (s : PdcpSegment) : Nat := s.load s.offset

/-- `set_OFFSET`. -/
def setOffset (s : PdcpSegment) (value : Nat) : PdcpSegment :=
  s.store s.offset value

/-- `get_SIZE`: the low fifteen bits, `0` before the first scan. -/
def getSize (s : PdcpSegment) : Nat := s.load s.size &&& 0x7FFF

/-- `set_SIZE`: keeps the `LAST` bit and ORs the 16-bit argument in. -/
def setSize (s : PdcpSegment) (size : Nat) : PdcpSegment :=
  s.store s.size ((s.load s.size &&& 0x8000) ||| size % 65536)

/-- `set_LAST`. -/
def setLast (s : PdcpSegment) (isLast : Bool) : PdcpSegment :=
  s.store s.size ((isLast.toNat <<< 15) ||| s.getSize)

/-- `is_LAST`. -/
def isLast (s : PdcpSegment) : Bool := (s.load s.size &&& 0x8000) != 0

/-- `get_payload_size`: `SIZE - header`, converted to 16 bits. -/
def getPayloadSize (s : PdcpSegment) : Nat :=
  (s.getSize + 65536 - s.getHeaderSize) % 65536

/-- `set_payload_size`. -/
def setPayloadSize (s : PdcpSegment) (payloadSize : Nat) : PdcpSegment :=
  let newSize := s.getHeaderSize + payloadSize % 65536
  let s := s.setSize newSize
  if newSize > s.getMaxSize then { s with isValid := false } else s

/-- `memcpy(get_payload(), data, size)`. -/
def copyPayload (s : PdcpSegment) (data : List UInt8) : PdcpSegment :=
  match s.payload with
  | some p => { s with base := blit s.base p data }
  | none => s

end PdcpSegment

/-! ## Segments and their encoding -/

/-- The header layout chosen by `allow_reordering` and `allow_segmentation`. -/
structure Layout where
  hasSn : Bool
  hasOffset : Bool
  deriving DecidableEq, Repr

/-- Header length of a layout: 2, 4 or 6 bytes. -/
def Layout.headerSize (l : Layout) : Nat :=
  2 + l.hasSn.toNat * 2 + l.hasOffset.toNat * 2

/-- The content of one segment. -/
structure Seg where
  sn : Nat
  offset : Nat
  last : Bool
  payload : List UInt8
  deriving DecidableEq, Repr

/-- The segment fits its 15-bit `SIZE` and 16-bit `SN` and `OFFSET` fields and
carries at least one byte. -/
structure Seg.Fits (l : Layout) (g : Seg) : Prop where
  sn_lt : g.sn < 65536
  offset_lt : g.offset < 65536
  size_lt : l.headerSize + g.payload.length < 32768
  payload_ne : g.payload ≠ []

/-- The fields of the segment fit their places; the payload may be empty. -/
structure Seg.FitsHeader (l : Layout) (g : Seg) : Prop where
  sn_lt : g.sn < 65536
  offset_lt : g.offset < 65536
  size_lt : l.headerSize + g.payload.length < 32768

theorem Seg.Fits.header {l : Layout} {g : Seg} (h : g.Fits l) : g.FitsHeader l :=
  ⟨h.sn_lt, h.offset_lt, h.size_lt⟩

/-- Total size of a segment on the wire. -/
def Seg.wireSize (l : Layout) (g : Seg) : Nat := l.headerSize + g.payload.length

/-- The first word of the header: the `LAST` bit over `SIZE`. -/
def Seg.sizeWord (l : Layout) (g : Seg) : Nat :=
  (if g.last then 32768 else 0) + g.wireSize l

/-- The optional fields after the size word. -/
def Seg.optFields (l : Layout) (g : Seg) : List UInt8 :=
  (if l.hasSn then be16 g.sn else []) ++
    (if l.hasOffset then be16 g.offset else [])

/-- The bytes of a segment. -/
def encode (l : Layout) (g : Seg) : List UInt8 :=
  be16 (g.sizeWord l) ++ (g.optFields l ++ g.payload)

/-- The bytes of a run of segments. -/
def encodeAll (l : Layout) (gs : List Seg) : List UInt8 :=
  (gs.map (encode l)).flatten

theorem optFields_length (l : Layout) (g : Seg) :
    (g.optFields l).length + 2 = l.headerSize := by
  obtain ⟨hasSn, hasOffset⟩ := l
  cases hasSn <;> cases hasOffset <;> rfl

@[simp] theorem encode_length (l : Layout) (g : Seg) :
    (encode l g).length = g.wireSize l := by
  have h := optFields_length l g
  simp only [encode, List.length_append, be16_length, Seg.wireSize]
  omega

theorem headerSize_ge (l : Layout) : 2 ≤ l.headerSize := by
  simp only [Layout.headerSize]; omega

theorem headerSize_le (l : Layout) : l.headerSize ≤ 6 := by
  have h1 := l.hasSn.toNat_le
  have h2 := l.hasOffset.toNat_le
  simp only [Layout.headerSize]
  omega

/-- The view a caller builds on a byte range before scanning it. -/
def view (l : Layout) (bytes : List UInt8) : PdcpSegment :=
  { base := bytes, hasSn := l.hasSn, hasOffset := l.hasOffset }

@[simp] theorem view_getHeaderSize (l : Layout) (bytes : List UInt8) :
    (view l bytes).getHeaderSize = l.headerSize := rfl

/-- The scanned view of a range that has room for the header: every field of
the layout gets its place, the others stay null. -/
def scanned (l : Layout) (bytes : List UInt8) : PdcpSegment :=
  { base := bytes, hasSn := l.hasSn, hasOffset := l.hasOffset
    size := some 0
    sn := if l.hasSn then some 2 else none
    offset := if l.hasOffset then some (2 + l.hasSn.toNat * 2) else none
    payload := some l.headerSize
    isValid := true }

/-- Scanning succeeds on every range that holds the header. -/
theorem rescan_view (l : Layout) (bytes : List UInt8)
    (h : l.headerSize ≤ bytes.length) :
    (view l bytes).rescan = scanned l bytes := by
  obtain ⟨hasSn, hasOffset⟩ := l
  cases hasSn <;> cases hasOffset <;>
    simp only [Layout.headerSize, Bool.toNat_false, Bool.toNat_true] at h <;>
    simp only [PdcpSegment.rescan, view, scanned, SafeChecker.get,
      SafeChecker.remaining, Layout.headerSize, Bool.toNat_false,
      Bool.toNat_true, Bool.false_eq_true, if_true, if_false] <;>
    simp (disch := omega) only [gt_iff_lt, if_neg, Bool.not_true,
      Bool.false_eq_true, if_false]

@[simp] theorem scanned_getHeaderSize (l : Layout) (bytes : List UInt8) :
    (scanned l bytes).getHeaderSize = l.headerSize := rfl

/-- Scanning never touches the range or the flags, even when it stops early. -/
theorem rescan_frame (s : PdcpSegment) :
    s.rescan.base = s.base ∧ s.rescan.getHeaderSize = s.getHeaderSize := by
  unfold PdcpSegment.rescan PdcpSegment.getHeaderSize
  dsimp only
  split_ifs <;> exact ⟨rfl, rfl⟩

/-- A scanned view can be read exactly when the header fits. -/
theorem view_isHeaderValid (l : Layout) (bytes : List UInt8) :
    (view l bytes).rescan.isHeaderValid = decide (l.headerSize ≤ bytes.length) := by
  obtain ⟨hbase, hhdr⟩ := rescan_frame (view l bytes)
  simp only [PdcpSegment.isHeaderValid, PdcpSegment.getMaxSize, hbase, hhdr]
  rfl

/-! ## Reading an encoded segment -/

/-- What the getters read from the front of a range that starts with an
encoded segment. -/
structure Reads (l : Layout) (g : Seg) (s : PdcpSegment) : Prop where
  size : s.getSize = g.wireSize l
  payloadSize : s.getPayloadSize = g.payload.length
  last : s.isLast = g.last
  sn : l.hasSn = true → s.getSn = g.sn
  offset : l.hasOffset = true → s.getOffset = g.offset

private theorem sizeWord_lt (l : Layout) (g : Seg) (h : g.FitsHeader l) :
    g.sizeWord l < 65536 := by
  have := h.size_lt
  simp only [Seg.sizeWord, Seg.wireSize]
  split <;> omega

private theorem load_size_encode (l : Layout) (g : Seg) (tail : List UInt8)
    (h : g.FitsHeader l) :
    (scanned l (encode l g ++ tail)).load (some 0) = g.sizeWord l := by
  have hread := readBe16_be16 [] (g.optFields l ++ g.payload ++ tail) 0
    (g.sizeWord l) rfl
  rw [Nat.mod_eq_of_lt (sizeWord_lt l g h)] at hread
  simpa [PdcpSegment.load, scanned, encode, List.append_assoc] using hread

private theorem getSize_encode (l : Layout) (g : Seg) (tail : List UInt8)
    (h : g.FitsHeader l) :
    (scanned l (encode l g ++ tail)).getSize = g.wireSize l := by
  have hword := load_size_encode l g tail h
  have hlt := h.size_lt
  rw [PdcpSegment.getSize, show (scanned l (encode l g ++ tail)).size = some 0 from rfl,
    hword, land_7fff, Seg.sizeWord, Seg.wireSize]
  split <;> omega

/-- The getters recover an encoded header. -/
theorem scan_encode_header (l : Layout) (g : Seg) (tail : List UInt8)
    (h : g.FitsHeader l) :
    Reads l g (scanned l (encode l g ++ tail)) where
  size := getSize_encode l g tail h
  payloadSize := by
    have hle := headerSize_le l
    have hlt := h.size_lt
    rw [PdcpSegment.getPayloadSize, getSize_encode l g tail h,
      scanned_getHeaderSize, Seg.wireSize]
    omega
  last := by
    have hlt := h.size_lt
    rw [PdcpSegment.isLast, show (scanned l (encode l g ++ tail)).size = some 0 from rfl,
      load_size_encode l g tail h, land_8000 _ (sizeWord_lt l g h), Seg.sizeWord,
      Seg.wireSize]
    cases g.last with
    | false => simp [hlt]
    | true => simp
  sn := by
    intro hsn
    have hread := readBe16_be16 (be16 (g.sizeWord l))
      ((if l.hasOffset then be16 g.offset else []) ++ g.payload ++ tail) 2 g.sn rfl
    rw [Nat.mod_eq_of_lt h.sn_lt] at hread
    simpa [PdcpSegment.getSn, PdcpSegment.load, scanned, encode, Seg.optFields,
      hsn, List.append_assoc] using hread
  offset := by
    intro hoff
    have hread := readBe16_be16
      (be16 (g.sizeWord l) ++ (if l.hasSn then be16 g.sn else []))
      (g.payload ++ tail) (2 + l.hasSn.toNat * 2) g.offset
      (by cases l.hasSn <;> simp)
    rw [Nat.mod_eq_of_lt h.offset_lt] at hread
    simpa [PdcpSegment.getOffset, PdcpSegment.load, scanned, encode,
      Seg.optFields, hoff, List.append_assoc] using hread

/-- The getters recover an encoded segment. -/
theorem scan_encode (l : Layout) (g : Seg) (tail : List UInt8) (h : g.Fits l) :
    Reads l g (scanned l (encode l g ++ tail)) :=
  scan_encode_header l g tail h.header

/-- The payload bytes of an encoded segment. -/
theorem payload_encode (l : Layout) (g : Seg) (tail : List UInt8) :
    ((encode l g ++ tail).drop l.headerSize).take g.payload.length =
      g.payload := by
  have hlen := optFields_length l g
  have hsplit : encode l g ++ tail =
      (be16 (g.sizeWord l) ++ g.optFields l) ++ (g.payload ++ tail) := by
    simp [encode, List.append_assoc]
  rw [hsplit, List.drop_left' (by simp; omega), List.take_left' rfl]

/-- `memcpy(.., segment.get_payload(), payload_size)`: cells beyond the input
hold bytes the caller did not provide. -/
def readPayload (bytes : List UInt8) (headerSize payloadSize : Nat) :
    List (Option UInt8) :=
  grow none payloadSize (((bytes.drop headerSize).take payloadSize).map some)

theorem readPayload_encode (l : Layout) (g : Seg) (tail : List UInt8) :
    readPayload (encode l g ++ tail) l.headerSize g.payload.length =
      g.payload.map some := by
  rw [readPayload, payload_encode, grow_of_le]
  rw [List.length_map]

/-! ## Writing a segment -/

/-- The setters of the transmitters, in the order of `pdcp_ul::write_pdcp`:
payload, then the optional fields, then `LAST`, then the size. -/
def storeSegment (s : PdcpSegment) (g : Seg) : PdcpSegment :=
  let s := s.copyPayload g.payload
  let s := if s.hasSn then s.setSn g.sn else s
  let s := if s.hasOffset then s.setOffset g.offset else s
  let s := s.setLast g.last
  s.setPayloadSize g.payload.length

/-- Splitting a range at the fields of a header and a payload of length `n`. -/
theorem exists_fields (l : Layout) (n : Nat) (bytes : List UInt8)
    (h : l.headerSize + n ≤ bytes.length) :
    ∃ w sn off p tail : List UInt8,
      bytes = w ++ (sn ++ (off ++ (p ++ tail))) ∧ w.length = 2 ∧
      sn.length = l.hasSn.toNat * 2 ∧ off.length = l.hasOffset.toNat * 2 ∧
      p.length = n := by
  refine ⟨bytes.take 2, (bytes.drop 2).take (l.hasSn.toNat * 2),
    ((bytes.drop 2).drop (l.hasSn.toNat * 2)).take (l.hasOffset.toNat * 2),
    (((bytes.drop 2).drop (l.hasSn.toNat * 2)).drop
      (l.hasOffset.toNat * 2)).take n,
    (((bytes.drop 2).drop (l.hasSn.toNat * 2)).drop
      (l.hasOffset.toNat * 2)).drop n, ?_, ?_, ?_, ?_, ?_⟩
  · simp only [List.take_append_drop]
  all_goals
    simp only [List.length_take, List.length_drop]
    simp only [Layout.headerSize] at h
    omega

section SizeWord

variable (l : Layout) (g : Seg)

/-- The flag and the size in one word. -/
def sizeWordOf (last : Bool) (size : Nat) : Nat := (if last then 32768 else 0) + size

private theorem sizeWordOf_lt {last : Bool} {size : Nat} (h : size < 32768) :
    sizeWordOf last size < 65536 := by
  unfold sizeWordOf
  split <;> omega

private theorem load_sizeWordOf (body : List UInt8) {last : Bool} {size : Nat}
    (h : size < 32768) :
    (scanned l (be16 (sizeWordOf last size) ++ body)).load (some 0) =
      sizeWordOf last size := by
  have hread := readBe16_be16 [] body 0 (sizeWordOf last size) rfl
  rw [Nat.mod_eq_of_lt (sizeWordOf_lt h)] at hread
  simpa [PdcpSegment.load, scanned] using hread

private theorem getSize_sizeWordOf (body : List UInt8) {last : Bool} {size : Nat}
    (h : size < 32768) :
    (scanned l (be16 (sizeWordOf last size) ++ body)).getSize = size := by
  rw [PdcpSegment.getSize, show (scanned l (be16 (sizeWordOf last size) ++ body)).size =
    some 0 from rfl, load_sizeWordOf l body h, land_7fff, sizeWordOf]
  split <;> omega

/-- `set_LAST` on any word. -/
private theorem setLast_word (w body : List UInt8) (hw : w.length = 2) (last : Bool) :
    (scanned l (w ++ body)).setLast last =
      scanned l (be16 (sizeWordOf last (scanned l (w ++ body)).getSize) ++ body) := by
  have hsize : (scanned l (w ++ body)).getSize < 32768 := by
    rw [PdcpSegment.getSize, land_7fff]
    omega
  have hflag : last.toNat <<< 15 = if last then 32768 else 0 := by
    cases last <;> rfl
  have hblit : ∀ v, blit (w ++ body) 0 (be16 v) = be16 v ++ body :=
    fun v => blit_append [] w body (be16 v) 0 rfl hw
  rw [PdcpSegment.setLast, hflag, lor_flag _ _ (by split <;> simp) hsize]
  simp only [PdcpSegment.store, scanned, hblit, sizeWordOf]

/-- The flag that `set_SIZE` keeps. -/
private theorem exists_flag (w body : List UInt8) :
    ∃ last : Bool, (scanned l (w ++ body)).load (some 0) &&& 0x8000 =
      if last then 32768 else 0 := by
  have hlt : (scanned l (w ++ body)).load (some 0) < 65536 := readBe16_lt _ _
  rw [land_8000 _ hlt]
  by_cases h : (scanned l (w ++ body)).load (some 0) < 32768
  · exact ⟨false, by rw [if_pos h]; rfl⟩
  · exact ⟨true, by rw [if_neg h]; rfl⟩

/-- `set_payload_size` on any word. -/
private theorem setPayloadSize_word (w body : List UInt8) (hw : w.length = 2)
    (hlt : g.wireSize l < 32768) (hfit : g.wireSize l ≤ (w ++ body).length) {last : Bool}
    (hlast : (scanned l (w ++ body)).load (some 0) &&& 0x8000 =
      if last then 32768 else 0) :
    (scanned l (w ++ body)).setPayloadSize g.payload.length =
      scanned l (be16 (sizeWordOf last (g.wireSize l)) ++ body) := by
  have hpl : g.payload.length % 65536 = g.payload.length :=
    Nat.mod_eq_of_lt (by rw [Seg.wireSize] at hlt; omega)
  have hsz : (g.wireSize l) % 65536 = g.wireSize l := Nat.mod_eq_of_lt (by omega)
  have hblit : ∀ v, blit (w ++ body) 0 (be16 v) = be16 v ++ body :=
    fun v => blit_append [] w body (be16 v) 0 rfl hw
  have hset : (scanned l (w ++ body)).setSize (g.wireSize l) =
      scanned l (be16 (sizeWordOf last (g.wireSize l)) ++ body) := by
    rw [PdcpSegment.setSize, show (scanned l (w ++ body)).size = some 0 from rfl, hlast,
      hsz, lor_flag _ _ (by split <;> simp) hlt]
    simp only [PdcpSegment.store, scanned, hblit, sizeWordOf]
  have hmax : ¬ (g.wireSize l >
      (scanned l (be16 (sizeWordOf last (g.wireSize l)) ++ body)).getMaxSize) := by
    simp only [PdcpSegment.getMaxSize, scanned, List.length_append, be16_length,
      hw] at hfit ⊢
    omega
  simp only [PdcpSegment.setPayloadSize, scanned_getHeaderSize, hpl]
  rw [show l.headerSize + g.payload.length = g.wireSize l from rfl, hset,
    if_neg hmax]

/-- `set_LAST` followed by `set_SIZE` leaves the segment's own word whatever the
two bytes held before. -/
private theorem setPayloadSize_setLast (w body : List UInt8) (hw : w.length = 2)
    (hlt : g.wireSize l < 32768) (hfit : g.wireSize l ≤ (w ++ body).length) :
    ((scanned l (w ++ body)).setLast g.last).setPayloadSize g.payload.length =
      scanned l (be16 (g.sizeWord l) ++ body) := by
  have hsize : (scanned l (w ++ body)).getSize < 32768 := by
    rw [PdcpSegment.getSize, land_7fff]
    omega
  rw [setLast_word l w body hw]
  generalize (scanned l (w ++ body)).getSize = old at hsize
  refine setPayloadSize_word l g _ body (be16_length _) hlt ?_ ?_
  · rw [List.length_append, hw] at hfit
    rw [List.length_append, be16_length]
    exact hfit
  · rw [load_sizeWordOf l body hsize, land_8000 _ (sizeWordOf_lt hsize), sizeWordOf]
    cases g.last with
    | false => simp [hsize]
    | true => simp

/-- So does `set_SIZE` followed by `set_LAST`. -/
private theorem setLast_setPayloadSize (w body : List UInt8) (hw : w.length = 2)
    (hlt : g.wireSize l < 32768) (hfit : g.wireSize l ≤ (w ++ body).length) :
    ((scanned l (w ++ body)).setPayloadSize g.payload.length).setLast g.last =
      scanned l (be16 (g.sizeWord l) ++ body) := by
  obtain ⟨last, hlast⟩ := exists_flag l w body
  rw [setPayloadSize_word l g w body hw hlt hfit hlast,
    setLast_word l _ body (be16_length _), getSize_sizeWordOf l body hlt]
  rfl

end SizeWord

/-- The fields of a range, in the order of the layout. -/
structure Fields (l : Layout) (w sn off : List UInt8) : Prop where
  word : w.length = 2
  sn : sn.length = l.hasSn.toNat * 2
  off : off.length = l.hasOffset.toNat * 2

namespace Fields

variable {l : Layout} {w sn off : List UInt8} (f : Fields l w sn off)

include f

theorem copyPayload {p data : List UInt8} (tail : List UInt8)
    (hp : p.length = data.length) :
    (scanned l (w ++ (sn ++ (off ++ (p ++ tail))))).copyPayload data =
      scanned l (w ++ (sn ++ (off ++ (data ++ tail)))) := by
  have hb := blit_append (w ++ (sn ++ off)) p tail data l.headerSize
    (by simp [f.word, f.sn, f.off, Layout.headerSize]; omega) hp
  simp only [List.append_assoc] at hb
  simp only [PdcpSegment.copyPayload, scanned, hb]

/-- A layout without the field has a null pointer there, and the store does
nothing. -/
theorem setSn (rest : List UInt8) (v : Nat) :
    (scanned l (w ++ (sn ++ rest))).setSn v =
      scanned l (w ++ ((if l.hasSn then be16 v else []) ++ rest)) := by
  have hsn := f.sn
  cases hflag : l.hasSn with
  | false =>
      rw [hflag] at hsn
      have hnil : sn = [] := List.length_eq_zero_iff.mp hsn
      simp only [PdcpSegment.setSn, PdcpSegment.store, scanned, hflag,
        Bool.false_eq_true, if_false, hnil]
  | true =>
      have hb := blit_append w sn rest (be16 v) 2 f.word (by simpa [hflag] using hsn)
      simp only [PdcpSegment.setSn, PdcpSegment.store, scanned, hflag, if_true, hb]

theorem setOffset (rest : List UInt8) (v : Nat) :
    (scanned l (w ++ (sn ++ (off ++ rest)))).setOffset v =
      scanned l (w ++ (sn ++ ((if l.hasOffset then be16 v else []) ++ rest))) := by
  have hoff := f.off
  cases hflag : l.hasOffset with
  | false =>
      rw [hflag] at hoff
      have hnil : off = [] := List.length_eq_zero_iff.mp hoff
      simp only [PdcpSegment.setOffset, PdcpSegment.store, scanned, hflag,
        Bool.false_eq_true, if_false, hnil]
  | true =>
      have hb := blit_append (w ++ sn) off rest (be16 v) (2 + l.hasSn.toNat * 2)
        (by simp [f.word, f.sn]) (by simpa [hflag] using hoff)
      simp only [List.append_assoc] at hb
      simp only [PdcpSegment.setOffset, PdcpSegment.store, scanned, hflag, if_true, hb]

theorem withSn (v : Nat) : Fields l w (if l.hasSn then be16 v else []) off :=
  ⟨f.word, by cases l.hasSn <;> rfl, f.off⟩

theorem withOffset (v : Nat) : Fields l w sn (if l.hasOffset then be16 v else []) :=
  ⟨f.word, f.sn, by cases l.hasOffset <;> rfl⟩

theorem drop (g : Seg) {p : List UInt8} (tail : List UInt8)
    (hp : p.length = g.payload.length) :
    (w ++ (sn ++ (off ++ (p ++ tail)))).drop (g.wireSize l) = tail := by
  have hlen : (w ++ (sn ++ (off ++ p))).length = g.wireSize l := by
    simp [f.word, f.sn, f.off, hp, Seg.wireSize, Layout.headerSize]; omega
  have hassoc : w ++ (sn ++ (off ++ (p ++ tail))) =
      (w ++ (sn ++ (off ++ p))) ++ tail := by simp [List.append_assoc]
  rw [hassoc, List.drop_left' hlen]

theorem wireSize_le (g : Seg) {p : List UInt8} (tail : List UInt8)
    (hp : p.length = g.payload.length) :
    g.wireSize l ≤ (w ++ (sn ++ (off ++ (p ++ tail)))).length := by
  simp only [List.length_append, f.word, f.sn, f.off, hp, Seg.wireSize,
    Layout.headerSize]
  omega

end Fields

private theorem ite_setSn (l : Layout) (bytes : List UInt8) (v : Nat) :
    (if l.hasSn then (scanned l bytes).setSn v else scanned l bytes) =
      (scanned l bytes).setSn v := by
  cases h : l.hasSn with
  | true => rfl
  | false => simp [PdcpSegment.setSn, PdcpSegment.store, scanned, h]

private theorem ite_setOffset (l : Layout) (bytes : List UInt8) (v : Nat) :
    (if l.hasOffset then (scanned l bytes).setOffset v else scanned l bytes) =
      (scanned l bytes).setOffset v := by
  cases h : l.hasOffset with
  | true => rfl
  | false => simp [PdcpSegment.setOffset, PdcpSegment.store, scanned, h]

/-- Storing a segment leaves its encoding at the front of the range and the
bytes behind it unchanged. -/
theorem store_encode (l : Layout) (g : Seg) (bytes : List UInt8) (h : g.Fits l)
    (hfit : g.wireSize l ≤ bytes.length) :
    storeSegment (scanned l bytes) g =
      scanned l (encode l g ++ bytes.drop (g.wireSize l)) := by
  obtain ⟨w, sn, off, p, tail, rfl, hw, hsn, hoff, hp⟩ :=
    exists_fields l g.payload.length bytes hfit
  have f : Fields l w sn off := ⟨hw, hsn, hoff⟩
  have f' := f.withSn g.sn
  have hsetSn := (ite_setSn l _ g.sn).trans (f.setSn (off ++ (g.payload ++ tail)) g.sn)
  have hsetOff := (ite_setOffset l _ g.offset).trans
    (f'.setOffset (g.payload ++ tail) g.offset)
  have hsize := setPayloadSize_setLast l g w _ hw h.size_lt
    ((f'.withOffset g.offset).wireSize_le g tail rfl)
  rw [f.drop g tail hp, storeSegment, f.copyPayload tail hp]
  show (let s := if l.hasSn then
        (scanned l (w ++ (sn ++ (off ++ (g.payload ++ tail))))).setSn g.sn
      else scanned l (w ++ (sn ++ (off ++ (g.payload ++ tail))))
    let s := if s.hasOffset then s.setOffset g.offset else s
    (s.setLast g.last).setPayloadSize g.payload.length) = _
  rw [hsetSn]
  show (let s := if l.hasOffset then
        (scanned l (w ++ ((if l.hasSn then be16 g.sn else []) ++
          (off ++ (g.payload ++ tail))))).setOffset g.offset
      else scanned l (w ++ ((if l.hasSn then be16 g.sn else []) ++
          (off ++ (g.payload ++ tail))))
    (s.setLast g.last).setPayloadSize g.payload.length) = _
  rw [hsetOff]
  dsimp only
  rw [hsize]
  simp only [encode, Seg.optFields, List.append_assoc]

/-- The setters in the order of `PDCP::on_tx`: the sequence number first, whether
or not the layout has it, and the size before `LAST`. -/
def storeSegmentSnFirst (s : PdcpSegment) (g : Seg) : PdcpSegment :=
  let s := s.setSn g.sn
  let s := s.copyPayload g.payload
  let s := if s.hasOffset then s.setOffset g.offset else s
  let s := s.setPayloadSize g.payload.length
  s.setLast g.last

/-- The other order leaves the same bytes. -/
theorem storeSnFirst_encode (l : Layout) (g : Seg) (bytes : List UInt8)
    (hlt : g.wireSize l < 32768) (hfit : g.wireSize l ≤ bytes.length) :
    storeSegmentSnFirst (scanned l bytes) g =
      scanned l (encode l g ++ bytes.drop (g.wireSize l)) := by
  obtain ⟨w, sn, off, p, tail, rfl, hw, hsn, hoff, hp⟩ :=
    exists_fields l g.payload.length bytes hfit
  have f : Fields l w sn off := ⟨hw, hsn, hoff⟩
  have f' := f.withSn g.sn
  have hsetOff := (ite_setOffset l _ g.offset).trans
    (f'.setOffset (g.payload ++ tail) g.offset)
  have hsize := setLast_setPayloadSize l g w _ hw hlt
    ((f'.withOffset g.offset).wireSize_le g tail rfl)
  rw [f.drop g tail hp, storeSegmentSnFirst, f.setSn, f'.copyPayload tail hp]
  show (let s := if l.hasOffset then
        (scanned l (w ++ ((if l.hasSn then be16 g.sn else []) ++
          (off ++ (g.payload ++ tail))))).setOffset g.offset
      else scanned l (w ++ ((if l.hasSn then be16 g.sn else []) ++
          (off ++ (g.payload ++ tail))))
    (s.setPayloadSize g.payload.length).setLast g.last) = _
  rw [hsetOff]
  dsimp only
  rw [hsize]
  simp only [encode, Seg.optFields, List.append_assoc]

/-- The size of an encoded segment, whatever its number and offset. -/
theorem getSize_encode_of_lt (l : Layout) (g : Seg) (tail : List UInt8)
    (hlt : g.wireSize l < 32768) : (scanned l (encode l g ++ tail)).getSize = g.wireSize l := by
  rw [encode, List.append_assoc]
  exact getSize_sizeWordOf l _ hlt

/-- The size of a stored segment, whatever its number and offset. -/
theorem storeSnFirst_size (l : Layout) (g : Seg) (bytes : List UInt8)
    (hlt : g.wireSize l < 32768) (hfit : g.wireSize l ≤ bytes.length) :
    (storeSegmentSnFirst (scanned l bytes) g).getSize = g.wireSize l ∧
      (storeSegmentSnFirst (scanned l bytes) g).base.length = bytes.length := by
  rw [storeSnFirst_encode l g bytes hlt hfit]
  refine ⟨getSize_encode_of_lt l g _ hlt, ?_⟩
  show (encode l g ++ bytes.drop (g.wireSize l)).length = bytes.length
  rw [List.length_append, encode_length, List.length_drop]
  omega

/-! ## Runs of segments -/

@[simp] theorem encodeAll_nil (l : Layout) : encodeAll l [] = [] := rfl

@[simp] theorem encodeAll_cons (l : Layout) (g : Seg) (gs : List Seg) :
    encodeAll l (g :: gs) = encode l g ++ encodeAll l gs := rfl

@[simp] theorem encodeAll_append (l : Layout) (gs hs : List Seg) :
    encodeAll l (gs ++ hs) = encodeAll l gs ++ encodeAll l hs := by
  simp [encodeAll]

/-- A segment holds nothing that its layout cannot carry. -/
def Seg.Canonical (l : Layout) (g : Seg) : Prop :=
  (l.hasSn = false → g.sn = 0) ∧ (l.hasOffset = false → g.offset = 0)

/-- The bytes determine the segments. -/
theorem encodeAll_inj (l : Layout) (gs hs : List Seg)
    (hgs : ∀ g ∈ gs, g.Fits l ∧ g.Canonical l)
    (hhs : ∀ h ∈ hs, h.Fits l ∧ h.Canonical l)
    (heq : encodeAll l gs = encodeAll l hs) : gs = hs := by
  have hpos := headerSize_ge l
  have hcons : ∀ (g : Seg) (gs : List Seg), encodeAll l (g :: gs) ≠ [] := by
    intro g gs hnil
    have hlen := congrArg List.length hnil
    rw [encodeAll_cons, List.length_append, encode_length, Seg.wireSize,
      List.length_nil] at hlen
    omega
  induction gs generalizing hs with
  | nil =>
      cases hs with
      | nil => rfl
      | cons h hs => exact absurd heq.symm (hcons h hs)
  | cons g gs ih =>
      cases hs with
      | nil => exact absurd heq (hcons g gs)
      | cons h hs =>
          obtain ⟨hgf, hgc⟩ := hgs g (List.mem_cons_self ..)
          obtain ⟨hhf, hhc⟩ := hhs h (List.mem_cons_self ..)
          rw [encodeAll_cons, encodeAll_cons] at heq
          -- both decompositions are read off the same bytes
          have hg := scan_encode l g (encodeAll l gs) hgf
          have hh := scan_encode l h (encodeAll l hs) hhf
          rw [heq] at hg
          have hsize : g.payload.length = h.payload.length :=
            hg.payloadSize.symm.trans hh.payloadSize
          have hpay : g.payload = h.payload := by
            rw [← payload_encode l g (encodeAll l gs), heq, hsize, payload_encode]
          have hsn : g.sn = h.sn := by
            cases hflag : l.hasSn with
            | false => rw [hgc.1 hflag, hhc.1 hflag]
            | true => exact (hg.sn hflag).symm.trans (hh.sn hflag)
          have hoff : g.offset = h.offset := by
            cases hflag : l.hasOffset with
            | false => rw [hgc.2 hflag, hhc.2 hflag]
            | true => exact (hg.offset hflag).symm.trans (hh.offset hflag)
          have hseg : g = h := by
            cases g
            cases h
            simp only [Seg.mk.injEq]
            exact ⟨hsn, hoff, hg.last.symm.trans hh.last, hpay⟩
          subst hseg
          rw [ih hs (fun x hx => hgs x (List.mem_cons_of_mem _ hx))
            (fun x hx => hhs x (List.mem_cons_of_mem _ hx))
            (List.append_cancel_left heq)]

end Winject.Frames
