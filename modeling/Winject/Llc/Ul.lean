import Winject.Frames.LlcPdu

/-!
# The LLC uplink (`llc/llc_ul.hpp`)

`LlcUl` is the object `llc_ul`: a ring of transmit slots, a table of sequence
numbers and a retransmission list that refer to each other, two counters and the
status register.  `Op` is a call, and `step` makes it.

A data PDU that is accepted gets a number, `pdu`, that follows it through the
slot ring and the retransmission list; `ackedPdus` and `lostPdus` collect the
numbers of the PDUs that were acknowledged or given up.  No function reads these
fields.

Sizes and slot numbers are 64-bit words, the two counters are signed.  Bytes
behind the end of a buffer that is shorter than a header read as zero.

A buffer is its bytes here.  The source keeps views of storage that it shares with its
caller; what is written there later is the subject of `Winject.Llc.UlStorage`.
-/

namespace Winject.Llc

open Winject.Frames
open Winject.Lib.Bytes

/-! ## The data -/

/-- `llc_crc_type_e`. -/
inductive LlcCrcType where
  | none
  | crc32
  deriving DecidableEq, Repr

/-- `llc_tx_mode_e`. -/
inductive LlcTxMode where
  | tm
  | am
  deriving DecidableEq, Repr

/-- `llc_ul_config_t`. -/
structure LlcUlConfig where
  lcid : UInt8 := 0
  crcType : LlcCrcType := .none
  mode : LlcTxMode := .tm
  txSize : UInt64 := 512
  minRecheckSlotNumber : UInt64 := 10
  maxRecheckSlotNumber : UInt64 := 50
  maxRetxCount : UInt64 := 10
  deriving DecidableEq, Repr

/-- The bits of the status register. -/
structure Status where
  slotSkipped : Bool := false
  dataPduAllocated : Bool := false
  writeBufferTooSmall : Bool := false
  invalidLlcPdu : Bool := false
  noTxSlot : Bool := false
  noFreeSn : Bool := false
  invalidConfig : Bool := false
  snLost : Bool := false
  spuriousAckSn : Bool := false
  spuriousAckTx : Bool := false
  shouldNotHappen : Bool := false
  deriving DecidableEq, Repr

/-- `llc_ul::tx_elem_t`. -/
structure TxElem where
  acknowledged : Bool := true
  sn : UInt8 := 0
  retryCount : UInt64 := 0
  llcPdu : List UInt8 := []
  pdu : Nat := 0
  deriving DecidableEq, Repr

/-- `llc_ul::sn_elem_t`. -/
structure SnElem where
  checkTxSlotNumber : Option UInt64
  deriving DecidableEq, Repr

/-- `llc_ul::retx_elem_t`. -/
structure RetxElem where
  retryCount : UInt64 := 0
  sn : UInt8
  llcPdu : List UInt8
  pdu : Nat
  deriving DecidableEq, Repr

/-- `llc_ul`.  `snRing` has one entry for each 8-bit sequence number. -/
structure LlcUl where
  config : LlcUlConfig
  status : Status := {}
  currentSlotNumber : UInt64 := 0
  snCounter : UInt8 := 0
  txRing : List TxElem := []
  snRing : UInt8 → Option SnElem := fun _ => none
  retxList : List RetxElem := []
  usedTxSlots : Int := 0
  pendingLlcPduCount : Int := 0
  accepted : Nat := 0
  ackedPdus : List Nat := []
  lostPdus : List Nat := []

namespace LlcUlConfig

/-- `llc_ul::crc_size`. -/
def crcSize (c : LlcUlConfig) : Nat := if c.crcType = .crc32 then 4 else 0

/-- The conditions of `llc_ul::validate_config`. -/
def isValid (c : LlcUlConfig) : Bool :=
  !(c.txSize == 0 || (c.txSize &&& (c.txSize - 1)) != 0) && c.minRecheckSlotNumber != 0 &&
    c.maxRecheckSlotNumber != 0 &&
    !(decide (c.maxRecheckSlotNumber < c.minRecheckSlotNumber)) && c.maxRetxCount != 0

end LlcUlConfig

namespace LlcUl

/-! ## The operations -/

/-- `llc_ul::reset`. -/
def reset (u : LlcUl) : LlcUl :=
  { config := u.config
    txRing := List.replicate u.config.txSize.toNat {} }

/-- `llc_ul::validate_config`. -/
def validateConfig (u : LlcUl) : LlcUl :=
  if u.config.isValid then u
  else { u with status := { u.status with invalidConfig := true } }

/-- The constructor. -/
def new (config : LlcUlConfig) : LlcUl :=
  (reset { config := config }).validateConfig

/-- `llc_ul::reconfigure`. -/
def reconfigure (u : LlcUl) (c : LlcUlConfig) : LlcUl :=
  (reset { u with config := c }).validateConfig

/-- `llc_ul::tx_ring_index`. -/
def txRingIndex (u : LlcUl) (slot : UInt64) : Nat := slot.toNat % u.txRing.length

/-- The ring element of a slot. -/
def txElem (u : LlcUl) (slot : UInt64) : TxElem := u.txRing.getD (u.txRingIndex slot) {}

/-- Store into the ring element of a slot. -/
def setTxElem (u : LlcUl) (slot : UInt64) (el : TxElem) : LlcUl :=
  { u with txRing := u.txRing.set (u.txRingIndex slot) el }

/-- `llc_ul::update_current_slot_number`. -/
def updateCurrentSlotNumber (u : LlcUl) (slot : UInt64) : LlcUl × Bool :=
  if u.config.mode = .tm then (u, true)
  else if slot ≠ u.currentSlotNumber + 1 then
    ({ u with status := { u.status with slotSkipped := true } }, false)
  else
    let u := { u with
      status := { u.status with dataPduAllocated := false }
      currentSlotNumber := slot }
    let oldSlot := u.txElem slot
    if !oldSlot.acknowledged then
      let u := u.setTxElem slot { oldSlot with acknowledged := true }
      let u := { u with
        usedTxSlots := u.usedTxSlots - 1
        status := { u.status with shouldNotHappen := false, spuriousAckSn := false } }
      match u.snRing oldSlot.sn with
      | none =>
        ({ u with
          status := { u.status with spuriousAckSn := true, shouldNotHappen := true } }, false)
      | some _ =>
        ({ u with
          snRing := Function.update u.snRing oldSlot.sn (some ⟨none⟩)
          retxList := u.retxList ++
            [{ sn := oldSlot.sn
               retryCount := oldSlot.retryCount
               llcPdu := oldSlot.llcPdu
               pdu := oldSlot.pdu }] }, true)
    else (u, true)

/-- `llc_ul::acknowledge`. -/
def acknowledge (u : LlcUl) (sn : UInt8) : LlcUl × Bool :=
  let u := { u with
    status := { u.status with
      spuriousAckSn := false, spuriousAckTx := false, shouldNotHappen := false } }
  match u.snRing sn with
  | none => ({ u with status := { u.status with spuriousAckSn := true } }, false)
  | some ⟨none⟩ =>
    match u.retxList.find? (fun el => el.sn == sn) with
    | some el =>
      ({ u with
        retxList := u.retxList.eraseP (fun el => el.sn == sn)
        snRing := Function.update u.snRing sn none
        pendingLlcPduCount := u.pendingLlcPduCount - 1
        ackedPdus := u.ackedPdus ++ [el.pdu] }, true)
    | none =>
      ({ u with
        status := { u.status with spuriousAckSn := true, shouldNotHappen := true } }, false)
  | some ⟨some slot⟩ =>
    let el := u.txElem slot
    if !el.acknowledged then
      let u := u.setTxElem slot { el with acknowledged := true }
      ({ u with
        pendingLlcPduCount := u.pendingLlcPduCount - 1
        usedTxSlots := u.usedTxSlots - 1
        snRing := Function.update u.snRing sn none
        ackedPdus := u.ackedPdus ++ [el.pdu] }, true)
    else ({ u with status := { u.status with spuriousAckTx := true } }, false)

/-- `llc_ul::recheck_slot_size`. -/
def recheckSlotSize (u : LlcUl) (retryCount : UInt64) : UInt64 :=
  u.config.minRecheckSlotNumber +
    retryCount * (u.config.maxRecheckSlotNumber - u.config.minRecheckSlotNumber) /
      u.config.maxRetxCount

/-- The loop of `llc_ul::enqueue_tx_check`: the first free slot of `n` slots from
`slot` on. -/
def findSlot (u : LlcUl) (slot : UInt64) : Nat → Option UInt64
  | 0 => none
  | n + 1 => if !(u.txElem slot).acknowledged then u.findSlot (slot + 1) n else some slot

/-- `llc_ul::enqueue_tx_check`. -/
def enqueueTxCheck (u : LlcUl) (llcPdu : List UInt8) (sn : UInt8) (retryCount : UInt64)
    (pdu : Nat) : LlcUl × Option UInt64 :=
  let u := { u with status := { u.status with noTxSlot := false } }
  match u.findSlot (u.currentSlotNumber + u.recheckSlotSize retryCount)
      u.config.txSize.toNat with
  | none => ({ u with status := { u.status with noTxSlot := true } }, none)
  | some slot =>
    let u := u.setTxElem slot
      { acknowledged := false, sn := sn, retryCount := retryCount, llcPdu := llcPdu, pdu := pdu }
    ({ u with usedTxSlots := u.usedTxSlots + 1 }, some slot)

/-- `llc_ul::get_retransmission_size`. -/
def getRetransmissionSize (u : LlcUl) : Nat :=
  match u.retxList with
  | [] => 0
  | el :: _ => el.llcPdu.length

/-- `llc_ul::write_retransmission_pdu`: the state, the target and the number of
bytes written. -/
def writeRetransmissionPdu (u : LlcUl) (target : List UInt8) : LlcUl × List UInt8 × Nat :=
  if u.status.dataPduAllocated then (u, target, 0)
  else if u.config.mode = .tm then (u, target, 0)
  else
    match u.retxList with
    | [] => (u, target, 0)
    | el :: rest =>
      let size := el.llcPdu.length
      if size = 0 then (u, target, 0) else
      let u := { u with status := { u.status with writeBufferTooSmall := false } }
      if size > target.length then
        ({ u with status := { u.status with writeBufferTooSmall := true } }, target, 0)
      else
        let u := { u with
          status := { u.status with spuriousAckSn := false, shouldNotHappen := false } }
        match u.snRing el.sn with
        | none =>
          ({ u with
            status := { u.status with spuriousAckSn := true, shouldNotHappen := true }
            retxList := rest
            pendingLlcPduCount := u.pendingLlcPduCount - 1 }, target, 0)
        | some _ =>
          let u := { u with status := { u.status with snLost := false } }
          if el.retryCount ≥ u.config.maxRetxCount then
            ({ u with
              status := { u.status with snLost := true }
              snRing := Function.update u.snRing el.sn none
              retxList := rest
              pendingLlcPduCount := u.pendingLlcPduCount - 1
              lostPdus := u.lostPdus ++ [el.pdu] }, target, 0)
          else
            let target := poke target 0 el.llcPdu
            match u.enqueueTxCheck el.llcPdu el.sn (el.retryCount + 1) el.pdu with
            | (u, none) => (u, target, 0)
            | (u, some slot) =>
              ({ u with
                snRing := Function.update u.snRing el.sn (some ⟨some slot⟩)
                retxList := rest
                status := { u.status with dataPduAllocated := true } }, target, size)

/-- The header stores of `llc_ul::write_llc_pdu`. -/
def stampLlcPdu (config : LlcUlConfig) (snCounter : UInt8) (llc : LlcPdu) : LlcPdu :=
  let llc := if llc.getA then llc.setSN 0 else llc.setSN snCounter
  if config.crcSize = 0 then llc
  else
    let llc := llc.storeCRC (List.replicate config.crcSize 0)
    llc.storeCRC (be32 (crc32 (llc.base.take llc.getSIZE)))

/-- The end of `llc_ul::write_llc_pdu`, behind the header stores.  The slot ring keeps a
view of the buffer; the model keeps the bytes that are in it now. -/
def sendLlcPdu (u : LlcUl) (llc : LlcPdu) : LlcUl × List UInt8 × Nat :=
  if u.config.mode = .am && !llc.getA then
    match u.enqueueTxCheck llc.base u.snCounter 0 u.accepted with
    | (u, none) => (u, llc.base, 0)
    | (u, some slot) =>
      ({ u with
        snRing := Function.update u.snRing u.snCounter (some ⟨some slot⟩)
        snCounter := u.snCounter + 1
        pendingLlcPduCount := u.pendingLlcPduCount + 1
        status := { u.status with dataPduAllocated := true }
        accepted := u.accepted + 1 }, llc.base, llc.getSIZE)
  else ({ u with snCounter := u.snCounter + 1 }, llc.base, llc.getSIZE)

/-- `llc_ul::write_llc_pdu`: the state, the buffer and the number of bytes
written. -/
def writeLlcPdu (u : LlcUl) (target : List UInt8) : LlcUl × List UInt8 × Nat :=
  if u.status.dataPduAllocated then (u, target, 0) else
  let llc := LlcPdu.new target target.length u.config.crcSize
  let checked := u.config.mode = .am && !llc.getA
  if checked && (u.snRing u.snCounter).isSome then
    ({ u with status := { u.status with noFreeSn := true } }, target, 0)
  else
    let u := { u with
      status := { u.status with
        noFreeSn := if checked then false else u.status.noFreeSn
        invalidLlcPdu := false } }
    if !llc.isValid then
      ({ u with status := { u.status with invalidLlcPdu := true } }, target, 0)
    else u.sendLlcPdu (stampLlcPdu u.config u.snCounter llc)

end LlcUl

/-! ## Runs -/

/-- A call. -/
inductive Op where
  | updateCurrentSlotNumber (slot : UInt64)
  | writeLlcPdu (target : List UInt8)
  | writeRetransmissionPdu (target : List UInt8)
  | acknowledge (sn : UInt8)
  | reset
  | reconfigure (config : LlcUlConfig)
  deriving DecidableEq, Repr

/-- The configurations of a run are valid and acknowledged. -/
def Op.IsAm : Op → Prop
  | .reconfigure config => config.isValid = true ∧ config.mode = .am
  | _ => True

instance (op : Op) : Decidable op.IsAm :=
  match op with
  | .reconfigure config =>
    inferInstanceAs (Decidable (config.isValid = true ∧ config.mode = .am))
  | .updateCurrentSlotNumber _ | .writeLlcPdu _ | .writeRetransmissionPdu _ | .acknowledge _
  | .reset => .isTrue trivial

namespace LlcUl

/-- One call. -/
def step (u : LlcUl) : Op → LlcUl
  | .updateCurrentSlotNumber slot => (u.updateCurrentSlotNumber slot).1
  | .writeLlcPdu target => (u.writeLlcPdu target).1
  | .writeRetransmissionPdu target => (u.writeRetransmissionPdu target).1
  | .acknowledge sn => (u.acknowledge sn).1
  | .reset => u.reset
  | .reconfigure config => u.reconfigure config

/-- A run of calls. -/
def run (u : LlcUl) (ops : List Op) : LlcUl := ops.foldl step u

end LlcUl

end Winject.Llc
