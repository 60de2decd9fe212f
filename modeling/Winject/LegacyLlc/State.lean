import Mathlib.Algebra.Group.Nat.Defs
import Mathlib.Logic.Function.Basic

/-!
# The state of the first LLC (`LLC.hpp`)

`Llc` is the object `LLC`: its two configurations, the ring of sent PDUs that
wait for an acknowledgement, the ring that maps sequence numbers to slots, the
retransmission list and the list of numbers to acknowledge.  This module has the
operations that enable and configure it; `Winject.LegacyLlc.OnTx` and
`Winject.LegacyLlc.OnRx` have the data path.

Statistics are left out: no function reads them back.
-/

namespace Winject.LegacyLlc

/-- `ILLC::crc_type_e`. -/
inductive CrcType where
  | none
  | crc32
  deriving DecidableEq, Repr

/-- `ILLC::tx_mode_e`. -/
inductive TxMode where
  | tm
  | am
  deriving DecidableEq, Repr

/-- `ILLC::tx_config_t`. -/
structure TxConfig where
  allowRlf : Bool := false
  mode : TxMode := .tm
  arqWindowSize : Nat := 0
  maxRetxCount : Nat := 0
  crcType : CrcType := .none
  deriving DecidableEq, Repr

/-- `ILLC::rx_config_t`. -/
structure RxConfig where
  mode : TxMode := .tm
  crcType : CrcType := .none
  autoInitOnRx : Bool := false
  deriving DecidableEq, Repr

/-- The value `-1` of a `size_t`. -/
def sizeMax : Nat := 2 ^ 64 - 1

/-- `LLC::tx_ring_elem_t`.  The first `pdcp_pdu_size` bytes of the buffer
`pdcp_pdu` are the list `pdcpPdu`. -/
structure TxRingElem where
  sentIndex : Nat := sizeMax
  llcTxId : Nat := 0
  retryCount : Nat := 0
  pdcpPdu : List UInt8 := []
  acknowledged : Bool := true
  deriving DecidableEq, Repr

/-- `LLC::retx_elem_t`. -/
structure RetxElem where
  llcTxId : Nat := 0
  retryCount : Nat
  pdcpPdu : List UInt8
  deriving DecidableEq, Repr

/-- `LLC::llc_max_size`. -/
def llcMaxSize : Nat := 1500

/-- `LLC`.  `tx_ring` has 1024 elements; `snRing` is the field `ring_idx` of the
elements of `sn_ring`, of which there are `snRingSize`. -/
structure Llc where
  lcid : UInt8
  llcTxId : Nat := 0
  isTxEnabled : Bool := false
  txConfig : TxConfig := {}
  txCrcSize : Nat := 0
  snCounter : UInt8 := 0
  toRetxList : List RetxElem := []
  txRing : Fin 1024 → TxRingElem := fun _ => {}
  snRing : Nat → Nat := fun _ => 0
  snRingSize : Nat := 0
  toAckList : List (Nat × Nat) := []
  isRxEnabled : Bool := false
  rxConfig : RxConfig := {}
  rxCrcSize : Nat := 0

namespace Llc

/-- `LLC::configure_crc_size`: a size that is not set keeps its old value. -/
def configureCrcSize (l : Llc) : Llc :=
  { l with
    txCrcSize := if l.txConfig.crcType = .crc32 then 4 else l.txCrcSize
    rxCrcSize := if l.rxConfig.crcType = .crc32 then 4 else l.rxCrcSize }

/-- `LLC::set_tx_enabled`. -/
def setTxEnabled (l : Llc) (value : Bool) : Llc :=
  { l with
    isTxEnabled := value
    txRing :=
      if l.txConfig.mode = .am then
        fun i => { l.txRing i with acknowledged := true, sentIndex := sizeMax }
      else l.txRing
    toRetxList := []
    toAckList := [] }

/-- `LLC::set_rx_enabled`. -/
def setRxEnabled (l : Llc) (value : Bool) : Llc := { l with isRxEnabled := value }

/-- `LLC::reconfigure(tx_config_t)`. -/
def reconfigureTx (l : Llc) (config : TxConfig) : Llc :=
  ({ l with txConfig := config }).configureCrcSize.setTxEnabled l.isTxEnabled

/-- `LLC::reconfigure(rx_config_t)`: `auto_init_on_rx` is kept. -/
def reconfigureRx (l : Llc) (config : RxConfig) : Llc :=
  ({ l with
    rxConfig := { config with autoInitOnRx := l.rxConfig.autoInitOnRx } }).configureCrcSize.setRxEnabled
      l.isRxEnabled

/-- The constructor `LLC::LLC`.  `sn_ring` keeps the size it gets here. -/
def new (lcid : UInt8) (txConfig : TxConfig) (rxConfig : RxConfig) : Llc :=
  (({ lcid := lcid, snRingSize := txConfig.arqWindowSize } : Llc).reconfigureTx
    txConfig).reconfigureRx rxConfig

end Llc

end Winject.LegacyLlc
