import Winject.LegacyLlc.AckList

/-!
# Every call of the first LLC

`Winject.LegacyLlc.Run` follows a channel that transmits and receives.  Here the two
`reconfigure` and the two enabling calls come in between, in any order.  What a PDCP
does between two grants is left open: every grant comes with the state of the PDCP it
finds.

## Main results

* `called_sized` — behind any calls, a checksum has its four bytes in the header.
-/

namespace Winject.LegacyLlc

open Winject.Lib.Runs

/-- A call on the LLC. -/
inductive Call (π : Type) where
  | reconfigureTx (config : TxConfig)
  | reconfigureRx (config : RxConfig)
  | setTxEnabled (value : Bool)
  | setRxEnabled (value : Bool)
  | onTx (pdcp : π) (grant : Grant)
  | onRx (info : RxInfo)

namespace Llc

variable {π : Type} (pdcpOnTx : π → LegacyPdcp.TxInfo → π × LegacyPdcp.TxInfo)

/-- The LLC behind a call. -/
def call (l : Llc) : Call π → Llc
  | .reconfigureTx config => l.reconfigureTx config
  | .reconfigureRx config => l.reconfigureRx config
  | .setTxEnabled value => l.setTxEnabled value
  | .setRxEnabled value => l.setRxEnabled value
  | .onTx pdcp grant => (l.onTx pdcpOnTx pdcp grant.info).owner
  | .onRx info => (l.onRx info).llc

/-- The LLC behind its constructor and some calls. -/
def called (lcid : UInt8) (txConfig : TxConfig) (rxConfig : RxConfig)
    (calls : List (Call π)) : Llc :=
  calls.foldl (call pdcpOnTx) (new lcid txConfig rxConfig)

/-- The header has room for the checksum. -/
structure Sized (l : Llc) : Prop where
  crc : l.txConfig.crcType = .crc32 → l.txCrcSize = 4
  crcSize : l.txCrcSize = 0 ∨ l.txCrcSize = 4

theorem Sized.configureCrcSize {l : Llc} (h : l.txCrcSize = 0 ∨ l.txCrcSize = 4) :
    l.configureCrcSize.Sized where
  crc := fun hcrc => if_pos hcrc
  crcSize := by
    show (if l.txConfig.crcType = .crc32 then 4 else l.txCrcSize) = 0 ∨
      (if l.txConfig.crcType = .crc32 then 4 else l.txCrcSize) = 4
    split_ifs
    · exact Or.inr rfl
    · exact h

theorem Sized.of_setup {l l' : Llc} (h : l.Sized) (hsetup : l.SameSetup l') : l'.Sized where
  crc := by
    rw [hsetup.txConfig, hsetup.txCrcSize]
    exact h.crc
  crcSize := by
    rw [hsetup.txCrcSize]
    exact h.crcSize

theorem Sized.reconfigureTx {l : Llc} (h : l.txCrcSize = 0 ∨ l.txCrcSize = 4)
    (config : TxConfig) : (l.reconfigureTx config).Sized := by
  have hsized : ({ l with txConfig := config } : Llc).configureCrcSize.Sized :=
    .configureCrcSize h
  exact ⟨hsized.crc, hsized.crcSize⟩

theorem Sized.reconfigureRx {l : Llc} (h : l.Sized) (config : RxConfig) :
    (l.reconfigureRx config).Sized := by
  have hsized : ({ l with
      rxConfig := { config with autoInitOnRx := l.rxConfig.autoInitOnRx } } :
        Llc).configureCrcSize.Sized := .configureCrcSize h.crcSize
  exact ⟨hsized.crc, hsized.crcSize⟩

theorem Sized.call {l : Llc} (h : l.Sized) (c : Call π) : (l.call pdcpOnTx c).Sized := by
  cases c with
  | reconfigureTx config => exact Sized.reconfigureTx h.crcSize config
  | reconfigureRx config => exact h.reconfigureRx config
  | setTxEnabled value => exact ⟨h.crc, h.crcSize⟩
  | setRxEnabled value => exact ⟨h.crc, h.crcSize⟩
  | onTx pdcp grant => exact h.of_setup (l.onTx_setup pdcpOnTx pdcp grant.info)
  | onRx info => exact h.of_setup (l.onRx_sameSetup info)

theorem Sized.new (lcid : UInt8) (txConfig : TxConfig) (rxConfig : RxConfig) :
    (new lcid txConfig rxConfig).Sized :=
  (Sized.reconfigureTx (l := { lcid := lcid, snRingSize := txConfig.arqWindowSize }) (Or.inl rfl)
    txConfig).reconfigureRx rxConfig

/-- Behind any calls the header has room for the checksum. -/
theorem called_sized (lcid : UInt8) (txConfig : TxConfig) (rxConfig : RxConfig)
    (calls : List (Call π)) : (called pdcpOnTx lcid txConfig rxConfig calls).Sized :=
  foldl_invariant Sized (fun _ c h => h.call pdcpOnTx c) calls _
    (Sized.new lcid txConfig rxConfig)

end Llc

end Winject.LegacyLlc
