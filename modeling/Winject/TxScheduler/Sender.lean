import Winject.LegacyLlc.Conveys
import Winject.LegacyLlc.GrantFaults
import Winject.LegacyPdcp.Stores
import Winject.TxScheduler.Rounds

/-!
# The scheduler and its LLCs

`Winject.TxScheduler.Grants` has the scheduler for any LLCs.  Here they are those of this
repository: `Sender` is what a call of `on_tx` reads and writes, which are the data region of
the frame and the channels with their PDCPs, and the pointer to an LLC is its identifier.

A call that has undefined behaviour, in the LLC or in its PDCP, sets `fault`.  The functions go
on behind it; what they leave means nothing then.

## Main results

* `onTx_within`, `onTx_dataWhenAllowed` — these LLCs are among those that the scheduler's
  theorems are about.
* `Ticks.invariant` — what the calls keep, a tick keeps.
-/

namespace Winject.TxScheduler

open Winject.Lib.Bytes
open Winject.LegacyLlc
open Winject.LegacyPdcp

/-! ## The model -/

/-- `PDCP::on_tx`, and whether one of the calls so far was a fault. -/
def checkedPdcp (s : PdcpTx × Bool) (info : LegacyPdcp.TxInfo) :
    (PdcpTx × Bool) × LegacyPdcp.TxInfo :=
  (((s.1.onTx info).1, s.2 || s.1.faults info), (s.1.onTx info).2)

/-- What the calls of `on_tx` in a tick read and write: the data region, the slot of the tick,
and the LLCs with the PDCP behind each.  `written` are the PDUs that they write, each with the
channel of its LLC.  No function reads it. -/
@[ext] structure Sender where
  region : List UInt8
  slotNumber : Nat
  channels : UInt8 → Option (Llc × PdcpTx)
  written : List (UInt8 × List UInt8) := []
  fault : Bool := false
  small : region.length ≤ 2047

namespace Sender

/-- The `tx_info` of a call. -/
def grant (w : Sender) (offer : Illc.Offer)
    (h : offer.base + offer.size.toNat ≤ w.region.length) : Grant where
  slotNumber := w.slotNumber
  allowData := offer.allowData
  buffer := w.region.drop offer.base
  size := offer.size.toNat
  fits := by
    rw [List.length_drop]
    omega

/-- `llc->on_tx(tx_info)` of a channel. -/
def call (w : Sender) (c : Llc × PdcpTx) (offer : Illc.Offer)
    (h : offer.base + offer.size.toNat ≤ w.region.length) : TxState (PdcpTx × Bool) :=
  c.1.onTx checkedPdcp (c.2, false) (w.grant offer h).info

/-- The channels and the region behind the call of the channel `lcid`. -/
def behind (w : Sender) (lcid : UInt8) (base : Nat) (r : TxState (PdcpTx × Bool)) : Sender where
  region := poke w.region base r.frame
  slotNumber := w.slotNumber
  channels := Function.update w.channels lcid (some (r.owner, r.pdcp.1))
  written := w.written ++ r.pdus.map (Prod.mk r.owner.lcid)
  fault := w.fault || r.fault || r.pdcp.2
  small := by
    rw [poke_length]
    exact w.small

/-- What the call leaves in `tx_info`. -/
def answer (r : TxState (PdcpTx × Bool)) : Illc.Answer where
  txAvailable := r.outTxAvailable
  hasDataLoaded := r.outHasDataLoaded
  allocated := UInt64.ofNat r.outAllocated

/-- `LLC::on_tx` of all channels. -/
def onTx : Illc.OnTx Sender UInt8 := fun w lcid offer =>
  match w.channels lcid with
  | none => (w, {})
  | some c =>
    if h : offer.base + offer.size.toNat ≤ w.region.length then
      (w.behind lcid offer.base (w.call c offer h), answer (w.call c offer h))
    else ({ w with fault := true }, {})

end Sender

/-- A tick that ends in `t`: the probes, the rounds until their loop is left, and the deficits
behind them. -/
def Ticks (std : Illc.SortDescending) (w : Sender) (s : Illc.Registry UInt8)
    (t : Illc.Tick Sender UInt8) : Prop :=
  ∃ u broken, Illc.Tick.Reaches std Sender.onTx w s (UInt64.ofNat w.region.length) u broken ∧
    Illc.Tick.dataLoop std Sender.onTx (u, broken) = none ∧ t = u.settle

/-! ## A call -/

theorem checkedPdcp_ok : PdcpOnTxOk checkedPdcp where
  length pdcp info h := pdcpOnTx_ok.length pdcp.1 info h
  grows pdcp info h := pdcpOnTx_ok.grows pdcp.1 info h
  fits pdcp info h := pdcpOnTx_ok.fits pdcp.1 info h

namespace Sender

variable {w : Sender} {lcid : UInt8} {c : Llc × PdcpTx} {offer : Illc.Offer}

theorem size_le (h : offer.base + offer.size.toNat ≤ w.region.length) :
    (w.grant offer h).size ≤ 2047 := by
  have hsmall := w.small
  show offer.size.toNat ≤ 2047
  omega

theorem call_laidOut (h : offer.base + offer.size.toNat ≤ w.region.length) :
    (w.call c offer h).LaidOut c.1 (w.region.length - offer.base) offer.size.toNat := by
  have hlaid := c.1.onTx_laidOut checkedPdcp_ok (c.2, false) (w.grant offer h).info rfl
    (w.grant offer h).fits (size_le h)
  have hlen : (w.grant offer h).info.outPdu.length = w.region.length - offer.base :=
    List.length_drop
  rwa [hlen] at hlaid

theorem onTx_of_channel (hc : w.channels lcid = some c)
    (h : offer.base + offer.size.toNat ≤ w.region.length) :
    onTx w lcid offer =
      (w.behind lcid offer.base (w.call c offer h), answer (w.call c offer h)) := by
  unfold onTx
  rw [hc]
  exact dif_pos h

/-- The ways of a call. -/
theorem onTx_cases (w : Sender) (lcid : UInt8) (offer : Illc.Offer) :
    (w.channels lcid = none ∧ onTx w lcid offer = (w, {})) ∨
      (w.region.length < offer.base + offer.size.toNat ∧
        onTx w lcid offer = ({ w with fault := true }, {})) ∨
      ∃ c h, w.channels lcid = some c ∧ onTx w lcid offer =
        (w.behind lcid offer.base (w.call c offer h), answer (w.call c offer h)) := by
  unfold onTx
  cases hc : w.channels lcid with
  | none => exact Or.inl ⟨rfl, rfl⟩
  | some c =>
      dsimp only
      split_ifs with hfit
      · exact Or.inr (Or.inr ⟨c, hfit, rfl, rfl⟩)
      · exact Or.inr (Or.inl ⟨by omega, rfl⟩)

theorem allocated_toNat (h : offer.base + offer.size.toNat ≤ w.region.length) :
    (answer (w.call c offer h)).allocated.toNat = (w.call c offer h).outAllocated := by
  have hfits := (call_laidOut (c := c) h).fits
  have hlt := offer.size.toNat_lt
  show (UInt64.ofNat _).toNat = _
  rw [UInt64.toNat_ofNat', Nat.mod_eq_of_lt (by omega)]

/-- The LLCs allocate at most what they are offered. -/
theorem onTx_within : Illc.Tick.Within onTx := by
  intro w lcid offer
  rcases w.onTx_cases lcid offer with ⟨-, h⟩ | ⟨-, h⟩ | ⟨c, hfit, -, h⟩
  · rw [h]
    exact UInt64.zero_le
  · rw [h]
    exact UInt64.zero_le
  · rw [h, UInt64.le_iff_toNat_le]
    dsimp only
    rw [allocated_toNat hfit]
    exact (call_laidOut hfit).fits

/-- The LLCs load data only when they may. -/
theorem onTx_dataWhenAllowed : Illc.Tick.DataWhenAllowed onTx := by
  intro w lcid offer
  rcases w.onTx_cases lcid offer with ⟨-, h⟩ | ⟨-, h⟩ | ⟨c, hfit, -, h⟩
  · rw [h]
    exact fun hdata => by cases hdata
  · rw [h]
    exact fun hdata => by cases hdata
  · rw [h]
    intro hdata
    change (w.call c offer hfit).outHasDataLoaded = true at hdata
    have hacks : ∀ l : Llc, (l.ackStage (c.2, false) (w.grant offer hfit).info).outHasDataLoaded =
        false := by
      intro l
      unfold Llc.ackStage TxState.allocateAcks
      dsimp only
      split_ifs <;> rfl
    rcases c.1.onTx_cases checkedPdcp (c.2, false) (w.grant offer hfit).info with ⟨-, hres⟩ |
      ⟨-, -, hres⟩ | ⟨-, -, s, hs, ⟨-, hres⟩ | ⟨-, hallow, -⟩⟩
    · rw [call, hres] at hdata
      cases hdata
    · rw [call, hres] at hdata
      cases hdata
    · rw [call, hres, hs] at hdata
      change (Llc.ackStage _ _ _).outHasDataLoaded = true at hdata
      rw [hacks] at hdata
      cases hdata
    · exact hallow

end Sender

/-! ## A tick -/

/-- **What the calls keep, a tick keeps.** -/
theorem Ticks.invariant {I : Illc.Tick Sender UInt8 → Prop}
    (hcall : ∀ t lcid allowData most deficit, I t → (allowData = true → most ≤ deficit) →
      I (t.callLlc Sender.onTx lcid allowData most deficit).1)
    (hcongr : ∀ t t' : Illc.Tick Sender UInt8, I t → t'.world = t.world → t'.cursor = t.cursor →
      t'.framePayloadRemaining = t.framePayloadRemaining → t'.grants = t.grants → I t')
    {std : Illc.SortDescending} {w : Sender} {s : Illc.Registry UInt8}
    (hstart : I (Illc.Tick.start w s (UInt64.ofNat w.region.length)))
    {t : Illc.Tick Sender UInt8} (h : Ticks std w s t) : I t := by
  obtain ⟨u, broken, hreach, -, rfl⟩ := h
  have hu := Illc.Tick.reaches_invariant hcall hcongr hstart hreach
  exact hcongr u _ hu rfl rfl rfl rfl

end Winject.TxScheduler
