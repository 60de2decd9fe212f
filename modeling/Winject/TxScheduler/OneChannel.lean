import Winject.TxScheduler.Demux

/-!
# A tick in which one channel sends

The scheduler has all the channels, and the LLC of one of them is enabled: its probe changes
nothing and announces what its PDCP has queued, its first grant is the whole region, and there
is no second one.  What the peer gets of such a tick is what it gets of one call of `on_tx`.

The LLCs and the PDCPs are those of any channels, plain or not.

## Main results

* `onTx_probe` — a probe of no bytes changes nothing but what is announced.
* `ticks_call` — the tick is one call.
-/

namespace Winject.TxScheduler

open Winject.LegacyLlc
open Winject.LegacyPdcp
open Winject.Lib.Bytes

/-! ## The objects -/

/-- The LLC of a channel, disabled. -/
def quietLlc (lcid : UInt8) (c : Channel) : Llc where
  lcid := lcid
  txConfig := c.near.config
  txCrcSize := c.near.crcSize
  snRingSize := c.near.snRingSize

/-- The LLC of a channel, enabled, in front of the number `sn`. -/
def loudLlc (lcid : UInt8) (c : Channel) (sn : UInt8) (acks : List (Nat × Nat))
    (retx : List RetxElem) : Llc :=
  { quietLlc lcid c with
    isTxEnabled := true
    snCounter := sn
    toAckList := acks
    toRetxList := retx }

/-- The PDCP of a channel, disabled. -/
def quietPdcp (c : Channel) : PdcpTx where
  config :=
    { allowReordering := c.allowReordering
      allowSegmentation := true
      minCommitSize := 0 }

/-- The PDCP of a channel, with a packet that fills every grant. -/
def loudPdcp (c : Channel) : PdcpTx :=
  { quietPdcp c with
    isTxEnabled := true
    toTxQueue := [List.replicate 2047 0] }

/-- The LLC of channel `x` is `l`, and the others are disabled. -/
def oneLoud (channels : Channels) (x : UInt8) (l : Llc) (lcid : UInt8) :
    Option (Llc × PdcpTx) :=
  (channels lcid).map fun c =>
    if lcid = x then (l, loudPdcp c) else (quietLlc lcid c, quietPdcp c)

theorem oneLoud_self {channels : Channels} {x : UInt8} {c : Channel} (hx : channels x = some c)
    (l : Llc) : oneLoud channels x l x = some (l, loudPdcp c) := by
  unfold oneLoud
  rw [hx, Option.map_some, if_pos rfl]

theorem oneLoud_of_ne {channels : Channels} {x lcid : UInt8} {c : Channel}
    (hc : channels lcid = some c) (hne : lcid ≠ x) (l : Llc) :
    oneLoud channels x l lcid = some (quietLlc lcid c, quietPdcp c) := by
  unfold oneLoud
  rw [hc, Option.map_some, if_neg hne]

/-- A region of `r` zeroes. -/
def senderOf (objects : UInt8 → Option (Llc × PdcpTx)) {r : Nat} (hr : r ≤ 2047) : Sender where
  region := List.replicate r 0
  slotNumber := 0
  channels := objects
  small := by rwa [List.length_replicate]

/-- All channels, each with one quantum behind a deficit. -/
def registryOf (channels : Channels) (deficit : UInt64) : Illc.Registry UInt8 where
  llcs := (List.range 256).map fun i =>
    (channels (UInt8.ofNat i)).map fun _ => UInt8.ofNat i
  schedulesInfo := (List.range 256).map fun i =>
    { llc := (channels (UInt8.ofNat i)).map fun _ => UInt8.ofNat i
      deficit := deficit
      quanta := 1 }
  paired := List.map_map

/-- The LLC of the peer. -/
def peerLlc (lcid : UInt8) (c : Channel) : Llc where
  lcid := lcid
  txConfig := c.far.config
  snRingSize := c.far.snRingSize
  rxConfig := { crcType := c.near.config.crcType }
  rxCrcSize := c.near.crcSize

/-- The receiver, which has the channels. -/
def peerOf (channels : Channels) (lcid : UInt8) : Option Llc :=
  (channels lcid).map (peerLlc lcid)

theorem samePeer_peerOf (channels : Channels) : SamePeer channels (peerOf channels) := by
  constructor
  · intro lcid
    exact Option.isSome_map
  · intro lcid c l hc hl
    unfold peerOf at hl
    rw [hc] at hl
    cases hl
    exact ⟨rfl, rfl, rfl⟩

theorem registryOf_llcs (channels : Channels) (deficit : UInt64) (i : Nat) (lcid : UInt8) :
    (registryOf channels deficit).llcs[i]? = some (some lcid) ↔
      i = lcid.toNat ∧ (channels lcid).isSome = true := by
  unfold registryOf
  dsimp only
  rw [List.getElem?_map]
  constructor
  · intro h
    obtain ⟨j, hj, hsome⟩ := Option.map_eq_some_iff.mp h
    obtain ⟨c, hc, rfl⟩ := Option.map_eq_some_iff.mp hsome
    obtain ⟨hlt, rfl⟩ := List.getElem?_eq_some_iff.mp hj
    rw [List.length_range] at hlt
    rw [List.getElem_range] at hc ⊢
    refine ⟨?_, ?_⟩
    · rw [UInt8.toNat_ofNat', Nat.mod_eq_of_lt hlt]
    · rw [hc]
      rfl
  · rintro ⟨rfl, hsome⟩
    obtain ⟨c, hc⟩ := Option.isSome_iff_exists.mp hsome
    rw [List.getElem?_range lcid.toNat_lt, Option.map_some, UInt8.ofNat_toNat, hc]
    rfl

theorem registryOf_ctx {channels : Channels} {lcid : UInt8}
    (h : (channels lcid).isSome = true) (deficit : UInt64) :
    (registryOf channels deficit).schedulesInfo.getD lcid.toNat {} =
      { llc := some lcid, deficit := deficit, quanta := 1 } := by
  obtain ⟨c, hc⟩ := Option.isSome_iff_exists.mp h
  unfold registryOf
  dsimp only
  rw [List.getD_eq_getElem?_getD, List.getElem?_map, List.getElem?_range lcid.toNat_lt,
    Option.map_some, UInt8.ofNat_toNat, hc]
  rfl

/-! ## The probes -/

/-- The offer of a probe without a size, in front of the region. -/
def noBytes : Illc.Offer where
  allowData := false
  base := 0
  size := 0

/-- What a call that changes nothing leaves. -/
structure Unchanged (l : Llc) (p : PdcpTx) (info : LegacyLlc.TxInfo) (available : Bool)
    (r : TxState (PdcpTx × Bool)) : Prop where
  owner : r.owner = l
  pdcp : r.pdcp = (p, false)
  frame : r.frame = info.outPdu
  pdus : r.pdus = []
  fault : r.fault = false
  outTxAvailable : r.outTxAvailable = available
  outHasDataLoaded : r.outHasDataLoaded = false
  outAllocated : r.outAllocated = 0

/-- It leaves the other channels and the region as they were, too. -/
theorem Sender.onTx_unchanged {w : Sender} {lcid : UInt8} {e : Llc × PdcpTx} {available : Bool}
    (he : w.channels lcid = some e)
    (h : noBytes.base + noBytes.size.toNat ≤ w.region.length)
    (hcall : Unchanged e.1 e.2 (w.grant noBytes h).info available (w.call e noBytes h)) :
    Sender.onTx w lcid noBytes = (w, { txAvailable := available }) := by
  have hregion : poke w.region 0 w.region = w.region := by
    rw [poke_end (Nat.zero_add _)]
    rfl
  have hchannels : Function.update w.channels lcid (some e) = w.channels := by
    rw [← he]
    exact Function.update_eq_self ..
  rw [Sender.onTx_of_channel he h]
  refine Prod.ext ?_ ?_
  · unfold Sender.behind
    ext1
    · exact (congrArg (poke w.region 0) hcall.frame).trans hregion
    · rfl
    · dsimp only
      rw [hcall.owner, hcall.pdcp]
      exact hchannels
    · dsimp only
      rw [hcall.pdus]
      exact List.append_nil _
    · dsimp only
      rw [hcall.fault, hcall.pdcp, Bool.or_false, Bool.or_false]
  · unfold Sender.answer
    rw [hcall.outTxAvailable, hcall.outHasDataLoaded, hcall.outAllocated]
    rfl

theorem unchanged_quiet (lcid : UInt8) (c : Channel) (w : Sender)
    (h : noBytes.base + noBytes.size.toNat ≤ w.region.length) :
    Unchanged (quietLlc lcid c) (quietPdcp c) (w.grant noBytes h).info false
      (w.call (quietLlc lcid c, quietPdcp c) noBytes h) :=
  ⟨rfl, rfl, rfl, rfl, rfl, rfl, rfl, rfl⟩

theorem unchanged_loud {l : Llc} (hen : l.isTxEnabled = true)
    (hring : ∀ i, (l.txRing i).acknowledged = true) (c : Channel) (w : Sender)
    (h : noBytes.base + noBytes.size.toNat ≤ w.region.length) :
    Unchanged l (loudPdcp c) (w.grant noBytes h).info true
      (w.call (l, loudPdcp c) noBytes h) := by
  have hcheck := Llc.checkRetransmit_of_acknowledged hring (w.grant noBytes h).info.slotNumber
  have hsize : (w.grant noBytes h).info.outSize = 0 := rfl
  unfold Sender.call
  dsimp only
  rcases l.onTx_cases checkedPdcp (loudPdcp c, false) (w.grant noBytes h).info with
    ⟨hoff, -⟩ | ⟨-, -, hres⟩ | ⟨-, hlarge, -⟩
  · rw [hen] at hoff
    cases hoff
  · rw [hres, hcheck]
    exact ⟨rfl, rfl, rfl, rfl, rfl, rfl, rfl, rfl⟩
  · omega

/-- A probe of no bytes changes nothing, and announces the data of the LLC that is enabled. -/
theorem onTx_probe {channels : Channels} {x : UInt8} {l : Llc} (hen : l.isTxEnabled = true)
    (hring : ∀ i, (l.txRing i).acknowledged = true) {r : Nat} (hr : r ≤ 2047) {lcid : UInt8}
    {c : Channel} (hc : channels lcid = some c) :
    Sender.onTx (senderOf (oneLoud channels x l) hr) lcid noBytes =
      (senderOf (oneLoud channels x l) hr, { txAvailable := decide (lcid = x) }) := by
  by_cases hx : lcid = x
  · subst hx
    rw [decide_eq_true rfl]
    exact Sender.onTx_unchanged (w := senderOf (oneLoud channels lcid l) hr)
      (oneLoud_self hc l) (Nat.zero_le _) (unchanged_loud hen hring c _ _)
  · rw [decide_eq_false hx]
    exact Sender.onTx_unchanged (w := senderOf (oneLoud channels x l) hr)
      (oneLoud_of_ne hc hx l) (Nat.zero_le _) (unchanged_quiet lcid c _ _)

/-! ## The tick -/

/-- The offer of a region of `r` bytes. -/
def wholeOffer (r : Nat) : Illc.Offer where
  allowData := true
  base := 0
  size := UInt64.ofNat r

/-- **The tick is one call** of `on_tx`, with the whole region. -/
theorem ticks_call {channels : Channels} {x : UInt8} {c : Channel} (hx : channels x = some c)
    {l : Llc} (hen : l.isTxEnabled = true) (hring : ∀ i, (l.txRing i).acknowledged = true)
    {r : Nat} (hpos : 0 < r) (hr : r ≤ 2047) {std : Illc.SortDescending}
    {t : Illc.Tick Sender UInt8}
    (ht : Ticks std (senderOf (oneLoud channels x l) hr)
      (registryOf channels (UInt64.ofNat r)) t) :
    t.world = (Sender.onTx (senderOf (oneLoud channels x l) hr) x (wholeOffer r)).1 ∧
      t.cursor = (Sender.onTx (senderOf (oneLoud channels x l) hr) x
        (wholeOffer r)).2.allocated.toNat := by
  obtain ⟨u, broken, hreach, hend, rfl⟩ := ht
  have hlen : (senderOf (oneLoud channels x l) hr).region.length = r := List.length_replicate
  rw [hlen] at hreach
  have hnat : (UInt64.ofNat r).toNat = r := by
    rw [UInt64.toNat_ofNat', Nat.mod_eq_of_lt (by omega)]
  have hsome : (channels x).isSome = true := by
    rw [hx]
    rfl
  have hprobes : Illc.Tick.Announces Sender.onTx (registryOf channels (UInt64.ofNat r))
      (UInt64.ofNat r) x.toNat (fun _ => senderOf (oneLoud channels x l) hr) := by
    refine ⟨fun n lcid hlcid => ?_, fun _ _ => rfl⟩
    obtain ⟨rfl, hpresent⟩ := (registryOf_llcs channels _ n lcid).mp hlcid
    have hmin : min (UInt64.ofNat r) 0 = 0 :=
      UInt64.le_zero_iff.mp Std.min_le_right
    rw [registryOf_ctx hpresent]
    show Sender.onTx _ lcid ⟨false, 0, min (UInt64.ofNat r) 0⟩ = _
    obtain ⟨c', hc'⟩ := Option.isSome_iff_exists.mp hpresent
    simp only [hmin, UInt8.toNat_inj]
    exact onTx_probe hen hring hr hc'
  have hzero : UInt64.ofNat r ≠ 0 := by
    intro hzero
    rw [hzero] at hnat
    exact absurd hnat (Nat.ne_of_lt hpos)
  have hfar : UInt64.ofNat r <
      ((registryOf channels (UInt64.ofNat r)).schedulesInfo.getD x.toNat {}).deficit +
        ((registryOf channels (UInt64.ofNat r)).schedulesInfo.getD x.toNat {}).quanta := by
    rw [registryOf_ctx hsome, UInt64.lt_iff_toNat_lt, UInt64.toNat_add, hnat]
    show r < (r + 1) % 2 ^ 64
    omega
  exact Illc.Tick.reaches_once (t := u) Sender.onTx_within hzero hprobes
    ((registryOf_llcs channels _ x.toNat x).mpr ⟨rfl, hsome⟩) hfar hreach hend

end Winject.TxScheduler
