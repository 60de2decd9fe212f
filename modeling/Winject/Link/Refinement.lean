import Winject.LegacyLlc.HandOver
import Winject.Link.Ends

/-!
# The LLC as the network of the PDCP

To the PDCP, the two LLCs with everything between them are a network that loses, delays,
doubles and reorders the PDUs that it has written: retransmissions, acknowledgements and
failures, true or not, are nothing else.  So every property that `LegacyPdcp` has over such
a network it has over the LLC.

## Main results

* `receive_payload` — what a PDU of the other end hands to the PDCP.
* `link_refines` — a run of the two ends is a run of the PDCP over such a network.
-/

namespace Winject.Link

open Winject.Frames
open Winject.LegacyLlc
open Winject.LegacyPdcp
open Winject.Lib.Bytes
open Winject.Lib.Peers
open Winject.Lib.Runs

/-! ## One PDU -/

/-- The receiver expects the header that the sender writes. -/
structure Fits (headerSize : Nat) (l : Llc) : Prop where
  header : 3 + l.rxCrcSize = headerSize
  crc : l.rxConfig.crcType = .crc32 → l.rxCrcSize = 4

/-- **What a PDU hands to the PDCP**: nothing, or the payload of a data PDU. -/
theorem receive_payload {l : Llc} {headerSize : Nat} (hl : Fits headerSize l) {lcid : UInt8}
    {pdu : List UInt8} (hpdu : IsPdu lcid headerSize pdu) {payload : List UInt8}
    (h : (l.onRx ⟨pdu, pdu.length⟩).passed = some payload) :
    (LlcPdu.new pdu pdu.length 0).getA = false ∧ payload = pdu.drop headerSize := by
  have hdata : l.receivesData ⟨pdu, pdu.length⟩ = true := by
    by_contra hnone
    rw [(Llc.onRx_of_not_receivesData (Bool.not_eq_true _ ▸ hnone)).1] at h
    cases h
  rw [Llc.onRx_of_receivesData hdata] at h
  obtain rfl := Option.some.inj h
  unfold Llc.receivesData at hdata
  rw [Bool.and_eq_true, Bool.not_eq_true'] at hdata
  have hlen := hpdu.header
  have hsmall : pdu.length < 65536 := by
    rw [← hpdu.size]
    unfold LlcPdu.getSIZE
    have hhigh := ((LlcPdu.new pdu pdu.length 0).get 1 0x07 0).toNat_lt
    have hlow := ((LlcPdu.new pdu pdu.length 0).get 2 0xFF 0).toNat_lt
    omega
  constructor
  · rw [← hdata.2, Llc.rxPdu_getA]
    rfl
  · have hbase : (l.rxPdu ⟨pdu, pdu.length⟩).base.drop headerSize = pdu.drop headerSize := by
      refine l.rxPdu_drop ⟨pdu, pdu.length⟩ fun hcrc => ?_
      rw [← hl.header, hl.crc hcrc]
    unfold Llc.rxPayload
    rw [Llc.rxPdu_getHeaderSize, hl.header, hbase]
    refine List.take_of_length_le ?_
    dsimp only
    rw [List.length_drop]
    omega

/-! ## Runs -/

theorem rxRun_append (d : PdcpRx) (as bs : List (List UInt8)) :
    rxRun d (as ++ bs) = (rxRun d as).bind fun d' => rxRun d' bs := by
  induction as generalizing d with
  | nil => rfl
  | cons a as ih =>
      rw [List.cons_append, rxRun, rxRun, Option.bind_assoc]
      congr 1
      funext d'
      exact ih d'

/-- What one end has received is what the other one has written. -/
def Fed (cfg : LegacyPdcp.RxConfig) (sender receiver : End) : Prop :=
  ∃ fed : List LegacyPdcp.SentPdu, (∀ pdu ∈ fed, pdu ∈ sender.pdcpTx.pdus) ∧
    receiver.pdcpRx = rxRun (PdcpRx.enabled cfg) (fed.map SentPdu.bytes)

theorem Fed.own {cfg : LegacyPdcp.RxConfig} {sender receiver : End} (h : Fed cfg sender receiver)
    {sender' : End} (hbehind : Behind sender.pdcpTx sender'.pdcpTx) : Fed cfg sender' receiver := by
  obtain ⟨fed, hfed, hrx⟩ := h
  obtain ⟨new, hnew⟩ := hbehind.pdus
  refine ⟨fed, fun pdu hmem => ?_, hrx⟩
  rw [hnew]
  exact List.mem_append_left _ (hfed pdu hmem)

theorem Fed.receive {cfg : LegacyPdcp.RxConfig} {sender receiver : End}
    (h : Fed cfg sender receiver) {lcid : UInt8} {headerSize : Nat}
    (hl : Fits headerSize receiver.llc) {pdu : List UInt8}
    (hpdu : Carried lcid headerSize sender.pdcpTx pdu) :
    Fed cfg sender (receiver.receive pdu) := by
  obtain ⟨fed, hfed, hrx⟩ := h
  unfold Fed End.receive
  dsimp only
  cases hpassed : (receiver.llc.onRx ⟨pdu, pdu.length⟩).passed with
  | none => exact ⟨fed, hfed, hrx⟩
  | some payload =>
      obtain ⟨hA, rfl⟩ := receive_payload hl hpdu.1 hpassed
      have hwritten : Written sender.pdcpTx (pdu.drop headerSize) := by
        refine hpdu.2.resolve_left fun hack => ?_
        rw [hack.flag] at hA
        cases hA
      obtain ⟨sent, hmem, hbytes⟩ := hwritten
      refine ⟨fed ++ [sent], fun p hp => ?_, ?_⟩
      · rcases List.mem_append.mp hp with hold | hnew
        · exact hfed p hold
        · rw [List.mem_singleton.mp hnew]
          exact hmem
      · rw [List.map_append, rxRun_append, ← hrx, List.map_singleton, hbytes]
        cases receiver.pdcpRx with
        | none => rfl
        | some d =>
            show d.onRx (pdu.drop headerSize) = (d.onRx (pdu.drop headerSize)).bind some
            rw [Option.bind_fun_some]

/-- PDUs that have been sent are some of them, by their numbers. -/
theorem exists_drawn (pdus fed : List LegacyPdcp.SentPdu) (h : ∀ pdu ∈ fed, pdu ∈ pdus) :
    ∃ dels, drawn pdus dels = fed := by
  induction fed with
  | nil => exact ⟨[], rfl⟩
  | cons pdu fed ih =>
      obtain ⟨k, hk⟩ := List.mem_iff_getElem?.mp (h pdu (List.mem_cons_self ..))
      obtain ⟨dels, hdels⟩ := ih fun p hp => h p (List.mem_cons_of_mem _ hp)
      refine ⟨k :: dels, ?_⟩
      unfold drawn at hdels ⊢
      rw [List.filterMap_cons_some hk, hdels]

/-- The checksums of the two directions. -/
def SameCrc (cfg : Side → Setup) : Prop :=
  ∀ s, (cfg s).llcTx.crcType = (cfg s.other).llcRx.crcType

/-- What every run keeps. -/
structure Linked (lcid : UInt8) (cfg : Side → Setup) (p : Side → End) : Prop where
  sound : ∀ s, Sound lcid (cfg s) (p s)
  fed : ∀ s, Fed (cfg s.other).pdcpRx (p s) (p s.other)

theorem Linked.start (lcid : UInt8) (cfg : Side → Setup) :
    Linked lcid cfg fun s => End.start lcid (cfg s) where
  sound s := .start lcid (cfg s)
  fed _ := ⟨[], fun _ hmem => (List.not_mem_nil hmem).elim, rfl⟩

/-- An end reads the headers that the other one writes. -/
theorem Linked.fits {lcid : UInt8} {cfg : Side → Setup} (hcrc : SameCrc cfg) {p : Side → End}
    (h : Linked lcid cfg p) (s : Side) : Fits (3 + (p s).llc.txCrcSize) (p s.other).llc := by
  have htx := (h.sound s).setup.txCrcSize
  have hrx := (h.sound s.other).setup
  have hsame := hcrc s
  have htxSize : (Llc.start lcid (cfg s).llcTx (cfg s).llcRx true).txCrcSize =
      if (cfg s).llcTx.crcType = .crc32 then 4 else 0 := by
    show (if (cfg s).llcTx.crcType = .crc32 then 4 else
      if (cfg s).llcTx.crcType = .crc32 then 4 else 0) = _
    split_ifs <;> rfl
  have hrxSize : (Llc.start lcid (cfg s.other).llcTx (cfg s.other).llcRx true).rxCrcSize =
      if (cfg s.other).llcRx.crcType = .crc32 then 4 else 0 := rfl
  refine ⟨?_, fun hcrc32 => ?_⟩
  · rw [htx, hrx.rxCrcSize, htxSize, hrxSize, hsame]
  · rw [hrx.rxConfig] at hcrc32
    rw [hrx.rxCrcSize, hrxSize]
    exact if_pos hcrc32

theorem other_of_ne {s r : Side} (h : s ≠ r) : s.other = r := by
  cases s <;> cases r
  · exact absurd rfl h
  · rfl
  · rfl
  · exact absurd rfl h

/-- One side changes: its transmitter goes on, and its receiver has got what the other side
has written. -/
theorem Linked.update {lcid : UInt8} {cfg : Side → Setup} {p : Side → End}
    (h : Linked lcid cfg p) (r : Side) {e : End} (hsound : Sound lcid (cfg r) e)
    (hbehind : Behind (p r).pdcpTx e.pdcpTx) (hfed : Fed (cfg r).pdcpRx (p r.other) e) :
    Linked lcid cfg (Function.update p r e) := by
  refine ⟨fun s => ?_, fun s => ?_⟩
  · by_cases hs : s = r
    · subst hs
      rwa [Function.update_self]
    · rw [Function.update_of_ne hs]
      exact h.sound s
  · by_cases hs : s = r
    · subst hs
      rw [Function.update_self, Function.update_of_ne s.other_ne]
      exact (h.fed s).own hbehind
    · obtain rfl := other_of_ne hs
      rw [Function.update_of_ne hs, Function.update_self]
      rwa [Side.other_other] at hfed

theorem Linked.step {lcid : UInt8} {cfg : Side → Setup} (hcrc : SameCrc cfg) {p : Side → End}
    (h : Linked lcid cfg p) (e : PeerEvent Own) : Linked lcid cfg (ends.step p e) := by
  have hback : ∀ r, Fed (cfg r).pdcpRx (p r.other) (p r) := by
    intro r
    have hfed := h.fed r.other
    rwa [Side.other_other] at hfed
  cases e with
  | own r o =>
      refine h.update r ((h.sound r).own o) ((h.sound r).own_behind o) ?_
      obtain ⟨fed, hfed, hrx⟩ := hback r
      exact ⟨fed, hfed, (End.own_pdcpRx (p r) o).trans hrx⟩
  | deliver r k =>
      cases hk : (ends.sent (p r.other))[k]? with
      | none =>
          simp only [Protocol.step, hk]
          exact h
      | some pdu =>
          rw [Protocol.step_deliver ends hk]
          refine h.update r ((h.sound r).receive pdu) (.refl _) ?_
          have hfits := h.fits hcrc r.other
          rw [Side.other_other] at hfits
          exact (hback r).receive hfits ((h.sound r.other).air pdu (List.mem_of_getElem? hk))

theorem Linked.run {lcid : UInt8} {cfg : Side → Setup} (hcrc : SameCrc cfg)
    (es : List (PeerEvent Own)) :
    Linked lcid cfg (ends.run (fun s => End.start lcid (cfg s)) es) :=
  foldl_invariant (Linked lcid cfg) (fun _ e h => h.step hcrc e) es _ (.start lcid cfg)

/-- What the ends of a run say about the PDCP alone. -/
theorem Linked.network {lcid : UInt8} {cfg : Side → Setup} {p : Side → End}
    (h : Linked lcid cfg p) (s : Side) :
    ∃ ops dels, (∀ op ∈ ops, TxOpOk 32767 op) ∧ (p s).pdcpTx = txRun (cfg s).pdcpTx ops ∧
      (p s.other).pdcpRx = rxRun (PdcpRx.enabled (cfg s.other).pdcpRx)
        ((drawn (p s).pdcpTx.pdus dels).map SentPdu.bytes) := by
  obtain ⟨ops, hops, htx⟩ := (h.sound s).runs
  obtain ⟨fed, hfed, hrx⟩ := h.fed s
  obtain ⟨dels, rfl⟩ := exists_drawn _ fed hfed
  exact ⟨ops, dels, hops, htx, hrx⟩

/-- **The LLC is a network to the PDCP.**  In every run of the two ends of a channel, with
the same checksum at both ends of a direction, there are calls of the transmitting PDCP and
a choice of the PDUs that it has written, lost, doubled and in any order, such that these
calls lead to the one end and this choice to the receiving PDCP of the other end. -/
theorem link_refines (lcid : UInt8) {cfg : Side → Setup} (hcrc : SameCrc cfg)
    (es : List (PeerEvent Own)) (s : Side) :
    let p := ends.run (fun s => End.start lcid (cfg s)) es
    ∃ ops dels, (∀ op ∈ ops, TxOpOk 32767 op) ∧ (p s).pdcpTx = txRun (cfg s).pdcpTx ops ∧
      (p s.other).pdcpRx = rxRun (PdcpRx.enabled (cfg s.other).pdcpRx)
        ((drawn (p s).pdcpTx.pdus dels).map SentPdu.bytes) :=
  (Linked.run hcrc es).network s

/-- Both ends of a channel with retransmissions, checksums and sequence numbers. -/
def arqEnd : Setup where
  llcTx := { mode := .am, arqWindowSize := 4, maxRetxCount := 2, crcType := .crc32 }
  llcRx := { mode := .am, crcType := .crc32 }
  pdcpTx := { allowSegmentation := true, allowReordering := true, minCommitSize := 7 }
  pdcpRx := { allowSegmentation := true, allowReordering := true }

/-- Space for an LLC PDU in a frame. -/
def space (slotNumber : Nat) : Grant := ⟨slotNumber, true, false, List.replicate 40 0, 40, by decide⟩

theorem space_fits (slotNumber : Nat) : (space slotNumber).size ≤ llcMaxSize :=
  show 40 ≤ llcMaxSize by decide

/-- It is granted. -/
def grantAt (slotNumber : Nat) : Own := .grant (space slotNumber) (space_fits slotNumber)

/-- A packet is sent once and received twice. -/
def twice : List (PeerEvent Own) :=
  [.own .near (.submit [1, 2, 3] ⟨by decide, by decide⟩), .own .near (grantAt 0),
    .deliver .far 0, .deliver .far 0]

theorem link_refines_twice :
    let p := ends.run (fun _ => End.start 1 arqEnd) twice
    ∃ ops dels, (∀ op ∈ ops, TxOpOk 32767 op) ∧ (p .near).pdcpTx = txRun arqEnd.pdcpTx ops ∧
      (p .far).pdcpRx = rxRun (PdcpRx.enabled arqEnd.pdcpRx)
        ((drawn (p .near).pdcpTx.pdus dels).map SentPdu.bytes) :=
  @link_refines 1 (fun _ => arqEnd) (fun _ => rfl) twice .near

end Winject.Link
