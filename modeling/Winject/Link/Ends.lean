import Winject.LegacyLlc.Conveys
import Winject.LegacyLlc.Retained
import Winject.LegacyPdcp.Link
import Winject.Lib.Peers

/-!
# The two ends of a channel

An `End` is the first LLC of a channel with the first PDCP above it, in both directions.
Two of them are joined by a network that loses, delays, doubles and reorders PDUs.  The end
point above submits packets, the scheduler below grants space in a frame, and the PDUs that
an end writes into its grants are what the network may deliver to the other one.

`TxRun` is the transmitting PDCP with the packets it has taken and the PDUs it has written.
No function reads these two, nor `air`.

The runs do not stop at a fault of an LLC, which an acknowledged channel comes to without a
window or with one beyond its `sn_ring`: what comes behind it says nothing about the code.

## Main results

* `pdcpOnTx_writes` — what the LLC gets from the PDCP is a PDU of a run of the PDCP.
* `Sound.own`, `Sound.receive` — what an end keeps, whatever it receives.
-/

namespace Winject.Link

open Winject.Frames
open Winject.LegacyLlc
open Winject.LegacyPdcp
open Winject.Lib.Peers

/-! ## The model -/

/-- `PDCP::on_tx`, with the record. -/
def pdcpOnTx (r : TxRun) (info : LegacyPdcp.TxInfo) : TxRun × LegacyPdcp.TxInfo :=
  (r.step (.grant info.outPdu), (r.tx.onTx info).2)

/-- One end.  A call of `PDCP::on_rx` that does not return leaves no receiver. -/
structure End where
  llc : Llc
  pdcpTx : TxRun
  pdcpRx : Option PdcpRx
  air : List (List UInt8) := []

/-- What an end does by itself. -/
inductive Own where
  | submit (packet : List UInt8) (ok : Winject.Pdcp.FrameOk packet)
  | grant (grant : Grant) (fits : grant.size ≤ llcMaxSize)

namespace End

/-- `PDCP::to_tx` and `LLC::on_tx`. -/
def own (e : End) : Own → End
  | .submit packet _ => { e with pdcpTx := e.pdcpTx.step (.submit packet) }
  | .grant g _ =>
    let r := e.llc.onTx pdcpOnTx e.pdcpTx g.info
    { e with
      llc := r.owner
      pdcpTx := r.pdcp
      air := e.air ++ if r.rlf then [] else r.pdus }

/-- `LLC::on_rx`, which hands the payload of a data PDU to `PDCP::on_rx`. -/
def receive (e : End) (pdu : List UInt8) : End :=
  let r := e.llc.onRx ⟨pdu, pdu.length⟩
  { e with
    llc := r.llc
    pdcpRx :=
      match r.passed with
      | none => e.pdcpRx
      | some payload => e.pdcpRx.bind fun d => d.onRx payload }

end End

theorem End.own_pdcpRx (e : End) (o : Own) : (e.own o).pdcpRx = e.pdcpRx := by
  cases o <;> rfl

/-- The configuration of one end. -/
structure Setup where
  llcTx : LegacyLlc.TxConfig := {}
  llcRx : LegacyLlc.RxConfig := {}
  pdcpTx : LegacyPdcp.TxConfig := {}
  pdcpRx : LegacyPdcp.RxConfig := {}

/-- An end that has been constructed and enabled. -/
def End.start (lcid : UInt8) (cfg : Setup) : End where
  llc := Llc.start lcid cfg.llcTx cfg.llcRx true
  pdcpTx := txRun cfg.pdcpTx []
  pdcpRx := some (PdcpRx.enabled cfg.pdcpRx)

/-- Two ends. -/
def ends : Protocol End (List UInt8) Own where
  own := End.own
  receive := End.receive
  sent := End.air

/-! ## The PDCP -/

/-- An iteration adds to what is allocated, whatever that is. -/
theorem txStep_allocated (s : TxLoop) (n : Nat) :
    txStep { s with outAllocated := s.outAllocated + n } =
      ({ (txStep s).1 with outAllocated := (txStep s).1.outAllocated + n }, (txStep s).2) := by
  unfold txStep
  dsimp only
  split_ifs
  · rfl
  · unfold txWhole
    dsimp only
    cases s.tx.toTxQueue with
    | nil => rfl
    | cons pdu others =>
        dsimp only
        split_ifs
        · rfl
        · unfold TxLoop.advance
          rw [Nat.add_right_comm]
  · unfold txPart
    dsimp only
    cases s.tx.loadCurrent with
    | none => rfl
    | some tx =>
        unfold TxLoop.advance
        dsimp only
        rw [Nat.add_right_comm]

theorem txLoop_allocated (s : TxLoop) (n : Nat) :
    txLoop { s with outAllocated := s.outAllocated + n } =
      { txLoop s with outAllocated := (txLoop s).outAllocated + n } := by
  induction s using txLoop.induct with
  | case1 s hmore ih =>
      have hsame : (txStep { s with outAllocated := s.outAllocated + n }).2 = true := by
        rw [txStep_allocated]
        exact hmore
      rw [txLoop, dif_pos hsame, txStep_allocated, ih]
      conv => rhs; rw [txLoop, dif_pos hmore]
  | case2 s hstop =>
      have hsame : ¬ (txStep { s with outAllocated := s.outAllocated + n }).2 = true := by
        rw [txStep_allocated]
        exact hstop
      rw [txLoop, dif_neg hsame, txStep_allocated]
      conv => rhs; rw [txLoop, dif_neg hstop]

/-- What `on_tx` does depends on its grant only. -/
theorem onTx_allocated (t : PdcpTx) (info : LegacyPdcp.TxInfo) :
    (t.onTx info).1 = (t.onTx { outPdu := info.outPdu }).1 ∧
      (t.onTx info).2.outPdu = (t.onTx { outPdu := info.outPdu }).2.outPdu ∧
      (t.onTx info).2.outAllocated =
        (t.onTx { outPdu := info.outPdu }).2.outAllocated + info.outAllocated := by
  have hloop := txLoop_allocated ⟨t, [], info.outPdu, 0, 0⟩ info.outAllocated
  rw [show (⟨t, [], info.outPdu, 0, 0⟩ : TxLoop).outAllocated + info.outAllocated =
    info.outAllocated from Nat.zero_add _] at hloop
  unfold PdcpTx.onTx
  dsimp only
  split_ifs
  · exact ⟨rfl, rfl, (Nat.zero_add _).symm⟩
  · exact ⟨rfl, rfl, (Nat.zero_add _).symm⟩
  · exact ⟨rfl, rfl, (Nat.zero_add _).symm⟩
  · rw [hloop]
    exact ⟨rfl, rfl, rfl⟩

/-- The transmitter of the record is the one that `PDCP::on_tx` leaves. -/
theorem pdcpOnTx_tx (r : TxRun) (info : LegacyPdcp.TxInfo) :
    (pdcpOnTx r info).1.tx = (r.tx.onTx info).1 := (onTx_allocated r.tx info).1.symm

theorem pdcpOnTx_ok : PdcpOnTxOk pdcpOnTx where
  length r := LegacyLlc.pdcpOnTx_ok.length r.tx
  grows r := LegacyLlc.pdcpOnTx_ok.grows r.tx
  fits r := LegacyLlc.pdcpOnTx_ok.fits r.tx

/-- The second transmitter is the first behind some calls. -/
def Behind (r₀ r : TxRun) : Prop :=
  ∃ ops : List TxOp, (∀ op ∈ ops, TxOpOk 32767 op) ∧ r = ops.foldl TxRun.step r₀

/-- The payload is a PDU of the run. -/
def Written (r : TxRun) (payload : List UInt8) : Prop := ∃ pdu ∈ r.pdus, pdu.bytes = payload

theorem Behind.refl (r : TxRun) : Behind r r := ⟨[], fun _ hop => (List.not_mem_nil hop).elim, rfl⟩

theorem Behind.trans {r₀ r r' : TxRun} (h : Behind r₀ r) (h' : Behind r r') : Behind r₀ r' := by
  obtain ⟨ops, hops, rfl⟩ := h
  obtain ⟨ops', hops', rfl⟩ := h'
  refine ⟨ops ++ ops', fun op hop => ?_, (List.foldl_append ..).symm⟩
  rcases List.mem_append.mp hop with hold | hnew
  · exact hops op hold
  · exact hops' op hnew

theorem Behind.step (r : TxRun) {op : TxOp} (hop : TxOpOk 32767 op) : Behind r (r.step op) := by
  refine ⟨[op], fun o ho => ?_, rfl⟩
  rw [List.mem_singleton.mp ho]
  exact hop

/-- The PDUs stay. -/
theorem Behind.pdus {r₀ r : TxRun} (h : Behind r₀ r) : ∃ new, r.pdus = r₀.pdus ++ new := by
  obtain ⟨ops, -, rfl⟩ := h
  induction ops generalizing r₀ with
  | nil => exact ⟨[], (List.append_nil _).symm⟩
  | cons op ops ih =>
      obtain ⟨new, hnew⟩ := @ih (r₀.step op)
      have hone : ∃ first, (r₀.step op).pdus = r₀.pdus ++ first := by
        cases op with
        | submit packet => exact ⟨[], (List.append_nil _).symm⟩
        | grant buffer => exact ⟨_, rfl⟩
      obtain ⟨first, hfirst⟩ := hone
      refine ⟨first ++ new, ?_⟩
      rw [List.foldl_cons, hnew, hfirst, List.append_assoc]

/-- So do the packets. -/
theorem Behind.packets_le {r₀ r : TxRun} (h : Behind r₀ r) :
    r₀.packets.length ≤ r.packets.length := by
  obtain ⟨ops, -, rfl⟩ := h
  induction ops generalizing r₀ with
  | nil => exact le_refl _
  | cons op ops ih =>
      refine le_trans ?_ (@ih (r₀.step op))
      cases op with
      | submit packet =>
          show r₀.packets.length ≤ (if (r₀.tx.toTx packet).2.1 = true then
            r₀.packets ++ [packet] else r₀.packets).length
          split_ifs
          · rw [List.length_append]
            exact Nat.le_add_right _ _
          · exact le_refl _
      | grant buffer => exact le_refl _

theorem Behind.written {r₀ r : TxRun} (h : Behind r₀ r) {payload : List UInt8}
    (hp : Written r₀ payload) : Written r payload := by
  obtain ⟨pdu, hmem, hbytes⟩ := hp
  obtain ⟨new, hpdus⟩ := h.pdus
  refine ⟨pdu, ?_, hbytes⟩
  rw [hpdus]
  exact List.mem_append_left _ hmem

/-- **What the LLC gets from the PDCP** is a PDU of the run of the PDCP. -/
theorem pdcpOnTx_writes (r₀ : TxRun) : PdcpWrites pdcpOnTx (Behind r₀) Written where
  keeps r info hlen h := by
    have hop : TxOpOk 32767 (.grant info.outPdu) := hlen.trans (by decide)
    exact h.trans (.step r hop)
  grows r info payload h := by
    obtain ⟨pdu, hmem, hbytes⟩ := h
    exact ⟨pdu, List.mem_append_left _ hmem, hbytes⟩
  writes r info _ _ hne := by
    obtain ⟨-, hpdu, halloc⟩ := onTx_allocated r.tx info
    change info.outAllocated ≠ (r.tx.onTx info).2.outAllocated at hne
    rw [halloc] at hne
    have hsome : (r.tx.onTx { outPdu := info.outPdu }).2.pdu =
        some ((r.tx.onTx info).2.outPdu.take
          ((r.tx.onTx info).2.outAllocated - info.outAllocated)) := by
      unfold LegacyPdcp.TxInfo.pdu
      rw [if_neg (by omega), hpdu, halloc, Nat.add_sub_cancel]
    refine ⟨⟨r.packets.length - r.tx.pendingPackets, _⟩, ?_, rfl⟩
    show _ ∈ r.pdus ++ ((r.tx.onTx { outPdu := info.outPdu }).2.pdu.map _).toList
    rw [hsome]
    exact List.mem_append_right _ (List.mem_singleton.mpr rfl)

/-! ## What an end keeps -/

/-- A PDU of a channel, and what it carries. -/
def Carried (lcid : UInt8) (headerSize : Nat) (r : TxRun) (pdu : List UInt8) : Prop :=
  IsPdu lcid headerSize pdu ∧ (IsKind true 0 pdu ∨ Written r (pdu.drop headerSize))

/-- The transmitting half of an end. -/
structure Sound (lcid : UInt8) (cfg : Setup) (e : End) : Prop where
  setup : (Llc.start lcid cfg.llcTx cfg.llcRx true).SameSetup e.llc
  runs : Behind (txRun cfg.pdcpTx []) e.pdcpTx
  copies : e.llc.Keeps (Written e.pdcpTx)
  air : ∀ pdu ∈ e.air, Carried lcid (3 + e.llc.txCrcSize) e.pdcpTx pdu

theorem start_sized (lcid : UInt8) (cfg : Setup) :
    (Llc.start lcid cfg.llcTx cfg.llcRx true).Sized :=
  ⟨(Llc.Sized.new lcid cfg.llcTx cfg.llcRx).crc, (Llc.Sized.new lcid cfg.llcTx cfg.llcRx).crcSize⟩

namespace Sound

variable {lcid : UInt8} {cfg : Setup} {e : End}

theorem start (lcid : UInt8) (cfg : Setup) : Sound lcid cfg (.start lcid cfg) where
  setup := ⟨rfl, rfl, rfl, rfl, rfl, rfl, rfl, rfl⟩
  runs := .refl _
  copies := .start lcid cfg.llcTx cfg.llcRx true
  air := fun _ hmem => (List.not_mem_nil hmem).elim

theorem grow (h : Sound lcid cfg e) {llc : Llc} (hsetup : e.llc.SameSetup llc) {r : TxRun}
    (hruns : Behind e.pdcpTx r) (hkeeps : llc.Keeps (Written r)) {new : List (List UInt8)}
    (hnew : ∀ pdu ∈ new, Carried lcid (3 + e.llc.txCrcSize) r pdu) (d : Option PdcpRx) :
    Sound lcid cfg ⟨llc, r, d, e.air ++ new⟩ where
  setup := h.setup.trans hsetup
  runs := h.runs.trans hruns
  copies := hkeeps
  air pdu hmem := by
    show Carried lcid (3 + llc.txCrcSize) r pdu
    rw [hsetup.txCrcSize]
    rcases List.mem_append.mp hmem with hold | hnewer
    · obtain ⟨hpdu, hcarried⟩ := h.air pdu hold
      exact ⟨hpdu, hcarried.imp_right fun hp => hruns.written hp⟩
    · exact hnew pdu hnewer

/-- A call of the LLC, with what it does to the PDCP. -/
theorem grant_conveys (h : Sound lcid cfg e) (g : Grant) (fits : g.size ≤ llcMaxSize) :
    (e.llc.onTx pdcpOnTx e.pdcpTx g.info).Conveys (Behind e.pdcpTx) Written e.llc :=
  Llc.onTx_conveys pdcpOnTx_ok (pdcpOnTx_writes e.pdcpTx) ((start_sized lcid cfg).of_setup h.setup)
    (.refl _) h.copies g (fits.trans (by decide))

/-- The PDCP takes no packet in a call of the LLC. -/
theorem grant_packets (h : Sound lcid cfg e) (g : Grant) (fits : g.size ≤ llcMaxSize) :
    (e.own (.grant g fits)).pdcpTx.packets = e.pdcpTx.packets := by
  have hw : PdcpWrites pdcpOnTx (fun r => r.packets = e.pdcpTx.packets) fun _ _ => True :=
    ⟨fun _ _ _ hr => hr, fun _ _ _ _ => trivial, fun _ _ _ _ _ => trivial⟩
  exact (Llc.onTx_conveys pdcpOnTx_ok hw ((start_sized lcid cfg).of_setup h.setup) rfl
    ⟨fun _ _ => trivial, fun _ _ => trivial⟩ g (fits.trans (by decide))).pdcp

theorem own (h : Sound lcid cfg e) (o : Own) : Sound lcid cfg (e.own o) := by
  cases o with
  | submit packet ok =>
      have hstep : Behind e.pdcpTx (e.pdcpTx.step (.submit packet)) := .step _ ok
      have hgrown := h.grow ⟨rfl, rfl, rfl, rfl, rfl, rfl, rfl, rfl⟩ hstep
        (h.copies.mono fun b hb => hstep.written hb)
        (fun _ hmem => (List.not_mem_nil hmem).elim) e.pdcpRx
      rwa [List.append_nil] at hgrown
  | grant g fits =>
      have hlaid := e.llc.onTx_laidOut pdcpOnTx_ok e.pdcpTx g.info rfl g.fits
        (fits.trans (by decide))
      have hconveys := h.grant_conveys g fits
      refine h.grow (e.llc.onTx_setup pdcpOnTx e.pdcpTx g.info) hconveys.pdcp hconveys.copies
        (fun pdu hmem => ?_) e.pdcpRx
      split_ifs at hmem
      · cases hmem
      · have hpdu := hlaid.pdus pdu hmem
        rw [h.setup.lcid] at hpdu
        exact ⟨hpdu, hconveys.pdus pdu hmem⟩

/-- The transmitting PDCP goes on. -/
theorem own_behind (h : Sound lcid cfg e) (o : Own) : Behind e.pdcpTx (e.own o).pdcpTx := by
  cases o with
  | submit packet ok => exact @Behind.step e.pdcpTx (.submit packet) ok
  | grant g fits => exact (h.grant_conveys g fits).pdcp

theorem receive (h : Sound lcid cfg e) (pdu : List UInt8) : Sound lcid cfg (e.receive pdu) := by
  have hgrown := h.grow (e.llc.onRx_sameSetup ⟨pdu, pdu.length⟩) (.refl _)
    (h.copies.onRx ⟨pdu, pdu.length⟩) (fun _ hmem => (List.not_mem_nil hmem).elim) (e.receive pdu).pdcpRx
  rwa [List.append_nil] at hgrown

end Sound

end Winject.Link
