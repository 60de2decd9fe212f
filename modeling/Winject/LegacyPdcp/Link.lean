import Winject.LegacyPdcp.Rx
import Winject.LegacyPdcp.Tx

/-!
# Feeding a receiver with the PDUs of a transmitter

A delivery is a list of indices of the PDUs that a transmitter has written
(`drawn`): any of them can be lost, repeated and reordered.  `rxRunAll` says
that a condition on the state and the sequence number holds before every
segment of a run.

`TxSent.rxRun_rule` is the induction over such a run: an invariant that every
sent piece preserves, in the states where the condition holds, is kept by the
run.

## Main results

* `rxLoopAll_encodeAll` — the condition along one PDU, segment by segment.
* `TxSent.rxRun_rule` — the invariant rule.
-/

namespace Winject.LegacyPdcp

open Winject.Frames
open Winject.Lib.Reassembly
open Winject.Lib.Segmentation
open Winject.Pdcp

/-! ## Conditions along a run -/

namespace PdcpRx

/-- The condition holds before every segment that the loop of `on_rx` gets
to. -/
def rxLoopAll (cond : PdcpRx → Nat → Bool) (d : PdcpRx) (bytes : List UInt8) : Bool :=
  if bytes.isEmpty then true else
  let segment := (view d.config.layout bytes).rescan
  if segment.getHeaderSize ≥ bytes.length || segment.getSize > bytes.length then true else
  let sn := if d.config.allowReordering then segment.getSn else 0
  let r := d.rxStep bytes
  cond d sn &&
    (if r.2.2 && decide (r.2.1.length < bytes.length) then
      rxLoopAll cond r.1 r.2.1
    else true)
termination_by bytes.length
decreasing_by
  rename_i h
  rw [Bool.and_eq_true, decide_eq_true_eq] at h
  exact h.2

/-- The same over the contents of the segments. -/
def rxSegsAll (cond : PdcpRx → Nat → Bool) (d : PdcpRx) : List Seg → Bool
  | [] => true
  | g :: gs =>
    cond d (if d.config.allowReordering then g.sn else 0) &&
      (if (d.rxSeg g).2 then (d.rxSeg g).1.rxSegsAll cond gs else true)

theorem rxLoopAll_encodeAll (cond : PdcpRx → Nat → Bool) (gs : List Seg) (d : PdcpRx)
    (h : ∀ g ∈ gs, g.Fits d.config.layout) :
    d.rxLoopAll cond (encodeAll d.config.layout gs) = d.rxSegsAll cond gs := by
  induction gs generalizing d with
  | nil => rw [rxLoopAll]; rfl
  | cons g gs ih =>
      have hg := h g (List.mem_cons_self ..)
      have hlen : (encode d.config.layout g).length = g.wireSize d.config.layout :=
        encode_length ..
      have hpos := headerSize_ge d.config.layout
      have hpay : 0 < g.payload.length := List.length_pos_iff.mpr hg.payload_ne
      have htotal : (encode d.config.layout g ++ encodeAll d.config.layout gs).length =
          g.wireSize d.config.layout + (encodeAll d.config.layout gs).length := by
        rw [List.length_append, hlen]
      have hwire : g.wireSize d.config.layout =
          d.config.layout.headerSize + g.payload.length := rfl
      have hne : (encode d.config.layout g ++
          encodeAll d.config.layout gs).isEmpty = false := by
        rw [List.isEmpty_eq_false_iff]
        intro hnil
        have := congrArg List.length hnil
        rw [htotal, List.length_nil] at this
        omega
      have hread := scan_encode d.config.layout g (encodeAll d.config.layout gs) hg
      have hsn : (if d.config.allowReordering = true then
          (scanned d.config.layout (encode d.config.layout g ++
            encodeAll d.config.layout gs)).getSn else 0) =
          if d.config.allowReordering = true then g.sn else 0 := by
        split
        · rename_i hre
          exact hread.sn hre
        · rfl
      have hcfg := (d.rxSeg_setup g).config
      have hrest := ih (d.rxSeg g).1
        (by rw [hcfg]; exact fun x hx => h x (List.mem_cons_of_mem _ hx))
      rw [hcfg] at hrest
      rw [encodeAll_cons, rxLoopAll, hne, rxStep_encode d g _ hg,
        rescan_view _ _ (by omega), rxSegsAll]
      simp only [Bool.false_eq_true, if_false, scanned_getHeaderSize, hread.size, hsn,
        htotal]
      rw [if_neg (by simp; omega)]
      cases hmore : (d.rxSeg g).2 with
      | false => rfl
      | true =>
          have hshort : decide ((encodeAll d.config.layout gs).length <
              g.wireSize d.config.layout + (encodeAll d.config.layout gs).length) = true :=
            decide_eq_true (by omega)
          simp only [if_true, Bool.true_and, hshort, hrest]

end PdcpRx

/-- The PDUs with the given indices. -/
def drawn (pdus : List SentPdu) (dels : List Nat) : List SentPdu :=
  dels.filterMap (fun k => pdus[k]?)

/-- The condition holds before every segment of a run. -/
def rxRunAll (cond : SentPdu → PdcpRx → Nat → Bool) (d : PdcpRx) :
    List SentPdu → Bool
  | [] => true
  | pdu :: pdus =>
    d.rxLoopAll (cond pdu) pdu.bytes &&
      (d.onRx pdu.bytes).all (fun d' => rxRunAll cond d' pdus)

/-- Both ends use sequence numbers and the same segmentation. -/
structure Paired (tcfg : TxConfig) (rcfg : RxConfig) : Prop where
  tx : tcfg.allowReordering = true
  rx : rcfg.allowReordering = true
  seg : rcfg.allowSegmentation = tcfg.allowSegmentation

theorem Paired.layout {tcfg : TxConfig} {rcfg : RxConfig} (h : Paired tcfg rcfg) :
    tcfg.layout = rcfg.layout := by
  unfold TxConfig.layout RxConfig.layout
  rw [h.tx, h.rx, h.seg]

/-- A sent piece reaches the loop body as a piece of the cutting of its packet.
Without the `OFFSET` field pieces are whole packets, so the offset the receiver
assumes is the right one. -/
theorem TxSent.rxSeg_piece {tcfg : TxConfig} {rcfg : RxConfig} {r : TxRun}
    {pss : List (List Piece)} {pos : Nat × Nat} (h : TxSent tcfg r pss pos)
    (hpair : Paired tcfg rcfg) {d : PdcpRx} (hcfg : d.config = rcfg) {p : Piece}
    (hp : p ∈ pss.flatten) (hi : p.frame < r.packets.length) :
    ∃ j, j < (h.sent.cut p.frame hi).count ∧
      p.offset = (h.sent.cut p.frame hi).offset j ∧
      p.len = (h.sent.cut p.frame hi).size j ∧
      d.rxSeg (segOf r.packets p) = d.rxSegment (p.frame % 65536)
        ((h.sent.cut p.frame hi).offset j) ((h.sent.cut p.frame hi).isLast j)
        ((h.sent.cut p.frame hi).piece j) := by
  obtain ⟨j, hj, hoff, hsize, hlast, hbytes⟩ := h.sent.piece hp hi
  refine ⟨j, hj, hoff, hsize, ?_⟩
  have hoffset : (if rcfg.allowSegmentation = true then p.offset else 0) =
      (h.sent.cut p.frame hi).offset j := by
    rw [← hoff]
    split
    · rfl
    · rename_i hns
      rw [Bool.not_eq_true, hpair.seg] at hns
      exact (h.whole hns p hp).symm
  show d.rxSegment (if d.config.allowReordering = true then p.frame % 65536 else 0)
    (if d.config.allowSegmentation = true then p.offset else 0)
    (p.isLast r.packets) ((p.bytes r.packets).map some) = _
  rw [hcfg, if_pos hpair.rx, hoffset, hlast, hbytes]

/-! ## The invariant rule -/

section Rule

variable {tcfg : TxConfig} {rcfg : RxConfig} {r : TxRun} {pss : List (List Piece)}
  {pos : Nat × Nat}

/-- What one sent piece has to preserve.  `Inv done d` may depend on the pieces
that have been processed. -/
def PieceStep (rcfg : RxConfig) (packets : List (List UInt8)) (pss : List (List Piece))
    (cond : List Piece → PdcpRx → Nat → Bool)
    (Inv : List Piece → PdcpRx → Prop) : Prop :=
  ∀ ps ∈ pss, ∀ p ∈ ps, ∀ (done : List Piece) (d : PdcpRx), d.config = rcfg →
    Inv done d → cond ps d (p.frame % 65536) = true →
    Inv (done ++ [p]) (d.rxSeg (segOf packets p)).1

/-- A sent piece never meets a radio link failure. -/
def PieceGoes (rcfg : RxConfig) (packets : List (List UInt8)) (pss : List (List Piece))
    (cond : List Piece → PdcpRx → Nat → Bool)
    (Inv : List Piece → PdcpRx → Prop) : Prop :=
  ∀ ps ∈ pss, ∀ p ∈ ps, ∀ (done : List Piece) (d : PdcpRx), d.config = rcfg →
    Inv done d → cond ps d (p.frame % 65536) = true →
    (d.rxSeg (segOf packets p)).2 = true

/-- The pieces of one PDU, up to a radio link failure. -/
theorem rxSegs_rule {packets : List (List UInt8)} {cond : List Piece → PdcpRx → Nat → Bool}
    {Inv : List Piece → PdcpRx → Prop} (hre : rcfg.allowReordering = true)
    (hstep : PieceStep rcfg packets pss cond Inv) {ps : List Piece} (hps : ps ∈ pss)
    (qs : List Piece) (hqs : ∀ p ∈ qs, p ∈ ps) (done : List Piece) (d : PdcpRx)
    (hcfg : d.config = rcfg) (h : Inv done d)
    (hcond : d.rxSegsAll (cond ps) (qs.map (segOf packets)) = true) :
    ∃ done', Inv done' (d.rxSegs (qs.map (segOf packets))) ∧ (∀ p ∈ done, p ∈ done') ∧
      (PieceGoes rcfg packets pss cond Inv → ∀ p ∈ qs, p ∈ done') := by
  induction qs generalizing done d with
  | nil => exact ⟨done, h, fun _ hp => hp, fun _ p hp => by cases hp⟩
  | cons q qs ih =>
      rw [List.map_cons, PdcpRx.rxSegsAll, Bool.and_eq_true, hcfg, if_pos hre] at hcond
      have hinv := hstep ps hps q (hqs q (List.mem_cons_self ..)) done d hcfg h hcond.1
      have hcfg' := (d.rxSeg_setup (segOf packets q)).config.trans hcfg
      rw [List.map_cons, PdcpRx.rxSegs]
      cases hmore : (d.rxSeg (segOf packets q)).2 with
      | true =>
          have hnext := hcond.2
          rw [hmore, if_pos rfl] at hnext
          rw [if_pos rfl]
          obtain ⟨done', hinv', hsub, hall⟩ := ih
            (fun p hp => hqs p (List.mem_cons_of_mem _ hp)) _ _ hcfg' hinv hnext
          refine ⟨done', hinv', fun p hp => hsub p (List.mem_append_left _ hp), ?_⟩
          intro hgoes p hp
          rcases List.mem_cons.mp hp with rfl | hp
          · exact hsub p (List.mem_append_right _ (List.mem_singleton.mpr rfl))
          · exact hall hgoes p hp
      | false =>
          rw [if_neg (by decide)]
          refine ⟨_, hinv, fun p hp => List.mem_append_left _ hp, ?_⟩
          intro hgoes
          have hgo := hgoes ps hps q (hqs q (List.mem_cons_self ..)) done d hcfg h hcond.1
          rw [hmore] at hgo
          cases hgo

/-- A property of the states between segments that holds at the start and is
kept by every sent piece, where the condition holds, holds after the run. -/
theorem TxSent.rxRun_rule (h : TxSent tcfg r pss pos) (hpair : Paired tcfg rcfg)
    {cond : SentPdu → PdcpRx → Nat → Bool} {Inv : List Piece → PdcpRx → Prop}
    (hstep : PieceStep rcfg r.packets pss
      (fun ps => cond (sentPdu tcfg r.packets ps)) Inv)
    (dels : List Nat) (done : List Piece) (d : PdcpRx) (hcfg : d.config = rcfg)
    (hen : d.isRxEnabled = true) (hinv : Inv done d)
    (hcond : rxRunAll cond d (drawn r.pdus dels) = true) :
    ∃ d' done', rxRun d ((drawn r.pdus dels).map SentPdu.bytes) = some d' ∧
      d'.config = rcfg ∧ Inv done' d' ∧ (∀ p ∈ done, p ∈ done') ∧
      (PieceGoes rcfg r.packets pss (fun ps => cond (sentPdu tcfg r.packets ps)) Inv →
        ∀ k ∈ dels, ∀ ps, pss[k]? = some ps → ∀ p ∈ ps, p ∈ done') := by
  induction dels generalizing done d with
  | nil => exact ⟨d, done, rfl, hcfg, hinv, fun _ hp => hp, fun _ k hk => by cases hk⟩
  | cons k dels ih =>
      unfold drawn at hcond ⊢
      have hget : r.pdus[k]? = (pss[k]?).map (sentPdu tcfg r.packets) := by
        rw [h.pdus, List.getElem?_map]
      cases hk : pss[k]? with
      | none =>
          rw [hk, Option.map_none] at hget
          rw [List.filterMap_cons_none hget] at hcond ⊢
          obtain ⟨d', done', hrun, hcfg', hinv', hsub, hall⟩ := ih done d hcfg hen hinv hcond
          refine ⟨d', done', hrun, hcfg', hinv', hsub, ?_⟩
          intro hgoes j hj ps hps
          rcases List.mem_cons.mp hj with rfl | hj
          · rw [hk] at hps
            cases hps
          · exact hall hgoes j hj ps hps
      | some ps =>
          have hps := List.mem_of_getElem? hk
          rw [hk, Option.map_some] at hget
          rw [List.filterMap_cons_some hget] at hcond ⊢
          rw [rxRunAll, Bool.and_eq_true] at hcond
          have hbounds := fun p (hp : p ∈ ps) =>
            h.sent.emits.mem_bounds (List.mem_flatten.mpr ⟨ps, hps, hp⟩)
          have hlayout : tcfg.layout = d.config.layout := by rw [hpair.layout, hcfg]
          have hfits : ∀ g ∈ ps.map (segOf r.packets), g.Fits d.config.layout := by
            rw [← hlayout]
            exact pduOf_fits h.sent.ok hbounds (h.length ps hps)
          have hcall := d.onRx_encodeAll (ps.map (segOf r.packets))
            (by simpa using h.nonempty ps hps) hen hfits
          have hloop := PdcpRx.rxLoopAll_encodeAll (cond (sentPdu tcfg r.packets ps))
            (ps.map (segOf r.packets)) d hfits
          have hbytes : (sentPdu tcfg r.packets ps).bytes =
              encodeAll d.config.layout (ps.map (segOf r.packets)) := by
            rw [← hlayout]
            rfl
          rw [hbytes, hloop, hcall, Option.all_some] at hcond
          obtain ⟨done₁, hinv₁, hsub₁, hall₁⟩ := rxSegs_rule hpair.rx hstep hps ps
            (fun _ hp => hp) done d hcfg hinv hcond.1
          have hs := d.rxSegs_setup (ps.map (segOf r.packets))
          obtain ⟨d', done', hrun, hcfg', hinv', hsub, hall⟩ := ih done₁ _
            (hs.config.trans hcfg) (hs.enabled.trans hen) hinv₁ hcond.2
          refine ⟨d', done', ?_, hcfg', hinv', fun p hp => hsub p (hsub₁ p hp), ?_⟩
          · rw [List.map_cons, rxRun, hbytes, hcall, Option.bind_some]
            exact hrun
          · intro hgoes j hj qs hqs
            rcases List.mem_cons.mp hj with rfl | hj
            · rw [hk] at hqs
              obtain rfl := Option.some.inj hqs
              exact fun p hp => hsub p (hall₁ hgoes p hp)
            · exact hall hgoes j hj qs hqs

end Rule

end Winject.LegacyPdcp
