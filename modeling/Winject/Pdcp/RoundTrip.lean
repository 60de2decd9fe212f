import Winject.Pdcp.InOrder

/-!
# From uplink to downlink, in order

`linkRun` feeds every PDU that an uplink writes to a downlink, once and in
order.  `RoundTrip` says that all calls succeed, that the completed frames are
a prefix of the pushed ones, and that they are all of them when the uplink has
nothing outstanding.

For a pair with the same layout and a ring of at least 512 slots this holds
for every run unless the sequence number wraps inside a PDU at a place where
two frames of the PDU share a slot: the part of a frame that waits in the
overflow deque is then cut off from the part that arrives with the next PDU.
This module proves the first half; the failing runs are the subject of
`Winject.Pdcp.WrapSplit`.

## Main results

* `Follows.feed` — a receiver invariant that survives each PDU survives a run.
* `roundTrip_of_good` — the round trip for every other configuration.
-/

namespace Winject.Pdcp

open Winject.Frames
open Winject.Lib.Bytes
open Winject.Lib.Reassembly
open Winject.Lib.Segmentation

/-! ## The link -/

/-- A run of uplink calls in which every written PDU is given to the downlink
at once; the flags are what `on_pdcp_data` returned. -/
def linkRun (u : PdcpUl) (d : PdcpDl) :
    List UlOp → Option (PdcpUl × PdcpDl × List Bool)
  | [] => some (u, d, [])
  | op :: ops =>
    match (ulStep u op).2 with
    | none => linkRun (ulStep u op).1 d ops
    | some pdu =>
      (d.onPdcpData pdu).bind fun r =>
        (linkRun (ulStep u op).1 r.1 ops).map fun t => (t.1, t.2.1, r.2 :: t.2.2)

/-- Giving a list of PDUs to the downlink. -/
def dlFeed (d : PdcpDl) : List (List UInt8) → Option (PdcpDl × List Bool)
  | [] => some (d, [])
  | pdu :: pdus =>
    (d.onPdcpData pdu).bind fun r =>
      (dlFeed r.1 pdus).map fun t => (t.1, r.2 :: t.2)

/-- The uplink does not see the downlink. -/
theorem linkRun_eq (ops : List UlOp) (u : PdcpUl) (d : PdcpDl) :
    linkRun u d ops =
      (dlFeed d (ulRun u ops).2).map fun t => ((ulRun u ops).1, t.1, t.2) := by
  induction ops generalizing u d with
  | nil => rfl
  | cons op ops ih =>
      unfold linkRun ulRun
      cases hpdu : (ulStep u op).2 with
      | none =>
          simp only [hpdu, ih, Option.toList_none, List.nil_append]
      | some pdu =>
          simp only [hpdu, ih, Option.toList_some, List.singleton_append, dlFeed]
          cases d.onPdcpData pdu with
          | none => rfl
          | some r =>
              simp only [Option.bind_some, Option.map_map]
              rfl

theorem dlFeed_append (d : PdcpDl) (a b : List (List UInt8)) :
    dlFeed d (a ++ b) =
      (dlFeed d a).bind fun r => (dlFeed r.1 b).map fun t => (t.1, r.2 ++ t.2) := by
  induction a generalizing d with
  | nil =>
      rw [List.nil_append, dlFeed, Option.bind_some]
      cases dlFeed d b with
      | none => rfl
      | some t => rfl
  | cons pdu a ih =>
      simp only [List.cons_append, dlFeed]
      cases d.onPdcpData pdu with
      | none => rfl
      | some r =>
          simp only [Option.bind_some, ih]
          cases dlFeed r.1 a with
          | none => rfl
          | some t =>
              simp only [Option.bind_some, Option.map_some, Option.map_map]
              rfl

/-! ## Following the stream -/

variable {frames : List (List UInt8)} {ps : List Piece} {pos : Nat × Nat}

/-- `S done pos' d` holds of a receiver that has processed the pieces `done`
up to position `pos'`, and is kept by the next PDU. -/
structure Follows (w : Sent frames ps pos) (l : Layout)
    (S : List Piece → Nat × Nat → PdcpDl → Prop) : Prop where
  out : ∀ done pos' d, S done pos' d →
    d.completedFrames = (frames.take pos'.1).map (·.map some)
  pdu : ∀ (done qs rest : List Piece) (posA posB : Nat × Nat) (d : PdcpDl),
    S done posA d → Emits frames (0, 0) done posA → Emits frames posA qs posB →
    Emits frames posB rest pos → ps = done ++ qs ++ rest → qs ≠ [] →
    (pduOf l frames qs).length ≤ 2047 →
    ∃ d', d.onPdcpData (pduOf l frames qs) = some (d', true) ∧
      S (done ++ qs) posB d'

/-- Feeding the rest of the stream, PDU by PDU. -/
theorem Follows.feed {w : Sent frames ps pos} {l : Layout}
    {S : List Piece → Nat × Nat → PdcpDl → Prop} (hS : Follows w l S)
    (pss : List (List Piece)) (hlen : ∀ qs ∈ pss, (pduOf l frames qs).length ≤ 2047)
    (hne : ∀ qs ∈ pss, qs ≠ []) (done : List Piece) (posA : Nat × Nat) (d : PdcpDl)
    (hdone : Emits frames (0, 0) done posA)
    (hrest : Emits frames posA pss.flatten pos) (hps : ps = done ++ pss.flatten)
    (h : S done posA d) :
    ∃ d', dlFeed d (pss.map (pduOf l frames)) = some (d', pss.map fun _ => true) ∧
      S ps pos d' := by
  induction pss generalizing done posA d with
  | nil =>
      rw [List.flatten_nil] at hrest
      rw [List.flatten_nil, List.append_nil] at hps
      obtain rfl := hrest.eq_of_nil rfl
      subst hps
      exact ⟨d, rfl, h⟩
  | cons qs pss ih =>
      rw [List.flatten_cons] at hrest hps
      obtain ⟨posB, hqs, hlater⟩ := hrest.split qs pss.flatten rfl
      obtain ⟨d₁, hcall, hS₁⟩ := hS.pdu done qs pss.flatten posA posB d h hdone hqs
        hlater (by rw [hps, List.append_assoc]) (hne qs (List.mem_cons_self ..))
        (hlen qs (List.mem_cons_self ..))
      obtain ⟨d', hfeed, hS'⟩ := ih (fun q hq => hlen q (List.mem_cons_of_mem _ hq))
        (fun q hq => hne q (List.mem_cons_of_mem _ hq)) (done ++ qs) posB d₁
        (hdone.append hqs) hlater (by rw [hps, List.append_assoc]) hS₁
      refine ⟨d', ?_, hS'⟩
      rw [List.map_cons, dlFeed, hcall, Option.bind_some, hfeed]
      rfl

/-- The pieces of a PDU are pieces of the stream. -/
private theorem pdu_mem {done qs rest : List Piece} (hps : ps = done ++ qs ++ rest) :
    ∀ p ∈ qs, p ∈ ps := by
  intro p hp
  rw [hps]
  exact List.mem_append_left _ (List.mem_append_right _ hp)

/-- A PDU is processed segment by segment and then flushed. -/
theorem onPdcpData_pieces (w : Sent frames ps pos) {d : PdcpDl}
    (hre : d.config.allowReordering = true) {qs : List Piece} (hmem : ∀ p ∈ qs, p ∈ ps)
    (hne : qs ≠ []) (hlen : (pduOf d.config.layout frames qs).length ≤ 2047) :
    d.onPdcpData (pduOf d.config.layout frames qs) =
      some (((qs.map (segOf frames)).foldl PdcpDl.rxSeg d).flushCompletedInOrder,
        true) := by
  have hfits := pduOf_fits w.ok (fun p hp => w.emits.mem_bounds (hmem p hp))
    (Nat.le_trans hlen (by decide))
  have hcall := d.onPdcpData_encodeAll (qs.map (segOf frames)) (by simpa using hne) hfits
  rw [if_pos hre] at hcall
  exact hcall

/-- With reordering on, a receiver whose steps split no frame follows. -/
theorem follows_exact {w : Sent frames ps pos} {dcfg : PdcpDlConfig}
    {I : PdcpDl → Prop} {limit : Nat} (hlimit : limit ≤ 65534)
    (hbytes : 2047 ≤ (dcfg.layout.headerSize + 1) * (limit + 1) - 1)
    (hI : ∀ n qs, (∀ p ∈ qs, p ∈ ps) → Exact.StepSafe w n limit I qs)
    (hflush : ∀ e e' : PdcpDl, I e → e.flushStep = some e' → I e')
    (hwhole : dcfg.allowSegmentation = false → ∀ p ∈ ps, p.offset = 0) :
    Follows w dcfg.layout (fun done pos' d =>
      d.config = dcfg ∧ Exact w pos'.1 (recvOf w done) d ∧ I d) where
  out := fun _ _ _ h => h.2.1.out
  pdu := by
    rintro done qs rest posA posB d ⟨hcfg, hexact, hId⟩ hdone hqs hrest hps hne hlen
    have hmem := pdu_mem hps
    have hbounds := fun p hp => w.emits.mem_bounds (hmem p hp)
    have hcount : qs.length ≤ limit := by
      have hge := pduOf_length_ge (l := dcfg.layout) (fun p hp => (hbounds p hp).2)
      by_contra hgt
      have : (dcfg.layout.headerSize + 1) * (limit + 1) ≤
          (dcfg.layout.headerSize + 1) * qs.length :=
        Nat.mul_le_mul_left _ (by omega)
      omega
    obtain ⟨hexact', hI'⟩ := hexact.pdu hlimit (hI posA.1 qs hmem) hflush hdone hqs hrest
      hps rfl (by rw [hcfg]; exact hwhole) hcount hId
    refine ⟨_, ?_, ?_, hexact', hI'⟩
    · have hcall := onPdcpData_pieces w hexact.reord hmem hne (by rw [hcfg]; exact hlen)
      rw [hcfg] at hcall
      exact hcall
    · rw [PdcpDl.flush_config, PdcpDl.foldl_rxSeg_config, hcfg]

/-- With reordering off, a receiver follows. -/
theorem follows_plain {w : Sent frames ps pos} {dcfg : PdcpDlConfig}
    (hwhole : dcfg.allowSegmentation = false → ∀ p ∈ ps, p.offset = 0) :
    Follows w dcfg.layout (fun done pos' d => d.config = dcfg ∧ Plain w done pos' d) where
  out := fun _ _ _ h => h.2.out
  pdu := by
    rintro done qs rest posA posB d ⟨hcfg, hplain⟩ hdone hqs hrest hps hne hlen
    have hbounds := fun p hp => w.emits.mem_bounds (pdu_mem hps p hp)
    have hfits := pduOf_fits (l := dcfg.layout) w.ok hbounds (by omega)
    refine ⟨_, ?_, ?_, Plain.foldl_rxSeg hdone hqs hrest hps
      (by rw [hcfg]; exact hwhole) hplain⟩
    · have hcall := d.onPdcpData_encodeAll (qs.map (segOf frames)) (by simpa using hne)
        (by rw [hcfg]; exact hfits)
      rw [hplain.reord, hcfg] at hcall
      exact hcall
    · rw [PdcpDl.foldl_rxSeg_config, hcfg]

/-! ## The round trip -/

/-- Every call succeeds, the completed frames are a prefix of the pushed ones,
and all of them when nothing is outstanding; for every run. -/
def RoundTrip (ucfg : PdcpUlConfig) (dcfg : PdcpDlConfig) : Prop :=
  ∀ uops : List UlOp, (∀ op ∈ uops, OpOk 2047 op) →
    ∃ u d oks, linkRun { config := ucfg } (PdcpDl.init dcfg) uops = some (u, d, oks) ∧
      (∀ ok ∈ oks, ok = true) ∧
      d.completedFrames <+: (pushedFrames uops).map (·.map some) ∧
      (u.getOutstandingBytes = 0 →
        d.completedFrames = (pushedFrames uops).map (·.map some))

/-- A receiver that follows the stream from the start makes the round trip. -/
theorem roundTrip_of_follows {ucfg : PdcpUlConfig} {dcfg : PdcpDlConfig}
    (hfollow : ∀ (frames : List (List UInt8)) (ps : List Piece) (pos : Nat × Nat)
      (w : Sent frames ps pos),
      (ucfg.allowSegmentation = false → ∀ p ∈ ps, p.offset = 0) →
      ∃ S, Follows w ucfg.layout S ∧ S [] (0, 0) (PdcpDl.init dcfg)) :
    RoundTrip ucfg dcfg := by
  intro uops huops
  obtain ⟨pss, pos, hul⟩ := ulRun_emits (show 2047 ≤ 32767 by decide) uops huops []
    (by simp) _ _ (UlAt.init ucfg)
  rw [List.nil_append] at hul
  have w : Sent (pushedFrames uops) pss.flatten pos :=
    ⟨hul.emits, pushedFrames_ok uops huops⟩
  obtain ⟨S, hS, hinit⟩ := hfollow _ _ _ w (fun hseg p hp => (hul.whole hseg p hp).1)
  obtain ⟨d, hfeed, hSd⟩ := hS.feed pss hul.length hul.nonempty [] (0, 0) _ .nil
    hul.emits rfl hinit
  have hout := hS.out _ _ _ hSd
  refine ⟨(ulRun { config := ucfg } uops).1, d, pss.map fun _ => true, ?_, ?_, ?_, ?_⟩
  · rw [linkRun_eq, hul.pdus, hfeed]
    rfl
  · intro ok hok
    obtain ⟨_, _, rfl⟩ := List.mem_map.mp hok
    rfl
  · rw [hout]
    exact (List.take_prefix _ _).map _
  · intro hzero
    have hpos := hul.state.drained w.ok hzero
    rw [hout, hpos, List.take_length]

theorem recvOf_nil (w : Sent frames ps pos) (i : Nat) : recvOf w [] i = ∅ := by
  by_contra hne
  obtain ⟨p, hp, _⟩ := recvOf_nonempty hne
  cases hp

/-- A fresh receiver, with reordering on. -/
theorem Exact.init (w : Sent frames ps pos) {dcfg : PdcpDlConfig}
    (hre : dcfg.allowReordering = true) :
    Exact w 0 (recvOf w []) (PdcpDl.init dcfg) where
  reord := hre
  ring := by
    intro idx slot hget hvalid
    obtain rfl := (List.mem_replicate.mp (List.mem_of_getElem? hget)).2
    cases hvalid
  overflow := by intro e he; cases he
  nodup := List.nodup_nil
  alone := by intro e he; cases he
  present := fun i _ hne => absurd (recvOf_nil w i) hne
  next := rfl
  out := rfl

/-- A fresh receiver, with reordering off. -/
theorem Plain.init (w : Sent frames ps pos) {dcfg : PdcpDlConfig}
    (hre : dcfg.allowReordering = false) (hR : 512 ≤ dcfg.reorderSize) :
    Plain w [] (0, 0) (PdcpDl.init dcfg) where
  reord := hre
  slot := by
    refine ⟨{}, ?_, (by intro hv; cases hv), ?_⟩
    · show (List.replicate dcfg.reorderSize ({} : Slot))[0]? = some ({} : Slot)
      rw [List.getElem?_replicate, if_pos (by omega)]
    · intro hlt
      dsimp only
      rw [recvOf_nil]
      exact HoldsFrame.empty w hlt
  out := rfl

/-- An uplink that never commits writes nothing. -/
private theorem roundTrip_of_no_commit {ucfg : PdcpUlConfig} {dcfg : PdcpDlConfig}
    (hcommit : 2047 < ucfg.minCommitSize) : RoundTrip ucfg dcfg := by
  intro uops huops
  obtain ⟨pss, pos, hul⟩ := ulRun_emits (show 2047 ≤ 32767 by decide) uops huops []
    (by simp) _ _ (UlAt.init ucfg)
  rw [List.nil_append] at hul
  have hnil : pss = [] := by
    by_contra hne
    have := hul.commit hne
    omega
  subst hnil
  refine ⟨(ulRun { config := ucfg } uops).1, PdcpDl.init dcfg, [], ?_, by simp, ?_, ?_⟩
  · rw [linkRun_eq, hul.pdus]
    rfl
  · exact List.nil_prefix
  · intro hzero
    have hpos := hul.state.drained (pushedFrames_ok uops huops) hzero
    have hstart := hul.emits.eq_of_nil rfl
    rw [← hstart] at hpos
    have hlen : (pushedFrames uops).length = 0 := (congrArg Prod.fst hpos).symm
    rw [List.length_eq_zero_iff.mp hlen]
    rfl

/-- The configurations in which no two frames of a PDU can share a slot while
one of them is left unfinished. -/
def GoodConfig (ucfg : PdcpUlConfig) (dcfg : PdcpDlConfig) : Prop :=
  ucfg.allowSegmentation = false ∨ ucfg.allowReordering = false ∨
    2047 < ucfg.minCommitSize ∨ 65536 % dcfg.reorderSize = 0 ∨
    292 ≤ 65536 % dcfg.reorderSize

theorem roundTrip_of_good {ucfg : PdcpUlConfig} {dcfg : PdcpDlConfig}
    (hseg : dcfg.allowSegmentation = ucfg.allowSegmentation)
    (hre : dcfg.allowReordering = ucfg.allowReordering)
    (hR : 512 ≤ dcfg.reorderSize) (hgood : GoodConfig ucfg dcfg) :
    RoundTrip ucfg dcfg := by
  have hlayout : ucfg.layout = dcfg.layout := by
    unfold PdcpUlConfig.layout PdcpDlConfig.layout
    rw [hseg, hre]
  by_cases hcommit : 2047 < ucfg.minCommitSize
  · exact roundTrip_of_no_commit hcommit
  apply roundTrip_of_follows
  intro frames ps pos w hwhole
  rw [hlayout]
  have hwhole' : dcfg.allowSegmentation = false → ∀ p ∈ ps, p.offset = 0 := by
    rw [hseg]
    exact hwhole
  cases hreord : dcfg.allowReordering with
  | false =>
      exact ⟨_, follows_plain hwhole', rfl, Plain.init w hreord hR⟩
  | true =>
      cases hsegm : dcfg.allowSegmentation with
      | false =>
          have hsafe : ∀ n qs, (∀ p ∈ qs, p ∈ ps) →
              Exact.StepSafe w n 409 (fun _ => True) qs :=
            fun _ _ hqs => Exact.stepSafe_whole (by decide)
              (fun p hp => hwhole' hsegm p (hqs p hp)) (fun _ _ _ _ _ => trivial)
          refine ⟨_, follows_exact (by decide) ?_ hsafe (fun _ _ _ _ => trivial) hwhole',
            rfl, Exact.init w hreord, trivial⟩
          rw [PdcpDlConfig.layout, hreord, hsegm]
          decide
      | true =>
          have hq : 65536 % dcfg.reorderSize = 0 ∨ 292 ≤ 65536 % dcfg.reorderSize := by
            rcases hgood with h | h | h | h
            · rw [← hseg, hsegm] at h; cases h
            · rw [← hre, hreord] at h; cases h
            · exact absurd h hcommit
            · exact h
          have hsafe : ∀ n qs, (∀ p ∈ qs, p ∈ ps) →
              Exact.StepSafe w n 292 (RingOnly dcfg.reorderSize) qs :=
            fun _ _ _ => Exact.stepSafe_ring hR
              (fun _ _ _ _ hik hk => slot_ne hR hq hik hk)
          refine ⟨_, follows_exact (by decide) ?_ hsafe RingOnly.flushStep hwhole', rfl,
            Exact.init w hreord, List.length_replicate, rfl⟩
          rw [PdcpDlConfig.layout, hreord, hsegm]
          decide

end Winject.Pdcp
