import Winject.Link.Delivery
import Winject.Node.Configured

/-!
# Two nodes over channel 0

What a node sends is given to the PDCP of channel 0, goes through the LLC below it into the
frames, and is read from the PDCP of the other node.  A `Station` is a node with these
layers; what the air carries from one station to the other are the LLC PDUs of channel 0.

Channel 0 is set up like the others, but without an end point: then no `LCRRC` touches it,
and it stays as `run_rrc_rx` has enabled it.

## Main results

* `Below.moves` — an event of the stations is a step of one node, or happens below the nodes.
* `Relates.step` — a packet that a node reads is one that the other node has sent.
* `stations_refine` — every run of two stations is a run of two nodes.
* `stations_configured` — what an active end of a channel is configured with.
-/

namespace Winject.Node

open Winject.ChannelRrc
open Winject.LegacyLlc
open Winject.LegacyPdcp
open Winject.Lib.Peers
open Winject.Link (Behind End Setup SameCrc)

/-! ## The model -/

/-- What channel 0 is set up with, if it has no end point. -/
def Config.base (cfg : Config) : Option Setup :=
  match cfg.llcTxConfigs 0, cfg.pdcpConfigs 0 with
  | some llcTx, some pdcpTx =>
    if cfg.hasEp 0 then none
    else some { llcTx := llcTx, llcRx := cfg.llcRx 0 llcTx, pdcpTx := pdcpTx, pdcpRx := pdcpRx pdcpTx }
  | _, _ => none

/-- A node with channel 0.  `read` counts what `to_rx` has taken from the queue. -/
structure Station where
  node : AppRrc
  link : End
  read : Nat := 0

/-- What a station does by itself: a step of a thread of the node other than `run_rrc_rx`, a
packet for that thread, and a grant of the scheduler. -/
inductive StationStep where
  | node (s : Step)
  | toRx
  | grant (grant : Grant) (fits : grant.size ≤ llcMaxSize)

namespace Station

/-- `AppRRC` as it is constructed. -/
def setup (cfg : Config) (base : Setup) : Station where
  node := .setup cfg
  link := .start 0 base

/-- `PDCP::to_tx`, for one packet after the other. -/
def submit (link : End) (packets : List (List UInt8)) : End :=
  { link with pdcpTx := packets.foldl (fun r packet => r.step (.submit packet)) link.pdcpTx }

/-- A step of the node, with what it sends. -/
def onNode (st : Station) (s : Step) : Station :=
  let node := st.node.step s
  { st with node := node, link := submit st.link (node.sent.drop st.node.sent.length) }

/-- One step. -/
def own (st : Station) : StationStep → Station
  | .node s => if s.isRrcRx then st else st.onNode s
  | .toRx =>
    match st.link.toRx st.read with
    | none => st
    | some packet => { st.onNode (.rrcRx packet.bytes) with read := st.read + 1 }
  | .grant g fits => { st with link := st.link.own (.grant g fits) }

/-- `AppRRC::process_rx_frame`, for a PDU of channel 0. -/
def receive (st : Station) (pdu : List UInt8) : Station := { st with link := st.link.receive pdu }

end Station

/-- Two stations. -/
def stations : Protocol Station (List UInt8) StationStep where
  own := Station.own
  receive := Station.receive
  sent st := st.link.air

/-! ## The layers below -/

/-- What a node sends are packets of messages. -/
theorem AppRrc.step_sent (a : AppRrc) (s : Step) :
    ∃ ms : List ChannelRrc.Rrc, (a.step s).sent = a.sent ++ ms.map packet := by
  have hsent := (a.step_same s).sent
  cases hcall : a.dispatch s with
  | none =>
      rw [hcall] at hsent
      exact ⟨[], hsent.trans (List.append_nil _).symm⟩
  | some call =>
      obtain ⟨lcid, e⟩ := call
      rw [hcall] at hsent
      dsimp only at hsent
      rw [hsent, a.onChannel_sent]
      cases a.channel lcid with
      | none => exact ⟨[], rfl⟩
      | some c => exact ⟨_, rfl⟩

theorem packet_ok (m : ChannelRrc.Rrc) : Winject.Pdcp.FrameOk (packet m) :=
  ⟨packet_ne_nil m, (toRrc m).bytes_length_le.trans (by decide)⟩

/-- What `to_tx` takes is what it is given. -/
theorem submit_packets (r : TxRun) (packets : List (List UInt8)) :
    ∀ b ∈ (packets.foldl (fun r packet => r.step (.submit packet)) r).packets,
      b ∈ r.packets ∨ b ∈ packets := by
  induction packets generalizing r with
  | nil => exact fun b hb => Or.inl hb
  | cons packet packets ih =>
      intro b hb
      rcases ih (r.step (.submit packet)) b hb with hold | hnew
      · change b ∈ (if (r.tx.toTx packet).2.1 = true then r.packets ++ [packet] else r.packets) at hold
        split_ifs at hold
        · rcases List.mem_append.mp hold with hbefore | hone
          · exact Or.inl hbefore
          · exact Or.inr (List.mem_singleton.mp hone ▸ List.mem_cons_self ..)
        · exact Or.inl hold
      · exact Or.inr (List.mem_cons_of_mem _ hnew)

theorem submit_behind (r : TxRun) {packets : List (List UInt8)}
    (h : ∀ b ∈ packets, Winject.Pdcp.FrameOk b) :
    Behind r (packets.foldl (fun r packet => r.step (.submit packet)) r) := by
  refine ⟨packets.map .submit, fun op hop => ?_, List.foldl_map.symm⟩
  obtain ⟨b, hb, rfl⟩ := List.mem_map.mp hop
  exact h b hb

theorem submit_sound {lcid : UInt8} {cfg : Setup} {link : End} (hlink : Link.Sound lcid cfg link)
    {packets : List (List UInt8)} (h : ∀ b ∈ packets, Winject.Pdcp.FrameOk b) :
    Link.Sound lcid cfg (Station.submit link packets) := by
  have hstep := submit_behind link.pdcpTx h
  have hgrown := hlink.grow ⟨rfl, rfl, rfl, rfl, rfl, rfl, rfl, rfl⟩ hstep
    (hlink.copies.mono fun b hb => hstep.written hb)
    (fun _ hmem => (List.not_mem_nil hmem).elim) link.pdcpRx
  rwa [List.append_nil] at hgrown

/-! ## Two stations -/

/-- Channel 0 of both stations is in order. -/
def Below (base : Side → Setup) (p : Side → Station) : Prop :=
  Link.Linked 0 base fun s => (p s).link

/-- One station goes on. -/
theorem link_update (p : Side → Station) (r : Side) (st : Station) :
    (fun s => (Function.update p r st s).link) =
      Function.update (fun s => (p s).link) r st.link :=
  Function.comp_update Station.link p r st

/-- What an event of the stations is: a step of a node, with what it sends, or something
that happens below the nodes. -/
inductive Moves (base : Side → Setup) (p p' : Side → Station) : Prop
  | stays (eq : p' = p)
  | node (r : Side) (s : Step) (read : Nat)
      (eq : p' = Function.update p r { (p r).onNode s with read := read })
      (cause : s.isRrcRx = false ∨ ∃ q, (p r).link.toRx (p r).read = some q ∧ s = .rrcRx q.bytes)
  | below (r : Side) (link : End)
      (eq : p' = Function.update p r { p r with link := link })
      (linked : Link.Linked 0 base (Function.update (fun s => (p s).link) r link))
      (behind : Behind (p r).link.pdcpTx link.pdcpTx)
      (packets : link.pdcpTx.packets = (p r).link.pdcpTx.packets)

theorem Below.moves {base : Side → Setup} (hcrc : SameCrc base) {p : Side → Station}
    (h : Below base p) (e : PeerEvent StationStep) : Moves base p (stations.step p e) := by
  cases e with
  | own r o =>
      cases o with
      | node s =>
          show Moves base p (Function.update p r (if s.isRrcRx then p r else (p r).onNode s))
          split_ifs with hs
          · exact .stays (Function.update_eq_self r p)
          · exact .node r s (p r).read rfl (Or.inl (Bool.eq_false_iff.mpr hs))
      | toRx =>
          cases hq : (p r).link.toRx (p r).read with
          | none =>
              have hown : (p r).own .toRx = p r := by
                unfold Station.own
                rw [hq]
              refine .stays ?_
              show Function.update p r ((p r).own .toRx) = p
              rw [hown, Function.update_eq_self]
          | some q =>
              refine .node r (.rrcRx q.bytes) ((p r).read + 1) ?_
                (Or.inr ⟨q, hq, rfl⟩)
              show Function.update p r ((p r).own .toRx) = _
              congr 1
              unfold Station.own
              rw [hq]
      | grant g fits =>
          exact .below r _ rfl (Link.Linked.step hcrc h (.own r (.grant g fits)))
            ((h.sound r).own_behind _) ((h.sound r).grant_packets g fits)
  | deliver r k =>
      cases hk : (p r.other).link.air[k]? with
      | none =>
          refine .stays ?_
          unfold Protocol.step
          dsimp only [stations]
          rw [hk]
      | some pdu =>
          have hlinked := Link.Linked.step hcrc h (.deliver r k)
          rw [Protocol.step_deliver (p := fun s => (p s).link) Link.ends hk] at hlinked
          exact .below r _ (stations.step_deliver hk) hlinked (.refl _) rfl

/-- So is what one step adds. -/
theorem onNode_new {a : AppRrc} {s : Step} :
    ∀ b ∈ (a.step s).sent.drop a.sent.length, Winject.Pdcp.FrameOk b := by
  obtain ⟨ms, hms⟩ := a.step_sent s
  intro b hb
  rw [hms, List.drop_left] at hb
  obtain ⟨m, -, rfl⟩ := List.mem_map.mp hb
  exact packet_ok m

/-- Channel 0 goes on, whatever the nodes do. -/
theorem Below.step {base : Side → Setup} (hcrc : SameCrc base) {p : Side → Station}
    (h : Below base p) (e : PeerEvent StationStep) :
    Below base (stations.step p e) ∧
      ∀ s, Behind (p s).link.pdcpTx (stations.step p e s).link.pdcpTx := by
  have hupdate : ∀ (r : Side) (st : Station), Behind (p r).link.pdcpTx st.link.pdcpTx →
      ∀ s, Behind (p s).link.pdcpTx (Function.update p r st s).link.pdcpTx := by
    intro r st hst s
    by_cases hs : s = r
    · subst hs
      rwa [Function.update_self]
    · rw [Function.update_of_ne hs]
      exact .refl _
  cases h.moves hcrc e with
  | stays heq =>
      rw [heq]
      exact ⟨h, fun _ => .refl _⟩
  | node r s read heq cause =>
      have hbehind := submit_behind (p r).link.pdcpTx (@onNode_new (p r).node s)
      have hback := h.fed r.other
      rw [Side.other_other] at hback
      rw [heq]
      refine ⟨?_, hupdate r _ hbehind⟩
      unfold Below
      rw [link_update]
      exact h.update r (submit_sound (h.sound r) onNode_new) hbehind hback
  | below r link heq hlinked hbehind hpackets =>
      rw [heq]
      refine ⟨?_, hupdate r _ hbehind⟩
      unfold Below
      rw [link_update]
      exact hlinked

theorem Below.run {base : Side → Setup} (hcrc : SameCrc base) {p : Side → Station}
    (h : Below base p) (es : List (PeerEvent StationStep)) (s : Side) :
    Behind (p s).link.pdcpTx (stations.run p es s).link.pdcpTx := by
  induction es generalizing p with
  | nil => exact .refl _
  | cons e es ih =>
      obtain ⟨hbelow, hbehind⟩ := h.step hcrc e
      exact (hbehind s).trans (ih hbelow)

theorem Below.setup (cfg : Side → Config) (base : Side → Setup) :
    Below base fun s => Station.setup (cfg s) (base s) := .start 0 base

/-! ## The stations are nodes -/

/-- The stations, and the nodes that they run. -/
structure Relates (base : Side → Setup) (p : Side → Station) (q : Side → AppRrc) : Prop where
  below : Below base p
  node : ∀ s, (p s).node = q s
  taken : ∀ s, ∀ b ∈ (p s).link.pdcpTx.packets, b ∈ (p s).node.sent

/-- The PDCPs of channel 0 number their packets, and have the same layout. -/
def Numbered (base : Side → Setup) : Prop := ∀ s, Paired (base s).pdcpTx (base s.other).pdcpRx

/-- A packet that is read from channel 0 is one that the other node has sent. -/
theorem Relates.toRx {base : Side → Setup} (hnum : Numbered base) {p : Side → Station}
    {q : Side → AppRrc} (h : Relates base p q) {r : Side}
    (hfew : (p r.other).link.pdcpTx.packets.length ≤ 8192) {packet : RxPacket}
    (hread : (p r).link.toRx (p r).read = some packet) : packet.bytes ∈ (q r.other).sent := by
  obtain ⟨d, hd, hqueue⟩ := Link.Linked.intact h.below r.other (hnum r.other) hfew
  rw [Side.other_other] at hd
  obtain ⟨b, hb, hbuffer⟩ :=
    hqueue packet (List.mem_of_getElem? (Link.End.getElem?_of_toRx hread hd))
  rw [RxPacket.bytes_eq hbuffer, ← h.node]
  exact h.taken r.other b hb

/-- A node goes on. -/
theorem Relates.onNode {base : Side → Setup} {p : Side → Station} {q : Side → AppRrc}
    (h : Relates base p q) {r : Side} {s : Step} {read : Nat}
    (hbelow : Below base (Function.update p r { (p r).onNode s with read := read })) :
    Relates base (Function.update p r { (p r).onNode s with read := read })
      (Function.update q r ((q r).step s)) := by
  refine ⟨hbelow, fun t => ?_, fun t b hb => ?_⟩
  · by_cases ht : t = r
    · subst ht
      rw [Function.update_self, Function.update_self, ← h.node]
      rfl
    · rw [Function.update_of_ne ht, Function.update_of_ne ht]
      exact h.node t
  · by_cases ht : t = r
    · subst ht
      rw [Function.update_self] at hb ⊢
      show b ∈ ((p t).node.step s).sent
      rcases submit_packets _ _ b hb with hold | hnew
      · obtain ⟨ms, hms⟩ := (p t).node.step_sent s
        rw [hms]
        exact List.mem_append_left _ (h.taken t b hold)
      · exact List.mem_of_mem_drop hnew
    · rw [Function.update_of_ne ht] at hb ⊢
      exact h.taken t b hb

theorem Relates.step {base : Side → Setup} (hcrc : SameCrc base) (hnum : Numbered base)
    {p : Side → Station} {q : Side → AppRrc} (h : Relates base p q)
    (hfew : ∀ s, (p s).link.pdcpTx.packets.length ≤ 8192) (e : PeerEvent StationStep) :
    ∃ fs, Relates base (stations.step p e) (nodes.run q fs) := by
  have hbelow := (h.below.step hcrc e).1
  cases h.below.moves hcrc e with
  | stays heq =>
      rw [heq]
      exact ⟨[], h⟩
  | node r s read heq cause =>
      rw [heq] at hbelow ⊢
      have hnext := h.onNode hbelow
      rcases cause with hown | ⟨packet, hread, rfl⟩
      · refine ⟨[.own r s], ?_⟩
        have hstep : nodes.run q [.own r s] = Function.update q r ((q r).step s) := by
          show Function.update q r (if s.isRrcRx then q r else (q r).step s) = _
          rw [if_neg (Bool.eq_false_iff.mp hown)]
        rw [hstep]
        exact hnext
      · obtain ⟨k, hk⟩ := List.mem_iff_getElem?.mp (h.toRx hnum (hfew r.other) hread)
        refine ⟨[.deliver r k], ?_⟩
        have hstep : nodes.run q [.deliver r k] = Function.update q r
            ((q r).step (.rrcRx packet.bytes)) := nodes.step_deliver hk
        rw [hstep]
        exact hnext
  | below r link heq hlinked hbehind hpackets =>
      rw [heq] at hbelow ⊢
      refine ⟨[], hbelow, fun t => ?_, fun t b hb => ?_⟩
      · by_cases ht : t = r
        · subst ht
          rw [Function.update_self]
          exact h.node t
        · rw [Function.update_of_ne ht]
          exact h.node t
      · by_cases ht : t = r
        · subst ht
          rw [Function.update_self] at hb ⊢
          change b ∈ link.pdcpTx.packets at hb
          rw [hpackets] at hb
          exact h.taken t b hb
        · rw [Function.update_of_ne ht] at hb ⊢
          exact h.taken t b hb

theorem Relates.run {base : Side → Setup} (hcrc : SameCrc base) (hnum : Numbered base)
    {p : Side → Station} {q : Side → AppRrc} (h : Relates base p q)
    (es : List (PeerEvent StationStep))
    (hfew : ∀ s, (stations.run p es s).link.pdcpTx.packets.length ≤ 8192) :
    ∃ fs, Relates base (stations.run p es) (nodes.run q fs) := by
  induction es generalizing p q with
  | nil => exact ⟨[], h⟩
  | cons e es ih =>
      have hnow : ∀ s, (p s).link.pdcpTx.packets.length ≤ 8192 := fun s =>
        (h.below.run hcrc (e :: es) s).packets_le.trans (hfew s)
      obtain ⟨fs, hstep⟩ := h.step hcrc hnum hnow e
      obtain ⟨gs, hrun⟩ := ih hstep hfew
      exact ⟨fs ++ gs, by rwa [Protocol.run_append]⟩

/-- What the two configurations have to agree on for channel 0. -/
structure SameBase (base : Side → Setup) : Prop where
  crc : (base .near).llcTx.crcType = (base .far).llcTx.crcType
  reordering : ∀ s, (base s).pdcpTx.allowReordering = true
  segmentation : (base .near).pdcpTx.allowSegmentation = (base .far).pdcpTx.allowSegmentation

/-- The receivers of channel 0 start with what their own node sends with. -/
theorem SameBase.agree {cfg : Side → Config} {base : Side → Setup}
    (hbase : ∀ s, (cfg s).base = some (base s)) (h : SameBase base) :
    SameCrc base ∧ Numbered base := by
  have hrx : ∀ s, (base s).llcRx.crcType = (base s).llcTx.crcType ∧
      (base s).pdcpRx = pdcpRx (base s).pdcpTx := by
    intro s
    have hs := hbase s
    unfold Config.base at hs
    split at hs
    · split_ifs at hs
      rw [← Option.some.inj hs]
      exact ⟨rfl, rfl⟩
    · cases hs
  have hcrc : ∀ s : Side, (base s).llcTx.crcType = (base s.other).llcTx.crcType := by
    intro s
    cases s
    · exact h.crc
    · exact h.crc.symm
  have hseg : ∀ s : Side, (base s.other).pdcpTx.allowSegmentation =
      (base s).pdcpTx.allowSegmentation := by
    intro s
    cases s
    · exact h.segmentation.symm
    · exact h.segmentation
  refine ⟨fun s => (hcrc s).trans (hrx s.other).1.symm, fun s => ⟨h.reordering s, ?_, ?_⟩⟩
  · rw [(hrx s.other).2]
    exact h.reordering s.other
  · rw [(hrx s.other).2]
    exact hseg s

/-- The stations run their nodes. -/
theorem relates_run {cfg : Side → Config} {base : Side → Setup}
    (hbase : ∀ s, (cfg s).base = some (base s)) (hsame : SameBase base)
    (es : List (PeerEvent StationStep))
    (hfew : ∀ s, (stations.run (fun s => Station.setup (cfg s) (base s)) es
      s).link.pdcpTx.packets.length ≤ 8192) :
    ∃ fs, Relates base (stations.run (fun s => Station.setup (cfg s) (base s)) es)
      (nodes.run (fun s => AppRrc.setup (cfg s)) fs) := by
  obtain ⟨hcrc, hnum⟩ := hsame.agree hbase
  refine Relates.run hcrc hnum ⟨.setup cfg base, fun _ => rfl, fun s b hb => ?_⟩ es hfew
  exact (List.not_mem_nil hb).elim

/-- **Two nodes over channel 0 are two nodes.**  As long as neither end has put more than
8192 packets on channel 0, every run of two stations is, for their nodes, a run of two nodes
that hand each other what they send: whatever the LLCs below lose, double, reorder or send
again, and however the PDCPs cut the packets up. -/
theorem stations_refine {cfg : Side → Config} {base : Side → Setup}
    (hbase : ∀ s, (cfg s).base = some (base s)) (hsame : SameBase base)
    (es : List (PeerEvent StationStep))
    (hfew : ∀ s, (stations.run (fun s => Station.setup (cfg s) (base s)) es
      s).link.pdcpTx.packets.length ≤ 8192) :
    ∃ fs, ∀ s, (stations.run (fun s => Station.setup (cfg s) (base s)) es s).node =
      nodes.run (fun s => AppRrc.setup (cfg s)) fs s := by
  obtain ⟨fs, hrun⟩ := relates_run hbase hsame es hfew
  exact ⟨fs, hrun.node⟩

/-- Channel 0 has no end point, and channel 1 has one. -/
def twoChannels : Config where
  llcTxConfigs lcid :=
    if lcid = 0 then some { crcType := .crc32 } else if lcid = 1 then some {} else none
  pdcpConfigs lcid :=
    if lcid = 0 then some { allowReordering := true, minCommitSize := 7 }
    else if lcid = 1 then some {} else none
  epConfigs lcid := if lcid = 1 then some .udp else none

/-- Its channel 0. -/
def baseSetup : Setup where
  llcTx := { crcType := .crc32 }
  llcRx := { crcType := .crc32 }
  pdcpTx := { allowReordering := true, minCommitSize := 7 }
  pdcpRx := { allowReordering := true }

theorem sameBase_twoChannels : SameBase fun _ => baseSetup := ⟨rfl, fun _ => rfl, rfl⟩

/-- A frame of the slot has room for a PDU of channel 0. -/
def grantAt (slotNumber : Nat) : StationStep :=
  .grant (Link.space slotNumber) (Link.space_fits slotNumber)

/-- The request of the far node goes through channel 0, and the near one becomes active. -/
def overBase : List (PeerEvent StationStep) :=
  .own .far (.node (.onCmdInit 1)) :: oneEvent.map (fun s => .own .far (.node s)) ++
    [.own .far (grantAt 0), .deliver .near 0, .own .near .toRx] ++
    oneEvent.map (fun s => .own .near (.node s)) ++
    [.own .near (.node (.extract 1 0)), .own .near (.node (.fire 1 0))]

theorem overBase_few (s : Side) :
    (stations.run (fun _ => Station.setup twoChannels baseSetup) overBase
      s).link.pdcpTx.packets.length ≤ 8192 := by
  cases s <;> decide +kernel

theorem stations_refine_overBase :
    ∃ fs, ∀ s, (stations.run (fun _ => Station.setup twoChannels baseSetup) overBase s).node =
      nodes.run (fun _ => AppRrc.setup twoChannels) fs s :=
  @stations_refine (fun _ => twoChannels) (fun _ => baseSetup) (fun _ => rfl) sameBase_twoChannels
    overBase overBase_few

/-- **An active end has the configuration of its peer, over channel 0.**  As long as neither
end has put more than 8192 packets on channel 0, an active end of another channel receives
with what the other node sends with. -/
theorem stations_configured {lcid : UInt8} (hlcid : lcid ≠ 0) {cfg : Side → Config}
    {base : Side → Setup} {chan : Side → ChannelConfig}
    (hbase : ∀ s, (cfg s).base = some (base s)) (hsame : SameBase base)
    (hchan : ∀ s, (cfg s).channel lcid = some (chan s)) (es : List (PeerEvent StationStep))
    (hfew : ∀ s, (stations.run (fun s => Station.setup (cfg s) (base s)) es
      s).link.pdcpTx.packets.length ≤ 8192) (s : Side) {c c' : Lcrrc}
    (hc : (stations.run (fun s => Station.setup (cfg s) (base s)) es s).node.channel lcid = some c)
    (hc' : (stations.run (fun s => Station.setup (cfg s) (base s)) es s.other).node.channel lcid =
      some c')
    (hactive : c.txrxState = .active) : ReadsWith c c' := by
  obtain ⟨fs, hrun⟩ := relates_run hbase hsame es hfew
  rw [hrun.node] at hc hc'
  obtain ⟨gs, hview⟩ := (Linked.setup hlcid hchan).run hlcid fs
  exact hview.readsWith hlcid hc hc' hactive

theorem stations_configured_overBase :
    let p := stations.run (fun _ => Station.setup twoChannels baseSetup) overBase
    ∃ c c', (p .near).node.channel 1 = some c ∧ (p .far).node.channel 1 = some c' ∧
      c.txrxState = .active ∧ ReadsWith c c' := by
  intro p
  have hstate : ((p .near).node.channel 1).map (·.txrxState) = some .active := by decide +kernel
  have hfar : ((p .far).node.channel 1).isSome = true := by decide +kernel
  obtain ⟨c, hc, hactive⟩ := Option.map_eq_some_iff.mp hstate
  obtain ⟨c', hc'⟩ := Option.isSome_iff_exists.mp hfar
  exact ⟨c, c', hc, hc', hactive, @stations_configured 1 (by decide) (fun _ => twoChannels)
    (fun _ => baseSetup) (fun _ => {}) (fun _ => rfl) sameBase_twoChannels (fun _ => rfl) overBase
    overBase_few .near c c' hc hc' hactive⟩

end Winject.Node
