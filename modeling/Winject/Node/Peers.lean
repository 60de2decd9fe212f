import Winject.Node.Events
import Winject.Node.Messages

/-!
# Two nodes

Two nodes exchange packets over channel 0, which loses, delays, doubles and reorders them.
All channels share it, and all share the queue of events and the counter of identifiers of
their node.  To the two ends of one channel other than 0 the two nodes are still what two
single `LCRRC`s with a network of their own are, and none of their packets stops a node.

Retries are why channel 0 is different: they name it, whatever channel they come from.

## Main results

* `NodeView.own`, `NodeView.receive` — a step of a node, seen from one channel.
* `nodes_refine` — every run of two nodes is a run of the two ends of each channel.
-/

namespace Winject.Node

open Winject.ChannelRrc
open Winject.Lib.EventQueue
open Winject.Lib.Peers

/-- A packet comes from the peer, not out of the node. -/
def Step.isRrcRx : Step → Bool
  | .rrcRx _ => true
  | _ => false

/-- One of two nodes. -/
def nodes : Protocol AppRrc (List UInt8) Step where
  own a s := if s.isRrcRx then a else a.step s
  receive a b := a.step (.rrcRx b)
  sent := AppRrc.sent

/-! ## Steps -/

namespace AppRrc

theorem onChannel_sent (a : AppRrc) (lcid : UInt8) (e : Event) :
    (a.onChannel lcid e).sent = a.sent ++ match a.channel lcid with
      | none => []
      | some c => ((c.step e).sent.drop c.sent.length).map packet := by
  unfold onChannel channel
  cases a.channelRrcContexts lcid with
  | none => exact (List.append_nil _).symm
  | some c => rfl

/-- A call comes from the node itself, or is a message that it has received. -/
theorem dispatch_cases {a : AppRrc} {s : Step} {call : UInt8 × Event}
    (h : a.dispatch s = some call) : (∃ e : OwnEvent, call.2 = e.toEvent) ∨
      ∃ m, RrcEvent.msg m ∈ a.mail.pending ∧ call = ((ofRrc m).exchange.lcid, ofMessage (ofRrc m)) := by
  unfold dispatch at h
  by_cases hend : a.terminated = true
  · rw [if_pos hend] at h
    cases h
  rw [if_neg hend] at h
  cases s with
  | handle =>
      obtain ⟨event, hnext, hevent⟩ := Option.bind_eq_some_iff.mp h
      have hmem : event ∈ a.mail.pending := by
        rw [← Mailbox.work_pending, hnext]
        exact List.mem_cons_self ..
      cases event with
      | stop => cases hevent
      | rlf lcid =>
          cases hevent
          exact Or.inl ⟨.rlf, rfl⟩
      | setup lcid forced =>
          cases hevent
          exact Or.inl ⟨.init forced, rfl⟩
      | msg m =>
          rw [channelEvent_msg] at hevent
          exact Or.inr ⟨m, hmem, (Option.some.inj hevent).symm⟩
  | extract other i =>
      dsimp only at h
      split_ifs at h
      cases h
      exact Or.inl ⟨.extract i, rfl⟩
  | fire other i =>
      cases h
      exact Or.inl ⟨.fire i, rfl⟩
  | _ => cases h

theorem handle_terminated (a : AppRrc) : a.handle.terminated = a.terminated := by
  unfold handle
  split
  · rfl
  · exact onRrcEvent_terminated ..

/-- Only a packet can stop a node. -/
theorem step_terminated (a : AppRrc) {s : Step} (hs : s.isRrcRx = false) :
    (a.step s).terminated = a.terminated := by
  have hcall : ∀ lcid e, (a.onChannel lcid e).terminated = a.terminated := by
    intro lcid e
    unfold onChannel
    split <;> rfl
  unfold step
  by_cases hend : a.terminated = true
  · rw [if_pos hend]
  · rw [if_neg hend]
    cases s with
    | rrcRx b => cases hs
    | wake =>
        dsimp only
        split_ifs <;> rfl
    | handle => exact a.handle_terminated
    | extract other i =>
        dsimp only
        split_ifs
        · exact hcall ..
        · rfl
    | fire other i => exact hcall ..
    | _ => rfl

/-- The node itself puts no message. -/
theorem act_ne_msg (a : AppRrc) {s : Step} (hs : s.isRrcRx = false) (m : Interface.Rrc) :
    RrcEvent.msg m ∉ Mailbox.puts (a.act s).toList := by
  unfold act
  by_cases hend : a.terminated = true
  · rw [if_pos hend]
    exact List.not_mem_nil
  · rw [if_neg hend]
    cases s with
    | rrcRx b => cases hs
    | wake =>
        dsimp only
        split_ifs <;> exact List.not_mem_nil
    | take => exact List.not_mem_nil
    | handle => exact List.not_mem_nil
    | extract lcid i => exact List.not_mem_nil
    | fire lcid i => exact List.not_mem_nil
    | _ => exact fun hmem => by cases List.mem_singleton.mp hmem

end AppRrc

/-! ## A node, seen from one channel -/

/-- The node runs `c` as channel `lcid`; what it sends and has received for that channel is
what `c` has sent and what is in `heard`. -/
structure NodeView (lcid : UInt8) (heard : List ChannelRrc.Rrc) (a : AppRrc) (c : Lcrrc) : Prop where
  channel : a.channel lcid = some c
  alive : a.terminated = false
  speaks : ∀ other d, a.channel other = some d → d.Speaks other
  packets : ∀ b ∈ a.sent, ∃ m, b = packet m ∧ m.exchange.Storable ∧
    (m.exchange.lcid = lcid → m ∈ c.sent)
  events : ∀ m, RrcEvent.msg m ∈ a.mail.pending → (ofRrc m).exchange.lcid = lcid →
    ofRrc m ∈ heard

namespace NodeView

variable {lcid : UInt8} {heard : List ChannelRrc.Rrc} {a : AppRrc} {c : Lcrrc}

/-- More has been sent to the node. -/
theorem mono (h : NodeView lcid heard a c) {heard' : List ChannelRrc.Rrc}
    (hsub : ∀ m ∈ heard, m ∈ heard') : NodeView lcid heard' a c :=
  ⟨h.channel, h.alive, h.speaks, h.packets, fun m hm hlcid => hsub _ (h.events m hm hlcid)⟩

/-- Another channel is called. -/
theorem speaks_onChannel (h : NodeView lcid heard a c) (called : UInt8) (e : Event) :
    ∀ other d, (a.onChannel called e).channel other = some d → d.Speaks other := by
  intro other d hd
  by_cases heq : other = called
  · subst heq
    rw [AppRrc.onChannel_channel_self] at hd
    obtain ⟨d', hd', rfl⟩ := Option.map_eq_some_iff.mp hd
    exact (h.speaks _ _ hd').step e
  · rcases a.onChannel_channel_of_ne heq e with hsame | htaken
    · rw [hsame] at hd
      exact h.speaks _ _ hd
    · rw [htaken] at hd
      obtain ⟨d', hd', rfl⟩ := Option.map_eq_some_iff.mp hd
      exact (h.speaks _ _ hd').step .allocate

/-- What a call sends is what the called channel says. -/
theorem packets_onChannel (h : NodeView lcid heard a c) (called : UInt8) (e : Event) :
    ∀ b ∈ (a.onChannel called e).sent, b ∈ a.sent ∨ ∃ d m, a.channel called = some d ∧
      b = packet m ∧ m ∈ (d.step e).sent ∧ Lcrrc.FromChannel called m := by
  intro b hb
  rw [AppRrc.onChannel_sent] at hb
  rcases List.mem_append.mp hb with hold | hnew
  · exact Or.inl hold
  · cases hd : a.channel called with
    | none =>
        rw [hd] at hnew
        cases hnew
    | some d =>
        rw [hd] at hnew
        obtain ⟨m, hm, rfl⟩ := List.mem_map.mp hnew
        have hsent := List.mem_of_mem_drop hm
        exact Or.inr ⟨d, m, rfl, rfl, hsent, ((h.speaks _ _ hd).step e).sent m hsent⟩

/-- What a step of a node is to the channel. -/
def Follows (heard : List ChannelRrc.Rrc) (c c' : Lcrrc) : Prop :=
  c' = c ∨ (∃ e : OwnEvent, c' = c.step e.toEvent) ∨ ∃ m ∈ heard, c' = c.onRrcMessage m

/-- A step of the node that is no reception. -/
theorem own (h : NodeView lcid heard a c) (hlcid : lcid ≠ 0) {s : Step}
    (hs : s.isRrcRx = false) :
    ∃ c', NodeView lcid heard (a.step s) c' ∧ Follows heard c c' := by
  have halive : (a.step s).terminated = false := (a.step_terminated hs).trans h.alive
  have hevents : ∀ m, RrcEvent.msg m ∈ (a.step s).mail.pending →
      (ofRrc m).exchange.lcid = lcid → ofRrc m ∈ heard := by
    intro m hm hto
    rcases AppRrc.step_pending hm with hold | hput
    · exact h.events m hold hto
    · exact absurd hput (a.act_ne_msg hs m)
  obtain ⟨hchannel, hsent⟩ := a.step_same s
  cases hcall : a.dispatch s with
  | none =>
      rw [hcall] at hchannel hsent
      refine ⟨c, ⟨(hchannel lcid).trans h.channel, halive, fun other d hd => ?_, ?_, hevents⟩,
        Or.inl rfl⟩
      · exact h.speaks other d ((hchannel other).symm.trans hd)
      · rw [hsent]
        exact h.packets
  | some call =>
      obtain ⟨called, e⟩ := call
      rw [hcall] at hchannel hsent
      dsimp only at hchannel hsent
      have hspeaks : ∀ other d, (a.step s).channel other = some d → d.Speaks other :=
        fun other d hd => h.speaks_onChannel called e other d ((hchannel other).symm.trans hd)
      by_cases heq : called = lcid
      · subst heq
        have hchannel' : (a.step s).channel called = some (c.step e) := by
          rw [hchannel, AppRrc.onChannel_channel_self, h.channel]
          rfl
        refine ⟨c.step e, ⟨hchannel', halive, hspeaks, ?_, hevents⟩, ?_⟩
        · intro b hb
          rw [hsent] at hb
          rcases h.packets_onChannel called e b hb with hold | ⟨d, m, hd, rfl, hm, hfrom⟩
          · obtain ⟨m, hbytes, hstor, hin⟩ := h.packets b hold
            exact ⟨m, hbytes, hstor, fun hto => (c.step_progress e).sent.subset (hin hto)⟩
          · obtain rfl := Option.some.inj (h.channel.symm.trans hd)
            exact ⟨m, rfl, hfrom.storable, fun _ => hm⟩
        · rcases AppRrc.dispatch_cases hcall with ⟨o, ho⟩ | ⟨m, hm, hmsg⟩
          · exact Or.inr (Or.inl ⟨o, congrArg c.step ho⟩)
          · obtain ⟨hto, rfl⟩ := Prod.mk.inj hmsg
            have hnumber := (h.speaks _ _ h.channel).number
            exact Or.inr (Or.inr ⟨ofRrc m, h.events m hm hto.symm,
              (onRrcMessage_eq (hto.symm.trans hnumber.symm)).symm⟩)
      · have hother : ∃ c', (a.step s).channel lcid = some c' ∧ c'.sent = c.sent ∧
            Follows heard c c' := by
          rcases a.onChannel_channel_of_ne (Ne.symm heq) e with hsame | htaken
          · exact ⟨c, (hchannel lcid).trans (hsame.trans h.channel), rfl, Or.inl rfl⟩
          · refine ⟨c.step .allocate, ?_, rfl, Or.inr (Or.inl ⟨.allocate, rfl⟩)⟩
            rw [hchannel, htaken, h.channel]
            rfl
        obtain ⟨c', hc', hsame, hfollows⟩ := hother
        refine ⟨c', ⟨hc', halive, hspeaks, ?_, hevents⟩, hfollows⟩
        intro b hb
        rw [hsent] at hb
        rw [hsame]
        rcases h.packets_onChannel called e b hb with hold | ⟨d, m, hd, rfl, hm, hfrom⟩
        · exact h.packets b hold
        · refine ⟨m, rfl, hfrom.storable, fun hto => ?_⟩
          -- a message of another channel names that channel or channel 0
          rcases hfrom.lcid with hown | hzero
          · exact absurd (hown.symm.trans hto) heq
          · exact absurd (hto.symm.trans hzero) hlcid

/-- A packet of the peer. -/
theorem receive (h : NodeView lcid heard a c) {m : ChannelRrc.Rrc} (hstor : m.exchange.Storable)
    (hm : m.exchange.lcid = lcid → m ∈ heard) :
    NodeView lcid heard (a.step (.rrcRx (packet m))) c := by
  have hsame := a.step_same (.rrcRx (packet m))
  have hnone : a.dispatch (.rrcRx (packet m)) = none := by
    unfold AppRrc.dispatch
    split_ifs <;> rfl
  rw [hnone] at hsame
  have hact : a.act (.rrcRx (packet m)) =
      if a.rrcRxRunning then some (.put (.msg (toRrc m))) else none := by
    unfold AppRrc.act
    rw [if_neg (Bool.eq_false_iff.mp h.alive)]
    dsimp only
    rw [decode_packet, List.isEmpty_eq_false_iff.mpr (packet_ne_nil m), Bool.or_false]
    cases a.rrcRxRunning <;> rfl
  have halive : (a.step (.rrcRx (packet m))).terminated = false := by
    unfold AppRrc.step
    rw [if_neg (Bool.eq_false_iff.mp h.alive)]
    dsimp only
    unfold AppRrc.runRrcRx
    rw [decode_packet]
    split_ifs <;> exact h.alive
  refine ⟨(hsame.channel lcid).trans h.channel, halive, fun other d hd => ?_, ?_, ?_⟩
  · exact h.speaks other d ((hsame.channel other).symm.trans hd)
  · rw [hsame.sent]
    exact h.packets
  · intro m' hm' hto
    rcases AppRrc.step_pending hm' with hold | hput
    · exact h.events m' hold hto
    · rw [hact] at hput
      split_ifs at hput
      · obtain rfl : m' = toRrc m := by
          have heq := List.mem_singleton.mp hput
          cases heq
          rfl
        rw [ofRrc_toRrc hstor] at hto ⊢
        exact hm hto
      · cases hput

end NodeView

/-! ## Two nodes, seen from one channel -/

/-- Both nodes, with the two ends of the channel. -/
def Linked (lcid : UInt8) (p : Side → AppRrc) (q : Side → Lcrrc) : Prop :=
  ∀ s, NodeView lcid (q s.other).sent (p s) (q s)

/-- One side goes on. -/
theorem Linked.update {lcid : UInt8} {p : Side → AppRrc} {q : Side → Lcrrc}
    (h : Linked lcid p q) (s : Side) {a : AppRrc} {c : Lcrrc}
    (hview : NodeView lcid (q s.other).sent a c) (hsent : (q s).sent <+: c.sent) :
    Linked lcid (Function.update p s a) (Function.update q s c) := by
  intro r
  by_cases hr : r = s
  · subst hr
    rw [Function.update_self, Function.update_self, Function.update_of_ne r.other_ne]
    exact hview
  · have hother : r.other = s := by
      cases r <;> cases s <;> first | rfl | exact absurd rfl hr
    rw [Function.update_of_ne hr, Function.update_of_ne hr, hother, Function.update_self]
    have hold := h r
    rw [hother] at hold
    exact hold.mono fun m hm => hsent.subset hm

/-- The end of the channel follows its node. -/
theorem Linked.follow {lcid : UInt8} {p : Side → AppRrc} {q : Side → Lcrrc}
    (h : Linked lcid p q) (s : Side) {a : AppRrc} {c : Lcrrc}
    (hview : NodeView lcid (q s.other).sent a c)
    (hfollows : NodeView.Follows (q s.other).sent (q s) c) :
    ∃ fs, Linked lcid (Function.update p s a) (Lcrrc.protocol.run q fs) := by
  rcases hfollows with rfl | ⟨e, rfl⟩ | ⟨m, hm, rfl⟩
  · refine ⟨[], ?_⟩
    have hupd := h.update s hview List.prefix_rfl
    rwa [Function.update_eq_self] at hupd
  · exact ⟨[.own s e], h.update s hview ((q s).step_progress _).sent⟩
  · obtain ⟨i, hi⟩ := List.mem_iff_getElem?.mp hm
    refine ⟨[.deliver s i], ?_⟩
    have hsent : (q s).sent <+: ((q s).onRrcMessage m).sent := by
      unfold Lcrrc.onRrcMessage
      split
      · split <;> exact ((q s).step_progress _).sent
      · exact List.prefix_rfl
    have hstep := Lcrrc.protocol.step_deliver (p := q) (s := s) (k := i) (m := m) hi
    show Linked lcid _ (Lcrrc.protocol.step q (.deliver s i))
    rw [hstep]
    exact h.update s hview hsent

theorem Linked.step {lcid : UInt8} (hlcid : lcid ≠ 0) {p : Side → AppRrc} {q : Side → Lcrrc}
    (h : Linked lcid p q) (e : PeerEvent Step) :
    ∃ fs, Linked lcid (nodes.step p e) (Lcrrc.protocol.run q fs) := by
  cases e with
  | own s st =>
      show ∃ fs, Linked lcid (Function.update p s (if st.isRrcRx then p s else (p s).step st)) _
      split_ifs with hrx
      · refine ⟨[], ?_⟩
        rw [Function.update_eq_self]
        exact h
      · obtain ⟨c, hview, hfollows⟩ := (h s).own hlcid (Bool.eq_false_iff.mpr hrx)
        exact h.follow s hview hfollows
  | deliver s k =>
      cases hk : (p s.other).sent[k]? with
      | none =>
          refine ⟨[], ?_⟩
          have hstep : nodes.step p (.deliver s k) = p := by
            unfold Protocol.step
            dsimp only [nodes]
            rw [hk]
          rw [hstep]
          exact h
      | some b =>
          obtain ⟨m, rfl, hstor, hin⟩ := (h s.other).packets b (List.mem_of_getElem? hk)
          have hstep := nodes.step_deliver (p := p) (s := s) (k := k) hk
          rw [hstep]
          exact h.follow s ((h s).receive hstor hin) (Or.inl rfl)

/-- The nodes as they are set up. -/
theorem Linked.setup {lcid : UInt8} (hlcid : lcid ≠ 0) {cfg : Side → Config}
    {chan : Side → ChannelConfig} (hchan : ∀ s, (cfg s).channel lcid = some (chan s)) :
    Linked lcid (fun s => AppRrc.setup (cfg s)) (Lcrrc.peers lcid chan) := by
  intro s
  refine ⟨?_, rfl, fun other d hd => ?_, fun b hb => (List.not_mem_nil hb).elim,
    fun m hm => (List.not_mem_nil hm).elim⟩
  · rw [AppRrc.setup_channel _ hlcid, hchan]
    rfl
  · unfold AppRrc.setup AppRrc.channel at hd
    rw [Option.map_map] at hd
    obtain ⟨c, -, rfl⟩ := Option.map_eq_some_iff.mp hd
    have hnew := Lcrrc.Speaks.new other c
    dsimp only [Function.comp]
    split_ifs
    · exact ⟨hnew.sent, hnew.number, ⟨hnew.contexts.empty, hnew.contexts.filled⟩⟩
    · exact ⟨hnew.sent, hnew.number, ⟨hnew.contexts.empty, hnew.contexts.filled⟩⟩

theorem Linked.run {lcid : UInt8} (hlcid : lcid ≠ 0) {p : Side → AppRrc} {q : Side → Lcrrc}
    (h : Linked lcid p q) (es : List (PeerEvent Step)) :
    ∃ fs, Linked lcid (nodes.run p es) (Lcrrc.protocol.run q fs) := by
  induction es generalizing p q with
  | nil => exact ⟨[], h⟩
  | cons e es ih =>
      obtain ⟨fs, hstep⟩ := h.step hlcid e
      obtain ⟨gs, hrun⟩ := ih hstep
      exact ⟨fs ++ gs, by rwa [Protocol.run_append]⟩

/-- **Two nodes are two ends of each of their channels.**  In every run of two nodes,
whatever their channels, whatever is lost, delayed, doubled or reordered between them and in
whichever order their threads go on, a channel other than 0 goes through a run of its two
ends alone; and no packet of the peer terminates a node. -/
theorem nodes_refine {lcid : UInt8} (hlcid : lcid ≠ 0) {cfg : Side → Config}
    {chan : Side → ChannelConfig} (hchan : ∀ s, (cfg s).channel lcid = some (chan s))
    (es : List (PeerEvent Step)) :
    let p := nodes.run (fun s => AppRrc.setup (cfg s)) es
    ∃ fs, ∀ s, (p s).channel lcid = some (Lcrrc.protocol.run (Lcrrc.peers lcid chan) fs s) ∧
      (p s).terminated = false := by
  intro p
  obtain ⟨fs, hrun⟩ := (Linked.setup hlcid hchan).run hlcid es
  exact ⟨fs, fun s => ⟨(hrun s).channel, (hrun s).alive⟩⟩

/-- The far node asks for an exchange, and its request arrives twice. -/
theorem nodes_refine_request :
    let p := nodes.run (fun _ => AppRrc.setup AppRrc.oneChannel)
      [.own .far (.onCmdInit 1), .own .far .wake, .own .far .take, .own .far .handle,
        .deliver .near 0, .deliver .near 0]
    ∃ fs, ∀ s, (p s).channel 1 =
        some (Lcrrc.protocol.run (Lcrrc.peers 1 fun _ => {}) fs s) ∧ (p s).terminated = false :=
  @nodes_refine 1 (by decide) (fun _ => AppRrc.oneChannel) (fun _ => {}) (fun _ => rfl) _

end Winject.Node
