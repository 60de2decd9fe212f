import Winject.Node.Peers

/-!
# Exchanges between two nodes

As a node sets its channels up, the receiver of a channel starts with what the node itself
sends with.  Two nodes therefore read each other's channel, in every run, if and only if
they are configured with the same CRC for it.  And no run leads them to where the exchange
can no longer be made: as long as no node is stopped, both ends of a channel can become
active.

## Main results

* `Ready.perform` — the queue carries one event to its channel.
* `channel_recovers` — from every state of every run both ends can become active.
* `nodes_agree_iff` — when an active end reads with the layout that its peer sends with.
-/

namespace Winject.Node

open Winject.ChannelRrc
open Winject.Lib.EventQueue
open Winject.Lib.Peers

/-! ## A node that waits -/

/-- The threads go on and nothing is pending. -/
structure Ready (a : AppRrc) : Prop where
  running : a.Running
  alive : a.terminated = false
  quiet : a.mail.Quiet

/-- The reactor takes the one event that is there. -/
def oneEvent : List Step := [.wake, .take, .handle, .handle]

theorem oneEvent_own : ∀ s ∈ oneEvent, s.isRrcRx = false := by decide

/-- The call that an event is. -/
def calling (a : AppRrc) (event : RrcEvent) : AppRrc :=
  match AppRrc.channelEvent event with
  | none => a
  | some (lcid, e) => a.onChannel lcid e

/-- A step that puts an event does nothing else. -/
theorem step_put {a : AppRrc} {s : Step} {event : RrcEvent} (h : a.act s = some (.put event)) :
    a.step s = a.pushRrcEvent event := by
  unfold AppRrc.act at h
  unfold AppRrc.step
  by_cases hend : a.terminated = true
  · rw [if_pos hend] at h
    cases h
  · rw [if_neg hend] at h ⊢
    cases s with
    | rrcRx b =>
        dsimp only at h ⊢
        unfold AppRrc.runRrcRx
        split_ifs at h ⊢
        cases hdec : (Interface.Rrc.decodePer {}).run b with
        | none =>
            rw [hdec] at h
            cases h
        | some decoded =>
            rw [hdec] at h
            cases h
            rfl
    | wake =>
        dsimp only at h
        split_ifs at h
        cases h
    | take => cases h
    | handle => cases h
    | extract lcid i => cases h
    | fire lcid i => cases h
    | _ =>
        cases h
        rfl

/-- The reactor has handled the last event that it has moved out. -/
theorem step_handle_last {a : AppRrc} (halive : a.terminated = false)
    (hmail : a.mail = ⟨[], 0, .working []⟩) :
    a.step .handle = { a with mail := ⟨[], 0, .polling⟩ } := by
  unfold AppRrc.step
  rw [if_neg (Bool.eq_false_iff.mp halive)]
  show a.handle = _
  unfold AppRrc.handle
  rw [hmail]
  rfl

/-- The reactor takes an event, hands it over and waits again. -/
theorem run_oneEvent {a : AppRrc} (hreactor : a.reactorRunning = true)
    (halive : a.terminated = false) {count : Nat} {event : RrcEvent} :
    AppRrc.run { a with mail := ⟨[event], count + 1, .polling⟩ } oneEvent =
      { AppRrc.onRrcEvent { a with mail := ⟨[], 0, .working []⟩ } event with
        mail := ⟨[], 0, .polling⟩ } := by
  obtain ⟨contexts, reqId, mail, sent, rrcRx, timer2, reactor, terminated⟩ := a
  obtain rfl : reactor = true := hreactor
  obtain rfl : terminated = false := halive
  refine step_handle_last ?_ ?_
  · exact AppRrc.onRrcEvent_terminated _ _
  · exact AppRrc.onRrcEvent_mail _ _

/-- **One event**: behind the step that puts it, the reactor hands it to its channel, and the
node waits again. -/
theorem Ready.perform {a : AppRrc} (h : Ready a) {s : Step} {event : RrcEvent}
    (hput : a.act s = some (.put event)) (hevent : event ≠ .stop) :
    Ready (a.run (s :: oneEvent)) ∧
      AppRrc.SameChannels (a.run (s :: oneEvent)) (calling a event) := by
  obtain ⟨hpending, hphase⟩ := h.quiet
  have hqueue : a.mail.queue = [] := (List.append_eq_nil_iff.mp hpending).2
  have hmail : a.mail.put event = ⟨[event], a.mail.count + 1, .polling⟩ := by
    unfold Mailbox.put
    rw [hqueue, hphase]
    rfl
  have hrun : a.run (s :: oneEvent) =
      { AppRrc.onRrcEvent { a with mail := ⟨[], 0, .working []⟩ } event with
        mail := ⟨[], 0, .polling⟩ } := by
    show (a.step s).run oneEvent = _
    rw [step_put hput, AppRrc.pushRrcEvent, hmail]
    exact run_oneEvent h.running.reactor h.alive
  rw [hrun]
  have hbase : AppRrc.Running { a with mail := ⟨[], 0, .working []⟩ } :=
    ⟨h.running.rrcRx, h.running.timer2, h.running.reactor⟩
  have hrunning := AppRrc.onRrcEvent_running hbase hevent
  constructor
  · refine ⟨⟨hrunning.rrcRx, hrunning.timer2, hrunning.reactor⟩, ?_, rfl, rfl⟩
    exact (AppRrc.onRrcEvent_terminated _ _).trans h.alive
  · unfold calling AppRrc.onRrcEvent
    cases AppRrc.channelEvent event with
    | none => exact ⟨fun _ => rfl, rfl⟩
    | some call =>
        have hsame := AppRrc.onChannel_same a ⟨[], 0, .working []⟩ call.1 call.2
        exact ⟨hsame.channel, hsame.sent⟩

/-! ## Reachable pairs of nodes -/

/-- The nodes can get from one pair of states to the other. -/
def Reaches (p p' : Side → AppRrc) : Prop := ∃ es, nodes.run p es = p'

theorem Reaches.trans {p p' p'' : Side → AppRrc} (h : Reaches p p') (h' : Reaches p' p'') :
    Reaches p p'' := by
  obtain ⟨es, rfl⟩ := h
  obtain ⟨fs, rfl⟩ := h'
  exact ⟨es ++ fs, nodes.run_append p es fs⟩

theorem foldl_own (a : AppRrc) {ss : List Step} (hss : ∀ s ∈ ss, s.isRrcRx = false) :
    ss.foldl nodes.own a = a.run ss := by
  induction ss generalizing a with
  | nil => rfl
  | cons s ss ih =>
      have hs : nodes.own a s = a.step s := if_neg (by rw [hss s (List.mem_cons_self ..)]; simp)
      show ss.foldl nodes.own (nodes.own a s) = (a.step s).run ss
      rw [hs]
      exact ih _ fun x hx => hss x (List.mem_cons_of_mem _ hx)

/-- One node goes on by itself. -/
theorem Reaches.own (p : Side → AppRrc) (s : Side) {ss : List Step}
    (hss : ∀ st ∈ ss, st.isRrcRx = false) :
    Reaches p (Function.update p s ((p s).run ss)) :=
  ⟨ss.map (.own s), by rw [nodes.run_own, foldl_own _ hss]⟩

/-- One node receives a packet of the other, and goes on. -/
theorem Reaches.receive {p : Side → AppRrc} {s : Side} {b : List UInt8}
    (hb : b ∈ (p s.other).sent) {ss : List Step} (hss : ∀ st ∈ ss, st.isRrcRx = false) :
    Reaches p (Function.update p s ((p s).run (.rrcRx b :: ss))) := by
  obtain ⟨k, hk⟩ := List.mem_iff_getElem?.mp hb
  have hstep : nodes.step p (.deliver s k) = Function.update p s ((p s).step (.rrcRx b)) :=
    nodes.step_deliver hk
  have hfirst : Reaches p (Function.update p s ((p s).step (.rrcRx b))) := ⟨[.deliver s k], hstep⟩
  have hrest := Reaches.own (Function.update p s ((p s).step (.rrcRx b))) s hss
  rw [Function.update_self, Function.update_idem] at hrest
  exact hfirst.trans hrest

/-! ## The exchange -/

/-- Both nodes wait, and have the two ends of the channel. -/
structure Meeting (lcid : UInt8) (p : Side → AppRrc) (q : Side → Lcrrc) : Prop where
  ready : ∀ s, Ready (p s)
  channel : ∀ s, (p s).channel lcid = some (q s)
  speaks : ∀ s, (q s).Speaks lcid

/-- The packet of a message that an event makes the channel send. -/
def Says (a : AppRrc) (m : ChannelRrc.Rrc) : Prop := packet m ∈ a.sent

variable {lcid : UInt8} {p : Side → AppRrc} {q : Side → Lcrrc}

/-- A call of the channel, by a step of its node. -/
theorem Meeting.call (h : Meeting lcid p q) (s : Side) {st : Step} {event : RrcEvent} {e : Event}
    (hput : (p s).act st = some (.put event))
    (hevent : AppRrc.channelEvent event = some (lcid, e)) :
    let a := (p s).run (st :: oneEvent)
    Meeting lcid (Function.update p s a) (Function.update q s ((q s).step e)) ∧
      ∀ m, (q s).sent ++ [m] <+: ((q s).step e).sent → Says a m := by
  intro a
  have hstop : event ≠ .stop := by
    rintro rfl
    cases hevent
  obtain ⟨hready, hsame⟩ := (h.ready s).perform hput hstop
  have hcalling : calling (p s) event = (p s).onChannel lcid e := by
    unfold calling
    rw [hevent]
  rw [hcalling] at hsame
  have hchannel : a.channel lcid = some ((q s).step e) := by
    rw [hsame.channel, AppRrc.onChannel_channel_self, h.channel]
    rfl
  constructor
  · refine ⟨fun r => ?_, fun r => ?_, fun r => ?_⟩
    · by_cases hr : r = s
      · rw [hr, Function.update_self]
        exact hready
      · rw [Function.update_of_ne hr]
        exact h.ready r
    · by_cases hr : r = s
      · rw [hr, Function.update_self, Function.update_self]
        exact hchannel
      · rw [Function.update_of_ne hr, Function.update_of_ne hr]
        exact h.channel r
    · by_cases hr : r = s
      · rw [hr, Function.update_self]
        exact (h.speaks s).step e
      · rw [Function.update_of_ne hr]
        exact h.speaks r
  · rintro m ⟨rest, hrest⟩
    show packet m ∈ a.sent
    rw [hsame.sent, AppRrc.onChannel_sent, h.channel]
    refine List.mem_append_right _ (List.mem_map_of_mem ?_)
    rw [← hrest, List.append_assoc, List.drop_left]
    exact List.mem_append_left _ (List.mem_singleton.mpr rfl)

/-- The side asks for an exchange. -/
theorem Meeting.ask (h : Meeting lcid p q) (s : Side) :
    ∃ a, Reaches p (Function.update p s a) ∧
      Meeting lcid (Function.update p s a) (Function.update q s ((q s).step (.init true))) ∧
      Says a ⟨(q s).rrcReqId, .exchangeRequest (q s).fillFromConfig⟩ := by
  have hput : (p s).act (.onCmdInit lcid) = some (.put (.setup lcid true)) :=
    if_neg (Bool.eq_false_iff.mp (h.ready s).alive)
  obtain ⟨hmeet, hsays⟩ := h.call s hput rfl
  refine ⟨_, ?_, hmeet, hsays _ List.prefix_rfl⟩
  refine Reaches.own p s fun st hst => ?_
  rcases List.mem_cons.mp hst with rfl | hst
  · rfl
  · exact oneEvent_own st hst

/-- The side receives a message of the other. -/
theorem Meeting.hear (h : Meeting lcid p q) (s : Side) {m : ChannelRrc.Rrc}
    (hm : Says (p s.other) m) (hstor : m.exchange.Storable) (hto : m.exchange.lcid = lcid) :
    ∃ a, Reaches p (Function.update p s a) ∧
      Meeting lcid (Function.update p s a) (Function.update q s ((q s).step (ofMessage m))) ∧
      ∀ m', (q s).sent ++ [m'] <+: ((q s).step (ofMessage m)).sent → Says a m' := by
  have hput : (p s).act (.rrcRx (packet m)) = some (.put (.msg (toRrc m))) := by
    unfold AppRrc.act
    rw [if_neg (Bool.eq_false_iff.mp (h.ready s).alive)]
    dsimp only
    rw [decode_packet, List.isEmpty_eq_false_iff.mpr (packet_ne_nil m),
      (h.ready s).running.rrcRx]
    rfl
  have hevent : AppRrc.channelEvent (.msg (toRrc m)) = some (lcid, ofMessage m) := by
    rw [channelEvent_msg, ofRrc_toRrc hstor, hto]
  obtain ⟨hmeet, hsays⟩ := h.call s hput hevent
  exact ⟨_, Reaches.receive hm oneEvent_own, hmeet, hsays⟩

/-- The timers of the channel go on. -/
theorem exists_timer_steps {a : AppRrc} {c : Lcrrc} (htimer : a.timer2Running = true)
    (halive : a.terminated = false) (hc : a.channel lcid = some c) {es : List Event}
    (hes : ∀ e ∈ es, ∃ i, e = .extract i ∨ e = .fire i) :
    ∃ ss : List Step, (∀ s ∈ ss, s.isRrcRx = false) ∧
      (a.run ss).channel lcid = some (c.run es) := by
  induction es generalizing a c with
  | nil => exact ⟨[], fun s hs => (List.not_mem_nil hs).elim, hc⟩
  | cons e es ih =>
      have hstep : ∃ s : Step, s.isRrcRx = false ∧ a.step s = a.onChannel lcid e := by
        obtain ⟨i, rfl | rfl⟩ := hes e (List.mem_cons_self ..)
        · refine ⟨.extract lcid i, rfl, ?_⟩
          exact (if_neg (Bool.eq_false_iff.mp halive)).trans (if_pos htimer)
        · exact ⟨.fire lcid i, rfl, if_neg (Bool.eq_false_iff.mp halive)⟩
      obtain ⟨s, hs, hcall⟩ := hstep
      have hflags : (a.step s).timer2Running = true ∧ (a.step s).terminated = false := by
        rw [hcall]
        unfold AppRrc.onChannel
        split <;> exact ⟨htimer, halive⟩
      have hchannel : (a.step s).channel lcid = some (c.step e) := by
        rw [hcall, AppRrc.onChannel_channel_self, hc]
        rfl
      obtain ⟨ss, hss, hrun⟩ := ih hflags.1 hflags.2 hchannel
        fun x hx => hes x (List.mem_cons_of_mem _ hx)
      refine ⟨s :: ss, fun x hx => ?_, hrun⟩
      rcases List.mem_cons.mp hx with rfl | hx
      · exact hs
      · exact hss x hx

/-- A pending activation comes, behind the callbacks of the channel with an earlier deadline, and
the channel reads as before.  Those of other channels may come in between; they leave this one
alone. -/
theorem exists_active {a : AppRrc} {c : Lcrrc} (hready : Ready a) (hc : a.channel lcid = some c)
    (hp : c.ActivationPending) : ∃ (ss : List Step) (c' : Lcrrc), (∀ s ∈ ss, s.isRrcRx = false) ∧
      (a.run ss).channel lcid = some c' ∧ c'.txrxState = .active ∧ c'.rxLayout = c.rxLayout := by
  obtain ⟨es, hes, hactive⟩ := Lcrrc.exists_activation hp
  have htimer := Lcrrc.timer_of_byDeadline hes
  obtain ⟨ss, hss, hrun⟩ := exists_timer_steps hready.running.timer2 hready.alive hc htimer
  obtain ⟨ts, rfl⟩ := Lcrrc.exists_own_events htimer
  refine ⟨ss, _, hss, hrun, hactive, ?_⟩
  have hfold : c.run (ts.map OwnEvent.toEvent) = ts.foldl Lcrrc.protocol.own c := List.foldl_map
  rw [hfold]
  exact (c.own_run_wire ts).rx

/-- A message of the channel makes an activation pending. -/
theorem ofMessage_pending (c : Lcrrc) (m : ChannelRrc.Rrc) :
    (c.step (ofMessage m)).ActivationPending := by
  obtain ⟨requestID, message⟩ := m
  cases message with
  | exchangeRequest req => exact Lcrrc.scheduleActivate_pending _
  | exchangeResponse rsp => exact Lcrrc.scheduleActivate_pending _

/-- A request of one side makes an activation pending at both. -/
theorem Meeting.exchange (h : Meeting lcid p q) (s : Side) :
    ∃ p' q', Reaches p p' ∧ Meeting lcid p' q' ∧ ∀ r, (q' r).ActivationPending := by
  -- the request
  obtain ⟨a, hask, hasked, hsays⟩ := h.ask s
  have hreq : Says (Function.update p s a s.other.other)
      ⟨(q s).rrcReqId, .exchangeRequest (q s).fillFromConfig⟩ := by
    rw [Side.other_other, Function.update_self]
    exact hsays
  obtain ⟨b, hto, hheard, hanswers⟩ :=
    hasked.hear s.other hreq (q s).fillFromConfig_storable (h.speaks s).number
  -- the answer
  have hpeer : Function.update q s ((q s).step (.init true)) s.other = q s.other :=
    Function.update_of_ne s.other_ne _ _
  rw [hpeer] at hheard hanswers
  have hanswer := (q s.other).onExchangeRequest_sent (q s).rrcReqId (q s).fillFromConfig
  have hrsp : Says (Function.update (Function.update p s a) s.other b s.other)
      ⟨(q s).rrcReqId, .exchangeResponse (q s.other).fillFromConfig⟩ := by
    rw [Function.update_self]
    refine hanswers _ ?_
    change _ <+: ((q s.other).onExchangeRequest _ _).sent
    rw [hanswer.2]
  obtain ⟨d, hback, hdone, -⟩ :=
    hheard.hear s hrsp (q s.other).fillFromConfig_storable (h.speaks s.other).number
  refine ⟨_, _, (hask.trans hto).trans hback, hdone, fun r => ?_⟩
  by_cases hr : r = s
  · rw [hr, Function.update_self]
    exact ofMessage_pending _ _
  · have hother : r = s.other := by
      cases r <;> cases s <;> first | rfl | exact absurd rfl hr
    rw [hother, Function.update_of_ne s.other_ne, Function.update_self]
    exact ofMessage_pending _ _

/-- Both ends become active. -/
theorem Meeting.activate (h : Meeting lcid p q) (hp : ∀ s, (q s).ActivationPending) :
    ∃ p', Reaches p p' ∧ ∀ s, ∃ c, (p' s).channel lcid = some c ∧ c.txrxState = .active := by
  obtain ⟨near, c, hnear, hc, hactive, -⟩ := exists_active (h.ready .near) (h.channel .near) (hp .near)
  obtain ⟨far, d, hfar, hd, hactive', -⟩ := exists_active (h.ready .far) (h.channel .far) (hp .far)
  have hfirst := Reaches.own p .near hnear
  have hsecond := Reaches.own (Function.update p .near ((p .near).run near)) .far hfar
  refine ⟨_, hfirst.trans hsecond, fun s => ?_⟩
  cases s with
  | near =>
      refine ⟨c, ?_, hactive⟩
      rw [Function.update_of_ne (by decide), Function.update_self]
      exact hc
  | far =>
      refine ⟨d, ?_, hactive'⟩
      rw [Function.update_self, Function.update_of_ne (by decide)]
      exact hd

/-! ## Recovery -/

section Setup

variable {cfg : Side → Config} {chan : Side → ChannelConfig}

/-- As long as no node is stopped, their threads go on. -/
theorem going_run (es : List (PeerEvent Step)) (hstop : ∀ s, PeerEvent.own s .stop ∉ es)
    (h : ∀ s, (p s).Going) (s : Side) : (nodes.run p es s).Going := by
  induction es generalizing p with
  | nil => exact h s
  | cons e es ih =>
      refine ih (fun r hmem => hstop r (List.mem_cons_of_mem _ hmem)) fun r => ?_
      have hupdate : ∀ (t : Side) (a : AppRrc), a.Going → (Function.update p t a r).Going := by
        intro t a ha
        by_cases hr : r = t
        · rw [hr, Function.update_self]
          exact ha
        · rw [Function.update_of_ne hr]
          exact h r
      cases e with
      | own t st =>
          refine hupdate t _ ?_
          show (if st.isRrcRx then p t else (p t).step st).Going
          split_ifs
          · exact h t
          · refine (h t).step fun heq => ?_
            subst heq
            exact hstop t (List.mem_cons_self ..)
      | deliver t k =>
          show (Protocol.step nodes p (.deliver t k) r).Going
          cases hk : (p t.other).sent[k]? with
          | none =>
              have hstep : nodes.step p (.deliver t k) = p := by
                unfold Protocol.step
                dsimp only [nodes]
                rw [hk]
              rw [hstep]
              exact h r
          | some b =>
              rw [nodes.step_deliver (p := p) (s := t) (k := k) hk]
              refine hupdate t _ ?_
              show ((p t).step (.rrcRx b)).Going
              exact (h t).step fun heq => by cases heq

/-- The reactor comes to the end of what is there. -/
theorem going_ready {a : AppRrc} (h : a.Going) (halive : a.terminated = false) :
    (∀ s ∈ a.drain, s.isRrcRx = false) ∧ Ready (a.run a.drain) := by
  have hreactor : ∀ s ∈ a.drain, s.isRrcRx = false ∧ s ≠ .stop := by
    intro s hs
    obtain ⟨act, -, rfl⟩ := List.mem_map.mp hs
    cases act <;> exact ⟨rfl, fun heq => by cases heq⟩
  have hgoing : (a.run a.drain).Going := h.run fun hmem => (hreactor _ hmem).2 rfl
  have hdrained := h.drained halive
  exact ⟨fun s hs => (hreactor s hs).1, hgoing.running, hdrained.alive, hdrained.quiet⟩

/-- Both reactors do. -/
theorem exists_meeting (hlcid : lcid ≠ 0) (hlink : Linked lcid p q) (h : ∀ s, (p s).Going) :
    ∃ p' q', Reaches p p' ∧ Meeting lcid p' q' := by
  obtain ⟨hnear, hreadyNear⟩ := going_ready (h .near) (hlink .near).alive
  obtain ⟨hfar, hreadyFar⟩ := going_ready (h .far) (hlink .far).alive
  have hfirst := Reaches.own p .near hnear
  have hsecond :=
    Reaches.own (Function.update p .near ((p .near).run (p .near).drain)) .far hfar
  obtain ⟨es, hes⟩ := hfirst.trans hsecond
  obtain ⟨fs, hlink'⟩ := hlink.run hlcid es
  refine ⟨_, _, ⟨es, rfl⟩, fun s => ?_, fun s => (hlink' s).channel, fun s => ?_⟩
  · rw [hes]
    cases s with
    | near =>
        rw [Function.update_of_ne (by decide), Function.update_self]
        exact hreadyNear
    | far =>
        rw [Function.update_self, Function.update_of_ne (by decide)]
        exact hreadyFar
  · exact (hlink' s).speaks _ _ (hlink' s).channel

/-- What a channel of two ends keeps of its flags. -/
theorem flagsAgree_protocol (lcid : UInt8) (chan : Side → ChannelConfig)
    (fs : List (PeerEvent OwnEvent)) (s : Side) :
    (Lcrrc.protocol.run (Lcrrc.peers lcid chan) fs s).FlagsAgree := by
  refine Protocol.invariant_run (I := fun _ => Lcrrc.FlagsAgree) (M := fun _ _ => True)
    (fun _ _ _ _ _ => trivial) (fun _ c e hc => hc.step e.toEvent) (fun _ c m hc _ => ?_) fs
    (fun _ => .of_down ⟨rfl, rfl, rfl, rfl, rfl, rfl⟩ rfl) s
  show (c.onRrcMessage m).FlagsAgree
  unfold Lcrrc.onRrcMessage
  split
  · split <;> exact hc.step _
  · exact hc

/-- **A channel can always come up**: in every run of two nodes that are not stopped,
whatever has been lost, doubled or reordered, whatever failed and whatever is pending, there
is a way to go on that makes a channel other than 0 active at both ends, with all six flags
set. -/
theorem channel_recovers (hlcid : lcid ≠ 0) (hchan : ∀ s, (cfg s).channel lcid = some (chan s))
    (es : List (PeerEvent Step)) (hstop : ∀ s, PeerEvent.own s .stop ∉ es) :
    ∃ fs, ∀ s, ∃ c, (nodes.run (fun s => AppRrc.setup (cfg s)) (es ++ fs) s).channel lcid = some c ∧
      c.txrxState = .active ∧ c.AllFlags true := by
  have hgoing := going_run es hstop fun s => AppRrc.Going.setup (cfg s)
  obtain ⟨gs, hlink⟩ := (Linked.setup hlcid hchan).run hlcid es
  obtain ⟨p, q, hdrain, hmeet⟩ := exists_meeting hlcid hlink hgoing
  obtain ⟨p', q', hexchange, hmeet', hpending⟩ := hmeet.exchange .near
  obtain ⟨p'', hactivate, hactive⟩ := hmeet'.activate hpending
  obtain ⟨fs, rfl⟩ := (hdrain.trans hexchange).trans hactivate
  refine ⟨fs, fun s => ?_⟩
  obtain ⟨c, hc, hstate⟩ := hactive s
  rw [← nodes.run_append] at hc
  refine ⟨c, hc, hstate, ?_⟩
  obtain ⟨hs, hview⟩ := (Linked.setup hlcid hchan).run hlcid (es ++ fs)
  obtain rfl := Option.some.inj (hc.symm.trans (hview s).channel)
  exact (flagsAgree_protocol lcid chan hs s).active hstate

/-! ## Layouts -/

/-- What a node sets up is what the node itself sends with. -/
theorem channel_crc {cfg : Config} {c : ChannelConfig} (h : cfg.channel lcid = some c) :
    c.llcRx.crcType = c.llcTx.crcType := by
  unfold Config.channel at h
  split at h
  · split_ifs at h
    cases h
    rfl
  · cases h

/-- The nodes as they are set up. -/
theorem meeting_setup (hlcid : lcid ≠ 0) (hchan : ∀ s, (cfg s).channel lcid = some (chan s)) :
    Meeting lcid (fun s => AppRrc.setup (cfg s)) (Lcrrc.peers lcid chan) :=
  ⟨fun _ => ⟨⟨rfl, rfl, rfl⟩, rfl, rfl, rfl⟩,
    fun s => (Linked.setup hlcid hchan s).channel,
    fun s => (Linked.setup hlcid hchan s).speaks _ _ (Linked.setup hlcid hchan s).channel⟩

/-- An active end reads with the layout that its peer sends with. -/
def NodesAgree (lcid : UInt8) (p : Side → AppRrc) : Prop :=
  ∀ s c c', (p s).channel lcid = some c → (p s.other).channel lcid = some c' →
    c.txrxState = .active → c.rxLayout = c'.txLayout

/-- One exchange: the end that reads with a CRC keeps its size when the peer has none. -/
theorem crc_of_agree (hlcid : lcid ≠ 0) (hchan : ∀ s, (cfg s).channel lcid = some (chan s))
    (h : ∀ es, NodesAgree lcid (nodes.run (fun s => AppRrc.setup (cfg s)) es)) (s : Side)
    (hrx : (chan s).llcTx.crcType = .crc32) : (chan s.other).llcTx.crcType = .crc32 := by
  have hstart := meeting_setup hlcid hchan
  obtain ⟨a, hask, hasked, hsays⟩ := hstart.ask s.other
  have hreq : Says (Function.update (fun s => AppRrc.setup (cfg s)) s.other a s.other)
      ⟨(Lcrrc.peers lcid chan s.other).rrcReqId,
        .exchangeRequest (Lcrrc.peers lcid chan s.other).fillFromConfig⟩ := by
    rw [Function.update_self]
    exact hsays
  obtain ⟨b, hto, hheard, -⟩ := hasked.hear s hreq
    (Lcrrc.peers lcid chan s.other).fillFromConfig_storable (hstart.speaks s.other).number
  have hself : Function.update (Lcrrc.peers lcid chan) s.other
      ((Lcrrc.peers lcid chan s.other).step (.init true)) s = Lcrrc.peers lcid chan s :=
    Function.update_of_ne s.other_ne.symm _ _
  rw [hself] at hheard
  obtain ⟨ss, c, hss, hc, hactive, hlayout⟩ :=
    exists_active (hheard.ready s) (hheard.channel s) (by
      rw [Function.update_self]
      exact ofMessage_pending _ _)
  rw [Function.update_self] at hlayout
  have hpeer := hheard.channel s.other
  have hfire := Reaches.own (Function.update (Function.update
    (fun s => AppRrc.setup (cfg s)) s.other a) s b) s hss
  obtain ⟨es, hes⟩ := (hask.trans hto).trans hfire
  have hagree := h es s
  rw [hes] at hagree
  have hall := hagree c _ (by rw [Function.update_self]; exact hc)
    (by rw [Function.update_of_ne s.other_ne]; exact hpeer) hactive
  rw [Function.update_of_ne s.other_ne, Function.update_self] at hall
  -- the size that is kept, and the size that is sent
  obtain ⟨htx, hsize⟩ := Lcrrc.new_layouts lcid (chan s)
  obtain ⟨htx', -⟩ := Lcrrc.new_layouts lcid (chan s.other)
  have hsized : (Lcrrc.peers lcid chan s).Sized := fun hcrc =>
    (congrArg Layout.crcSize htx).trans (if_pos hcrc)
  have hrecv := Lcrrc.onExchangeRequest_received hsized (Lcrrc.peers lcid chan s.other).rrcReqId
    (Lcrrc.peers lcid chan s.other).fillFromConfig
  have hkept := congrArg Layout.crcSize hrecv.rx
  have hwire := (Lcrrc.own_wire (Lcrrc.peers lcid chan s.other) (.init true)).tx
  have heq := congrArg Layout.crcSize ((hlayout.symm.trans hall).trans (hwire.trans htx'))
  have hfour : (Lcrrc.peers lcid chan s).llc.rxCrcSize = 4 := by
    rw [channel_crc (hchan s), if_pos hrx] at hsize
    exact hsize
  rw [hfour] at hkept
  have hsizes : (if crcToConfig (crcToRrc (chan s.other).llcTx.crcType) = .crc32 then 4 else 4) =
      if (chan s.other).llcTx.crcType = .crc32 then 4 else 0 := hkept.symm.trans heq
  by_contra hnone
  rw [if_neg hnone, ite_self] at hsizes
  cases hsizes

/-- **Nodes agree on a channel when they agree on its CRC.**  For a channel other than 0 of
two nodes: in every run an active end reads with the layout that its peer sends with, if and
only if both nodes are configured with the same CRC for the channel.  Nothing else of the
configuration matters, and neither do the other channels. -/
theorem nodes_agree_iff (hlcid : lcid ≠ 0) (hchan : ∀ s, (cfg s).channel lcid = some (chan s)) :
    (∀ es, NodesAgree lcid (nodes.run (fun s => AppRrc.setup (cfg s)) es)) ↔
      (chan .near).llcTx.crcType = (chan .far).llcTx.crcType := by
  constructor
  · intro h
    have hnear := crc_of_agree hlcid hchan h .near
    have hfar := crc_of_agree hlcid hchan h .far
    change _ → (chan .far).llcTx.crcType = _ at hnear
    change _ → (chan .near).llcTx.crcType = _ at hfar
    cases hn : (chan .near).llcTx.crcType with
    | crc32 => exact (hnear hn).symm
    | none =>
        cases hf : (chan .far).llcTx.crcType with
        | none => rfl
        | crc32 => exact absurd (hn.symm.trans (hfar hf)) (by decide)
  · intro hcrc es s c c' hc hc' hactive
    have hcomp : ∀ s, Lcrrc.Compatible lcid (chan s) (chan s.other) := by
      intro s
      refine ⟨?_, fun hzero => absurd hzero hlcid⟩
      have hsame : (chan s.other).llcTx.crcType = (chan s).llcRx.crcType := by
        rw [channel_crc (hchan s)]
        cases s
        · exact hcrc.symm
        · exact hcrc
      rw [hsame]
      cases (chan s).llcRx.crcType
      · exact Or.inr rfl
      · exact Or.inl rfl
    obtain ⟨fs, hview⟩ := (Linked.setup hlcid hchan).run hlcid es
    obtain rfl := Option.some.inj (hc.symm.trans (hview s).channel)
    obtain rfl := Option.some.inj (hc'.symm.trans (hview s.other).channel)
    exact Lcrrc.layoutsAgree_run hcomp fs s hactive

end Setup

/-- Two nodes with channel 1: the far one asks for an exchange, and the near one becomes
active. -/
def oneExchange : List (PeerEvent Step) :=
  (.own .far (.onCmdInit 1) :: oneEvent.map (.own .far)) ++
    (.deliver .near 0 :: oneEvent.map (.own .near)) ++
    [.own .near (.extract 1 0), .own .near (.fire 1 0)]

/-- Behind it, they can do it again. -/
theorem channel_recovers_again :
    ∃ fs, ∀ s, ∃ c, (nodes.run (fun _ => AppRrc.setup AppRrc.oneChannel)
      (oneExchange ++ fs) s).channel 1 = some c ∧ c.txrxState = .active ∧ c.AllFlags true :=
  @channel_recovers 1 (fun _ => AppRrc.oneChannel) (fun _ => {}) (by decide) (fun _ => rfl)
    oneExchange fun s => by cases s <;> decide

/-- Both nodes have no CRC for the channel. -/
theorem nodes_agree_oneChannel :
    NodesAgree 1 (nodes.run (fun _ => AppRrc.setup AppRrc.oneChannel) oneExchange) :=
  (@nodes_agree_iff 1 (fun _ => AppRrc.oneChannel) (fun _ => {}) (by decide) (fun _ => rfl)).mpr rfl
    oneExchange

end Winject.Node
