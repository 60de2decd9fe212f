import Winject.ChannelRrc.LinkFailure
import Winject.EndPoint.Tcp
import Winject.Node.Events
import Winject.Node.Messages

/-!
# A node with a TCP end point

The channel of an end point enables and disables it, and the end point puts set-ups and
link failures on the queue of its node.  What a call of the channel does to the end point
comes behind it, in steps of its own.

The handlers of the channel and the calls of the end point are taken to be serialized, each in
one step: the reactor, the timer's thread and the end point's are not kept apart by a lock, and
inside a handler they could interleave.

## Main results

* `Stranded.step` — a server with a client asks for no set-up.
* `client_stranded` — a client whose channel has failed.
-/

namespace Winject.ChannelRrc.Lcrrc

/-- What a callback sets the end point to. -/
def callbackEp (c : Lcrrc) : Callback → Option Bool
  | .activate => some true
  | .expiry maxRetry reqId _ =>
    if c.rrcRequests reqId ≠ none ∧ maxRetry - 1 = 0 then some false else none

/-- What an event sets the end point to. -/
def epCall (c : Lcrrc) : Event → Option Bool
  | .rlf => some false
  | .request _ _ => if c.txrxState = .active then some false else none
  | .fire i => c.timer.extracted[i]?.bind c.callbackEp
  | _ => none

/-- The flags of the end point behind an event, and whether it activates the channel. -/
structure EpCalled (c c' : Lcrrc) (call : Option Bool) : Prop where
  ep : c'.ep = match call with
    | none => c.ep
    | some value => { isTxEnabled := value, isRxEnabled := value }
  active : c'.txrxState = .active → call = some true ∨ call = none ∧ c.txrxState = .active

theorem call_epCalled (c : Lcrrc) (cb : Callback) : EpCalled c (c.call cb) (c.callbackEp cb) := by
  cases cb with
  | activate => exact ⟨rfl, fun _ => Or.inl rfl⟩
  | expiry maxRetry reqId first =>
      show EpCalled c (c.onExpiry maxRetry reqId first)
        (if c.rrcRequests reqId ≠ none ∧ maxRetry - 1 = 0 then some false else none)
      unfold onExpiry
      cases hcontext : c.rrcRequests reqId with
      | none =>
          rw [if_neg fun h => h.1 rfl]
          exact ⟨rfl, fun h => Or.inr ⟨rfl, h⟩⟩
      | some context =>
          dsimp only [allocateReqId]
          unfold autoSendRrc
          by_cases hlast : maxRetry - 1 = 0
          · rw [if_pos hlast, if_pos ⟨Option.some_ne_none _, hlast⟩]
            exact ⟨rfl, fun h => by cases h⟩
          · rw [if_neg hlast, if_neg fun h => hlast h.2]
            exact ⟨rfl, fun h => Or.inr ⟨rfl, h⟩⟩

theorem step_epCalled (c : Lcrrc) (e : Event) : EpCalled c (c.step e) (c.epCall e) := by
  cases e with
  | init forced =>
      show EpCalled c (c.onInit forced) none
      rcases c.onInit_cases forced with heq | ⟨-, hsame, hstate⟩
      · rw [heq]
        exact ⟨rfl, fun h => Or.inr ⟨rfl, h⟩⟩
      · refine ⟨hsame.ep, fun h => ?_⟩
        cases hstate.symm.trans h
  | request reqId req =>
      refine ⟨?_, fun h => by cases h⟩
      show (if c.txrxState = .active then c.onRlf else c).ep =
        match (if c.txrxState = .active then some false else none) with
        | none => c.ep
        | some value => { isTxEnabled := value, isRxEnabled := value }
      split_ifs <;> rfl
  | response reqId rsp =>
      refine ⟨?_, fun h => by cases h⟩
      show (c.onExchangeResponse reqId rsp).ep = c.ep
      unfold onExchangeResponse checkResponse
      split <;> rfl
  | rlf => exact ⟨rfl, fun h => by cases h⟩
  | extract i => exact ⟨rfl, fun h => Or.inr ⟨rfl, h⟩⟩
  | fire i =>
      show EpCalled c (c.fire i) (c.timer.extracted[i]?.bind c.callbackEp)
      unfold fire
      cases c.timer.extracted[i]? with
      | none => exact ⟨rfl, fun h => Or.inr ⟨rfl, h⟩⟩
      | some cb =>
          have hcall := call_epCalled { c with timer := c.timer.fired i } cb
          exact ⟨hcall.ep, hcall.active⟩
  | allocate => exact ⟨rfl, fun h => Or.inr ⟨rfl, h⟩⟩

/-- Not configured, with nothing enabled and nothing to come. -/
structure Idle (c : Lcrrc) : Prop where
  state : c.txrxState = .notConfigured
  down : c.Down

/-- Only a set-up or a message of an exchange changes that. -/
theorem Idle.step {c : Lcrrc} (h : c.Idle) {e : Event} (he : ¬ e.IsExchange)
    (hinit : ∀ forced, e ≠ .init forced) : (c.step e).Idle := by
  refine ⟨?_, h.down.step he⟩
  cases e with
  | init forced => exact absurd rfl (hinit forced)
  | request reqId req => exact absurd trivial he
  | response reqId rsp => exact absurd trivial he
  | rlf => rfl
  | extract i => exact h.state
  | fire i =>
      show (c.fire i).txrxState = .notConfigured
      unfold fire
      cases hcb : c.timer.extracted[i]? with
      | none => exact h.state
      | some cb =>
          cases cb with
          | activate =>
              exact absurd (List.mem_append_right _ (List.mem_of_getElem? hcb)) h.down.noActivation
          | expiry maxRetry reqId first =>
              rcases onExpiry_same { c with timer := c.timer.fired i } maxRetry reqId first with
                ⟨-, hstate⟩ | ⟨-, hstate⟩
              · exact hstate.trans h.state
              · exact hstate
  | allocate => exact h.state

end Winject.ChannelRrc.Lcrrc

namespace Winject.EndPoint

open Winject.ChannelRrc
open Winject.Lib.EventQueue
open Winject.Node

/-! ## The model -/

/-- A node, and the end point of one of its channels. -/
structure Site where
  node : AppRrc
  driven : Driven

/-- A step of a thread of the node, a part of a call of the end point, or a step of the
thread of the end point. -/
inductive SiteStep where
  | node (s : Step)
  | op (target : Option Nat) (ok : Bool)
  | thread (input : Input)
  deriving DecidableEq, Repr

/-- What a step of the node sets the end point to. -/
def epCalled (lcid : UInt8) (a : AppRrc) (s : Step) : Option Bool :=
  match a.dispatch s with
  | none => none
  | some (other, e) => if other = lcid then (a.channel lcid).bind fun c => c.epCall e else none

namespace Site

variable (lcid : UInt8)

/-- `AppRRC::on_init` and `AppRRC::on_rlf`. -/
def hear (a : AppRrc) : Ask → AppRrc
  | .init => a.step (.onInit lcid)
  | .rlf => a.step (.onRlf lcid)

/-- A step of the end point, with what it asks for. -/
def onEp (st : Site) (s : DrivenStep) : Site :=
  let d := st.driven.step s
  { node := (d.ep.asked.drop st.driven.ep.asked.length).foldl (hear lcid) st.node
    driven := d }

/-- One step. -/
def step (st : Site) : SiteStep → Site
  | .node s =>
    { node := st.node.step s
      driven := match epCalled lcid st.node s with
        | none => st.driven
        | some value => st.driven.step (.enable value) }
  | .op target ok => st.onEp lcid (.op target ok)
  | .thread input => st.onEp lcid (.thread input)

/-- A run. -/
def run (st : Site) (ss : List SiteStep) : Site := ss.foldl (step lcid) st

/-- A node and an end point that have been constructed. -/
def setup (cfg : Config) (role : Role) : Site := ⟨.setup cfg, .start role⟩

end Site

/-! ## Steps of the node -/

/-- What a step of the node is to one channel. -/
theorem channel_cases (a : AppRrc) (lcid : UInt8) (s : Step) {c' : Lcrrc}
    (h : (a.step s).channel lcid = some c') : ∃ c, a.channel lcid = some c ∧
      ((∃ e, a.dispatch s = some (lcid, e) ∧ c' = c.step e) ∨
        epCalled lcid a s = none ∧ (c' = c ∨ c' = c.step .allocate)) := by
  rw [(a.step_same s).channel] at h
  unfold epCalled
  cases hcall : a.dispatch s with
  | none =>
      rw [hcall] at h
      exact ⟨c', h, Or.inr ⟨rfl, Or.inl rfl⟩⟩
  | some call =>
      obtain ⟨other, e⟩ := call
      rw [hcall] at h
      dsimp only at h ⊢
      by_cases heq : other = lcid
      · subst heq
        rw [AppRrc.onChannel_channel_self] at h
        obtain ⟨c, hc, rfl⟩ := Option.map_eq_some_iff.mp h
        exact ⟨c, hc, Or.inl ⟨e, rfl, rfl⟩⟩
      · rw [if_neg heq]
        rcases a.onChannel_channel_of_ne (Ne.symm heq) e with hsame | htaken
        · rw [hsame] at h
          exact ⟨c', h, Or.inr ⟨rfl, Or.inl rfl⟩⟩
        · rw [htaken] at h
          obtain ⟨c, hc, rfl⟩ := Option.map_eq_some_iff.mp h
          exact ⟨c, hc, Or.inr ⟨rfl, Or.inr rfl⟩⟩

/-- The call of a channel comes from the queue, or from its timer. -/
theorem dispatch_event {a : AppRrc} {s : Step} {lcid : UInt8} {e : Event}
    (h : a.dispatch s = some (lcid, e)) :
    (∃ event ∈ a.mail.pending, AppRrc.channelEvent event = some (lcid, e)) ∨
      (∃ i, e = .extract i ∨ e = .fire i) := by
  unfold AppRrc.dispatch at h
  by_cases hend : a.terminated = true
  · rw [if_pos hend] at h
    cases h
  rw [if_neg hend] at h
  cases s with
  | handle =>
      obtain ⟨event, hnext, hevent⟩ := Option.bind_eq_some_iff.mp h
      refine Or.inl ⟨event, ?_, hevent⟩
      rw [← Mailbox.work_pending, hnext]
      exact List.mem_cons_self ..
  | extract other i =>
      dsimp only at h
      split_ifs at h
      cases h
      exact Or.inr ⟨i, Or.inl rfl⟩
  | fire other i =>
      cases h
      exact Or.inr ⟨i, Or.inr rfl⟩
  | _ => cases h

/-! ## A stranded client -/

/-- The step asks for a set-up of the channel, or is a message for it. -/
def Wakes (lcid : UInt8) : SiteStep → Prop
  | .node (.onInit other) => other = lcid
  | .node (.onCmdInit other) => other = lcid
  | .node (.rrcRx b) => ∃ decoded, (Interface.Rrc.decodePer {}).run b = some decoded ∧
      (ofRrc decoded.1).exchange.lcid = lcid
  | _ => False

/-- A server with a client, whose channel is idle; only link failures of it are pending. -/
structure Stranded (lcid : UInt8) (client : Sock) (st : Site) : Prop where
  role : st.driven.ep.role = .server
  sock : st.driven.ep.sock = some client
  idle : ∀ c, st.node.channel lcid = some c → c.Idle
  events : ∀ event ∈ st.node.mail.pending, ∀ e,
    AppRrc.channelEvent event = some (lcid, e) → e = .rlf

namespace Stranded

variable {lcid : UInt8} {client : Sock} {st : Site}

/-- What a step of the node puts for the channel. -/
theorem puts_rlf {a : AppRrc} {s : Step} (hs : ¬ Wakes lcid (.node s)) {event : RrcEvent}
    (h : event ∈ Mailbox.puts (a.act s).toList) {e : Event}
    (he : AppRrc.channelEvent event = some (lcid, e)) : e = .rlf := by
  unfold AppRrc.act at h
  by_cases hend : a.terminated = true
  · rw [if_pos hend] at h
    cases h
  rw [if_neg hend] at h
  cases s with
  | onRlf other =>
      rw [List.mem_singleton.mp h] at he
      cases he
      rfl
  | onInit other =>
      rw [List.mem_singleton.mp h] at he
      cases he
      exact absurd rfl hs
  | onCmdInit other =>
      rw [List.mem_singleton.mp h] at he
      cases he
      exact absurd rfl hs
  | stop =>
      rw [List.mem_singleton.mp h] at he
      cases he
  | rrcRx b =>
      dsimp only at h
      split_ifs at h
      · cases h
      · cases hdec : (Interface.Rrc.decodePer {}).run b with
        | none =>
            rw [hdec] at h
            cases h
        | some decoded =>
            rw [hdec] at h
            rw [List.mem_singleton.mp h, channelEvent_msg] at he
            exact absurd ⟨decoded, hdec, (Prod.mk.inj (Option.some.inj he)).1⟩ hs
  | wake =>
      dsimp only at h
      split_ifs at h <;> cases h
  | take => cases h
  | handle => cases h
  | extract other i => cases h
  | fire other i => cases h

theorem idle_step (h : ∀ c, st.node.channel lcid = some c → c.Idle)
    (hevents : ∀ event ∈ st.node.mail.pending, ∀ e,
      AppRrc.channelEvent event = some (lcid, e) → e = .rlf) (s : Step) {c' : Lcrrc}
    (hc' : (st.node.step s).channel lcid = some c') : c'.Idle := by
  obtain ⟨c, hc, ⟨e, hcall, rfl⟩ | ⟨-, rfl | rfl⟩⟩ := channel_cases st.node lcid s hc'
  · rcases dispatch_event hcall with ⟨event, hmem, hevent⟩ | ⟨i, rfl | rfl⟩
    · obtain rfl := hevents event hmem e hevent
      exact (h c hc).step id fun _ heq => by cases heq
    · exact (h c hc).step id fun _ heq => by cases heq
    · exact (h c hc).step id fun _ heq => by cases heq
  · exact h _ hc
  · exact (h c hc).step id fun _ heq => by cases heq

/-- A step of the node. -/
theorem onNode (h : Stranded lcid client st) {s : Step} (hs : ¬ Wakes lcid (.node s)) :
    (∀ c, (st.node.step s).channel lcid = some c → c.Idle) ∧
      ∀ event ∈ (st.node.step s).mail.pending, ∀ e,
        AppRrc.channelEvent event = some (lcid, e) → e = .rlf := by
  refine ⟨fun c hc => idle_step h.idle h.events s hc, fun event hmem e he => ?_⟩
  rcases AppRrc.step_pending hmem with hold | hnew
  · exact h.events event hold e he
  · exact puts_rlf hs hnew he

/-- What a server asks for. -/
theorem onEp (h : Stranded lcid client st) (s : DrivenStep) :
    Stranded lcid client (st.onEp lcid s) := by
  have hrole := Driven.step_role h.role s
  obtain ⟨input, hdoes, -⟩ := (Driven.step_serves h.role s).does
  unfold Site.onEp
  cases hdoes with
  | nothing hsock hasked =>
      dsimp only
      rw [hasked, List.drop_length]
      exact ⟨hrole, hsock.trans h.sock, h.idle, h.events⟩
  | hangUp hpeer hsock hasked =>
      dsimp only
      rw [hasked, List.drop_left]
      obtain ⟨hidle, hevents⟩ := @onNode lcid client st h (.onRlf lcid) id
      exact ⟨hrole, hsock.trans h.sock, hidle, hevents⟩
  | accept fd hfd hfree hsock hasked =>
      rw [h.sock] at hfree
      cases hfree

theorem step (h : Stranded lcid client st) {s : SiteStep} (hs : ¬ Wakes lcid s) :
    Stranded lcid client (st.step lcid s) := by
  cases s with
  | node s =>
      obtain ⟨hidle, hevents⟩ := h.onNode hs
      show Stranded lcid client ⟨st.node.step s, _⟩
      cases epCalled lcid st.node s with
      | none => exact ⟨h.role, h.sock, hidle, hevents⟩
      | some value => exact ⟨h.role, h.sock, hidle, hevents⟩
  | op target ok => exact h.onEp _
  | thread input => exact h.onEp _

end Stranded

/-- **A client whose channel has failed is stranded.**  Once the channel of a server with a
client is idle and only link failures of it are pending, the node itself never sets it up
again: as long as no one else asks for a set-up and the peer sends no message for it, the
channel stays idle in every run, and the server keeps its client and takes no other. -/
theorem client_stranded (cfg : Config) (lcid : UInt8) (ss ss' : List SiteStep) {client : Sock}
    (h : Stranded lcid client ((Site.setup cfg .server).run lcid ss))
    (hss' : ∀ s ∈ ss', ¬ Wakes lcid s) :
    Stranded lcid client ((Site.setup cfg .server).run lcid (ss ++ ss')) := by
  have hrun : ∀ st, Stranded lcid client st → Stranded lcid client (st.run lcid ss') := by
    induction ss' with
    | nil => exact fun _ h => h
    | cons s ss' ih =>
        exact fun st h => ih (fun x hx => hss' x (List.mem_cons_of_mem _ hx)) _
          (h.step (hss' s (List.mem_cons_self ..)))
  rw [Site.run, List.foldl_append]
  exact hrun _ h

/-- Channel 1 only, with a TCP server. -/
def oneServer : Config :=
  { AppRrc.oneChannel with epConfigs := fun lcid => if lcid = 1 then some .tcps else none }

/-- A client connects, its channel is asked for, and fails. -/
def failing : List SiteStep :=
  [.thread (.select (.ready ⟨false, true, false⟩)), .thread (.accept (some 7))] ++
    [.node .wake, .node .take, .node .handle, .node .handle, .node (.onRlf 1), .node .wake,
      .node .take, .node .handle, .node .handle] ++ List.replicate 8 (.op none false)

/-- The client hangs up behind that. -/
theorem client_stranded_failing :
    Stranded 1 ⟨7, true⟩ ((Site.setup oneServer .server).run 1 (failing ++
      [.thread (.select (.ready ⟨true, false, false⟩)), .thread (.recv (.data [])),
        .node .wake, .node .take, .node .handle])) := by
  have hidle : (((Site.setup oneServer .server).run 1 failing).node.channel 1).all (fun c =>
      decide (c.txrxState = .notConfigured ∧ c.AllFlags false ∧ ¬ c.ActivationPending)) = true := by
    decide +kernel
  refine client_stranded oneServer 1 failing _ ⟨rfl, by decide +kernel, fun c hc => ?_, ?_⟩ ?_
  · rw [hc] at hidle
    obtain ⟨hstate, hflags, hno⟩ := of_decide_eq_true hidle
    exact ⟨hstate, ⟨⟨by rw [hstate]; decide, hflags⟩, hno⟩⟩
  · exact fun event hmem => (List.not_mem_nil hmem).elim
  · simp [Wakes]

end Winject.EndPoint
