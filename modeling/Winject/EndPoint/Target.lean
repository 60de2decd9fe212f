import Winject.EndPoint.Site

/-!
# The target of an active channel

A client connects to its target when both of its flags have been set, and reports a link
failure when it cannot.  The calls of a channel come behind its events and the reports go
through the queue of the node, so a channel can be active without a target; but then there
is something on the way that ends that.

The handlers and the calls are serialized as in `Winject.EndPoint.Site`, which is assumed of
the threads and not enforced by the source.

## Main results

* `Dialled.step` — what a client keeps, with the calls that are in progress.
* `target_or_failure` — the target of an active channel.
-/

namespace Winject.EndPoint

open Winject.ChannelRrc
open Winject.Lib.EventQueue
open Winject.Node

/-! ## Calls in progress -/

/-- The flags behind the calls in progress. -/
def flagsBehind (f : ChannelRrc.EndPoint) : List EpOp → ChannelRrc.EndPoint
  | [] => f
  | .setTx value :: ops => flagsBehind { f with isTxEnabled := value } ops
  | .setRx value :: ops => flagsBehind { f with isRxEnabled := value } ops
  | _ :: ops => flagsBehind f ops

/-- Behind a flag that is to be set the state is checked. -/
def Checked : List EpOp → Prop
  | [] => True
  | .setTx _ :: ops => .checkState ∈ ops ∧ Checked ops
  | .setRx _ :: ops => .checkState ∈ ops ∧ Checked ops
  | _ :: ops => Checked ops

theorem flagsBehind_setEnabled (f : ChannelRrc.EndPoint) (ops : List EpOp) (value : Bool) :
    flagsBehind f (ops ++ setEnabled value) = ⟨value, value⟩ := by
  induction ops generalizing f with
  | nil => rfl
  | cons o ops ih => cases o <;> exact ih _

theorem Checked.append {ops : List EpOp} (h : Checked ops) (value : Bool) :
    Checked (ops ++ setEnabled value) := by
  induction ops with
  | nil => exact ⟨by simp, by simp, trivial⟩
  | cons o ops ih =>
      cases o with
      | setTx v => exact ⟨List.mem_append_left _ h.1, ih h.2⟩
      | setRx v => exact ⟨List.mem_append_left _ h.1, ih h.2⟩
      | checkState => exact ih h
      | push event => exact ih h
      | announce => exact ih h
      | halt => exact ih h

/-- Where no state is to be checked no flag is to be set. -/
theorem Checked.flagsBehind {ops : List EpOp} (h : Checked ops) (hno : .checkState ∉ ops)
    (f : ChannelRrc.EndPoint) : flagsBehind f ops = f := by
  induction ops with
  | nil => rfl
  | cons o ops ih =>
      rw [List.mem_cons, not_or] at hno
      cases o with
      | setTx v => exact absurd h.1 hno.2
      | setRx v => exact absurd h.1 hno.2
      | checkState => exact absurd rfl hno.1
      | push event => exact ih h hno.2
      | announce => exact ih h hno.2
      | halt => exact ih h hno.2

/-! ## The queue of the node -/

/-- Only the reactor works on an event. -/
theorem act_work {a : AppRrc} {s : Step} (h : a.act s = some .work) :
    a.terminated = false ∧ s = .handle := by
  unfold AppRrc.act at h
  by_cases hend : a.terminated = true
  · rw [if_pos hend] at h
    cases h
  rw [if_neg hend] at h
  refine ⟨Bool.eq_false_iff.mpr hend, ?_⟩
  cases s with
  | rrcRx b =>
      dsimp only at h
      split_ifs at h
      obtain ⟨decoded, -, hput⟩ := Option.map_eq_some_iff.mp h
      cases hput
  | wake =>
      dsimp only at h
      split_ifs at h
      cases h
  | handle => rfl
  | _ => cases h

/-- An event is pending until it is handled. -/
theorem pending_stays {a : AppRrc} {event : RrcEvent} (h : event ∈ a.mail.pending) (s : Step) :
    event ∈ (a.step s).mail.pending ∨
      a.terminated = false ∧ s = .handle ∧ a.mail.next = some event := by
  rw [AppRrc.step_mail]
  cases hact : a.act s with
  | none => exact Or.inl h
  | some act =>
      dsimp only
      cases act with
      | put other =>
          left
          rw [Mailbox.step, Mailbox.put_pending]
          exact List.mem_append_left _ h
      | wake =>
          left
          rw [Mailbox.step, Mailbox.wake_pending]
          exact h
      | take =>
          left
          rw [Mailbox.step, Mailbox.take_pending]
          exact h
      | work =>
          rw [← Mailbox.work_pending] at h
          rcases List.mem_append.mp h with hnext | hrest
          · right
            obtain ⟨halive, rfl⟩ := act_work hact
            exact ⟨halive, rfl, Option.mem_toList.mp hnext⟩
          · exact Or.inl hrest

/-- A link failure of a channel stays until it sets the end point. -/
theorem rlf_stays {lcid : UInt8} {a : AppRrc} {s : Step} {c : Lcrrc}
    (h : RrcEvent.rlf lcid ∈ a.mail.pending) (hc : a.channel lcid = some c)
    (hcall : epCalled lcid a s = none) : RrcEvent.rlf lcid ∈ (a.step s).mail.pending := by
  rcases pending_stays h s with hstays | ⟨halive, rfl, hnext⟩
  · exact hstays
  · have hdispatch : a.dispatch .handle = some (lcid, .rlf) := by
      unfold AppRrc.dispatch
      rw [if_neg (Bool.eq_false_iff.mp halive), hnext]
      rfl
    unfold epCalled at hcall
    rw [hdispatch] at hcall
    dsimp only at hcall
    rw [if_pos rfl, hc] at hcall
    cases hcall

/-- A node that has ended does nothing. -/
theorem alive_before {a : AppRrc} {s : Step} (h : (a.step s).terminated = false) :
    a.terminated = false := by
  by_contra hend
  have hsame : a.step s = a := by
    unfold AppRrc.step
    rw [if_pos (by simpa using hend)]
  rw [hsame] at h
  exact hend h

/-- What the node hears from the end point. -/
structure Heard (lcid : UInt8) (asks : List Ask) (a a' : AppRrc) : Prop where
  channel : a'.channel lcid = a.channel lcid
  terminated : a'.terminated = a.terminated
  pending : ∀ event ∈ a.mail.pending, event ∈ a'.mail.pending
  rlf : a.terminated = false → Ask.rlf ∈ asks → RrcEvent.rlf lcid ∈ a'.mail.pending

theorem hear_heard (lcid : UInt8) (a : AppRrc) (call : Ask) :
    Heard lcid [call] a (Site.hear lcid a call) := by
  by_cases hend : a.terminated = true
  · have hsame : ∀ s, a.step s = a := by
      intro s
      unfold AppRrc.step
      rw [if_pos hend]
    have hhear : Site.hear lcid a call = a := by
      cases call with
      | init => exact hsame (.onInit lcid)
      | rlf => exact hsame (.onRlf lcid)
    rw [hhear]
    refine ⟨rfl, rfl, fun _ h => h, fun halive => ?_⟩
    rw [hend] at halive
    cases halive
  · have hput : ∃ event, Site.hear lcid a call = a.pushRrcEvent event ∧
        (call = .rlf → event = .rlf lcid) := by
      cases call with
      | init =>
          refine ⟨.setup lcid false, ?_, fun h => by cases h⟩
          show a.step (.onInit lcid) = _
          unfold AppRrc.step
          rw [if_neg hend]
      | rlf =>
          refine ⟨.rlf lcid, ?_, fun _ => rfl⟩
          show a.step (.onRlf lcid) = _
          unfold AppRrc.step
          rw [if_neg hend]
    obtain ⟨event, hhear, hrlf⟩ := hput
    have hpending : (a.pushRrcEvent event).mail.pending = a.mail.pending ++ [event] :=
      a.mail.put_pending event
    rw [hhear]
    refine ⟨rfl, rfl, fun other h => ?_, fun _ h => ?_⟩ <;> rw [hpending]
    · exact List.mem_append_left _ h
    · rw [hrlf (List.mem_singleton.mp h).symm]
      exact List.mem_append_right _ (List.mem_singleton.mpr rfl)

theorem heard_all (lcid : UInt8) (asks : List Ask) (a : AppRrc) :
    Heard lcid asks a (asks.foldl (Site.hear lcid) a) := by
  induction asks generalizing a with
  | nil => exact ⟨rfl, rfl, fun _ h => h, fun _ h => (List.not_mem_nil h).elim⟩
  | cons call asks ih =>
      have hfirst := hear_heard lcid a call
      have hrest := ih (Site.hear lcid a call)
      refine ⟨hrest.channel.trans hfirst.channel, hrest.terminated.trans hfirst.terminated,
        fun event h => hrest.pending event (hfirst.pending event h), fun halive hmem => ?_⟩
      rcases List.mem_cons.mp hmem with rfl | hlater
      · exact hrest.pending _ (hfirst.rlf halive (List.mem_singleton.mpr rfl))
      · exact hrest.rlf (hfirst.terminated.trans halive) hlater

/-! ## A client -/

/-- The end point is connected to its target. -/
def Connected (ep : TcpEndPoint) : Prop := ∃ s, ep.sock = some s ∧ s.connected = true

/-- `check_state` of a client with both flags set. -/
theorem checkState_active {ep : TcpEndPoint} (hrole : ep.role = .client)
    (htx : ep.isTxEnabled = true) (hrx : ep.isRxEnabled = true) (target : Option Nat)
    (ok : Bool) : Connected (ep.checkState target ok) ∨
      (ep.checkState target ok).asked = ep.asked ++ [.rlf] := by
  have hcheck : ep.checkState target ok = ep.connect target ok := by
    unfold TcpEndPoint.checkState TcpEndPoint.isRlf TcpEndPoint.isActive
    rw [hrole, htx, hrx]
    rfl
  rw [hcheck]
  unfold TcpEndPoint.connect
  split
  · exact Or.inr rfl
  · split_ifs
    · exact Or.inl ⟨_, rfl, rfl⟩
    · exact Or.inr rfl

/-- The end point of a client, with its channel and the calls in progress. -/
structure Dialled (lcid : UInt8) (st : Site) : Prop where
  role : st.driven.ep.role = .client
  checked : Checked st.driven.ops
  flags : ∀ c, st.node.channel lcid = some c →
    flagsBehind ⟨st.driven.ep.isTxEnabled, st.driven.ep.isRxEnabled⟩ st.driven.ops = c.ep
  agree : ∀ c, st.node.channel lcid = some c → c.FlagsAgree
  target : st.node.terminated = false → ∀ c, st.node.channel lcid = some c →
    c.txrxState = .active → .checkState ∉ st.driven.ops →
      Connected st.driven.ep ∨ RrcEvent.rlf lcid ∈ st.node.mail.pending

namespace Dialled

variable {lcid : UInt8} {st : Site}

/-- A step of the node. -/
theorem node (h : Dialled lcid st) (s : Step) : Dialled lcid (st.step lcid (.node s)) := by
  have hagree : ∀ c, (st.node.step s).channel lcid = some c → c.FlagsAgree := by
    intro c' hc'
    obtain ⟨c, hc, ⟨e, -, rfl⟩ | ⟨-, rfl | rfl⟩⟩ := channel_cases st.node lcid s hc'
    · exact (h.agree c hc).step e
    · exact h.agree _ hc
    · exact (h.agree c hc).step .allocate
  -- what the step sets the end point to
  have hcalled : ∀ c', (st.node.step s).channel lcid = some c' → ∃ c,
      st.node.channel lcid = some c ∧ c.EpCalled c' (epCalled lcid st.node s) := by
    intro c' hc'
    obtain ⟨c, hc, ⟨e, hdispatch, rfl⟩ | ⟨hnone, rfl | rfl⟩⟩ := channel_cases st.node lcid s hc'
    · refine ⟨c, hc, ?_⟩
      have heq : epCalled lcid st.node s = c.epCall e := by
        unfold epCalled
        rw [hdispatch]
        dsimp only
        rw [if_pos rfl, hc]
        rfl
      rw [heq]
      exact c.step_epCalled e
    · refine ⟨c', hc, ?_⟩
      rw [hnone]
      exact ⟨rfl, fun hactive => Or.inr ⟨rfl, hactive⟩⟩
    · refine ⟨c, hc, ?_⟩
      rw [hnone]
      exact ⟨rfl, fun hactive => Or.inr ⟨rfl, hactive⟩⟩
  unfold Site.step
  dsimp only
  cases hcall : epCalled lcid st.node s with
  | none =>
      rw [hcall] at hcalled
      refine ⟨h.role, h.checked, fun c' hc' => ?_, hagree, fun halive c' hc' hactive hno => ?_⟩
      · obtain ⟨c, hc, hep⟩ := hcalled c' hc'
        exact (h.flags c hc).trans hep.ep.symm
      · obtain ⟨c, hc, hep⟩ := hcalled c' hc'
        have hbefore : c.txrxState = .active := by
          rcases hep.active hactive with hsome | ⟨-, hbefore⟩
          · cases hsome
          · exact hbefore
        rcases h.target (alive_before halive) c hc hbefore hno with hconn | hrlf
        · exact Or.inl hconn
        · exact Or.inr (rlf_stays hrlf hc hcall)
  | some value =>
      rw [hcall] at hcalled
      refine ⟨h.role, h.checked.append value, fun c' hc' => ?_, hagree, fun _ _ _ _ hno => ?_⟩
      · obtain ⟨c, hc, hep⟩ := hcalled c' hc'
        exact (flagsBehind_setEnabled _ _ value).trans hep.ep.symm
      · refine absurd (List.mem_append_right _ ?_) hno
        exact List.mem_cons_of_mem _ (List.mem_cons_self ..)

/-- A step of the end point, whatever it asks for. -/
theorem onEp (h : Dialled lcid st) (s : DrivenStep) (hchecked : Checked (st.driven.step s).ops)
    (hflags : flagsBehind ⟨(st.driven.step s).ep.isTxEnabled, (st.driven.step s).ep.isRxEnabled⟩
      (st.driven.step s).ops =
        flagsBehind ⟨st.driven.ep.isTxEnabled, st.driven.ep.isRxEnabled⟩ st.driven.ops)
    (htarget : ∀ c, st.node.channel lcid = some c → c.txrxState = .active →
      .checkState ∉ (st.driven.step s).ops → Connected (st.driven.step s).ep ∨
        Ask.rlf ∈ (st.driven.step s).ep.asked.drop st.driven.ep.asked.length ∨
        .checkState ∉ st.driven.ops ∧
          (Connected st.driven.ep → Connected (st.driven.step s).ep)) :
    Dialled lcid (st.onEp lcid s) := by
  have hheard := heard_all lcid
    ((st.driven.step s).ep.asked.drop st.driven.ep.asked.length) st.node
  refine ⟨Driven.step_role h.role s, hchecked, fun c hc => ?_, fun c hc => ?_,
    fun halive c hc hactive hno => ?_⟩
  · exact hflags.trans (h.flags c (hheard.channel.symm.trans hc))
  · exact h.agree c (hheard.channel.symm.trans hc)
  · have hc₀ : st.node.channel lcid = some c := hheard.channel.symm.trans hc
    have halive₀ : st.node.terminated = false := hheard.terminated.symm.trans halive
    rcases htarget c hc₀ hactive hno with hconn | hrlf | ⟨hno₀, hkept⟩
    · exact Or.inl hconn
    · exact Or.inr (hheard.rlf halive₀ hrlf)
    · exact (h.target halive₀ c hc₀ hactive hno₀).imp hkept fun hp => hheard.pending _ hp

/-- A part of a call. -/
theorem op (h : Dialled lcid st) (target : Option Nat) (ok : Bool) :
    Dialled lcid (st.step lcid (.op target ok)) := by
  obtain ⟨a, ep, ops⟩ := st
  show Dialled lcid (Site.onEp lcid ⟨a, ep, ops⟩ (.op target ok))
  cases ops with
  | nil => exact h.onEp _ h.checked rfl fun _ _ _ hno => Or.inr (Or.inr ⟨hno, id⟩)
  | cons o ops =>
      have hquiet : ∀ ep' : TcpEndPoint, ep'.sock = ep.sock → .checkState ∉ ops →
          o ≠ .checkState → .checkState ∉ o :: ops ∧ (Connected ep → Connected ep') := by
        intro ep' hsock hno hne
        refine ⟨fun hmem => ?_, fun hconn => ?_⟩
        · rcases List.mem_cons.mp hmem with heq | hlater
          · exact hne heq.symm
          · exact hno hlater
        · obtain ⟨s, hs, hconnected⟩ := hconn
          exact ⟨s, hsock.trans hs, hconnected⟩
      have hchecked := h.checked
      cases o with
      | setTx value => exact h.onEp _ hchecked.2 rfl fun _ _ _ hno => absurd hchecked.1 hno
      | setRx value => exact h.onEp _ hchecked.2 rfl fun _ _ _ hno => absurd hchecked.1 hno
      | checkState =>
          obtain ⟨sock, asked, heq⟩ := ep.checkState_eq target ok
          have hstep : Driven.step ⟨ep, .checkState :: ops⟩ (.op target ok) =
            ⟨ep.checkState target ok, ops⟩ := rfl
          refine h.onEp _ (by rw [hstep]; exact hchecked) ?_ fun c hc hactive hno => ?_
          · rw [hstep, heq]
            rfl
          · rw [hstep] at hno ⊢
            change EpOp.checkState ∉ ops at hno
            have hep := h.flags c hc
            rw [show flagsBehind _ (.checkState :: ops) = flagsBehind _ ops from rfl,
              Checked.flagsBehind (show Checked ops from hchecked) hno] at hep
            have hall := (h.agree c hc).active hactive
            have htx : ep.isTxEnabled = true := (congrArg (·.isTxEnabled) hep).trans hall.epTx
            have hrx : ep.isRxEnabled = true := (congrArg (·.isRxEnabled) hep).trans hall.epRx
            refine (checkState_active h.role htx hrx target ok).imp_right fun hasked => Or.inl ?_
            show Ask.rlf ∈ (ep.checkState target ok).asked.drop ep.asked.length
            rw [hasked, List.drop_left]
            exact List.mem_singleton.mpr rfl
      | push event =>
          exact h.onEp _ hchecked rfl fun _ _ _ hno =>
            Or.inr (Or.inr (hquiet _ rfl hno fun heq => by cases heq))
      | announce =>
          exact h.onEp _ hchecked rfl fun _ _ _ hno =>
            Or.inr (Or.inr (hquiet _ rfl hno fun heq => by cases heq))
      | halt =>
          exact h.onEp _ hchecked rfl fun _ _ _ hno =>
            Or.inr (Or.inr (hquiet _ rfl hno fun heq => by cases heq))

/-- A step of the thread of the end point. -/
theorem thread (h : Dialled lcid st) (input : Input) :
    Dialled lcid (st.step lcid (.thread input)) := by
  have hsame := st.driven.ep.thread_same input
  refine h.onEp _ h.checked ?_ fun _ _ _ hno => Or.inr (Or.inr ⟨hno, ?_⟩)
  · show flagsBehind ⟨(st.driven.ep.thread input).isTxEnabled,
      (st.driven.ep.thread input).isRxEnabled⟩ st.driven.ops = _
    rw [hsame.tx, hsame.rx]
  · rintro ⟨s, hs, hconnected⟩
    refine ⟨s, ?_, hconnected⟩
    show (st.driven.ep.thread input).sock = some s
    cases st.driven.ep.thread_does input with
    | nothing hsock _ => exact hsock.trans hs
    | hangUp _ hsock _ => exact hsock.trans hs
    | accept fd _ hfree _ _ =>
        rw [hs] at hfree
        cases hfree

theorem step (h : Dialled lcid st) (s : SiteStep) : Dialled lcid (st.step lcid s) := by
  cases s with
  | node s => exact h.node s
  | op target ok => exact h.op target ok
  | thread input => exact h.thread input

theorem run (h : Dialled lcid st) (ss : List SiteStep) : Dialled lcid (st.run lcid ss) := by
  induction ss generalizing st with
  | nil => exact h
  | cons s ss ih => exact ih (h.step s)

theorem setup (cfg : Config) (hlcid : lcid ≠ 0) : Dialled lcid (Site.setup cfg .client) := by
  have hnew : ∀ c, (Site.setup cfg .client).node.channel lcid = some c →
      c.ep = {} ∧ c.txrxState = .notConfigured ∧ c.FlagsAgree := by
    intro c hc
    change (AppRrc.setup cfg).channel lcid = some c at hc
    rw [AppRrc.setup_channel cfg hlcid] at hc
    obtain ⟨chan, -, rfl⟩ := Option.map_eq_some_iff.mp hc
    exact ⟨rfl, rfl, .of_down ⟨rfl, rfl, rfl, rfl, rfl, rfl⟩ rfl⟩
  refine ⟨rfl, trivial, fun c hc => (hnew c hc).1.symm, fun c hc => (hnew c hc).2.2,
    fun _ c hc hactive => ?_⟩
  cases (hnew c hc).2.1.symm.trans hactive

end Dialled

/-- **An active channel has its target, or a failure on the way.**  In every run of a node
whose channel has a TCP client: when the channel is active and the calls of its end point
have come to an end, the end point is connected to its target, or a link failure of the
channel is pending. -/
theorem target_or_failure (cfg : Config) {lcid : UInt8} (hlcid : lcid ≠ 0)
    (ss : List SiteStep) {c : Lcrrc}
    (hc : ((Site.setup cfg .client).run lcid ss).node.channel lcid = some c)
    (hactive : c.txrxState = .active)
    (hops : ((Site.setup cfg .client).run lcid ss).driven.ops = [])
    (halive : ((Site.setup cfg .client).run lcid ss).node.terminated = false) :
    Connected ((Site.setup cfg .client).run lcid ss).driven.ep ∨
      RrcEvent.rlf lcid ∈ ((Site.setup cfg .client).run lcid ss).node.mail.pending := by
  exact ((Dialled.setup cfg hlcid).run ss).target halive c hc hactive
    (by rw [hops]; exact List.not_mem_nil)

/-- The peer asks for an exchange, and the channel is activated. -/
def activated : List SiteStep :=
  [.node (.rrcRx [0, 0, 1, 0, 0, 128, 0, 0, 0, 20, 0, 0, 0, 0, 0]), .node .wake, .node .take,
    .node .handle, .node .handle, .node (.extract 1 0), .node (.fire 1 0)] ++
    List.replicate 8 (.op (some 5) true)

theorem target_or_failure_activated :
    let st := (Site.setup AppRrc.oneChannel .client).run 1 activated
    ∃ c, st.node.channel 1 = some c ∧ c.txrxState = .active ∧
      (Connected st.driven.ep ∨ RrcEvent.rlf 1 ∈ st.node.mail.pending) := by
  intro st
  have hstate : (st.node.channel 1).map (·.txrxState) = some .active := by decide +kernel
  obtain ⟨c, hc, hactive⟩ := Option.map_eq_some_iff.mp hstate
  exact ⟨c, hc, hactive, @target_or_failure AppRrc.oneChannel 1 (by decide) activated c hc hactive
    (by decide +kernel) (by decide +kernel)⟩

end Winject.EndPoint
