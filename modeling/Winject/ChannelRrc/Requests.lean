import Winject.ChannelRrc.LinkFailure

/-!
# Requests and their answers

`auto_send_rrc` keeps the requests that wait for an answer in `rrc_requests`.  An
answer erases its own request only, a request of the peer erases none, and
`check_response` lets the handler go on with an answer that nothing waits for.
The context stored for a request has no copy of it, so a retry sends a
value-initialised message.

## Main results

* `established_iff` — when an established channel has no request left.
* `unknown_response_acts` — an answer that nothing waits for is acted on.
* `retries_repeat_iff` — when every retry repeats the request.
-/

namespace Winject.ChannelRrc

open Winject.LegacyLlc
open Winject.LegacyPdcp
open Winject.Lib.Runs

/-- The events of the timer. -/
def Event.IsTimer : Event → Prop
  | .extract _ => True
  | .fire _ => True
  | _ => False

/-- The message has the content of the first one of its chain. -/
def AutoSent.Repeats (p : AutoSent) : Prop := p.msg.message = p.first.message

/-- The message is a request with a distance, which the value-initialised one is
not. -/
def Rrc.IsFilled (m : Rrc) : Prop :=
  ∃ req, m.message = .exchangeRequest req ∧ req.pdcpConfig.maxSnDistance ≠ none

namespace Lcrrc

/-! ## An established channel -/

/-- No request waits for an answer. -/
def NoRequest (c : Lcrrc) : Prop := ∀ reqId, c.rrcRequests reqId = none

/-- `on_init` sends a request. -/
def AcceptsInit (c : Lcrrc) (forced : Bool) : Prop :=
  forced = true ∨ c.txrxState = .notConfigured

/-- An exchange message comes when no other request is outstanding, and a request
is sent when no activation is pending. -/
def Orderly (c : Lcrrc) : Event → Prop
  | .init forced => c.AcceptsInit forced → ¬ c.ActivationPending
  | .request _ _ => c.NoRequest
  | .response reqId _ => ∀ other, other ≠ reqId → c.rrcRequests other = none
  | _ => True

/-- An active channel has no request, and no timeout takes down a channel that an exchange
message has configured. -/
structure Established (c : Lcrrc) : Prop where
  noRequest : c.txrxState = .active → c.NoRequest
  noTimeout : c.ActivationPending ∨ c.txrxState = .active → ∀ i, ¬ c.LastRetryExpires i

/-- The channel is established, and stays so whatever the timer calls, each callback at its
deadline. -/
def StaysEstablished (c : Lcrrc) : Prop :=
  ∀ ts : List Event, Steps step ByDeadline c ts → (c.run ts).Established

/-- What orderly events keep. -/
def Settled (c : Lcrrc) : Prop :=
  c.ActivationPending ∨ c.txrxState = .active → c.NoRequest

theorem StaysEstablished.later {c : Lcrrc} (h : c.StaysEstablished) {es : List Event}
    (hes : Steps step ByDeadline c es) : (c.run es).StaysEstablished := by
  intro ts hts
  have hall := h (es ++ ts) (hes.append hts)
  rwa [run, List.foldl_append] at hall

theorem onInit_of_not_accepts {c : Lcrrc} {forced : Bool} (h : ¬ c.AcceptsInit forced) :
    c.onInit forced = c := by
  unfold AcceptsInit at h
  rw [not_or, Bool.not_eq_true] at h
  obtain ⟨rfl, hstate⟩ := h
  unfold onInit
  cases hs : c.txrxState with
  | notConfigured => exact absurd hs hstate
  | configuring => rfl
  | configured => rfl
  | active => rfl

theorem onInit_of_accepts {c : Lcrrc} {forced : Bool} (h : c.AcceptsInit forced) :
    c.onInit forced = (c.changeTxrxState .configuring).sendExchangeReq := by
  unfold onInit
  rcases h with rfl | hstate
  · rfl
  · rw [hstate]
    cases forced <;> rfl

/-- An expiry changes something only if its request is outstanding. -/
theorem onExpiry_of_noRequest {c : Lcrrc} (h : c.NoRequest) (maxRetry : Nat) (reqId : UInt8)
    (first : Rrc) : c.onExpiry maxRetry reqId first = c := by
  unfold onExpiry
  rw [h reqId]

theorem Settled.onExpiry {c : Lcrrc} (h : c.Settled) (maxRetry : Nat) (reqId : UInt8)
    (first : Rrc) : (c.onExpiry maxRetry reqId first).Settled := by
  by_cases hnone : c.NoRequest
  · rw [onExpiry_of_noRequest hnone]
    exact h
  · have hquiet : ¬ (c.ActivationPending ∨ c.txrxState = .active) := fun hp => hnone (h hp)
    rintro (hp | hactive)
    · exact absurd (Or.inl (onExpiry_pending.mp hp)) hquiet
    · rcases c.onExpiry_same maxRetry reqId first with ⟨_, hstate⟩ | ⟨_, hstate⟩
      · exact absurd (Or.inr (hstate.symm.trans hactive)) hquiet
      · rw [hstate] at hactive
        cases hactive

theorem Settled.of_noRequest {c : Lcrrc} (h : c.NoRequest) : c.Settled := fun _ => h

theorem checkResponse_noRequest {c : Lcrrc} {reqId : UInt8}
    (h : ∀ other, other ≠ reqId → c.rrcRequests other = none) :
    (c.checkResponse reqId).NoRequest := by
  intro other
  unfold checkResponse
  cases hctx : c.rrcRequests reqId with
  | none =>
      by_cases heq : other = reqId
      · rw [heq]
        exact hctx
      · exact h other heq
  | some context =>
      show Function.update c.rrcRequests reqId none other = none
      by_cases heq : other = reqId
      · rw [heq, Function.update_self]
      · rw [Function.update_of_ne heq]
        exact h other heq

theorem Settled.step {c : Lcrrc} (h : c.Settled) {e : Event} (he : c.Orderly e) :
    (c.step e).Settled := by
  cases e with
  | init forced =>
      show (c.onInit forced).Settled
      by_cases hacc : c.AcceptsInit forced
      · rintro (hp | hactive)
        · exact absurd (onInit_pending.mp hp) (he hacc)
        · rw [onInit_of_accepts hacc] at hactive
          cases hactive
      · rwa [onInit_of_not_accepts hacc]
  | request reqId req =>
      refine Settled.of_noRequest (fun other => ?_)
      show (c.onExchangeRequest reqId req).rrcRequests other = none
      unfold onExchangeRequest
      split <;> exact he other
  | response reqId rsp => exact Settled.of_noRequest (checkResponse_noRequest he)
  | rlf =>
      rintro (hp | hactive)
      · exact h (Or.inl hp)
      · cases hactive
  | extract i =>
      rintro (hp | hactive)
      · exact h (Or.inl (Timer.mem_callbacks_extract.mp hp))
      · exact h (Or.inr hactive)
  | fire i =>
      show (c.fire i).Settled
      unfold fire
      cases hcb : c.timer.extracted[i]? with
      | none => exact h
      | some cb =>
          have hrest : ({ c with timer := c.timer.fired i } : Lcrrc).Settled := by
            rintro (hp | hactive)
            · exact h (Or.inl (Timer.mem_callbacks_of_fired hp))
            · exact h (Or.inr hactive)
          cases cb with
          | activate =>
              exact Settled.of_noRequest
                (h (Or.inl (List.mem_append_right _ (List.mem_of_getElem? hcb))))
          | expiry maxRetry reqId first => exact hrest.onExpiry maxRetry reqId first
  | allocate => exact h

theorem ByDeadline.orderly {c : Lcrrc} {e : Event} (h : c.ByDeadline e) : c.Orderly e := by
  obtain ⟨i, rfl | rfl⟩ := h.timer <;> trivial

theorem Settled.established {c : Lcrrc} (h : c.Settled) : c.Established where
  noRequest hactive := h (Or.inr hactive)
  noTimeout hlive _ := fun ⟨_, reqId, _, _, _, hout⟩ => hout (h hlive reqId)

/-- Timer events are always orderly. -/
theorem Settled.staysEstablished {c : Lcrrc} (h : c.Settled) : c.StaysEstablished := by
  intro ts hts
  have hrun := states_of_steps (P := ByDeadline)
    (fun _ _ hs he => Settled.step hs (ByDeadline.orderly he)) h hts
  exact hrun.last.established

/-- A message that is sent is outstanding, and its timer is behind all others. -/
theorem autoSendRrc_outstanding (c : Lcrrc) {maxRetry : Nat} (hmore : maxRetry ≠ 0)
    (msg first : Rrc) :
    (∃ more, (c.autoSendRrc maxRetry msg first).timer.queue = c.timer.queue ++ more) ∧
      (c.autoSendRrc maxRetry msg first).rrcRequests msg.requestID ≠ none := by
  unfold Lcrrc.autoSendRrc
  rw [if_neg hmore]
  refine ⟨⟨_, Timer.waitMs_queue ..⟩, ?_⟩
  show Function.update c.rrcRequests msg.requestID _ msg.requestID ≠ none
  rw [Function.update_self]
  exact Option.some_ne_none _

/-- A pending activation and an outstanding request, in the order of the deadlines: the channel
becomes active with a request left, or the last retry of the request comes first. -/
theorem not_staysEstablished {c : Lcrrc} (hp : c.ActivationPending) (reqId : UInt8)
    (hreq : c.rrcRequests reqId ≠ none) : ¬ c.StaysEstablished := by
  intro h
  obtain ⟨before, after, hqueue⟩ := List.append_of_mem (Timer.mem_queue.mpr hp)
  -- the callbacks before the activation; a retry leaves another request outstanding
  induction before generalizing c after reqId with
  | nil =>
      obtain ⟨es, t, hes, hrun, -⟩ := exists_called hqueue
      have hest := h es hes
      rw [hrun] at hest
      exact hreq (hest.noRequest rfl reqId)
  | cons cb before ih =>
      obtain ⟨es, t, hes, hrun, hnext, hrest⟩ := exists_next hqueue
      obtain ⟨hfired, hcalled⟩ := run_fire hes hrun hnext
      have hlater := h.later hfired
      rw [hcalled] at hlater
      cases cb with
      | activate => exact hreq ((hlater [] trivial).noRequest rfl reqId)
      | expiry maxRetry id first =>
          have hpending : Callback.activate ∈ (t.fired 0).queue := by
            rw [hrest]
            exact List.mem_append_right _ (List.mem_cons_self ..)
          cases hctx : c.rrcRequests id with
          | none =>
              have hcall : ({ c with timer := t.fired 0 } : Lcrrc).call (.expiry maxRetry id first) =
                  { c with timer := t.fired 0 } := by
                dsimp only [call, onExpiry]
                rw [hctx]
              rw [hcall] at hlater
              exact ih (c := { c with timer := t.fired 0 }) (Timer.mem_queue.mp hpending) reqId
                hreq hlater after hrest
          | some context =>
              by_cases hlast : maxRetry ≤ 1
              · have hest := h es hes
                rw [hrun] at hest
                refine hest.noTimeout (Or.inl ?_) 0 ⟨maxRetry, id, first, hnext, hlast, ?_⟩
                · exact Timer.mem_callbacks_of_fired (Timer.mem_queue.mp hpending)
                · show c.rrcRequests id ≠ none
                  rw [hctx]
                  exact Option.some_ne_none _
              · have hcall : ({ c with timer := t.fired 0 } : Lcrrc).call
                    (.expiry maxRetry id first) =
                    (({ c with
                      timer := t.fired 0
                      rrcReqId := c.rrcReqId + 1
                      rrcRequests := Function.update c.rrcRequests id none } : Lcrrc).autoSendRrc
                        (maxRetry - 1) { context.request with requestID := c.rrcReqId } first) := by
                  dsimp only [call, onExpiry, allocateReqId]
                  rw [hctx]
                rw [hcall] at hlater
                obtain ⟨hqueue', hreq'⟩ := autoSendRrc_outstanding ({ c with
                  timer := t.fired 0
                  rrcReqId := c.rrcReqId + 1
                  rrcRequests := Function.update c.rrcRequests id none } : Lcrrc)
                  (show maxRetry - 1 ≠ 0 by omega)
                  { context.request with requestID := c.rrcReqId } first
                obtain ⟨more, hmore⟩ := hqueue'
                have hall := hmore.trans (congrArg (· ++ more)
                  (show _ = before ++ Callback.activate :: after from hrest))
                rw [List.append_assoc, List.cons_append] at hall
                exact ih (Timer.mem_queue.mp (by
                  rw [hall]
                  exact List.mem_append_right _ (List.mem_cons_self ..))) _ hreq' hlater _ hall

theorem scheduleActivate_pending (c : Lcrrc) : c.scheduleActivate.ActivationPending := by
  unfold scheduleActivate ActivationPending
  exact Timer.mem_callbacks_waitMs.mpr (Or.inr rfl)

/-- A step that is not orderly leaves an activation and a request behind. -/
theorem Orderly.of_staysEstablished {c : Lcrrc} {e : Event}
    (h : (c.step e).StaysEstablished) : c.Orderly e := by
  cases e with
  | init forced =>
      intro hacc hp
      refine not_staysEstablished (c := c.onInit forced) (onInit_pending.mpr hp) c.rrcReqId
        ?_ h
      rw [onInit_of_accepts hacc]
      show Function.update c.rrcRequests c.rrcReqId _ c.rrcReqId ≠ none
      rw [Function.update_self]
      exact Option.some_ne_none _
  | request reqId req =>
      intro other
      by_contra hother
      refine not_staysEstablished (c := c.onExchangeRequest reqId req)
        (scheduleActivate_pending _) other ?_ h
      unfold onExchangeRequest
      split <;> exact hother
  | response reqId rsp =>
      intro other hne
      by_contra hother
      refine not_staysEstablished (c := c.onExchangeResponse reqId rsp)
        (scheduleActivate_pending _) other ?_ h
      show (c.checkResponse reqId).rrcRequests other ≠ none
      unfold checkResponse
      cases c.rrcRequests reqId with
      | none => exact hother
      | some context =>
          show Function.update c.rrcRequests reqId none other ≠ none
          rwa [Function.update_of_ne hne]
  | rlf | extract i | fire i | allocate => trivial

/-- **When an established channel has no request left.**  In every run, the channel has no
outstanding request whenever it is active, and no timeout takes it down once it has been
configured, in every state and whatever timers then expire, if and only if every event of the
run is orderly. -/
theorem established_iff (lcid : UInt8) (llcTx : LegacyLlc.TxConfig)
    (llcRx : LegacyLlc.RxConfig) (pdcpTx : LegacyPdcp.TxConfig) (pdcpRx : LegacyPdcp.RxConfig)
    (es : List Event) :
    States step StaysEstablished (new lcid llcTx llcRx pdcpTx pdcpRx) es ↔
      Steps step Orderly (new lcid llcTx llcRx pdcpTx pdcpRx) es := by
  constructor
  · exact steps_of_states (fun _ _ h => Orderly.of_staysEstablished h)
  · intro hsteps
    have hstates := states_of_steps (fun _ _ hs he => Settled.step hs he)
      (Settled.of_noRequest (fun _ => rfl)) hsteps
    exact hstates.mono (fun _ h => h.staysEstablished)

/-- The request 0 times out and is sent again as request 1; then the answer to request 0
comes. -/
def lateAnswer : List Event := [.init false, .extract 0, .fire 0, .response 0 {}]

/-- The late answer leaves request 1 outstanding.  Its timer comes before the activation and
sends request 2, the activation makes the channel active with that request outstanding, and the
last timeout takes the channel down. -/
theorem late_answer_torn_down :
    Steps step ByDeadline ((new 1 {} {} {} {}).run lateAnswer)
        [.extract 0, .fire 0, .extract 0, .fire 0, .extract 0, .fire 0] ∧
      (((new 1 {} {} {} {}).run lateAnswer).run
        [.extract 0, .fire 0, .extract 0, .fire 0]).txrxState = .active ∧
      (((new 1 {} {} {} {}).run lateAnswer).run
        [.extract 0, .fire 0, .extract 0, .fire 0]).rrcRequests 2 ≠ none ∧
      (((new 1 {} {} {} {}).run lateAnswer).run
        [.extract 0, .fire 0, .extract 0, .fire 0, .extract 0, .fire 0]).txrxState =
          .notConfigured :=
  ⟨⟨⟨rfl, rfl⟩, rfl, ⟨rfl, rfl⟩, rfl, ⟨rfl, rfl⟩, rfl, trivial⟩, by decide, by decide, by decide⟩

/-! ## Answers that nothing waits for -/

/-- The channel state, the receive configurations, the enable flags and the
activation timer are the same. -/
structure Undisturbed (c c' : Lcrrc) : Prop where
  state : c'.txrxState = c.txrxState
  llcRxConfig : c'.llc.rxConfig = c.llc.rxConfig
  pdcpRxConfig : c'.pdcpRx.config = c.pdcpRx.config
  llcTx : c'.llc.isTxEnabled = c.llc.isTxEnabled
  llcRx : c'.llc.isRxEnabled = c.llc.isRxEnabled
  pdcpTx : c'.pdcpTx.isTxEnabled = c.pdcpTx.isTxEnabled
  pdcpRx : c'.pdcpRx.isRxEnabled = c.pdcpRx.isRxEnabled
  ep : c'.ep = c.ep
  activateTimer : c'.activateTimer = c.activateTimer

/-- The activation timer is one that has been handed out. -/
def TimerKnown (c : Lcrrc) : Prop := ∀ id, c.activateTimer = some id → id < c.timer.timerCtr

theorem TimerKnown.of_le {c c' : Lcrrc} (h : c.TimerKnown)
    (hid : c'.activateTimer = c.activateTimer)
    (hctr : c.timer.timerCtr ≤ c'.timer.timerCtr) : c'.TimerKnown :=
  fun id heq => lt_of_lt_of_le (h id (hid ▸ heq)) hctr

theorem TimerKnown.autoSendRrc {c : Lcrrc} (h : c.TimerKnown) (maxRetry : Nat)
    (msg first : Rrc) : (c.autoSendRrc maxRetry msg first).TimerKnown := by
  unfold Lcrrc.autoSendRrc
  split_ifs
  · exact h.of_le rfl (le_refl _)
  · exact h.of_le rfl (Nat.le_succ _)

theorem TimerKnown.call {c : Lcrrc} (h : c.TimerKnown) (cb : Callback) :
    (c.call cb).TimerKnown := by
  cases cb with
  | activate => exact h.of_le rfl (le_refl _)
  | expiry maxRetry reqId first =>
      show (c.onExpiry maxRetry reqId first).TimerKnown
      unfold Lcrrc.onExpiry
      cases c.rrcRequests reqId with
      | none => exact h
      | some context =>
          refine TimerKnown.autoSendRrc ?_ _ _ _
          exact h.of_le rfl (le_refl _)

theorem scheduleActivate_timerKnown (c : Lcrrc) : c.scheduleActivate.TimerKnown := by
  intro id hid
  obtain rfl := Option.some.inj hid
  exact Nat.lt_succ_self _

theorem TimerKnown.step {c : Lcrrc} (h : c.TimerKnown) (e : Event) :
    (c.step e).TimerKnown := by
  cases e with
  | init forced =>
      show (c.onInit forced).TimerKnown
      unfold onInit
      split_ifs
      · exact h
      · refine TimerKnown.autoSendRrc ?_ _ _ _
        exact h.of_le rfl (le_refl _)
  | request reqId req => exact scheduleActivate_timerKnown _
  | response reqId rsp => exact scheduleActivate_timerKnown _
  | rlf => exact h.of_le rfl (le_refl _)
  | extract i =>
      refine h.of_le rfl ?_
      show _ ≤ (c.timer.extract i).timerCtr
      unfold Timer.extract
      split <;> exact le_refl _
  | fire i =>
      show (c.fire i).TimerKnown
      unfold fire
      cases c.timer.extracted[i]? with
      | none => exact h
      | some cb =>
          refine TimerKnown.call ?_ cb
          exact h.of_le rfl (le_refl _)
  | allocate => exact h.of_le rfl (le_refl _)

/-- An answer takes a fresh activation timer. -/
theorem onExchangeResponse_activateTimer (c : Lcrrc) (reqId : UInt8) (rsp : RrcExchange) :
    (c.onExchangeResponse reqId rsp).activateTimer = some c.timer.timerCtr := by
  have hctr : (c.checkResponse reqId).timer.timerCtr = c.timer.timerCtr := by
    unfold checkResponse
    split <;> rfl
  rw [← hctr]
  unfold onExchangeResponse scheduleActivate
  dsimp only [Timer.waitMs]
  split <;> rfl

/-- **An answer that nothing waits for is acted on.**  In every reachable state,
a response whose identifier is not outstanding disturbs the channel: it is taken
out of the active state, its receivers are disabled and the activation starts
over. -/
theorem unknown_response_acts (lcid : UInt8) (llcTx : LegacyLlc.TxConfig)
    (llcRx : LegacyLlc.RxConfig) (pdcpTx : LegacyPdcp.TxConfig) (pdcpRx : LegacyPdcp.RxConfig)
    (es : List Event) (reqId : UInt8) (rsp : RrcExchange)
    (h : ((new lcid llcTx llcRx pdcpTx pdcpRx).run es).rrcRequests reqId = none) :
    let c := (new lcid llcTx llcRx pdcpTx pdcpRx).run es
    let c' := c.step (.response reqId rsp)
    ¬ c.Undisturbed c' ∧ c'.rrcRequests = c.rrcRequests ∧ c'.txrxState = .configured ∧
      c'.llc.isRxEnabled = false ∧ c'.pdcpRx.isRxEnabled = false := by
  intro c c'
  have hknown : c.TimerKnown :=
    foldl_invariant TimerKnown (fun _ e hc => hc.step e) es _ (fun id hid => by cases hid)
  have hfresh : c'.activateTimer = some c.timer.timerCtr :=
    c.onExchangeResponse_activateTimer reqId rsp
  refine ⟨?_, ?_, rfl, rfl, rfl⟩
  · intro hsame
    have hlt := hknown _ (hsame.activateTimer.symm.trans hfresh)
    exact absurd hlt (lt_irrefl _)
  · show (c.checkResponse reqId).rrcRequests = c.rrcRequests
    unfold checkResponse
    rw [show c.rrcRequests reqId = none from h]

/-- A run that ends with an active channel and its request answered. -/
def answered : List Event := [.init false, .response 0 {}, .extract 0, .fire 0]

/-- The same answer again takes the channel out of service. -/
theorem duplicate_response_acts :
    ((new 1 {} {} {} {}).run answered).txrxState = .active ∧
      ((new 1 {} {} {} {}).run answered).rrcRequests 0 = none ∧
      ((((new 1 {} {} {} {}).run answered).step (.response 0 {})).txrxState = .configured) :=
  ⟨by decide, by decide,
    (unknown_response_acts 1 {} {} {} {} answered 0 {} (by decide)).2.2.1⟩

/-- An active channel, no request outstanding: the duplicated answer changes the
state, disables the receivers and restarts the activation timer. -/
theorem duplicate_response_disturbs :
    ((new 1 {} {} {} {}).run answered).rrcRequests 0 = none ∧
      ((new 1 {} {} {} {}).run answered).txrxState = .active ∧
      ((new 1 {} {} {} {}).run answered).AllFlags true ∧
      (((new 1 {} {} {} {}).run answered).step (.response 0 {})).txrxState ≠ .active ∧
      (((new 1 {} {} {} {}).run answered).step (.response 0 {})).llc.isRxEnabled = false ∧
      ¬ ((new 1 {} {} {} {}).run answered).Undisturbed
        (((new 1 {} {} {} {}).run answered).step (.response 0 {})) := by
  refine ⟨by decide, by decide, ⟨rfl, rfl, rfl, rfl, rfl, rfl⟩, by decide, rfl, ?_⟩
  intro h
  exact absurd h.state (by decide)

/-! ## Retries -/

/-- A retry is sent: the timer of an outstanding request expires with retries
left. -/
def Resends (c : Lcrrc) (e : Event) : Prop :=
  ∃ i maxRetry reqId first, e = .fire i ∧
    c.timer.extracted[i]? = some (.expiry maxRetry reqId first) ∧ 2 ≤ maxRetry ∧
    c.rrcRequests reqId ≠ none

/-- What the requests and the closures hold. -/
structure Contexts (c : Lcrrc) : Prop where
  empty : ∀ reqId context, c.rrcRequests reqId = some context → context.request = {}
  filled : ∀ maxRetry reqId first,
    Callback.expiry maxRetry reqId first ∈ c.timer.callbacks → first.IsFilled

theorem Contexts.of_subset {c c' : Lcrrc} (h : c.Contexts)
    (hreq : ∀ reqId context, c'.rrcRequests reqId = some context →
      c.rrcRequests reqId = some context)
    (hcb : ∀ cb ∈ c'.timer.callbacks, cb ∈ c.timer.callbacks ∨ cb = .activate) :
    c'.Contexts := by
  constructor
  · intro reqId context hctx
    exact h.empty reqId context (hreq reqId context hctx)
  · intro maxRetry reqId first hmem
    rcases hcb _ hmem with hold | hcontra
    · exact h.filled maxRetry reqId first hold
    · cases hcontra

theorem Contexts.autoSendRrc {c : Lcrrc} (h : c.Contexts) (maxRetry : Nat) (msg : Rrc)
    {first : Rrc} (hfirst : first.IsFilled) : (c.autoSendRrc maxRetry msg first).Contexts := by
  unfold Lcrrc.autoSendRrc
  split_ifs
  · exact h.of_subset (fun _ _ hctx => hctx) (fun _ hcb => Or.inl hcb)
  · constructor
    · intro reqId context hctx
      change Function.update c.rrcRequests msg.requestID _ reqId = some context at hctx
      by_cases heq : reqId = msg.requestID
      · rw [heq, Function.update_self] at hctx
        rw [← Option.some.inj hctx]
      · rw [Function.update_of_ne heq] at hctx
        exact h.empty reqId context hctx
    · intro k reqId f hmem
      rcases Timer.mem_callbacks_waitMs.mp hmem with hold | hnew
      · exact h.filled k reqId f hold
      · cases hnew
        exact hfirst

/-- A request of the channel carries a distance. -/
theorem isFilled_request (c : Lcrrc) (reqId : UInt8) :
    Rrc.IsFilled { requestID := reqId, message := .exchangeRequest c.fillFromConfig } :=
  ⟨c.fillFromConfig, rfl, Option.some_ne_none _⟩

/-- A value-initialised message repeats no request of the channel. -/
theorem not_repeats {first : Rrc} (h : first.IsFilled) (reqId : UInt8) :
    ¬ (AutoSent.mk first { ({} : Rrc) with requestID := reqId }).Repeats := by
  obtain ⟨req, hreq, hdist⟩ := h
  intro hrep
  unfold AutoSent.Repeats at hrep
  rw [hreq] at hrep
  cases hrep
  exact hdist rfl

theorem Contexts.call {c : Lcrrc} (h : c.Contexts) {cb : Callback}
    (hcb : ∀ k r first, cb = .expiry k r first → first.IsFilled) : (c.call cb).Contexts := by
  cases cb with
  | activate => exact h.of_subset (fun _ _ hctx => hctx) (fun _ hmem => Or.inl hmem)
  | expiry maxRetry reqId first =>
      show (c.onExpiry maxRetry reqId first).Contexts
      unfold onExpiry
      cases c.rrcRequests reqId with
      | none => exact h
      | some context =>
          refine Contexts.autoSendRrc ?_ _ _ (hcb _ _ _ rfl)
          refine h.of_subset (fun other ctx hctx => ?_) (fun _ hmem => Or.inl hmem)
          change Function.update c.rrcRequests reqId none other = some ctx at hctx
          by_cases heq : other = reqId
          · rw [heq, Function.update_self] at hctx
            cases hctx
          · rwa [Function.update_of_ne heq] at hctx

theorem scheduleActivate_callbacks {c : Lcrrc} {cb : Callback}
    (h : cb ∈ c.scheduleActivate.timer.callbacks) :
    cb ∈ c.timer.callbacks ∨ cb = .activate := by
  rcases Timer.mem_callbacks_waitMs.mp h with hold | hnew
  · left
    cases hid : c.activateTimer with
    | none => simpa only [hid] using hold
    | some id =>
        simp only [hid] at hold
        exact Timer.mem_callbacks_of_cancel hold
  · exact Or.inr hnew

theorem checkResponse_contexts {c : Lcrrc} (h : c.Contexts) (reqId : UInt8) :
    (c.checkResponse reqId).Contexts := by
  unfold checkResponse
  cases c.rrcRequests reqId with
  | none => exact h
  | some context =>
      refine h.of_subset (fun other ctx hctx => ?_)
        (fun _ hmem => Or.inl (Timer.mem_callbacks_of_cancel hmem))
      change Function.update c.rrcRequests reqId none other = some ctx at hctx
      by_cases heq : other = reqId
      · rw [heq, Function.update_self] at hctx
        cases hctx
      · rwa [Function.update_of_ne heq] at hctx

theorem Contexts.step {c : Lcrrc} (h : c.Contexts) (e : Event) : (c.step e).Contexts := by
  cases e with
  | init forced =>
      show (c.onInit forced).Contexts
      unfold onInit
      split_ifs
      · exact h
      · refine Contexts.autoSendRrc ?_ _ _ (isFilled_request _ _)
        exact h.of_subset (fun _ _ hctx => hctx) (fun _ hmem => Or.inl hmem)
  | request reqId req =>
      show (c.onExchangeRequest reqId req).Contexts
      refine h.of_subset (fun other ctx hctx => ?_)
        (fun cb hmem => ?_)
      · unfold onExchangeRequest at hctx
        split at hctx <;> exact hctx
      · unfold onExchangeRequest at hmem
        split at hmem <;> exact scheduleActivate_callbacks hmem
  | response reqId rsp =>
      exact (checkResponse_contexts h reqId).of_subset (fun _ _ hctx => hctx)
        (fun _ hmem => scheduleActivate_callbacks hmem)
  | rlf => exact h.of_subset (fun _ _ hctx => hctx) (fun _ hmem => Or.inl hmem)
  | extract i =>
      exact h.of_subset (fun _ _ hctx => hctx)
        (fun _ hmem => Or.inl (Timer.mem_callbacks_extract.mp hmem))
  | fire i =>
      show (c.fire i).Contexts
      unfold fire
      cases hcb : c.timer.extracted[i]? with
      | none => exact h
      | some cb =>
          refine Contexts.call ?_ ?_
          · exact h.of_subset (fun _ _ hctx => hctx)
              (fun _ hmem => Or.inl (Timer.mem_callbacks_of_fired hmem))
          · rintro k r first rfl
            exact h.filled k r first (List.mem_append_right _ (List.mem_of_getElem? hcb))
  | allocate => exact h.of_subset (fun _ _ hctx => hctx) (fun _ hmem => Or.inl hmem)

/-- What one event adds to the messages of `auto_send_rrc`. -/
theorem step_autoSent {c : Lcrrc} (h : c.Contexts) (e : Event) :
    (¬ c.Resends e ∧ ((c.step e).autoSent = c.autoSent ∨
        ∃ p : AutoSent, p.Repeats ∧ (c.step e).autoSent = c.autoSent ++ [p])) ∨
      (c.Resends e ∧ ∃ p : AutoSent, ¬ p.Repeats ∧ (c.step e).autoSent = c.autoSent ++ [p]) := by
  have hno : (∀ i, e ≠ .fire i) → ¬ c.Resends e := by
    rintro hne ⟨i, _, _, _, rfl, _⟩
    exact hne i rfl
  cases e with
  | init forced =>
      refine Or.inl ⟨hno (by rintro i ⟨⟩), ?_⟩
      show (c.onInit forced).autoSent = _ ∨ ∃ p : AutoSent, _ ∧ (c.onInit forced).autoSent = _
      unfold onInit
      split_ifs
      · exact Or.inl rfl
      · let msg : Rrc :=
          { requestID := c.rrcReqId
            message := .exchangeRequest (c.changeTxrxState .configuring).fillFromConfig }
        exact Or.inr ⟨⟨msg, msg⟩, rfl, rfl⟩
  | request reqId req =>
      refine Or.inl ⟨hno (by rintro i ⟨⟩), Or.inl ?_⟩
      show (c.onExchangeRequest reqId req).autoSent = _
      unfold onExchangeRequest
      split <;> rfl
  | response reqId rsp =>
      refine Or.inl ⟨hno (by rintro i ⟨⟩), Or.inl ?_⟩
      show (c.checkResponse reqId).autoSent = _
      unfold checkResponse
      split <;> rfl
  | rlf => exact Or.inl ⟨hno (by rintro i ⟨⟩), Or.inl rfl⟩
  | extract i => exact Or.inl ⟨hno (by rintro i ⟨⟩), Or.inl rfl⟩
  | allocate => exact Or.inl ⟨hno (by rintro i ⟨⟩), Or.inl rfl⟩
  | fire i =>
      have hstep : c.step (.fire i) = c.fire i := rfl
      rw [hstep]
      unfold fire
      cases hcb : c.timer.extracted[i]? with
      | none =>
          refine Or.inl ⟨?_, Or.inl rfl⟩
          rintro ⟨j, _, _, _, hj, hget, _⟩
          cases hj
          rw [hcb] at hget
          cases hget
      | some cb =>
          cases cb with
          | activate =>
              refine Or.inl ⟨?_, Or.inl rfl⟩
              rintro ⟨j, _, _, _, hj, hget, _⟩
              cases hj
              rw [hcb] at hget
              cases hget
          | expiry maxRetry reqId first =>
              have hres : c.Resends (.fire i) ↔ 2 ≤ maxRetry ∧ c.rrcRequests reqId ≠ none := by
                constructor
                · rintro ⟨j, _, _, _, hj, hget, hmax, hout⟩
                  cases hj
                  rw [hcb] at hget
                  cases hget
                  exact ⟨hmax, hout⟩
                · rintro ⟨hmax, hout⟩
                  exact ⟨i, maxRetry, reqId, first, rfl, hcb, hmax, hout⟩
              have hfilled := h.filled maxRetry reqId first
                (List.mem_append_right _ (List.mem_of_getElem? hcb))
              rw [hres]
              dsimp only [call, onExpiry]
              cases hctx : c.rrcRequests reqId with
              | none => exact Or.inl ⟨fun hr => hr.2 rfl, Or.inl rfl⟩
              | some context =>
                  have hempty := h.empty reqId context hctx
                  dsimp only [allocateReqId, autoSendRrc]
                  by_cases hmax : 2 ≤ maxRetry
                  · rw [if_neg (by omega), hempty]
                    exact Or.inr ⟨⟨hmax, Option.some_ne_none _⟩, _, not_repeats hfilled _, rfl⟩
                  · rw [if_pos (by omega)]
                    exact Or.inl ⟨fun hr => hmax hr.1, Or.inl rfl⟩

theorem step_repeats_iff {c : Lcrrc} (h : c.Contexts) (e : Event) :
    (∀ p ∈ (c.step e).autoSent, p.Repeats) ↔
      (∀ p ∈ c.autoSent, p.Repeats) ∧ ¬ c.Resends e := by
  rcases step_autoSent h e with ⟨hno, hsame | ⟨p, hp, happ⟩⟩ | ⟨hres, p, hp, happ⟩
  · rw [hsame]
    exact ⟨fun hall => ⟨hall, hno⟩, fun hall => hall.1⟩
  · rw [happ, List.forall_mem_append]
    exact ⟨fun hall => ⟨hall.1, hno⟩, fun hall => ⟨hall.1, by simpa using hp⟩⟩
  · rw [happ, List.forall_mem_append]
    exact ⟨fun hall => absurd (hall.2 p (List.mem_singleton_self p)) hp,
      fun hall => absurd hres hall.2⟩

theorem run_repeats_iff {c : Lcrrc} (h : c.Contexts) (es : List Event) :
    (∀ p ∈ (c.run es).autoSent, p.Repeats) ↔
      (∀ p ∈ c.autoSent, p.Repeats) ∧ Steps step (fun c e => ¬ c.Resends e) c es := by
  induction es generalizing c with
  | nil => exact ⟨fun hall => ⟨hall, trivial⟩, fun hall => hall.1⟩
  | cons e es ih =>
      have hrun : c.run (e :: es) = (c.step e).run es := rfl
      rw [hrun, ih (h.step e), step_repeats_iff h e, and_assoc]
      rfl

/-- **When every retry repeats the request.**  In every run, each message that
`auto_send_rrc` sends has the content of the first message of its chain if and
only if no retry is sent at all. -/
theorem retries_repeat_iff (lcid : UInt8) (llcTx : LegacyLlc.TxConfig)
    (llcRx : LegacyLlc.RxConfig) (pdcpTx : LegacyPdcp.TxConfig) (pdcpRx : LegacyPdcp.RxConfig)
    (es : List Event) :
    (∀ p ∈ ((new lcid llcTx llcRx pdcpTx pdcpRx).run es).autoSent, p.Repeats) ↔
      Steps step (fun c e => ¬ c.Resends e) (new lcid llcTx llcRx pdcpTx pdcpRx) es := by
  have hctx : (new lcid llcTx llcRx pdcpTx pdcpRx).Contexts :=
    ⟨fun _ _ h => (Option.some_ne_none _ h.symm).elim, fun _ _ _ h => (List.not_mem_nil h).elim⟩
  rw [run_repeats_iff hctx es]
  exact ⟨fun h => h.2, fun h => ⟨fun p hp => (List.not_mem_nil hp).elim, h⟩⟩

/-- The first retry of a channel whose `lcid` is 1: the content is lost, down to
the `lcid`. -/
theorem retry_is_default :
    ((new 1 {} {} {} {}).run [.init false, .extract 0, .fire 0]).autoSent =
      [⟨⟨0, .exchangeRequest ⟨1, {}, { maxSnDistance := some 20 }⟩⟩,
          ⟨0, .exchangeRequest ⟨1, {}, { maxSnDistance := some 20 }⟩⟩⟩,
        ⟨⟨0, .exchangeRequest ⟨1, {}, { maxSnDistance := some 20 }⟩⟩,
          ⟨1, .exchangeRequest ⟨0, {}, { maxSnDistance := none }⟩⟩⟩] ∧
      ¬ ∀ p ∈ ((new 1 {} {} {} {}).run [.init false, .extract 0, .fire 0]).autoSent,
        p.Repeats := by
  refine ⟨by decide, ?_⟩
  intro h
  have hlast := h ⟨⟨0, .exchangeRequest ⟨1, {}, { maxSnDistance := some 20 }⟩⟩,
    ⟨1, .exchangeRequest ⟨0, {}, { maxSnDistance := none }⟩⟩⟩ (by decide)
  exact absurd hlast (by unfold AutoSent.Repeats; decide)

end Lcrrc

end Winject.ChannelRrc
