import Winject.ChannelRrc.LinkFailure
import Winject.ChannelRrc.Requests

/-!
# Coming to rest

A channel that waits for an answer has a timer for it, and a channel that is configured has
one for its activation: no state is waited in without a callback that leaves it.  Every
callback leads to fewer retries, so a channel that hears nothing comes to rest, active or
not configured.

As in `Winject.ChannelRrc.Model` the handlers are taken to be serialized: the reactor and the
timer's thread do not interleave inside the channel.

## Main results

* `Underway.step` — what is waited for has its callback.
* `step_load` — a callback that is called leaves less to be called.
* `comes_to_rest` — what becomes of a channel that is left to its timers.
-/

namespace Winject.ChannelRrc

open Winject.Lib.Runs

/-- What calling a callback can still lead to. -/
def Callback.weight : Callback → Nat
  | .activate => 1
  | .expiry maxRetry _ _ => maxRetry + 1

namespace Timer

/-- The timer is cancelled if there is one. -/
def release (t : Timer) : Option Nat → Timer
  | none => t
  | some id => t.cancel id

/-- What the callbacks of a timer can still lead to. -/
def load (t : Timer) : Nat := (t.callbacks.map Callback.weight).sum

theorem load_waitMs (t : Timer) (cb : Callback) : (t.waitMs cb).1.load = t.load + cb.weight := by
  unfold load callbacks waitMs
  simp only [List.map_append, List.map_cons, List.map_nil, List.sum_append, List.sum_cons,
    List.sum_nil]
  omega

theorem load_extract (t : Timer) (i : Nat) : (t.extract i).load = t.load := by
  unfold extract
  cases hi : t.cbMap[i]? with
  | none => rfl
  | some entry =>
      obtain ⟨hlt, hget⟩ := List.getElem?_eq_some_iff.mp hi
      have hperm := ((List.getElem_cons_eraseIdx_perm hlt).map fun e => e.2.weight).sum_eq
      rw [hget, List.map_cons, List.sum_cons] at hperm
      unfold load callbacks
      simp only [List.map_append, List.map_map, List.map_cons, List.map_nil, List.sum_append,
        List.sum_cons, List.sum_nil, Function.comp_def]
      omega

theorem load_fired {t : Timer} {i : Nat} {cb : Callback} (h : t.extracted[i]? = some cb) :
    (t.fired i).load + cb.weight = t.load := by
  obtain ⟨hlt, hget⟩ := List.getElem?_eq_some_iff.mp h
  have hperm := ((List.getElem_cons_eraseIdx_perm hlt).map Callback.weight).sum_eq
  rw [hget, List.map_cons, List.sum_cons] at hperm
  unfold load callbacks fired
  simp only [List.map_append, List.sum_append]
  omega

end Timer

/-! ## Timers of what is waited for -/

/-- The handler of a request is still to be called, and only that has its number. -/
structure Awaits (t : Timer) (reqId : UInt8) (id : Nat) : Prop where
  below : id < t.timerCtr
  named : ∀ cb, (id, cb) ∈ t.cbMap → ∃ maxRetry first, cb = .expiry maxRetry reqId first
  pending : ∃ maxRetry first, (id, .expiry maxRetry reqId first) ∈ t.cbMap ∨
    .expiry maxRetry reqId first ∈ t.extracted

/-- The timers of the requests and of the activation. -/
structure Timed (t : Timer) (requests : UInt8 → Option RrcRequestContext)
    (activateTimer : Option Nat) : Prop where
  below : ∀ entry ∈ t.cbMap, entry.1 < t.timerCtr
  activation : ∀ id, activateTimer = some id →
    id < t.timerCtr ∧ ∀ cb, (id, cb) ∈ t.cbMap → cb = .activate
  requests : ∀ reqId context, requests reqId = some context → Awaits t reqId context.expTimer

section Timed

variable {t : Timer} {requests : UInt8 → Option RrcRequestContext} {activateTimer : Option Nat}

/-- A number that has been given goes to nothing else. -/
theorem mem_waitMs_of_lt {id : Nat} {cb cb' : Callback} (hid : id < t.timerCtr)
    (h : (id, cb) ∈ (t.waitMs cb').1.cbMap) : (id, cb) ∈ t.cbMap := by
  rcases List.mem_append.mp h with hold | hnew
  · exact hold
  · have heq := (Prod.mk.inj (List.mem_singleton.mp hnew)).1
    omega

theorem below_waitMs (h : ∀ entry ∈ t.cbMap, entry.1 < t.timerCtr) (cb : Callback) :
    ∀ entry ∈ (t.waitMs cb).1.cbMap, entry.1 < (t.waitMs cb).1.timerCtr := by
  intro entry hmem
  rcases List.mem_append.mp hmem with hold | hnew
  · exact Nat.lt_succ_of_lt (h entry hold)
  · rw [List.mem_singleton.mp hnew]
    exact Nat.lt_succ_self _

/-- A timer more. -/
theorem Awaits.waitMs {reqId : UInt8} {id : Nat} (h : Awaits t reqId id) (cb : Callback) :
    Awaits (t.waitMs cb).1 reqId id := by
  refine ⟨Nat.lt_succ_of_lt h.below, fun cb' hmem => h.named cb' (mem_waitMs_of_lt h.below hmem), ?_⟩
  obtain ⟨maxRetry, first, hmap | hext⟩ := h.pending
  · exact ⟨maxRetry, first, Or.inl (List.mem_append_left _ hmap)⟩
  · exact ⟨maxRetry, first, Or.inr hext⟩

/-- Another timer is cancelled. -/
theorem Awaits.cancel {reqId : UInt8} {id other : Nat} (h : Awaits t reqId id)
    (hother : ∀ maxRetry first, (other, .expiry maxRetry reqId first) ∉ t.cbMap) :
    Awaits (t.cancel other) reqId id := by
  refine ⟨h.below, fun cb hmem => h.named cb (List.mem_filter.mp hmem).1, ?_⟩
  obtain ⟨maxRetry, first, hmap | hext⟩ := h.pending
  · refine ⟨maxRetry, first, Or.inl (List.mem_filter.mpr ⟨hmap, ?_⟩)⟩
    have hne : id ≠ other := fun heq => hother maxRetry first (heq ▸ hmap)
    exact bne_iff_ne.mpr hne
  · exact ⟨maxRetry, first, Or.inr hext⟩

/-- The timer of a new request. -/
theorem Timed.request (h : Timed t requests activateTimer) (maxRetry : Nat) (reqId : UInt8)
    (first : Rrc) :
    Timed (t.waitMs (.expiry maxRetry reqId first)).1
      (Function.update requests reqId (some { expTimer := t.timerCtr })) activateTimer where
  below := below_waitMs h.below _
  activation id hid := by
    obtain ⟨hlt, hnamed⟩ := h.activation id hid
    exact ⟨Nat.lt_succ_of_lt hlt, fun cb hmem => hnamed cb (mem_waitMs_of_lt hlt hmem)⟩
  requests other context hcontext := by
    by_cases heq : other = reqId
    · subst heq
      rw [Function.update_self] at hcontext
      rw [← Option.some.inj hcontext]
      refine ⟨Nat.lt_succ_self _, fun cb hmem => ?_,
        maxRetry, first, Or.inl (List.mem_append_right _ (List.mem_singleton.mpr rfl))⟩
      rcases List.mem_append.mp hmem with hold | hnew
      · exact absurd (h.below _ hold) (lt_irrefl _)
      · exact ⟨maxRetry, first, (Prod.mk.inj (List.mem_singleton.mp hnew)).2⟩
    · rw [Function.update_of_ne heq] at hcontext
      exact (h.requests other context hcontext).waitMs _

/-- The requests that stay. -/
theorem Timed.dropped (h : Timed t requests activateTimer) (reqId : UInt8) :
    Timed t (Function.update requests reqId none) activateTimer where
  below := h.below
  activation := h.activation
  requests other context hcontext := by
    by_cases heq : other = reqId
    · rw [heq, Function.update_self] at hcontext
      cases hcontext
    · rw [Function.update_of_ne heq] at hcontext
      exact h.requests other context hcontext

/-- The timer of a request that has been answered. -/
theorem Timed.answered (h : Timed t requests activateTimer) {reqId : UInt8}
    {context : RrcRequestContext} (hreq : requests reqId = some context) :
    Timed (t.cancel context.expTimer) (Function.update requests reqId none) activateTimer where
  below entry hmem := h.below entry (List.mem_filter.mp hmem).1
  activation id hid := by
    obtain ⟨hlt, hnamed⟩ := h.activation id hid
    exact ⟨hlt, fun cb hmem => hnamed cb (List.mem_filter.mp hmem).1⟩
  requests other ctx hctx := by
    have hold := (h.dropped reqId).requests other ctx hctx
    refine hold.cancel fun maxRetry first hmem => ?_
    obtain ⟨k, f, heq⟩ := (h.requests reqId context hreq).named _ hmem
    cases heq
    rw [Function.update_self] at hctx
    cases hctx

/-- The timer of the activation, which replaces the one that was there. -/
theorem Timed.activate (h : Timed t requests activateTimer) :
    Timed ((t.release activateTimer).waitMs .activate).1 requests
      (some (t.release activateTimer).timerCtr) := by
  have hrest : Timed (t.release activateTimer) requests none := by
    cases hactive : activateTimer with
    | none => exact ⟨h.below, fun id hid => (by cases hid), h.requests⟩
    | some id =>
        refine ⟨fun entry hmem => h.below entry (List.mem_filter.mp hmem).1,
          fun id hid => (by cases hid), fun reqId context hcontext => ?_⟩
        refine (h.requests reqId context hcontext).cancel fun maxRetry first hmem => ?_
        have heq := (h.activation id hactive).2 _ hmem
        cases heq
  refine ⟨below_waitMs hrest.below _, fun id hid => ?_, fun reqId context hcontext =>
    (hrest.requests reqId context hcontext).waitMs _⟩
  obtain rfl := Option.some.inj hid
  refine ⟨Nat.lt_succ_self _, fun cb hmem => ?_⟩
  rcases List.mem_append.mp hmem with hold | hnew
  · exact absurd (hrest.below _ hold) (lt_irrefl _)
  · exact (Prod.mk.inj (List.mem_singleton.mp hnew)).2

/-- A callback leaves the map. -/
theorem Timed.extract (h : Timed t requests activateTimer) (i : Nat) :
    Timed (t.extract i) requests activateTimer := by
  unfold Timer.extract
  cases hi : t.cbMap[i]? with
  | none => exact h
  | some entry =>
      obtain ⟨hlt, hget⟩ := List.getElem?_eq_some_iff.mp hi
      have hsub : ∀ x ∈ t.cbMap.eraseIdx i, x ∈ t.cbMap := fun x hx => List.mem_of_mem_eraseIdx hx
      refine ⟨fun x hx => h.below x (hsub x hx), fun id hid => ?_, fun reqId context hcontext => ?_⟩
      · obtain ⟨hbelow, hnamed⟩ := h.activation id hid
        exact ⟨hbelow, fun cb hmem => hnamed cb (hsub _ hmem)⟩
      · obtain ⟨hbelow, hnamed, maxRetry, first, hpending⟩ := h.requests reqId context hcontext
        refine ⟨hbelow, fun cb hmem => hnamed cb (hsub _ hmem), maxRetry, first, ?_⟩
        rcases hpending with hmap | hext
        · have hperm := List.getElem_cons_eraseIdx_perm hlt
          rw [hget] at hperm
          rcases List.mem_cons.mp (hperm.mem_iff.mpr hmap) with heq | hrest
          · right
            exact List.mem_append_right _ (List.mem_singleton.mpr (congrArg Prod.snd heq))
          · exact Or.inl hrest
        · exact Or.inr (List.mem_append_left _ hext)

/-- A callback is called that is the handler of no request, or of one that is dropped. -/
theorem Timed.fired (h : Timed t requests activateTimer) {i : Nat} {cb : Callback}
    (hcb : t.extracted[i]? = some cb)
    (hfree : ∀ maxRetry reqId first, cb = .expiry maxRetry reqId first → requests reqId = none) :
    Timed (t.fired i) requests activateTimer := by
  refine ⟨h.below, h.activation, fun reqId context hcontext => ?_⟩
  obtain ⟨hbelow, hnamed, maxRetry, first, hpending⟩ := h.requests reqId context hcontext
  refine ⟨hbelow, hnamed, maxRetry, first, hpending.imp_right fun hext => ?_⟩
  obtain ⟨hlt, hget⟩ := List.getElem?_eq_some_iff.mp hcb
  have hperm := List.getElem_cons_eraseIdx_perm hlt
  rw [hget] at hperm
  rcases List.mem_cons.mp (hperm.mem_iff.mpr hext) with heq | hrest
  · have hnone := hfree maxRetry reqId first heq.symm
    rw [hnone] at hcontext
    cases hcontext
  · exact hrest

end Timed

namespace Lcrrc

/-! ## What is waited for -/

/-- Each state that is waited in has a callback that leaves it. -/
structure Underway (c : Lcrrc) : Prop where
  timed : Timed c.timer c.rrcRequests c.activateTimer
  configuring : c.txrxState = .configuring → ∃ reqId, c.rrcRequests reqId ≠ none
  configured : c.txrxState = .configured → c.ActivationPending

theorem Underway.new (lcid : UInt8) (llcTx : LegacyLlc.TxConfig) (llcRx : LegacyLlc.RxConfig)
    (pdcpTx : LegacyPdcp.TxConfig) (pdcpRx : LegacyPdcp.RxConfig) :
    (new lcid llcTx llcRx pdcpTx pdcpRx).Underway where
  timed :=
    { below := fun _ hmem => (List.not_mem_nil hmem).elim
      activation := fun _ hid => by cases hid
      requests := fun _ _ hcontext => by cases hcontext }
  configuring h := by cases h
  configured h := by cases h

/-- Nothing is waited for in this state. -/
theorem Underway.of_state {c : Lcrrc}
    (h : Timed c.timer c.rrcRequests c.activateTimer)
    (hstate : c.txrxState = .notConfigured ∨ c.txrxState = .active) : c.Underway := by
  refine ⟨h, fun hconf => ?_, fun hconf => ?_⟩ <;> rw [hconf] at hstate <;>
    rcases hstate with heq | heq <;> cases heq

/-- A request waits for its answer, or nothing is waited for. -/
theorem autoSendRrc_underway {c : Lcrrc} (h : Timed c.timer c.rrcRequests c.activateTimer)
    (hconfigured : c.txrxState = .configured → c.ActivationPending) (maxRetry : Nat)
    (msg first : Rrc) : (c.autoSendRrc maxRetry msg first).Underway := by
  unfold autoSendRrc
  split_ifs with hzero
  · exact .of_state h (Or.inl rfl)
  · refine ⟨h.request maxRetry msg.requestID first, fun _ => ⟨msg.requestID, ?_⟩, fun hstate => ?_⟩
    · show Function.update c.rrcRequests msg.requestID
        (some { expTimer := c.timer.timerCtr }) msg.requestID ≠ none
      rw [Function.update_self]
      exact Option.some_ne_none _
    · exact Timer.mem_callbacks_waitMs.mpr (Or.inl (hconfigured hstate))

/-- A configured channel has its activation to come. -/
theorem scheduleActivate_underway {c : Lcrrc}
    (h : Timed c.timer c.rrcRequests c.activateTimer) (hstate : c.txrxState = .configured) :
    c.scheduleActivate.Underway := by
  refine ⟨h.activate, fun hconf => ?_, fun _ => c.scheduleActivate_pending⟩
  cases hstate.symm.trans hconf

theorem Underway.call {c : Lcrrc} {i : Nat} {cb : Callback}
    (hcb : c.timer.extracted[i]? = some cb) (h : c.Underway) :
    (Lcrrc.call { c with timer := c.timer.fired i } cb).Underway := by
  cases cb with
  | activate =>
      refine .of_state (h.timed.fired hcb fun _ _ _ heq => ?_) (Or.inr rfl)
      cases heq
  | expiry maxRetry reqId first =>
      have hpending : c.ActivationPending → Callback.activate ∈ (c.timer.fired i).callbacks :=
        Timer.mem_callbacks_fired_of_ne hcb fun heq => by cases heq
      show (Lcrrc.onExpiry _ maxRetry reqId first).Underway
      unfold onExpiry
      cases hcontext : c.rrcRequests reqId with
      | none =>
          dsimp only
          refine ⟨h.timed.fired hcb fun _ _ _ heq => ?_, h.configuring,
            fun hstate => hpending (h.configured hstate)⟩
          cases heq
          exact hcontext
      | some context =>
          dsimp only
          refine autoSendRrc_underway ?_ ?_ _ _ _
          · refine (h.timed.dropped reqId).fired hcb fun _ _ _ heq => ?_
            cases heq
            exact Function.update_self ..
          · exact fun hstate => hpending (h.configured hstate)

/-- **What is waited for has its callback**, whatever happens to the channel. -/
theorem Underway.step {c : Lcrrc} (h : c.Underway) (e : Event) : (c.step e).Underway := by
  cases e with
  | init forced =>
      show (c.onInit forced).Underway
      unfold onInit
      split_ifs
      · exact h
      · refine autoSendRrc_underway ?_ ?_ _ _ _
        · exact h.timed
        · exact fun hstate => by cases hstate
  | request reqId req =>
      have hrlf : Timed (if c.txrxState = .active then c.onRlf else c).timer
          (if c.txrxState = .active then c.onRlf else c).rrcRequests
          (if c.txrxState = .active then c.onRlf else c).activateTimer := by
        split_ifs <;> exact h.timed
      exact scheduleActivate_underway hrlf rfl
  | response reqId rsp =>
      refine scheduleActivate_underway ?_ rfl
      show Timed (c.checkResponse reqId).timer (c.checkResponse reqId).rrcRequests
        (c.checkResponse reqId).activateTimer
      unfold checkResponse
      cases hcontext : c.rrcRequests reqId with
      | none => exact h.timed
      | some context => exact h.timed.answered hcontext
  | rlf => exact .of_state h.timed (Or.inl rfl)
  | extract i =>
      exact ⟨h.timed.extract i, h.configuring, fun hstate =>
        Timer.mem_callbacks_extract.mpr (h.configured hstate)⟩
  | fire i =>
      show (c.fire i).Underway
      unfold fire
      cases hcb : c.timer.extracted[i]? with
      | none => exact h
      | some cb => exact h.call hcb
  | allocate => exact ⟨h.timed, h.configuring, h.configured⟩

/-! ## Rest -/

/-- Nothing is waited for. -/
structure AtRest (c : Lcrrc) : Prop where
  noRequest : c.NoRequest
  state : c.txrxState = .active ∧ c.AllFlags true ∨
    c.txrxState = .notConfigured ∧ c.AllFlags false

theorem Underway.atRest {c : Lcrrc} (h : c.Underway) (hflags : c.FlagsAgree)
    (hnone : c.timer.callbacks = []) : c.AtRest := by
  have hno : c.NoRequest := by
    intro reqId
    cases hcontext : c.rrcRequests reqId with
    | none => rfl
    | some context =>
        obtain ⟨maxRetry, first, hpending⟩ := (h.timed.requests reqId context hcontext).pending
        have hmem : Callback.expiry maxRetry reqId first ∈ c.timer.callbacks := by
          rcases hpending with hmap | hext
          · exact List.mem_append_left _ (List.mem_map_of_mem hmap)
          · exact List.mem_append_right _ hext
        rw [hnone] at hmem
        cases hmem
  refine ⟨hno, ?_⟩
  cases hstate : c.txrxState with
  | active => exact Or.inl ⟨rfl, hflags.active hstate⟩
  | notConfigured => exact Or.inr ⟨rfl, hflags.notConfigured hstate⟩
  | configuring =>
      obtain ⟨reqId, hsome⟩ := h.configuring hstate
      exact absurd (hno reqId) hsome
  | configured =>
      have hmem := h.configured hstate
      unfold ActivationPending at hmem
      rw [hnone] at hmem
      cases hmem

/-! ## Less and less to be called -/

/-- The callbacks that a run of the timer calls. -/
def calls (c : Lcrrc) : List Event → Nat
  | [] => 0
  | e :: es =>
    (match e with
      | .fire i => if c.timer.extracted[i]? = none then 0 else 1
      | _ => 0) + (c.step e).calls es

theorem call_load (c : Lcrrc) (cb : Callback) :
    (c.call cb).timer.load + 1 ≤ c.timer.load + cb.weight := by
  cases cb with
  | activate => exact le_refl _
  | expiry maxRetry reqId first =>
      show (c.onExpiry maxRetry reqId first).timer.load + 1 ≤ c.timer.load + (maxRetry + 1)
      unfold onExpiry
      cases c.rrcRequests reqId with
      | none =>
          dsimp only
          omega
      | some context =>
          dsimp only [allocateReqId]
          unfold autoSendRrc
          split_ifs with hzero
          · show c.timer.load + 1 ≤ _
            omega
          · show (c.timer.waitMs _).1.load + 1 ≤ _
            rw [Timer.load_waitMs]
            show c.timer.load + (maxRetry - 1 + 1) + 1 ≤ _
            omega

/-- An event of the timer leaves as much less to be called as it calls. -/
theorem step_load (c : Lcrrc) {e : Event} (he : e.IsTimer) (es : List Event) :
    c.calls (e :: es) + (c.step e).timer.load ≤ c.timer.load + (c.step e).calls es := by
  cases e with
  | extract i =>
      show 0 + (c.step (.extract i)).calls es + (c.timer.extract i).load ≤ _
      rw [Timer.load_extract]
      omega
  | fire i =>
      show (if c.timer.extracted[i]? = none then 0 else 1) + (c.fire i).calls es +
        (c.fire i).timer.load ≤ c.timer.load + (c.fire i).calls es
      cases hcb : c.timer.extracted[i]? with
      | none =>
          have hfire : c.fire i = c := by
            unfold fire
            rw [hcb]
          rw [if_pos rfl, hfire]
          omega
      | some cb =>
          have hfire : c.fire i = ({ c with timer := c.timer.fired i } : Lcrrc).call cb := by
            unfold fire
            rw [hcb]
          have hcall := call_load { c with timer := c.timer.fired i } cb
          have hfired := Timer.load_fired hcb
          rw [if_neg (Option.some_ne_none cb), ← hfire] at *
          change _ ≤ (c.timer.fired i).load + cb.weight at hcall
          omega
  | _ => cases he

theorem run_load (c : Lcrrc) {ts : List Event} (hts : ∀ e ∈ ts, e.IsTimer) :
    c.calls ts + (c.run ts).timer.load ≤ c.timer.load := by
  induction ts generalizing c with
  | nil => exact (Nat.zero_add _).le
  | cons e ts ih =>
      have hhead := c.step_load (hts e (List.mem_cons_self ..)) ts
      have htail := ih (c.step e) fun x hx => hts x (List.mem_cons_of_mem _ hx)
      have hrun : c.run (e :: ts) = (c.step e).run ts := rfl
      rw [hrun]
      omega

/-- A callback that is left can be called. -/
theorem exists_call {c : Lcrrc} (h : c.timer.callbacks ≠ []) :
    ∃ ts : List Event, (∀ e ∈ ts, e.IsTimer) ∧ 0 < c.calls ts := by
  cases hext : c.timer.extracted with
  | cons cb others =>
      refine ⟨[.fire 0], fun e he => List.mem_singleton.mp he ▸ trivial, ?_⟩
      show 0 < (if c.timer.extracted[0]? = none then 0 else 1) + 0
      rw [hext]
      exact Nat.one_pos
  | nil =>
      cases hmap : c.timer.cbMap with
      | nil =>
          refine absurd ?_ h
          unfold Timer.callbacks
          rw [hext, hmap]
          rfl
      | cons entry others =>
          refine ⟨[.extract 0, .fire 0], fun e he => ?_, ?_⟩
          · rcases List.mem_cons.mp he with rfl | hlast
            · trivial
            · exact List.mem_singleton.mp hlast ▸ trivial
          · show 0 < 0 + ((if (c.timer.extract 0).extracted[0]? = none then 0 else 1) + 0)
            unfold Timer.extract
            rw [hmap, hext]
            exact Nat.one_pos

/-- The timer can call all that is left. -/
theorem exists_rest (c : Lcrrc) :
    ∃ ts : List Event, (∀ e ∈ ts, e.IsTimer) ∧ (c.run ts).timer.callbacks = [] := by
  induction hload : c.timer.load using Nat.strong_induction_on generalizing c with
  | _ n ih =>
      by_cases hnone : c.timer.callbacks = []
      · exact ⟨[], fun e he => (List.not_mem_nil he).elim, hnone⟩
      · obtain ⟨ts, hts, hcalls⟩ := exists_call hnone
        have hless := c.run_load hts
        obtain ⟨us, hus, hrest⟩ := ih _ (by omega) (c.run ts) rfl
        refine ⟨ts ++ us, fun e he => ?_, ?_⟩
        · rcases List.mem_append.mp he with hfirst | hsecond
          · exact hts e hfirst
          · exact hus e hsecond
        · rw [run, List.foldl_append]
          exact hrest

/-- **A channel comes to rest.**  Behind any run, a channel that hears nothing calls no more
callbacks than its timers can lead to, in whichever order they come; it can always call them
all; and when none is left it waits for nothing, is active with all six flags set or not
configured with none. -/
theorem comes_to_rest (lcid : UInt8) (llcTx : LegacyLlc.TxConfig) (llcRx : LegacyLlc.RxConfig)
    (pdcpTx : LegacyPdcp.TxConfig) (pdcpRx : LegacyPdcp.RxConfig) (es : List Event) :
    let c := (new lcid llcTx llcRx pdcpTx pdcpRx).run es
    (∀ ts : List Event, (∀ e ∈ ts, e.IsTimer) → c.calls ts ≤ c.timer.load ∧
      ((c.run ts).timer.callbacks = [] → (c.run ts).AtRest)) ∧
    ∃ ts : List Event, (∀ e ∈ ts, e.IsTimer) ∧ (c.run ts).timer.callbacks = [] := by
  intro c
  refine ⟨fun ts hts => ⟨(Nat.le_add_right _ _).trans (c.run_load hts), fun hnone => ?_⟩,
    c.exists_rest⟩
  have hunder : (c.run ts).Underway :=
    foldl_invariant Underway (fun _ e hc => hc.step e) ts c
      (foldl_invariant Underway (fun _ e hc => hc.step e) es _ (.new ..))
  have hflags : (c.run ts).FlagsAgree :=
    foldl_invariant FlagsAgree (fun _ e hc => hc.step e) ts c
      (foldl_invariant FlagsAgree (fun _ e hc => hc.step e) es _
        (.of_down ⟨rfl, rfl, rfl, rfl, rfl, rfl⟩ rfl))
  exact hunder.atRest hflags hnone

end Lcrrc

end Winject.ChannelRrc
