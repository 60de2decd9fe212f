import Winject.ChannelRrc.Flags

/-!
# Radio link failure

`on_rlf` takes the channel down.  It does not cancel the activation timer: an
activation that is pending brings the channel up again, without a new exchange.
Where none is pending, the channel stays down until an exchange message arrives.

## Main results

* `Down.step` — without an exchange message, and with no activation pending, the
  channel stays down.
* `exists_activation` — a pending activation comes, behind the callbacks before it.
* `rlf_final_iff` — when a radio link failure is final.
-/

namespace Winject.ChannelRrc

open Winject.LegacyLlc
open Winject.LegacyPdcp
open Winject.Lib.Runs

/-- The events of a new exchange. -/
def Event.IsExchange : Event → Prop
  | .request _ _ => True
  | .response _ _ => True
  | _ => False

instance (e : Event) : Decidable e.IsExchange :=
  match e with
  | .request _ _ | .response _ _ => .isTrue trivial
  | .init _ | .rlf | .extract _ | .fire _ | .allocate => .isFalse id

namespace Lcrrc

/-- A call of `activate` is still to come. -/
def ActivationPending (c : Lcrrc) : Prop := Callback.activate ∈ c.timer.callbacks

instance (c : Lcrrc) : Decidable c.ActivationPending :=
  inferInstanceAs (Decidable (_ ∈ _))

/-- The expiry of the last retry of a request that is outstanding. -/
def LastRetryExpires (c : Lcrrc) (i : Nat) : Prop :=
  ∃ maxRetry reqId first, c.timer.extracted[i]? = some (.expiry maxRetry reqId first) ∧
    maxRetry ≤ 1 ∧ c.rrcRequests reqId ≠ none

/-- The event runs `on_rlf` and nothing after it: it is the failure itself, or
the retries of a request run out.  (An exchange request that finds the channel
active runs `on_rlf` first, and is then handled.) -/
def RaisesRlf (c : Lcrrc) (e : Event) : Prop :=
  e = .rlf ∨ ∃ i, e = .fire i ∧ c.LastRetryExpires i

/-- Out of service: not active, and nothing enabled. -/
structure Quiet (c : Lcrrc) : Prop where
  state : c.txrxState ≠ .active
  flags : c.AllFlags false

theorem onRlf_quiet (c : Lcrrc) : c.onRlf.Quiet where
  state := by
    show TxrxState.notConfigured ≠ .active
    decide
  flags := c.onRlf_flags

/-- Out of service for good. -/
structure Down (c : Lcrrc) : Prop where
  quiet : c.Quiet
  noActivation : ¬ c.ActivationPending

/-! ## Staying down -/

theorem Down.of_same {c c' : Lcrrc} (h : c.Down) (hsame : SameChannel c c')
    (hstate : c'.txrxState ≠ .active)
    (hpending : c'.ActivationPending → c.ActivationPending) : c'.Down :=
  ⟨⟨hstate, hsame.flags.mpr h.quiet.flags⟩, fun hp => h.noActivation (hpending hp)⟩

/-- `auto_send_rrc` schedules no activation. -/
theorem autoSendRrc_pending {c : Lcrrc} {maxRetry : Nat} {msg first : Rrc} :
    (c.autoSendRrc maxRetry msg first).ActivationPending ↔ c.ActivationPending := by
  unfold autoSendRrc
  split_ifs with h
  · rfl
  · show Callback.activate ∈ (c.timer.waitMs _).1.callbacks ↔ _
    rw [Timer.mem_callbacks_waitMs]
    constructor
    · rintro (hmem | hcontra)
      · exact hmem
      · cases hcontra
    · exact Or.inl

theorem onExpiry_pending {c : Lcrrc} {maxRetry : Nat} {reqId : UInt8} {first : Rrc} :
    (c.onExpiry maxRetry reqId first).ActivationPending ↔ c.ActivationPending := by
  unfold onExpiry
  cases c.rrcRequests reqId with
  | none => rfl
  | some context => exact autoSendRrc_pending

theorem onInit_pending {c : Lcrrc} {forced : Bool} :
    (c.onInit forced).ActivationPending ↔ c.ActivationPending := by
  unfold onInit
  split_ifs
  · rfl
  · exact autoSendRrc_pending

theorem Down.call {c : Lcrrc} (h : c.Down) {maxRetry : Nat} {reqId : UInt8} {first : Rrc} :
    (c.onExpiry maxRetry reqId first).Down := by
  rcases c.onExpiry_same maxRetry reqId first with ⟨hsame, hstate⟩ | ⟨hflags, hstate⟩
  · exact h.of_same hsame (hstate ▸ h.quiet.state) onExpiry_pending.mp
  · exact ⟨⟨by rw [hstate]; decide, hflags⟩, fun hp => h.noActivation (onExpiry_pending.mp hp)⟩

/-- Without an exchange message the channel stays down. -/
theorem Down.step {c : Lcrrc} (h : c.Down) {e : Event} (he : ¬ e.IsExchange) :
    (c.step e).Down := by
  cases e with
  | init forced =>
      rcases c.onInit_cases forced with heq | ⟨_, hsame, hstate⟩
      · show (c.onInit forced).Down
        rwa [heq]
      · refine h.of_same hsame ?_ onInit_pending.mp
        show (c.onInit forced).txrxState ≠ .active
        rw [hstate]
        decide
  | request reqId req => exact absurd trivial he
  | response reqId rsp => exact absurd trivial he
  | rlf => exact ⟨c.onRlf_quiet, h.noActivation⟩
  | extract i =>
      exact h.of_same ⟨rfl, rfl, rfl, rfl⟩ h.quiet.state Timer.mem_callbacks_extract.mp
  | fire i =>
      show (c.fire i).Down
      unfold fire
      cases hcb : c.timer.extracted[i]? with
      | none => exact h
      | some cb =>
          have hrest : ({ c with timer := c.timer.fired i } : Lcrrc).Down :=
            h.of_same ⟨rfl, rfl, rfl, rfl⟩ h.quiet.state Timer.mem_callbacks_of_fired
          cases cb with
          | activate =>
              exact absurd (List.mem_append_right _ (List.mem_of_getElem? hcb)) h.noActivation
          | expiry maxRetry reqId first => exact hrest.call
  | allocate => exact h.of_same ⟨rfl, rfl, rfl, rfl⟩ h.quiet.state id

theorem Down.run {c : Lcrrc} (h : c.Down) {es : List Event}
    (hes : ∀ e ∈ es, ¬ e.IsExchange) : (c.run es).Down := by
  induction es generalizing c with
  | nil => exact h
  | cons e es ih =>
      exact ih (h.step (hes e (List.mem_cons_self ..)))
        (fun x hx => hes x (List.mem_cons_of_mem _ hx))

/-! ## Coming up again -/

/-- The event takes the callback with the next deadline out of the map, or calls it. -/
def ByDeadline (c : Lcrrc) : Event → Prop
  | .extract i => i = 0 ∧ c.timer.extracted = []
  | .fire i => i = 0
  | _ => False

theorem ByDeadline.timer {c : Lcrrc} {e : Event} (h : c.ByDeadline e) :
    ∃ i, e = .extract i ∨ e = .fire i := by
  cases e with
  | extract i => exact ⟨i, Or.inl rfl⟩
  | fire i => exact ⟨i, Or.inr rfl⟩
  | init forced => exact h.elim
  | request reqId req => exact h.elim
  | response reqId rsp => exact h.elim
  | rlf => exact h.elim
  | allocate => exact h.elim

theorem timer_of_byDeadline {c : Lcrrc} {es : List Event} (h : Steps step ByDeadline c es) :
    ∀ e ∈ es, ∃ i, e = .extract i ∨ e = .fire i := by
  induction es generalizing c with
  | nil => exact fun e he => (List.not_mem_nil he).elim
  | cons e es ih =>
      intro x hx
      rcases List.mem_cons.mp hx with rfl | hx
      · exact h.1.timer
      · exact ih h.2 x hx

/-- The next callback is taken out of the map, unless it has been. -/
theorem exists_next {c : Lcrrc} {cb : Callback} {rest : List Callback}
    (h : c.timer.queue = cb :: rest) :
    ∃ es t, Steps step ByDeadline c es ∧ c.run es = { c with timer := t } ∧
      t.extracted[0]? = some cb ∧ (t.fired 0).queue = rest := by
  unfold Timer.queue at h
  cases hext : c.timer.extracted with
  | cons first others =>
      rw [hext] at h
      obtain ⟨rfl, hrest⟩ := List.cons.inj h
      refine ⟨[], c.timer, trivial, rfl, by rw [hext]; rfl, ?_⟩
      show c.timer.extracted.eraseIdx 0 ++ _ = rest
      rw [hext]
      exact hrest
  | nil =>
      rw [hext, List.nil_append] at h
      obtain ⟨entry, m, hmap, rfl, hrest⟩ := List.map_eq_cons_iff.mp h
      have htaken : c.timer.extract 0 = { c.timer with cbMap := m, extracted := [entry.2] } := by
        unfold Timer.extract
        rw [hmap, hext]
        rfl
      refine ⟨[.extract 0], _, ⟨⟨rfl, hext⟩, trivial⟩, rfl, ?_, ?_⟩
      · rw [htaken]
        rfl
      · rw [htaken]
        exact hrest

/-- What has been taken out of the map is called. -/
theorem run_fire {c : Lcrrc} {es : List Event} {t : Timer} {cb : Callback}
    (hes : Steps step ByDeadline c es) (hrun : c.run es = { c with timer := t })
    (hnext : t.extracted[0]? = some cb) :
    Steps step ByDeadline c (es ++ [Event.fire 0]) ∧
      c.run (es ++ [Event.fire 0]) = ({ c with timer := t.fired 0 } : Lcrrc).call cb := by
  have hfire : Steps step ByDeadline (c.run es) [Event.fire 0] := ⟨rfl, trivial⟩
  refine ⟨hes.append hfire, ?_⟩
  rw [run, List.foldl_append]
  show Lcrrc.step (c.run es) (.fire 0) = _
  rw [hrun]
  show Lcrrc.fire _ 0 = _
  unfold fire
  rw [hnext]

/-- The next callback is called. -/
theorem exists_called {c : Lcrrc} {cb : Callback} {rest : List Callback}
    (h : c.timer.queue = cb :: rest) :
    ∃ es t, Steps step ByDeadline c es ∧ c.run es = ({ c with timer := t } : Lcrrc).call cb ∧
      t.queue = rest := by
  obtain ⟨es, t, hes, hrun, hnext, hqueue⟩ := exists_next h
  obtain ⟨hfired, hcalled⟩ := run_fire hes hrun hnext
  exact ⟨_, _, hfired, hcalled, hqueue⟩

/-- An expiry puts at most one callback behind all others. -/
theorem onExpiry_queue (c : Lcrrc) (maxRetry : Nat) (reqId : UInt8) (first : Rrc) :
    ∃ more, (c.onExpiry maxRetry reqId first).timer.queue = c.timer.queue ++ more := by
  unfold onExpiry
  cases c.rrcRequests reqId with
  | none => exact ⟨[], (List.append_nil _).symm⟩
  | some context =>
      unfold autoSendRrc
      dsimp only
      split_ifs
      · exact ⟨[], (List.append_nil _).symm⟩
      · exact ⟨_, Timer.waitMs_queue ..⟩

/-- A pending activation comes, behind the callbacks with an earlier deadline. -/
theorem exists_activation {c : Lcrrc} (h : c.ActivationPending) :
    ∃ es : List Event, Steps step ByDeadline c es ∧ (c.run es).txrxState = .active := by
  obtain ⟨before, after, hqueue⟩ := List.append_of_mem (Timer.mem_queue.mpr h)
  -- the callbacks before it are called one after the other
  induction before generalizing c after with
  | nil =>
      obtain ⟨es, t, hes, hrun, -⟩ := exists_called hqueue
      refine ⟨es, hes, ?_⟩
      rw [hrun]
      rfl
  | cons cb before ih =>
      obtain ⟨es, t, hes, hrun, hrest⟩ := exists_called hqueue
      cases cb with
      | activate =>
          refine ⟨es, hes, ?_⟩
          rw [hrun]
          rfl
      | expiry maxRetry reqId first =>
          obtain ⟨more, hmore⟩ := ({ c with timer := t } : Lcrrc).onExpiry_queue maxRetry reqId first
          have hnext : (c.run es).timer.queue = before ++ Callback.activate :: (after ++ more) := by
            rw [hrun]
            refine hmore.trans ?_
            show t.queue ++ more = _
            rw [show t.queue = before ++ Callback.activate :: after from hrest,
              List.append_assoc, List.cons_append]
          obtain ⟨es', hes', hactive⟩ := ih (Timer.mem_queue.mp (by
            rw [hnext]
            exact List.mem_append_right _ (List.mem_cons_self ..))) _ hnext
          refine ⟨es ++ es', hes.append hes', ?_⟩
          rw [run, List.foldl_append]
          exact hactive

/-! ## When a failure is final -/

/-- The state behind a radio link failure. -/
theorem RaisesRlf.down {c : Lcrrc} {e : Event} (h : c.RaisesRlf e) :
    (c.step e).Quiet ∧ ((c.step e).ActivationPending ↔ c.ActivationPending) := by
  rcases h with rfl | ⟨i, rfl, maxRetry, reqId, first, hcb, hlast, hout⟩
  · exact ⟨c.onRlf_quiet, Iff.rfl⟩
  · obtain ⟨context, hctx⟩ := Option.ne_none_iff_exists'.mp hout
    have hzero : maxRetry - 1 = 0 := by omega
    show (c.fire i).Quiet ∧ ((c.fire i).ActivationPending ↔ _)
    unfold fire
    rw [hcb]
    dsimp only [call]
    refine ⟨?_, ?_⟩
    · unfold onExpiry
      simp only [hctx, hzero]
      exact onRlf_quiet _
    · rw [onExpiry_pending]
      exact ⟨Timer.mem_callbacks_of_fired,
        Timer.mem_callbacks_fired_of_ne hcb (by rintro ⟨⟩)⟩

/-- **When a radio link failure is final.**  In every run of a channel, what
follows a failure without an exchange message leaves the channel out of service,
whatever it is, if and only if no activation was pending at the failure. -/
theorem rlf_final_iff (lcid : UInt8) (llcTx : LegacyLlc.TxConfig) (llcRx : LegacyLlc.RxConfig)
    (pdcpTx : LegacyPdcp.TxConfig) (pdcpRx : LegacyPdcp.RxConfig) (es : List Event)
    (e : Event) (h : ((new lcid llcTx llcRx pdcpTx pdcpRx).run es).RaisesRlf e) :
    let c := (new lcid llcTx llcRx pdcpTx pdcpRx).run es
    (∀ es', (∀ x ∈ es', ¬ x.IsExchange) → ((c.step e).run es').Quiet) ↔
      ¬ c.ActivationPending := by
  intro c
  obtain ⟨hquiet, hpending⟩ := h.down
  constructor
  · intro hfinal hp
    obtain ⟨es', hes', hactive⟩ := exists_activation (hpending.mpr hp)
    refine (hfinal es' ?_).state hactive
    intro x hx
    obtain ⟨i, rfl | rfl⟩ := timer_of_byDeadline hes' x hx <;> exact not_false
  · intro hno es' hes'
    have hdown : (c.step e).Down := ⟨hquiet, fun hp => hno (hpending.mp hp)⟩
    exact (hdown.run hes').quiet

/-- A channel that is active stays down after a failure. -/
theorem rlf_final_active :
    ((new 1 {} {} {} {}).run [.request 0 {}, .extract 0, .fire 0]).txrxState = .active ∧
      ∀ es', (∀ x ∈ es', ¬ x.IsExchange) →
        ((((new 1 {} {} {} {}).run [.request 0 {}, .extract 0, .fire 0]).step .rlf).run
          es').Quiet :=
  ⟨rfl, (rlf_final_iff 1 {} {} {} {} [.request 0 {}, .extract 0, .fire 0] .rlf
    (Or.inl rfl)).mpr (by decide)⟩

/-- A failure between a request and its activation does not last: the timer
enables everything again. -/
theorem rlf_undone :
    ((new 1 {} {} {} {}).run [.request 0 {}]).RaisesRlf .rlf ∧
      (∀ x ∈ [Event.extract 0, .fire 0], ¬ x.IsExchange) ∧
      ((((new 1 {} {} {} {}).run [.request 0 {}]).step .rlf).run
        [.extract 0, .fire 0]).txrxState = .active ∧
      ((((new 1 {} {} {} {}).run [.request 0 {}]).step .rlf).run
        [.extract 0, .fire 0]).AllFlags true :=
  ⟨Or.inl rfl, by decide, rfl, ⟨rfl, rfl, rfl, rfl, rfl, rfl⟩⟩

end Lcrrc

end Winject.ChannelRrc
