import Winject.EndPoint.Tcp

/-!
# The loop of a TCP end point

`notify_event` puts an event on a queue and then counts up a semaphore; the loop counts down
and takes an event.  The count is never ahead of the queue.  And a `select` that is
interrupted once leaves `errno` at `EINTR`: from then on the loop goes back to `select`
whatever it returns.

## Main results

* `events_available` — the thread never takes an event from an empty queue.
* `interrupted` — the thread does nothing behind a `select` that was interrupted.
-/

namespace Winject.EndPoint

/-! ## Calls in progress -/

/-- The events that are still to be put. -/
def pushes (ops : List EpOp) : Nat := ops.countP fun o => o matches .push _

/-- The counts that are still to go up. -/
def announces (ops : List EpOp) : Nat := ops.count .announce

/-- Behind an event that is to be put its count goes up. -/
def Covered : List EpOp → Prop
  | [] => True
  | o :: ops => pushes (o :: ops) ≤ announces (o :: ops) ∧ Covered ops

theorem pushes_append (ops ops' : List EpOp) : pushes (ops ++ ops') = pushes ops + pushes ops' :=
  List.countP_append ..

theorem announces_append (ops ops' : List EpOp) :
    announces (ops ++ ops') = announces ops + announces ops' := List.count_append ..

theorem Covered.le {ops : List EpOp} (h : Covered ops) : pushes ops ≤ announces ops := by
  cases ops with
  | nil => exact Nat.le_refl _
  | cons o ops => exact h.1

theorem Covered.append {ops ops' : List EpOp} (h : Covered ops) (h' : Covered ops') :
    Covered (ops ++ ops') := by
  induction ops with
  | nil => exact h'
  | cons o ops ih =>
      refine ⟨?_, ih h.2⟩
      show pushes ((o :: ops) ++ ops') ≤ announces ((o :: ops) ++ ops')
      rw [pushes_append, announces_append]
      exact Nat.add_le_add h.1 h'.le

theorem covered_setEnabled (value : Bool) : Covered (setEnabled value) := by
  refine ⟨?_, ?_, ?_, ?_, ?_, ?_, ?_, ?_, trivial⟩ <;> exact Nat.le_of_ble_eq_true rfl

theorem covered_destroy : Covered destroy := by
  refine ⟨?_, ?_, ?_, trivial⟩ <;> exact Nat.le_of_ble_eq_true rfl

/-! ## Events -/

namespace TcpEndPoint

/-- The events that the thread has found and not taken. -/
def due (ep : TcpEndPoint) : Nat := ep.phase.jobs.count .event

/-- What a step of the thread does to the events. -/
inductive Takes (ep ep' : TcpEndPoint) : Prop
  | nothing (events : ep'.epEvent = ep.epEvent) (count : ep'.epEventFd = ep.epEventFd)
      (due : ep'.due ≤ ep.due ∨ ep'.due ≤ ep.epEventFd)
  | event (event : EpEvent) (events : ep.epEvent = event :: ep'.epEvent)
      (count : ep'.epEventFd = ep.epEventFd - 1) (due : ep'.due + 1 ≤ ep.due)
  | none (events : ep.epEvent = []) (due : 0 < ep.due)

theorem jobs_event (ep : TcpEndPoint) (set : FdSet) :
    (ep.jobs set).count .event = if set.event then 1 else 0 := by
  unfold jobs
  rw [List.count_append, List.count_append]
  split_ifs <;> rfl

theorem select_takes (ep : TcpEndPoint) (rv : SelectResult) : Takes ep (ep.select rv) := by
  unfold select
  split_ifs
  · exact .nothing rfl rfl (Or.inl (Nat.zero_le _))
  · cases rv with
    | failed errno =>
        dsimp only
        rw [selectFailed_eq]
        exact .nothing rfl rfl (Or.inl (Nat.le_refl _))
    | ready set =>
        dsimp only
        split_ifs
        · exact .nothing rfl rfl (Or.inl (Nat.le_refl _))
        · exact .nothing rfl rfl (Or.inl (Nat.le_refl _))
        · refine .nothing rfl rfl (Or.inr ?_)
          show (jobs _ (ep.found set)).count .event ≤ ep.epEventFd
          rw [jobs_event]
          split_ifs with hevent
          · exact of_decide_eq_true (Bool.and_eq_true _ _ ▸ hevent).2
          · exact Nat.zero_le _

theorem takeEvent_takes {ep : TcpEndPoint} {jobs : List Job}
    (h : ep.phase = .working (.event :: jobs)) : Takes ep (ep.takeEvent jobs) := by
  have hdue : ep.due = jobs.count .event + 1 := by
    unfold due
    rw [h]
    exact List.count_cons_self
  unfold takeEvent
  dsimp only
  cases hevents : ep.epEvent with
  | nil => exact .none hevents (by omega)
  | cons event events =>
      dsimp only
      split_ifs
      · exact .event event hevents rfl (hdue ▸ Nat.succ_le_succ (Nat.zero_le _))
      · exact .event event hevents rfl (Nat.le_of_eq hdue.symm)

theorem thread_takes (ep : TcpEndPoint) (input : Input) : Takes ep (ep.thread input) := by
  have hsame : Takes ep ep := .nothing rfl rfl (Or.inl (Nat.le_refl _))
  have htail : ∀ {jobs : List Job} {j : Job}, ep.phase = .working (j :: jobs) →
      jobs.count .event ≤ ep.due := by
    intro jobs j hphase
    unfold due
    rw [hphase]
    exact (List.sublist_cons_self j jobs).count_le _
  unfold thread
  cases input with
  | select rv =>
      dsimp only
      split
      · exact ep.select_takes rv
      · exact hsame
  | recv rv =>
      dsimp only
      split
      next jobs hphase =>
        cases rv with
        | failed errno => exact .nothing rfl rfl (Or.inl (htail hphase))
        | data b =>
            unfold recv
            dsimp only
            split_ifs <;> exact .nothing rfl rfl (Or.inl (htail hphase))
      · exact hsame
  | toTx accepted =>
      dsimp only
      split
      next b jobs hphase =>
        have hdue : jobs.count .event ≤ ep.due := by
          unfold due
          rw [hphase]
          exact Nat.le_refl _
        unfold toTx
        split_ifs
        · exact .nothing rfl rfl (Or.inl hdue)
        · exact hsame
        · exact .nothing rfl rfl (Or.inl hdue)
      · exact hsame
  | accept fd =>
      dsimp only
      split
      next jobs hphase =>
        unfold onNewConnection
        dsimp only
        split_ifs <;> exact .nothing rfl rfl (Or.inl (htail hphase))
      · exact hsame
  | event =>
      dsimp only
      split
      next jobs hphase => exact takeEvent_takes hphase
      · exact hsame

end TcpEndPoint

namespace Driven

/-- The count and the queue, with the calls in progress. -/
structure Notified (d : Driven) : Prop where
  balance : d.ep.epEventFd + announces d.ops = d.ep.epEvent.length + pushes d.ops
  covered : Covered d.ops
  due : d.ep.due ≤ d.ep.epEventFd

theorem Notified.le {d : Driven} (h : d.Notified) : d.ep.epEventFd ≤ d.ep.epEvent.length := by
  have hle := h.covered.le
  have hbalance := h.balance
  omega

theorem Notified.append {d : Driven} (h : d.Notified) {ops : List EpOp} (hops : Covered ops)
    (heq : announces ops = pushes ops) : Notified { d with ops := d.ops ++ ops } := by
  refine ⟨?_, h.covered.append hops, h.due⟩
  have hbalance := h.balance
  show d.ep.epEventFd + announces (d.ops ++ ops) = d.ep.epEvent.length + pushes (d.ops ++ ops)
  rw [announces_append, pushes_append]
  omega

theorem Notified.op {ep : TcpEndPoint} {o : EpOp} {ops : List EpOp}
    (h : Notified ⟨ep, o :: ops⟩) (target : Option Nat) (ok : Bool) :
    Notified ⟨ep.op target ok o, ops⟩ := by
  obtain ⟨hbalance, hcovered, hdue⟩ := h
  cases o with
  | checkState =>
      obtain ⟨sock, asked, heq⟩ := ep.checkState_eq target ok
      show Notified ⟨ep.checkState target ok, ops⟩
      rw [heq]
      exact ⟨hbalance, hcovered.2, hdue⟩
  | push event =>
      refine ⟨?_, hcovered.2, hdue⟩
      have hpushes : pushes (.push event :: ops) = pushes ops + 1 := List.countP_cons_of_pos rfl
      have hannounces : announces (.push event :: ops) = announces ops :=
        List.count_cons_of_ne (by simp)
      show ep.epEventFd + announces ops = (ep.epEvent ++ [event]).length + pushes ops
      rw [List.length_append, List.length_singleton]
      change ep.epEventFd + announces (.push event :: ops) =
        ep.epEvent.length + pushes (.push event :: ops) at hbalance
      omega
  | announce =>
      refine ⟨?_, hcovered.2, Nat.le_succ_of_le hdue⟩
      have hannounces : announces (.announce :: ops) = announces ops + 1 := List.count_cons_self
      have hpushes : pushes (.announce :: ops) = pushes ops := List.countP_cons_of_neg (by simp)
      show ep.epEventFd + 1 + announces ops = ep.epEvent.length + pushes ops
      change ep.epEventFd + announces (.announce :: ops) =
        ep.epEvent.length + pushes (.announce :: ops) at hbalance
      omega
  | setTx value => exact ⟨hbalance, hcovered.2, hdue⟩
  | setRx value => exact ⟨hbalance, hcovered.2, hdue⟩
  | halt => exact ⟨hbalance, hcovered.2, hdue⟩

theorem Notified.step {d : Driven} (h : d.Notified) (s : DrivenStep) : (d.step s).Notified := by
  obtain ⟨ep, ops⟩ := d
  cases s with
  | enable value => exact h.append (covered_setEnabled value) rfl
  | destroy => exact h.append covered_destroy rfl
  | op target ok =>
      cases ops with
      | nil => exact h
      | cons o ops => exact h.op target ok
  | thread input =>
      have hbalance := h.balance
      have hdue := h.due
      have hle := h.le
      dsimp only at hbalance hdue hle
      cases ep.thread_takes input with
      | nothing hevents hcount hnew =>
          refine ⟨?_, h.covered, ?_⟩
          · show (ep.thread input).epEventFd + _ = (ep.thread input).epEvent.length + _
            rw [hevents, hcount]
            exact hbalance
          · show (ep.thread input).due ≤ (ep.thread input).epEventFd
            rw [hcount]
            omega
      | event event hevents hcount hnew =>
          rw [hevents, List.length_cons] at hbalance hle
          refine ⟨?_, h.covered, ?_⟩
          · show (ep.thread input).epEventFd + announces ops =
              (ep.thread input).epEvent.length + pushes ops
            omega
          · show (ep.thread input).due ≤ (ep.thread input).epEventFd
            omega
      | none hevents hnew =>
          rw [hevents, List.length_nil] at hle
          omega

/-- **The loop never takes an event from an empty queue**: in every run, whoever calls and
whatever the thread finds, an event that the thread is about to take is there, the count is
never ahead of the queue, and where no call is in progress it is the length of the queue. -/
theorem events_available (role : Role) (ss : List DrivenStep) :
    let d := (start role).run ss
    (.event ∈ d.ep.phase.jobs → d.ep.epEvent ≠ []) ∧
      d.ep.epEventFd ≤ d.ep.epEvent.length ∧
      (d.ops = [] → d.ep.epEventFd = d.ep.epEvent.length) := by
  intro d
  have hall : d.Notified := by
    have hrun : ∀ (d₀ : Driven), d₀.Notified → (d₀.run ss).Notified := by
      induction ss with
      | nil => exact fun _ h => h
      | cons s ss ih => exact fun d₀ h => ih _ (h.step s)
    exact hrun _ ⟨rfl, trivial, Nat.le_refl _⟩
  refine ⟨fun hmem heq => ?_, hall.le, fun hops => ?_⟩
  · have hdue : 0 < d.ep.due := List.count_pos_iff.mpr hmem
    have hle := hall.le
    have hfound := hall.due
    rw [heq, List.length_nil] at hle
    omega
  · have hbalance := hall.balance
    rw [hops] at hbalance
    exact hbalance

/-! ## Interrupted -/

/-- The thread goes back to `select` whatever it returns. -/
structure Stuck (first d : Driven) : Prop where
  errno : d.ep.errno = .eintr
  phase : d.ep.phase = .working [] ∨ d.ep.phase = .ended
  received : d.ep.received = first.ep.received
  taken : d.ep.taken = first.ep.taken
  events : first.ep.epEvent <+: d.ep.epEvent
  server : first.ep.role = .server →
    d.ep.role = .server ∧ d.ep.sock = first.ep.sock ∧ d.ep.asked = first.ep.asked

theorem Stuck.op {first : Driven} {ep : TcpEndPoint} {o : EpOp} {ops : List EpOp}
    (h : Stuck first ⟨ep, o :: ops⟩) (target : Option Nat) (ok : Bool) :
    Stuck first ⟨ep.op target ok o, ops⟩ := by
  obtain ⟨herrno, hphase, hreceived, htaken, hevents, hserver⟩ := h
  have hkept : first.ep.role = .server → (ep.op target ok o).role = .server ∧
      (ep.op target ok o).sock = first.ep.sock ∧ (ep.op target ok o).asked = first.ep.asked := by
    intro hrole
    obtain ⟨hep, hsock, hasked⟩ := hserver hrole
    obtain ⟨hrole', hsock', hasked', -⟩ := TcpEndPoint.op_server hep target ok o
    exact ⟨hrole', hsock'.trans hsock, hasked'.trans hasked⟩
  cases o with
  | checkState =>
      obtain ⟨sock, asked, heq⟩ := ep.checkState_eq target ok
      change first.ep.role = .server → (ep.checkState target ok).role = .server ∧
        (ep.checkState target ok).sock = first.ep.sock ∧
        (ep.checkState target ok).asked = first.ep.asked at hkept
      show Stuck first ⟨ep.checkState target ok, ops⟩
      rw [heq] at hkept ⊢
      exact ⟨herrno, hphase, hreceived, htaken, hevents, hkept⟩
  | push event =>
      exact ⟨herrno, hphase, hreceived, htaken, hevents.trans (List.prefix_append _ _), hkept⟩
  | announce => exact ⟨herrno, hphase, hreceived, htaken, hevents, hkept⟩
  | setTx value => exact ⟨herrno, hphase, hreceived, htaken, hevents, hkept⟩
  | setRx value => exact ⟨herrno, hphase, hreceived, htaken, hevents, hkept⟩
  | halt => exact ⟨herrno, hphase, hreceived, htaken, hevents, hkept⟩

theorem Stuck.select {first d : Driven} (h : Stuck first d) {rv : SelectResult}
    (hrv : rv ≠ .failed .other) : Stuck first { d with ep := d.ep.select rv } := by
  obtain ⟨herrno, hphase, hreceived, htaken, hevents, hserver⟩ := h
  unfold TcpEndPoint.select
  split_ifs
  · exact ⟨herrno, Or.inr rfl, hreceived, htaken, hevents, hserver⟩
  · cases rv with
    | failed errno =>
        dsimp only
        rw [TcpEndPoint.selectFailed_eq]
        cases errno with
        | eintr => exact ⟨rfl, hphase, hreceived, htaken, hevents, hserver⟩
        | other => exact absurd rfl hrv
    | ready set =>
        dsimp only
        split_ifs <;> exact ⟨herrno, hphase, hreceived, htaken, hevents, hserver⟩

theorem Stuck.step {first d : Driven} (h : Stuck first d) {s : DrivenStep}
    (hs : s ≠ .thread (.select (.failed .other))) : Stuck first (d.step s) := by
  obtain ⟨ep, ops⟩ := d
  cases s with
  | enable value => exact ⟨h.errno, h.phase, h.received, h.taken, h.events, h.server⟩
  | destroy => exact ⟨h.errno, h.phase, h.received, h.taken, h.events, h.server⟩
  | op target ok =>
      cases ops with
      | nil => exact h
      | cons o ops => exact h.op target ok
  | thread input =>
      have hselect : ∀ rv, input = .select rv → rv ≠ .failed .other := by
        rintro rv rfl heq
        exact hs (by rw [heq])
      rcases h.phase with hphase | hphase <;> dsimp only at hphase
      · cases input with
        | select rv =>
            have hstep : ep.thread (.select rv) = ep.select rv := by
              unfold TcpEndPoint.thread
              rw [hphase]
            show Stuck first ⟨ep.thread (.select rv), ops⟩
            rw [hstep]
            exact h.select (hselect rv rfl)
        | _ =>
            have hstep : ∀ i, (∀ rv, i ≠ Input.select rv) → ep.thread i = ep := by
              intro i hi
              unfold TcpEndPoint.thread
              rw [hphase]
              cases i with
              | select rv => exact absurd rfl (hi rv)
              | _ => rfl
            show Stuck first ⟨ep.thread _, ops⟩
            rw [hstep _ fun rv heq => by cases heq]
            exact h
      · have hstep : ep.thread input = ep := by
          unfold TcpEndPoint.thread
          rw [hphase]
          cases input <;> rfl
        show Stuck first ⟨ep.thread input, ops⟩
        rw [hstep]
        exact h

/-- **A `select` that is interrupted is the last thing the thread does.**  From then on, as
long as `select` does not fail with another error, whatever becomes ready: nothing is read,
nothing goes to the PDCP, no event is taken; a server takes no client and asks for nothing. -/
theorem interrupted (role : Role) (ss ss' : List DrivenStep)
    (herrno : ((start role).run ss).ep.errno = .eintr)
    (hphase : ((start role).run ss).ep.phase = .working [])
    (hss' : .thread (.select (.failed .other)) ∉ ss') :
    Stuck ((start role).run ss) ((start role).run (ss ++ ss')) := by
  have hrun : ∀ d, Stuck ((start role).run ss) d → Stuck ((start role).run ss) (d.run ss') := by
    induction ss' with
    | nil => exact fun _ h => h
    | cons s ss' ih =>
        rw [List.mem_cons, not_or] at hss'
        exact fun d h => ih hss'.2 _ (h.step (Ne.symm hss'.1))
  have happend : (start role).run (ss ++ ss') = ((start role).run ss).run ss' := List.foldl_append
  rw [happend]
  exact hrun _ ⟨herrno, Or.inl hphase, rfl, rfl, List.prefix_rfl, fun h => ⟨h, rfl, rfl⟩⟩

/-- No one can connect. -/
theorem interrupted_server :
    Stuck ((start .server).run [.thread (.select (.failed .eintr))])
      ((start .server).run ([.thread (.select (.failed .eintr))] ++
        [.thread (.select (.ready ⟨false, true, false⟩)), .thread (.accept (some 7))])) :=
  interrupted .server _ _ (by decide) (by decide) (by decide)

end Driven

end Winject.EndPoint
