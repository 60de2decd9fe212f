import Winject.Node.AppRrc

/-!
# The event queue of a node

`push_rrc_event` puts an event and writes the descriptor under one lock.  The reactor reads
the descriptor, moves the queue out under the lock, and handles the events without it, so
that a thread can put an event at any point in between.

## Main results

* `step_mail` — a step is one of the queue's, or none.
* `events_in_order` — every event is handled once, in the order in which the threads put
  them, and none is left without a wake-up.
* `events_handled` — the reactor gets to the end of what is there.
-/

namespace Winject.Node

open Winject.Lib.EventQueue

namespace AppRrc

/-- The step of the queue. -/
def act (a : AppRrc) (s : Step) : Option (Act RrcEvent) :=
  if a.terminated then none else
  match s with
  | .onRlf lcid => some (.put (.rlf lcid))
  | .onInit lcid => some (.put (.setup lcid false))
  | .onCmdInit lcid => some (.put (.setup lcid true))
  | .stop => some (.put .stop)
  | .rrcRx b =>
    if !a.rrcRxRunning || b.isEmpty then none else
    ((Interface.Rrc.decodePer {}).run b).map fun decoded => .put (.msg decoded.1)
  | .wake => if a.reactorRunning then some .wake else none
  | .take => some .take
  | .handle => some .work
  | .extract _ _ | .fire _ _ => none

/-- The steps of the queue in a run. -/
def acts (a : AppRrc) : List Step → List (Act RrcEvent)
  | [] => []
  | s :: ss => (a.act s).toList ++ (a.step s).acts ss

/-- The events that the threads put in a run. -/
def pushed (a : AppRrc) (ss : List Step) : List RrcEvent := Mailbox.puts (a.acts ss)

/-- The events that the reactor handles in a run. -/
def handled (a : AppRrc) : List Step → List RrcEvent
  | [] => []
  | s :: ss =>
    (if s = .handle ∧ a.terminated = false then a.mail.next.toList else []) ++
      (a.step s).handled ss

/-! ## The queue of a run -/

theorem onChannel_mail (a : AppRrc) (lcid : UInt8) (e : ChannelRrc.Event) :
    (a.onChannel lcid e).mail = a.mail := by
  unfold onChannel
  split <;> rfl

theorem onRrcEvent_mail (a : AppRrc) (event : RrcEvent) : (a.onRrcEvent event).mail = a.mail := by
  unfold onRrcEvent
  split
  · rfl
  · exact onChannel_mail ..

theorem handle_mail (a : AppRrc) : a.handle.mail = a.mail.work := by
  unfold handle
  split
  · rfl
  · exact onRrcEvent_mail ..

theorem runRrcRx_mail (a : AppRrc) (b : List UInt8) (hend : a.terminated = false) :
    (a.runRrcRx b).mail = match a.act (.rrcRx b) with
      | none => a.mail
      | some act => a.mail.step act := by
  unfold runRrcRx act
  rw [hend, if_neg Bool.false_ne_true]
  dsimp only
  split_ifs
  · rfl
  · cases (Interface.Rrc.decodePer {}).run b <;> rfl

/-- A step of the node is a step of the queue, or none. -/
theorem step_mail (a : AppRrc) (s : Step) :
    (a.step s).mail = match a.act s with
      | none => a.mail
      | some act => a.mail.step act := by
  by_cases hend : a.terminated = true
  · unfold step act
    rw [if_pos hend, if_pos hend]
  · have hgo := Bool.eq_false_iff.mpr hend
    cases s with
    | rrcRx b =>
        unfold step
        rw [if_neg hend]
        exact runRrcRx_mail a b hgo
    | wake =>
        unfold step act
        rw [if_neg hend, if_neg hend]
        dsimp only
        split_ifs <;> rfl
    | handle =>
        unfold step act
        rw [if_neg hend, if_neg hend]
        exact handle_mail a
    | extract lcid i =>
        unfold step act
        rw [if_neg hend, if_neg hend]
        dsimp only
        split_ifs
        · exact onChannel_mail ..
        · rfl
    | fire lcid i =>
        unfold step act
        rw [if_neg hend, if_neg hend]
        exact onChannel_mail ..
    | _ =>
        unfold step act
        rw [if_neg hend, if_neg hend]
        rfl

theorem run_mail (a : AppRrc) (ss : List Step) : (a.run ss).mail = a.mail.run (a.acts ss) := by
  induction ss generalizing a with
  | nil => rfl
  | cons s ss ih =>
      show ((a.step s).run ss).mail = a.mail.run ((a.act s).toList ++ (a.step s).acts ss)
      rw [ih, step_mail]
      cases a.act s <;> rfl

/-- What the reactor handles is what is worked on. -/
theorem worked_acts (a : AppRrc) (ss : List Step) : a.mail.worked (a.acts ss) = a.handled ss := by
  induction ss generalizing a with
  | nil => rfl
  | cons s ss ih =>
      have htail := ih (a.step s)
      rw [step_mail] at htail
      unfold acts handled
      by_cases hend : a.terminated = true
      · have hact : a.act s = none := if_pos hend
        rw [hact] at htail ⊢
        rw [if_neg (fun h => Bool.false_ne_true (h.2.symm.trans hend)), ← htail]
        rfl
      · by_cases hs : s = .handle
        · subst hs
          have hact : a.act .handle = some .work := if_neg hend
          rw [hact] at htail ⊢
          rw [if_pos ⟨rfl, Bool.eq_false_iff.mpr hend⟩, ← htail]
          rfl
        · rw [if_neg (fun h => hs h.1), ← htail]
          have hne : a.act s ≠ some .work := by
            unfold act
            rw [if_neg hend]
            cases s with
            | handle => exact absurd rfl hs
            | rrcRx b =>
                dsimp only
                split_ifs
                · simp
                · cases (Interface.Rrc.decodePer {}).run b <;> simp
            | wake =>
                dsimp only
                split_ifs <;> simp
            | _ => simp
          cases hact : a.act s with
          | none => rfl
          | some act =>
              rw [hact] at hne
              cases act with
              | work => exact absurd rfl hne
              | _ => rfl

/-- **Every event is handled once and in order**, and none waits without a wake-up: at any
point of any run, what has been handled, what the reactor has moved out and what is on the
queue are the events that were put; and if there is one on the queue, the descriptor is
readable or the reactor has just read it. -/
theorem events_in_order (cfg : Config) (ss : List Step) :
    (setup cfg).handled ss ++ ((setup cfg).run ss).mail.pending = (setup cfg).pushed ss ∧
      ((setup cfg).run ss).mail.Awake := by
  have hacts := run_mail (setup cfg) ss
  constructor
  · rw [hacts, ← worked_acts]
    exact Mailbox.account _ _
  · rw [hacts]
    exact Mailbox.Awake.run (fun h => absurd rfl h) _

/-! ## The reactor -/

/-- No stop has been handled. -/
structure Running (a : AppRrc) : Prop where
  rrcRx : a.rrcRxRunning = true
  timer2 : a.timer2Running = true
  reactor : a.reactorRunning = true

theorem onChannel_running {a : AppRrc} (h : a.Running) (lcid : UInt8) (e : ChannelRrc.Event) :
    (a.onChannel lcid e).Running := by
  unfold onChannel
  split
  · exact h
  · exact ⟨h.rrcRx, h.timer2, h.reactor⟩

theorem onRrcEvent_running {a : AppRrc} (h : a.Running) {event : RrcEvent}
    (hevent : event ≠ .stop) : (a.onRrcEvent event).Running := by
  unfold onRrcEvent
  split
  · rename_i hnone
    cases event with
    | stop => exact absurd rfl hevent
    | msg m =>
        obtain ⟨requestID, message⟩ := m
        cases message <;> cases hnone
    | _ => cases hnone
  · exact onChannel_running h ..

theorem handle_running {a : AppRrc} (h : a.Running) (hstop : .stop ∉ a.mail.pending) :
    a.handle.Running := by
  have hbase : Running { a with mail := a.mail.work } := ⟨h.rrcRx, h.timer2, h.reactor⟩
  unfold handle
  cases hnext : a.mail.next with
  | none => exact hbase
  | some event =>
      have hmem : event ∈ a.mail.pending := by
        rw [← Mailbox.work_pending, hnext]
        exact List.mem_cons_self ..
      exact onRrcEvent_running hbase fun heq => hstop (heq ▸ hmem)

/-- Only a stop ends the threads. -/
theorem step_running {a : AppRrc} (h : a.Running) (hstop : .stop ∉ a.mail.pending) (s : Step) :
    (a.step s).Running := by
  unfold step
  by_cases hend : a.terminated = true
  · rwa [if_pos hend]
  · rw [if_neg hend]
    cases s with
    | rrcRx b =>
        show (a.runRrcRx b).Running
        unfold runRrcRx
        split_ifs
        · exact h
        · split <;> exact ⟨h.rrcRx, h.timer2, h.reactor⟩
    | handle => exact handle_running h hstop
    | wake =>
        dsimp only
        split_ifs
        · exact ⟨h.rrcRx, h.timer2, h.reactor⟩
        · exact h
    | extract lcid i =>
        dsimp only
        split_ifs
        · exact onChannel_running h ..
        · exact h
    | fire lcid i => exact onChannel_running h ..
    | _ => exact ⟨h.rrcRx, h.timer2, h.reactor⟩

/-- What is pending behind a step was pending or is put by it. -/
theorem step_pending {a : AppRrc} {s : Step} {event : RrcEvent}
    (h : event ∈ (a.step s).mail.pending) :
    event ∈ a.mail.pending ∨ event ∈ Mailbox.puts (a.act s).toList := by
  rw [step_mail] at h
  cases hact : a.act s with
  | none =>
      rw [hact] at h
      exact Or.inl h
  | some act =>
      rw [hact] at h
      have hall := a.mail.account [act]
      have hmem : event ∈ a.mail.pending ++ Mailbox.puts [act] := by
        rw [← hall]
        exact List.mem_append_right _ h
      exact List.mem_append.mp hmem

/-- The step of the node for a step of the reactor. -/
def reactorStep : Act RrcEvent → Step
  | .wake => .wake
  | .take => .take
  | _ => .handle

/-- A call of a channel ends nothing. -/
theorem onRrcEvent_terminated (a : AppRrc) (event : RrcEvent) :
    (a.onRrcEvent event).terminated = a.terminated := by
  unfold onRrcEvent
  split
  · rfl
  · unfold onChannel
    split <;> rfl

/-- Until a stop is handled the steps of the reactor are those of the queue. -/
theorem reactor_step {a : AppRrc} (h : a.Running) (halive : a.terminated = false)
    {act : Act RrcEvent} (hact : ∀ event, act ≠ .put event) :
    a.act (reactorStep act) = some act ∧ (a.step (reactorStep act)).terminated = false := by
  constructor
  · unfold AppRrc.act
    rw [if_neg (Bool.eq_false_iff.mp halive)]
    cases act with
    | put event => exact absurd rfl (hact event)
    | wake => exact if_pos h.reactor
    | take => rfl
    | work => rfl
  · unfold step
    rw [if_neg (Bool.eq_false_iff.mp halive)]
    cases act with
    | put event => exact absurd rfl (hact event)
    | wake =>
        show (if a.reactorRunning = true then _ else a).terminated = false
        split_ifs <;> exact halive
    | take => exact halive
    | work =>
        show a.handle.terminated = false
        unfold handle
        split
        · exact halive
        · rw [onRrcEvent_terminated]
          exact halive

theorem reactor_run {a : AppRrc} (h : a.Running) (halive : a.terminated = false)
    (hstop : .stop ∉ a.mail.pending) (acts : List (Act RrcEvent))
    (hacts : ∀ act ∈ acts, ∀ event, act ≠ .put event) :
    a.acts (acts.map reactorStep) = acts ∧ (a.run (acts.map reactorStep)).terminated = false := by
  induction acts generalizing a with
  | nil => exact ⟨rfl, halive⟩
  | cons act acts ih =>
      obtain ⟨hact, halive'⟩ := reactor_step h halive (hacts act (List.mem_cons_self ..))
      have hstop' : .stop ∉ (a.step (reactorStep act)).mail.pending := by
        intro hmem
        refine (step_pending hmem).elim hstop fun hput => ?_
        rw [hact] at hput
        cases act with
        | put event => exact hacts _ (List.mem_cons_self ..) event rfl
        | _ => cases hput
      obtain ⟨hrest, hend⟩ := ih (step_running h hstop _) halive' hstop'
        fun x hx => hacts x (List.mem_cons_of_mem _ hx)
      refine ⟨?_, hend⟩
      show (a.act (reactorStep act)).toList ++ (a.step (reactorStep act)).acts _ = _
      rw [hact, hrest]
      rfl

/-- No stop has come, and events are announced. -/
structure Going (a : AppRrc) : Prop where
  running : a.Running
  noStop : .stop ∉ a.mail.pending
  awake : a.mail.Awake

/-- Every step but one that asks for a stop keeps it. -/
theorem Going.step {a : AppRrc} (h : a.Going) {s : Step} (hs : s ≠ .stop) : (a.step s).Going := by
  refine ⟨step_running h.running h.noStop s, fun hmem => ?_, ?_⟩
  · refine (step_pending hmem).elim h.noStop fun hput => ?_
    unfold act at hput
    by_cases hend : a.terminated = true
    · rw [if_pos hend] at hput
      cases hput
    · rw [if_neg hend] at hput
      cases s with
      | stop => exact hs rfl
      | rrcRx b =>
          dsimp only at hput
          split_ifs at hput
          · cases hput
          · cases hdec : (Interface.Rrc.decodePer {}).run b with
            | none =>
                rw [hdec] at hput
                cases hput
            | some decoded =>
                rw [hdec] at hput
                cases List.mem_singleton.mp hput
      | wake =>
          dsimp only at hput
          split_ifs at hput <;> cases hput
      | take => cases hput
      | handle => cases hput
      | extract lcid i => cases hput
      | fire lcid i => cases hput
      | _ => cases List.mem_singleton.mp hput
  · rw [step_mail]
    cases a.act s with
    | none => exact h.awake
    | some act => exact h.awake.step act

theorem Going.setup (cfg : Config) : (setup cfg).Going :=
  ⟨⟨rfl, rfl, rfl⟩, List.not_mem_nil, fun hne => absurd rfl hne⟩

/-- The steps of the reactor until nothing is pending. -/
def drain (a : AppRrc) : List Step := a.mail.drain.map reactorStep

/-- The reactor handles what is pending, in order, and waits. -/
structure Drained (a : AppRrc) : Prop where
  handled : a.handled a.drain = a.mail.pending
  quiet : (a.run a.drain).mail.Quiet
  alive : (a.run a.drain).terminated = false

theorem Going.drained {a : AppRrc} (h : a.Going) (halive : a.terminated = false) : a.Drained := by
  obtain ⟨hacts, hend⟩ :=
    reactor_run h.running halive h.noStop a.mail.drain a.mail.drain_ne_put
  refine ⟨?_, ?_, hend⟩
  · rw [← worked_acts, drain, hacts]
    exact h.awake.worked_drain
  · rw [run_mail, drain, hacts]
    exact h.awake.drains

theorem Going.run {a : AppRrc} (h : a.Going) {ss : List Step} (hss : .stop ∉ ss) :
    (a.run ss).Going := by
  induction ss generalizing a with
  | nil => exact h
  | cons s ss ih =>
      rw [List.mem_cons, not_or] at hss
      exact ih (h.step (Ne.symm hss.1)) hss.2

/-- **Every event is handled in the end**: as long as no stop is asked for, in every state
that a run leads to the reactor on its own handles what is pending, in order, and waits. -/
theorem events_handled (cfg : Config) (ss : List Step) (hstop : .stop ∉ ss)
    (halive : ((setup cfg).run ss).terminated = false) : ((setup cfg).run ss).Drained :=
  ((Going.setup cfg).run hstop).drained halive

/-- Channel 1 only. -/
def oneChannel : Config where
  llcTxConfigs lcid := if lcid = 1 then some {} else none
  pdcpConfigs lcid := if lcid = 1 then some {} else none
  epConfigs lcid := if lcid = 1 then some .udp else none

/-- A link failure comes in while the reactor is at work on a set-up. -/
theorem events_handled_failure :
    ((setup oneChannel).run [.onInit 1, .wake, .take, .onRlf 1]).Drained :=
  events_handled oneChannel [.onInit 1, .wake, .take, .onRlf 1] (by decide) rfl

end AppRrc

end Winject.Node
