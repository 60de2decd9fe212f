import Winject.ChannelRrc.Flags
import Winject.Node.AppRrc

/-!
# The channels of a node

`LCRRC` is one object per channel, with a counter of request identifiers that is the
node's.  What a channel goes through in a run of the node is a run of its own: the events
that name it, and in between other channels that take identifiers.

## Main results

* `onChannel_channel` — what a call of one channel does to another.
* `channel_run` — the run of one channel in a run of the node.
* `flags_of_run` — the flags of a channel, whatever the node receives.
-/

namespace Winject.ChannelRrc.Lcrrc

/-! ## Identifiers and messages -/

/-- An event takes one identifier at most, and what has been sent stays sent. -/
structure Progress (c c' : Lcrrc) : Prop where
  reqId : c'.rrcReqId = c.rrcReqId ∨ c'.rrcReqId = c.rrcReqId + 1
  sent : c.sent <+: c'.sent

theorem autoSendRrc_rrcReqId (c : Lcrrc) (maxRetry : Nat) (msg first : Rrc) :
    (c.autoSendRrc maxRetry msg first).rrcReqId = c.rrcReqId := by
  unfold autoSendRrc
  split_ifs <;> rfl

theorem autoSendRrc_sent_prefix {c c' : Lcrrc} (h : c'.sent = c.sent) (maxRetry : Nat)
    (msg first : Rrc) : c.sent <+: (c'.autoSendRrc maxRetry msg first).sent := by
  rw [← h]
  unfold autoSendRrc
  split_ifs
  · exact List.prefix_rfl
  · exact List.prefix_append _ _

theorem call_progress (c : Lcrrc) (cb : Callback) : Progress c (c.call cb) := by
  cases cb with
  | activate => exact ⟨Or.inl rfl, List.prefix_rfl⟩
  | expiry maxRetry reqId first =>
      show Progress c (c.onExpiry maxRetry reqId first)
      unfold onExpiry
      cases c.rrcRequests reqId with
      | none => exact ⟨Or.inl rfl, List.prefix_rfl⟩
      | some context =>
          exact ⟨Or.inr (autoSendRrc_rrcReqId ..), autoSendRrc_sent_prefix (by rfl) ..⟩

theorem step_progress (c : Lcrrc) (e : Event) : Progress c (c.step e) := by
  cases e with
  | init forced =>
      show Progress c (c.onInit forced)
      unfold onInit
      split_ifs
      · exact ⟨Or.inl rfl, List.prefix_rfl⟩
      · exact ⟨Or.inr (autoSendRrc_rrcReqId ..), autoSendRrc_sent_prefix (by rfl) ..⟩
  | request reqId req =>
      show Progress c (c.onExchangeRequest reqId req)
      unfold onExchangeRequest
      split_ifs <;> exact ⟨Or.inl rfl, List.prefix_append _ _⟩
  | response reqId rsp =>
      show Progress c (c.onExchangeResponse reqId rsp)
      unfold onExchangeResponse checkResponse
      split <;> exact ⟨Or.inl rfl, List.prefix_rfl⟩
  | rlf => exact ⟨Or.inl rfl, List.prefix_rfl⟩
  | extract i => exact ⟨Or.inl rfl, List.prefix_rfl⟩
  | fire i =>
      show Progress c (c.fire i)
      unfold fire
      cases c.timer.extracted[i]? with
      | none => exact ⟨Or.inl rfl, List.prefix_rfl⟩
      | some cb =>
          have hcall := call_progress { c with timer := c.timer.fired i } cb
          exact ⟨hcall.reqId, hcall.sent⟩
  | allocate => exact ⟨Or.inr rfl, List.prefix_rfl⟩

end Winject.ChannelRrc.Lcrrc

namespace Winject.Node

open Winject.ChannelRrc
open Winject.Lib.EventQueue
open Winject.Lib.Runs

namespace AppRrc

/-! ## One call -/

/-- The channel, with the counter of the node. -/
def channel (a : AppRrc) (lcid : UInt8) : Option Lcrrc :=
  (a.channelRrcContexts lcid).map fun c => { c with rrcReqId := a.rrcReqId }

/-- A call of a channel is an event of that channel. -/
theorem onChannel_channel_self (a : AppRrc) (lcid : UInt8) (e : Event) :
    (a.onChannel lcid e).channel lcid = (a.channel lcid).map fun c => c.step e := by
  unfold onChannel channel
  cases hc : a.channelRrcContexts lcid with
  | none =>
      dsimp only
      rw [hc]
      rfl
  | some c =>
      dsimp only
      rw [Function.update_self]
      rfl

/-- To another channel it is nothing, or that an identifier is taken. -/
theorem onChannel_channel_of_ne (a : AppRrc) {lcid other : UInt8} (hne : lcid ≠ other)
    (e : Event) : (a.onChannel other e).channel lcid = a.channel lcid ∨
      (a.onChannel other e).channel lcid = (a.channel lcid).map fun c => c.step .allocate := by
  unfold onChannel channel
  cases hc : a.channelRrcContexts other with
  | none => exact Or.inl rfl
  | some c =>
      dsimp only
      rw [Function.update_of_ne hne]
      rcases (Lcrrc.step_progress { c with rrcReqId := a.rrcReqId } e).reqId with heq | heq
      · rw [heq]
        exact Or.inl rfl
      · rw [heq, Option.map_map]
        exact Or.inr rfl

/-- What the events of a channel are to it, without those of the others. -/
theorem onChannel_channel (a : AppRrc) (lcid other : UInt8) {e : Event} (he : e ≠ .allocate) :
    ∃ es, (a.onChannel other e).channel lcid = (a.channel lcid).map (fun c => c.run es) ∧
      es.filter (· ≠ .allocate) = if other = lcid then [e] else [] := by
  by_cases heq : other = lcid
  · subst heq
    refine ⟨[e], onChannel_channel_self a other e, ?_⟩
    rw [if_pos rfl, List.filter_cons_of_pos (by simpa using he), List.filter_nil]
  · rw [if_neg heq]
    rcases onChannel_channel_of_ne a (Ne.symm heq) e with hsame | htaken
    · exact ⟨[], hsame.trans Option.map_id'.symm, rfl⟩
    · exact ⟨[.allocate], htaken, rfl⟩

/-! ## Runs -/

/-- The call that a step makes. -/
def dispatch (a : AppRrc) (s : Step) : Option (UInt8 × Event) :=
  if a.terminated then none else
  match s with
  | .handle => a.mail.next.bind channelEvent
  | .extract lcid i => if a.timer2Running then some (lcid, .extract i) else none
  | .fire lcid i => some (lcid, .fire i)
  | _ => none

/-- The calls of a run. -/
def trace (a : AppRrc) : List Step → List (UInt8 × Event)
  | [] => []
  | s :: ss => (a.dispatch s).toList ++ (a.step s).trace ss

/-- The calls of one channel. -/
def own (lcid : UInt8) (calls : List (UInt8 × Event)) : List Event :=
  calls.filterMap fun call => if call.1 = lcid then some call.2 else none

theorem channelEvent_ne_allocate {event : RrcEvent} {call : UInt8 × Event}
    (h : channelEvent event = some call) : call.2 ≠ .allocate := by
  cases event with
  | stop => cases h
  | rlf lcid =>
      cases h
      exact fun heq => by cases heq
  | setup lcid forced =>
      cases h
      exact fun heq => by cases heq
  | msg m =>
      obtain ⟨requestID, message⟩ := m
      cases message with
      | exchangeRequest req =>
          cases h
          exact fun heq => by cases heq
      | exchangeResponse rsp =>
          cases h
          exact fun heq => by cases heq

/-- Channels and packets are the same. -/
structure SameChannels (a b : AppRrc) : Prop where
  channel : ∀ lcid, a.channel lcid = b.channel lcid
  sent : a.sent = b.sent

theorem runRrcRx_same (a : AppRrc) (b : List UInt8) : SameChannels (a.runRrcRx b) a := by
  unfold runRrcRx
  split_ifs
  · exact ⟨fun _ => rfl, rfl⟩
  · split <;> exact ⟨fun _ => rfl, rfl⟩

/-- The events that the reactor has left are nothing to the channels. -/
theorem onChannel_same (a : AppRrc) (mail : Mailbox RrcEvent) (lcid : UInt8) (e : Event) :
    SameChannels (onChannel { a with mail := mail } lcid e) (a.onChannel lcid e) := by
  unfold onChannel
  dsimp only
  cases a.channelRrcContexts lcid <;> exact ⟨fun _ => rfl, rfl⟩

/-- To the channels, a step is the call that it makes. -/
theorem step_same (a : AppRrc) (s : Step) :
    SameChannels (a.step s) (match a.dispatch s with
      | none => a
      | some (other, e) => a.onChannel other e) := by
  unfold step dispatch
  by_cases hend : a.terminated = true
  · rw [if_pos hend, if_pos hend]
    exact ⟨fun _ => rfl, rfl⟩
  · rw [if_neg hend, if_neg hend]
    cases s with
    | rrcRx b => exact runRrcRx_same a b
    | wake =>
        dsimp only
        split_ifs <;> exact ⟨fun _ => rfl, rfl⟩
    | handle =>
        dsimp only
        unfold handle
        cases a.mail.next with
        | none => exact ⟨fun _ => rfl, rfl⟩
        | some event =>
            rw [Option.bind_some]
            dsimp only
            unfold onRrcEvent
            cases channelEvent event with
            | none => exact ⟨fun _ => rfl, rfl⟩
            | some call => exact onChannel_same a _ call.1 call.2
    | extract other i =>
        dsimp only
        split_ifs <;> exact ⟨fun _ => rfl, rfl⟩
    | _ => exact ⟨fun _ => rfl, rfl⟩

theorem dispatch_ne_allocate {a : AppRrc} {s : Step} {call : UInt8 × Event}
    (h : a.dispatch s = some call) : call.2 ≠ .allocate := by
  unfold dispatch at h
  by_cases hend : a.terminated = true
  · rw [if_pos hend] at h
    cases h
  rw [if_neg hend] at h
  cases s with
  | handle =>
      obtain ⟨event, _, hevent⟩ := Option.bind_eq_some_iff.mp h
      exact channelEvent_ne_allocate hevent
  | extract other i =>
      dsimp only at h
      split_ifs at h
      cases h
      exact fun heq => by cases heq
  | fire other i =>
      cases h
      exact fun heq => by cases heq
  | _ => cases h

/-- In one step of the node, a channel takes the call that is made of it, and identifiers may
be taken from it. -/
theorem channel_step (a : AppRrc) (lcid : UInt8) (s : Step) :
    ∃ es, (a.step s).channel lcid = (a.channel lcid).map (fun c => c.run es) ∧
      es.filter (· ≠ .allocate) = own lcid (a.dispatch s).toList := by
  rw [(step_same a s).channel]
  cases hcall : a.dispatch s with
  | none => exact ⟨[], Option.map_id'.symm, rfl⟩
  | some call =>
      obtain ⟨es, hes, hown⟩ := onChannel_channel a lcid call.1 (dispatch_ne_allocate hcall)
      refine ⟨es, hes, hown.trans ?_⟩
      unfold own
      by_cases heq : call.1 = lcid
      · rw [if_pos heq]
        simp [heq]
      · rw [if_neg heq]
        simp [heq]

/-- **Channels do not disturb each other**: in every run of the node, a channel goes through
a run of its own, of the calls that are made of it and of identifiers that others take. -/
theorem channel_run (a : AppRrc) (lcid : UInt8) (ss : List Step) :
    ∃ es, (a.run ss).channel lcid = (a.channel lcid).map (fun c => c.run es) ∧
      es.filter (· ≠ .allocate) = own lcid (a.trace ss) := by
  induction ss generalizing a with
  | nil => exact ⟨[], Option.map_id'.symm, rfl⟩
  | cons s ss ih =>
      obtain ⟨es, hes, hown⟩ := channel_step a lcid s
      obtain ⟨fs, hfs, hrest⟩ := ih (a.step s)
      refine ⟨es ++ fs, ?_, ?_⟩
      · show ((a.step s).run ss).channel lcid = _
        rw [hfs, hes, Option.map_map]
        congr 1
        funext c
        exact (List.foldl_append ..).symm
      · rw [List.filter_append, hown, hrest]
        exact (List.filterMap_append ..).symm

/-! ## Channel state and flags -/

theorem setup_channel (cfg : Config) {lcid : UInt8} (h : lcid ≠ 0) :
    (setup cfg).channel lcid = (cfg.channel lcid).map fun c =>
      Lcrrc.new lcid c.llcTx c.llcRx c.pdcpTx c.pdcpRx := by
  unfold setup channel
  rw [Option.map_map]
  congr 1
  funext c
  dsimp only [Function.comp]
  rw [if_neg h]
  rfl

/-- Whatever a node receives, and in whichever order its threads go on: an active channel
has all six flags set, one that is not configured has none of them. -/
theorem flags_of_run (cfg : Config) {lcid : UInt8} (h : lcid ≠ 0) (ss : List Step) {c : Lcrrc}
    (hc : ((setup cfg).run ss).channel lcid = some c) : c.FlagsAgree := by
  have hagree : ∀ c ∈ ((setup cfg).run ss).channel lcid, c.FlagsAgree := by
    refine foldl_invariant (fun a : AppRrc => ∀ c ∈ a.channel lcid, c.FlagsAgree)
      (fun a s ha c hc => ?_) ss _ ?_
    · obtain ⟨es, hes, -⟩ := channel_step a lcid s
      rw [hes] at hc
      obtain ⟨before, hbefore, rfl⟩ := Option.map_eq_some_iff.mp hc
      exact foldl_invariant Lcrrc.FlagsAgree (fun c e hc => hc.step e) es _ (ha before hbefore)
    · intro c hc
      rw [setup_channel cfg h] at hc
      obtain ⟨cfg', -, rfl⟩ := Option.map_eq_some_iff.mp hc
      exact .of_down ⟨rfl, rfl, rfl, rfl, rfl, rfl⟩ rfl
  exact hagree c hc

end AppRrc

end Winject.Node
