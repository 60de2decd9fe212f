import Winject.ChannelRrc.Model
import Winject.Lib.Runs

/-!
# Channel state and enable flags

A channel that is active has both directions of its LLC, its PDCP and its end
point enabled; a channel that is not configured has all six disabled.  The
lemmas in front of this say what the handlers do to the flags and what they
leave alone.

## Main results

* `FlagsAgree.step` — every event keeps the agreement.
* `flags_agree` — it holds after every run.
-/

namespace Winject.ChannelRrc

open Winject.LegacyLlc
open Winject.LegacyPdcp
open Winject.Lib.Runs

namespace Lcrrc

/-! ## The six flags -/

/-- All six flags have this value. -/
structure AllFlags (c : Lcrrc) (value : Bool) : Prop where
  llcTx : c.llc.isTxEnabled = value
  llcRx : c.llc.isRxEnabled = value
  pdcpTx : c.pdcpTx.isTxEnabled = value
  pdcpRx : c.pdcpRx.isRxEnabled = value
  epTx : c.ep.isTxEnabled = value
  epRx : c.ep.isRxEnabled = value

instance (c : Lcrrc) (value : Bool) : Decidable (c.AllFlags value) :=
  decidable_of_iff
    (c.llc.isTxEnabled = value ∧ c.llc.isRxEnabled = value ∧
      c.pdcpTx.isTxEnabled = value ∧ c.pdcpRx.isRxEnabled = value ∧
      c.ep.isTxEnabled = value ∧ c.ep.isRxEnabled = value)
    ⟨fun ⟨h1, h2, h3, h4, h5, h6⟩ => ⟨h1, h2, h3, h4, h5, h6⟩,
      fun ⟨h1, h2, h3, h4, h5, h6⟩ => ⟨h1, h2, h3, h4, h5, h6⟩⟩

/-- Two states of a channel that differ in timers and requests only. -/
structure SameChannel (c c' : Lcrrc) : Prop where
  llc : c'.llc = c.llc
  pdcpTx : c'.pdcpTx = c.pdcpTx
  pdcpRx : c'.pdcpRx = c.pdcpRx
  ep : c'.ep = c.ep

theorem SameChannel.flags {c c' : Lcrrc} (h : SameChannel c c') {value : Bool} :
    c'.AllFlags value ↔ c.AllFlags value := by
  constructor
  · intro ⟨h1, h2, h3, h4, h5, h6⟩
    rw [h.llc] at h1 h2
    rw [h.pdcpTx] at h3
    rw [h.pdcpRx] at h4
    rw [h.ep] at h5 h6
    exact ⟨h1, h2, h3, h4, h5, h6⟩
  · intro ⟨h1, h2, h3, h4, h5, h6⟩
    rw [← h.llc] at h1 h2
    rw [← h.pdcpTx] at h3
    rw [← h.pdcpRx] at h4
    rw [← h.ep] at h5 h6
    exact ⟨h1, h2, h3, h4, h5, h6⟩

theorem onRlf_flags (c : Lcrrc) : c.onRlf.AllFlags false := ⟨rfl, rfl, rfl, rfl, rfl, rfl⟩

theorem activate_flags (c : Lcrrc) : c.activate.AllFlags true := ⟨rfl, rfl, rfl, rfl, rfl, rfl⟩

/-! ## What the other handlers leave alone -/

/-- A message of `auto_send_rrc` that still has retries touches neither the
channel nor its state. -/
theorem autoSendRrc_same (c : Lcrrc) {maxRetry : Nat} (h : maxRetry ≠ 0) (msg first : Rrc) :
    SameChannel c (c.autoSendRrc maxRetry msg first) ∧
      (c.autoSendRrc maxRetry msg first).txrxState = c.txrxState := by
  unfold autoSendRrc
  rw [if_neg h]
  exact ⟨⟨rfl, rfl, rfl, rfl⟩, rfl⟩

/-- An expiry does nothing to the channel, or it forces a radio link failure. -/
theorem onExpiry_same (c : Lcrrc) (maxRetry : Nat) (reqId : UInt8) (first : Rrc) :
    (SameChannel c (c.onExpiry maxRetry reqId first) ∧
        (c.onExpiry maxRetry reqId first).txrxState = c.txrxState) ∨
      ((c.onExpiry maxRetry reqId first).AllFlags false ∧
        (c.onExpiry maxRetry reqId first).txrxState = .notConfigured) := by
  unfold onExpiry
  cases hctx : c.rrcRequests reqId with
  | none => exact Or.inl ⟨⟨rfl, rfl, rfl, rfl⟩, rfl⟩
  | some context =>
      dsimp only [allocateReqId]
      by_cases hretry : maxRetry - 1 = 0
      · rw [hretry]
        exact Or.inr ⟨onRlf_flags _, rfl⟩
      · left
        obtain ⟨hsame, hstate⟩ := autoSendRrc_same
          { c with
            rrcRequests := Function.update c.rrcRequests reqId none
            rrcReqId := c.rrcReqId + 1 }
          hretry { context.request with requestID := c.rrcReqId } first
        exact ⟨⟨hsame.llc, hsame.pdcpTx, hsame.pdcpRx, hsame.ep⟩, hstate⟩

/-- `on_init` is refused, or the channel is configuring and otherwise as
before. -/
theorem onInit_cases (c : Lcrrc) (forced : Bool) :
    c.onInit forced = c ∨
      (c.onInit forced = (c.changeTxrxState .configuring).sendExchangeReq ∧
        SameChannel c (c.onInit forced) ∧ (c.onInit forced).txrxState = .configuring) := by
  unfold onInit
  split_ifs with h
  · exact Or.inl rfl
  · exact Or.inr ⟨rfl, ⟨rfl, rfl, rfl, rfl⟩, rfl⟩

theorem onExchangeRequest_txrxState (c : Lcrrc) (reqId : UInt8) (req : RrcExchange) :
    (c.onExchangeRequest reqId req).txrxState = .configured := rfl

theorem onExchangeResponse_txrxState (c : Lcrrc) (reqId : UInt8) (rsp : RrcExchange) :
    (c.onExchangeResponse reqId rsp).txrxState = .configured := rfl

/-! ## The agreement -/

/-- The state and the flags agree. -/
structure FlagsAgree (c : Lcrrc) : Prop where
  active : c.txrxState = .active → c.AllFlags true
  notConfigured : c.txrxState = .notConfigured → c.AllFlags false

/-- States that say nothing about the flags. -/
theorem FlagsAgree.of_state {c : Lcrrc} (ha : c.txrxState ≠ .active)
    (hn : c.txrxState ≠ .notConfigured) : c.FlagsAgree :=
  ⟨fun h => absurd h ha, fun h => absurd h hn⟩

theorem FlagsAgree.of_same {c c' : Lcrrc} (h : c.FlagsAgree) (hsame : SameChannel c c')
    (hstate : c'.txrxState = c.txrxState) : c'.FlagsAgree := by
  constructor
  · intro ha
    exact hsame.flags.mpr (h.active (hstate ▸ ha))
  · intro hn
    exact hsame.flags.mpr (h.notConfigured (hstate ▸ hn))

theorem FlagsAgree.of_down {c : Lcrrc} (hflags : c.AllFlags false)
    (hstate : c.txrxState = .notConfigured) : c.FlagsAgree :=
  ⟨fun ha => absurd (hstate.symm.trans ha) (by decide), fun _ => hflags⟩

theorem FlagsAgree.call {c : Lcrrc} (h : c.FlagsAgree) (cb : Callback) :
    (c.call cb).FlagsAgree := by
  cases cb with
  | activate => exact ⟨fun _ => activate_flags c, fun hn => by cases hn⟩
  | expiry maxRetry reqId first =>
      rcases c.onExpiry_same maxRetry reqId first with ⟨hsame, hstate⟩ | ⟨hflags, hstate⟩
      · exact h.of_same hsame hstate
      · exact .of_down hflags hstate

/-- Every event keeps the agreement. -/
theorem FlagsAgree.step {c : Lcrrc} (h : c.FlagsAgree) (e : Event) : (c.step e).FlagsAgree := by
  cases e with
  | init forced =>
      rcases c.onInit_cases forced with heq | ⟨_, _, hstate⟩
      · show (c.onInit forced).FlagsAgree
        rwa [heq]
      · exact .of_state (by show (c.onInit forced).txrxState ≠ _; rw [hstate]; decide)
          (by show (c.onInit forced).txrxState ≠ _; rw [hstate]; decide)
  | request reqId req =>
      have hstate := c.onExchangeRequest_txrxState reqId req
      exact .of_state (by show (c.onExchangeRequest reqId req).txrxState ≠ _; rw [hstate]; decide)
        (by show (c.onExchangeRequest reqId req).txrxState ≠ _; rw [hstate]; decide)
  | response reqId rsp =>
      have hstate := c.onExchangeResponse_txrxState reqId rsp
      exact .of_state (by show (c.onExchangeResponse reqId rsp).txrxState ≠ _; rw [hstate]; decide)
        (by show (c.onExchangeResponse reqId rsp).txrxState ≠ _; rw [hstate]; decide)
  | rlf => exact .of_down c.onRlf_flags rfl
  | extract i => exact h.of_same ⟨rfl, rfl, rfl, rfl⟩ rfl
  | fire i =>
      show (c.fire i).FlagsAgree
      unfold fire
      cases hcb : c.timer.extracted[i]? with
      | none => exact h
      | some cb =>
          refine FlagsAgree.call ?_ cb
          exact h.of_same ⟨rfl, rfl, rfl, rfl⟩ rfl
  | allocate => exact h.of_same ⟨rfl, rfl, rfl, rfl⟩ rfl

/-- **Channel state and enable flags agree.**  In every run of a channel, an
active channel has all six flags set, and a channel that is not configured has
none. -/
theorem flags_agree (lcid : UInt8) (llcTx : LegacyLlc.TxConfig) (llcRx : LegacyLlc.RxConfig)
    (pdcpTx : LegacyPdcp.TxConfig) (pdcpRx : LegacyPdcp.RxConfig) (es : List Event) :
    let c := (new lcid llcTx llcRx pdcpTx pdcpRx).run es
    (c.txrxState = .active → c.AllFlags true) ∧
      (c.txrxState = .notConfigured → c.AllFlags false) := by
  have h : ((new lcid llcTx llcRx pdcpTx pdcpRx).run es).FlagsAgree := by
    refine foldl_invariant FlagsAgree (fun c e hc => hc.step e) es _ ?_
    exact .of_down ⟨rfl, rfl, rfl, rfl, rfl, rfl⟩ rfl
  exact ⟨h.active, h.notConfigured⟩

end Lcrrc

end Winject.ChannelRrc
