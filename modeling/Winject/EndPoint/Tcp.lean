import Mathlib.Data.List.Basic

/-!
# TCP end points (`TCPServerEndPoint.hpp`, `TCPClientEndPoint.hpp`)

A TCP end point has one socket with a peer: the client that the server has accepted, or the
target that the client connects to.  One thread, `run_pdcp_tx`, waits in `select`, reads
from the peer and hands what it has read to the PDCP; others enable and disable the end
point.  The two classes are alike, so `TcpEndPoint` is both, and its `role` says which.

`bfc::socket` takes a descriptor over only where there is one: `clientSock = bfc::socket()`
leaves `clientSock` as it is.  And `select` does not clear `errno` when it succeeds.

An `EpOp` is an atomic part of a call from outside, and an `Input` is what the thread finds
in its next step.  The calls from outside come one after the other.

`received` and `taken` are what `recv` has returned and what `to_tx` has taken, `asked` are
the calls of the `IRRC`.  No function reads these.

## Main results

* `client_kept` — the first client of a server is its last.
* `server_asks` — what a server asks for in its whole life.
* `target_kept` — the target of a client stays until the next activation.
-/

namespace Winject.EndPoint

/-! ## The model -/

/-- Which of the two classes. -/
inductive Role where
  | server
  | client
  deriving DecidableEq, Repr

/-- `bfc::socket` with a descriptor; one without is `none`. -/
structure Sock where
  fd : Nat
  connected : Bool
  deriving DecidableEq, Repr

/-- `socket::operator=(socket&&)`. -/
def assign (sock other : Option Sock) : Option Sock :=
  match other with
  | none => sock
  | some s => some s

/-- The calls of `IRRC`. -/
inductive Ask where
  | init
  | rlf
  deriving DecidableEq, Repr

/-- What `ep_event` carries. -/
inductive EpEvent where
  | stop
  | breakSelect
  deriving DecidableEq, Repr

/-- `errno`, as the loop tells its values apart. -/
inductive Errno where
  | eintr
  | other
  deriving DecidableEq, Repr

/-- `recv_set`: the socket with the peer, the one that listens, and the event descriptor. -/
structure FdSet where
  peer : Bool := false
  listener : Bool := false
  event : Bool := false
  deriving DecidableEq, Repr

/-- What the loop does about a descriptor that is ready. -/
inductive Job where
  | peer
  | listener
  | event
  deriving DecidableEq, Repr

/-- Where the thread is: at the head of the loop if no job is left, or in the loop over
`to_tx`. -/
inductive Phase where
  | working (jobs : List Job)
  | sending (b : List UInt8) (jobs : List Job)
  | ended
  deriving DecidableEq, Repr

/-- `TCPServerEndPoint` and `TCPClientEndPoint`.  `sock` is `clientSock` or `targetSock`,
`epEventFd` the count behind the descriptor. -/
structure TcpEndPoint where
  role : Role
  isTxEnabled : Bool := false
  isRxEnabled : Bool := false
  sock : Option Sock := none
  epEvent : List EpEvent := []
  epEventFd : Nat := 0
  pdcpTxRunning : Bool := true
  errno : Errno := .other
  recvSet : FdSet := {}
  phase : Phase := .working []
  asked : List Ask := []
  received : List (List UInt8) := []
  taken : List (List UInt8) := []
  deriving DecidableEq, Repr

/-- An atomic part of a call from outside. -/
inductive EpOp where
  | setTx (value : Bool)
  | setRx (value : Bool)
  | checkState
  | push (event : EpEvent)
  | announce
  | halt
  deriving DecidableEq, Repr

/-- `notify_event`. -/
def notifyEvent (event : EpEvent) : List EpOp := [.push event, .announce]

/-- `set_tx_enabled` and then `set_rx_enabled`, as `LCRRC` calls them. -/
def setEnabled (value : Bool) : List EpOp :=
  [.setTx value, .checkState] ++ notifyEvent .breakSelect ++
    ([.setRx value, .checkState] ++ notifyEvent .breakSelect)

/-- The destructor. -/
def destroy : List EpOp := .halt :: notifyEvent .stop

/-- How `select` returns. -/
inductive SelectResult where
  | failed (errno : Errno)
  | ready (set : FdSet)
  deriving DecidableEq, Repr

/-- How `recv` returns. -/
inductive RecvResult where
  | failed (errno : Errno)
  | data (b : List UInt8)
  deriving DecidableEq, Repr

/-- What the thread finds in its next step. -/
inductive Input where
  | select (rv : SelectResult)
  | recv (rv : RecvResult)
  | toTx (accepted : Bool)
  | accept (fd : Option Nat)
  | event
  deriving DecidableEq, Repr

namespace TcpEndPoint

/-- `is_active`. -/
def isActive (ep : TcpEndPoint) : Bool := ep.isTxEnabled && ep.isRxEnabled

/-- `is_rlf`. -/
def isRlf (ep : TcpEndPoint) : Bool := !ep.isTxEnabled && !ep.isRxEnabled

/-- A call of the `IRRC`. -/
def ask (ep : TcpEndPoint) (call : Ask) : TcpEndPoint := { ep with asked := ep.asked ++ [call] }

/-- The client takes a new socket over, if there is one to be had, and connects it; `ok` is
how `connect` returns. -/
def connect (ep : TcpEndPoint) (target : Option Nat) (ok : Bool) : TcpEndPoint :=
  match assign ep.sock (target.map (Sock.mk · false)) with
  | none => ask { ep with sock := assign none none } .rlf
  | some s =>
    if ok then { ep with sock := some { s with connected := true } }
    else ask { ep with sock := assign (some s) none } .rlf

/-- `check_state`. -/
def checkState (ep : TcpEndPoint) (target : Option Nat) (ok : Bool) : TcpEndPoint :=
  match ep.role with
  | .server => if ep.isRlf && ep.sock.isSome then { ep with sock := assign ep.sock none } else ep
  | .client =>
    if ep.isRlf then { ep with sock := assign ep.sock none }
    else if ep.isActive then ep.connect target ok
    else ep

/-- A part of a call. -/
def op (ep : TcpEndPoint) (target : Option Nat) (ok : Bool) : EpOp → TcpEndPoint
  | .setTx value => { ep with isTxEnabled := value }
  | .setRx value => { ep with isRxEnabled := value }
  | .checkState => ep.checkState target ok
  | .push event => { ep with epEvent := ep.epEvent ++ [event] }
  | .announce => { ep with epEventFd := ep.epEventFd + 1 }
  | .halt => { ep with pdcpTxRunning := false }

/-- What `FD_SET` adds to `recv_set` at the head of the loop. -/
def watched (ep : TcpEndPoint) : FdSet where
  peer := ep.recvSet.peer || match ep.role with
    | .server => ep.isActive && ep.sock.isSome
    | .client => ep.sock.isSome
  listener := ep.role == .server
  event := true

/-- What `select` leaves of it. -/
def found (ep : TcpEndPoint) (set : FdSet) : FdSet where
  peer := set.peer && ep.watched.peer
  listener := set.listener && ep.watched.listener
  event := set.event && decide (0 < ep.epEventFd)

/-- The jobs of a pass. -/
def jobs (ep : TcpEndPoint) (set : FdSet) : List Job :=
  (if ep.sock.isSome && set.peer then [.peer] else []) ++
    (if set.listener then [.listener] else []) ++ if set.event then [.event] else []

/-- `select` has failed.  The server drops its client, unless the call was interrupted. -/
def selectFailed (ep : TcpEndPoint) (errno : Errno) : TcpEndPoint :=
  let ep := { ep with recvSet := ep.watched, errno := errno }
  if errno = .eintr then ep else
  match ep.role with
  | .server => if ep.sock.isSome then { ep with sock := assign ep.sock none } else ep
  | .client => ep

/-- The head of the loop, and `select`, which waits as long as nothing is ready. -/
def select (ep : TcpEndPoint) (rv : SelectResult) : TcpEndPoint :=
  if !ep.pdcpTxRunning then { ep with phase := .ended } else
  match rv with
  | .failed errno => ep.selectFailed errno
  | .ready set =>
    let set := ep.found set
    if set = {} then ep else
    let ep := { ep with recvSet := set }
    if ep.errno = .eintr then ep else { ep with phase := .working (ep.jobs set) }

/-- `recv` finds the end of the stream, or an error. -/
def hangUp (ep : TcpEndPoint) (jobs : List Job) : TcpEndPoint :=
  ask { ep with sock := assign ep.sock none, phase := .working jobs } .rlf

/-- The peer is ready. -/
def recv (ep : TcpEndPoint) (rv : RecvResult) (jobs : List Job) : TcpEndPoint :=
  match rv with
  | .failed errno => hangUp { ep with errno := errno } jobs
  | .data b =>
    let b := b.take 1024
    if b.isEmpty then ep.hangUp jobs
    else { ep with received := ep.received ++ [b], phase := .sending b jobs }

/-- A call of `to_tx`. -/
def toTx (ep : TcpEndPoint) (accepted : Bool) (b : List UInt8) (jobs : List Job) : TcpEndPoint :=
  if accepted then { ep with taken := ep.taken ++ [b], phase := .working jobs }
  else if ep.pdcpTxRunning then ep else { ep with phase := .working jobs }

/-- `on_new_connection`.  A second client is closed. -/
def onNewConnection (ep : TcpEndPoint) (fd : Option Nat) (jobs : List Job) : TcpEndPoint :=
  let ep := { ep with phase := .working jobs }
  if ep.sock.isSome then ep else
  let ep := { ep with sock := assign ep.sock (fd.map (Sock.mk · true)) }
  if !ep.isTxEnabled then ep.ask .init else ep

/-- The event descriptor is ready.  Of an empty queue there is no front. -/
def takeEvent (ep : TcpEndPoint) (jobs : List Job) : TcpEndPoint :=
  let ep := { ep with epEventFd := ep.epEventFd - 1 }
  match ep.epEvent with
  | [] => ep
  | event :: events =>
    if event = .stop then { ep with epEvent := events, phase := .ended, pdcpTxRunning := false }
    else { ep with epEvent := events, phase := .working jobs }

/-- A step of `run_pdcp_tx`. -/
def thread (ep : TcpEndPoint) : Input → TcpEndPoint
  | .select rv =>
    match ep.phase with
    | .working [] => ep.select rv
    | _ => ep
  | .recv rv =>
    match ep.phase with
    | .working (.peer :: jobs) => ep.recv rv jobs
    | _ => ep
  | .toTx accepted =>
    match ep.phase with
    | .sending b jobs => ep.toTx accepted b jobs
    | _ => ep
  | .accept fd =>
    match ep.phase with
    | .working (.listener :: jobs) => ep.onNewConnection fd jobs
    | _ => ep
  | .event =>
    match ep.phase with
    | .working (.event :: jobs) => ep.takeEvent jobs
    | _ => ep

end TcpEndPoint

/-- An end point, with what is still to be done of the calls that have come. -/
structure Driven where
  ep : TcpEndPoint
  ops : List EpOp := []
  deriving DecidableEq, Repr

/-- A call from outside, the next part of a call, or a step of the thread. -/
inductive DrivenStep where
  | enable (value : Bool)
  | destroy
  | op (target : Option Nat) (ok : Bool)
  | thread (input : Input)
  deriving DecidableEq, Repr

namespace Driven

/-- One step. -/
def step (d : Driven) : DrivenStep → Driven
  | .enable value => { d with ops := d.ops ++ setEnabled value }
  | .destroy => { d with ops := d.ops ++ EndPoint.destroy }
  | .op target ok =>
    match d.ops with
    | [] => d
    | o :: ops => ⟨d.ep.op target ok o, ops⟩
  | .thread input => { d with ep := d.ep.thread input }

/-- A run. -/
def run (d : Driven) (ss : List DrivenStep) : Driven := ss.foldl step d

/-- An end point that has been constructed. -/
def start (role : Role) : Driven := ⟨{ role := role }, []⟩

end Driven

/-! ## The socket with the peer -/

/-- What is left of a pass. -/
def Phase.jobs : Phase → List Job
  | .working jobs => jobs
  | .sending _ jobs => jobs
  | .ended => []

namespace TcpEndPoint

/-- What a step of the thread does to the socket, and what it asks for. -/
inductive Does (ep : TcpEndPoint) (input : Input) (ep' : TcpEndPoint) : Prop
  | nothing (sock : ep'.sock = ep.sock) (asked : ep'.asked = ep.asked)
  | hangUp (peer : Job.peer ∈ ep.phase.jobs) (sock : ep'.sock = ep.sock)
      (asked : ep'.asked = ep.asked ++ [.rlf])
  | accept (fd : Option Nat) (hfd : input = .accept fd) (free : ep.sock = none)
      (sock : ep'.sock = fd.map (Sock.mk · true))
      (asked : ep'.asked = ep.asked ++ if ep.isTxEnabled then [] else [.init])

/-- Nothing is dropped. -/
theorem selectFailed_eq (ep : TcpEndPoint) (errno : Errno) :
    ep.selectFailed errno = { ep with recvSet := ep.watched, errno := errno } := by
  obtain ⟨role, tx, rx, sock, events, count, running, old, set, phase, asked, received, taken⟩ := ep
  unfold selectFailed
  cases errno <;> cases role <;> cases sock <;> rfl

theorem select_does (ep : TcpEndPoint) (rv : SelectResult) :
    (ep.select rv).sock = ep.sock ∧ (ep.select rv).asked = ep.asked := by
  unfold select
  split_ifs
  · exact ⟨rfl, rfl⟩
  · cases rv with
    | failed errno =>
        dsimp only
        rw [selectFailed_eq]
        exact ⟨rfl, rfl⟩
    | ready set =>
        dsimp only
        split_ifs <;> exact ⟨rfl, rfl⟩

theorem takeEvent_does (ep : TcpEndPoint) (jobs : List Job) :
    (ep.takeEvent jobs).sock = ep.sock ∧ (ep.takeEvent jobs).asked = ep.asked := by
  unfold takeEvent
  dsimp only
  split
  · exact ⟨rfl, rfl⟩
  · split_ifs <;> exact ⟨rfl, rfl⟩

theorem thread_does (ep : TcpEndPoint) (input : Input) : Does ep input (ep.thread input) := by
  unfold thread
  cases input with
  | select rv =>
      dsimp only
      split
      · exact .nothing (ep.select_does rv).1 (ep.select_does rv).2
      · exact .nothing rfl rfl
  | recv rv =>
      dsimp only
      split
      next jobs hphase =>
        have hpeer : Job.peer ∈ ep.phase.jobs := by
          rw [hphase]
          exact List.mem_cons_self ..
        cases rv with
        | failed errno => exact .hangUp hpeer rfl rfl
        | data b =>
            unfold recv
            dsimp only
            split_ifs
            · exact .hangUp hpeer rfl rfl
            · exact .nothing rfl rfl
      · exact .nothing rfl rfl
  | toTx accepted =>
      dsimp only
      split
      · unfold toTx
        split_ifs <;> exact .nothing rfl rfl
      · exact .nothing rfl rfl
  | accept fd =>
      dsimp only
      split
      · unfold onNewConnection
        dsimp only
        split_ifs with hsome htx
        · exact .nothing rfl rfl
        · have hfree : ep.sock = none := by simpa using hsome
          refine .accept fd rfl hfree ?_ ?_
          · cases fd <;> simp [ask, assign, hfree]
          · rw [if_neg (by simpa using htx)]
            rfl
        · have hfree : ep.sock = none := by simpa using hsome
          refine .accept fd rfl hfree ?_ ?_
          · cases fd <;> simp [assign, hfree]
          · rw [if_pos (by simpa using htx), List.append_nil]
      · exact .nothing rfl rfl
  | event =>
      dsimp only
      split
      · exact .nothing (ep.takeEvent_does _).1 (ep.takeEvent_does _).2
      · exact .nothing rfl rfl

/-- The thread changes neither the class nor what is enabled. -/
structure Same (ep ep' : TcpEndPoint) : Prop where
  role : ep'.role = ep.role
  tx : ep'.isTxEnabled = ep.isTxEnabled
  rx : ep'.isRxEnabled = ep.isRxEnabled

theorem thread_same (ep : TcpEndPoint) (input : Input) : Same ep (ep.thread input) := by
  unfold thread
  cases input with
  | select rv =>
      dsimp only
      split
      · unfold select
        split_ifs
        · exact ⟨rfl, rfl, rfl⟩
        · cases rv with
          | failed errno =>
              dsimp only
              rw [selectFailed_eq]
              exact ⟨rfl, rfl, rfl⟩
          | ready set =>
              dsimp only
              split_ifs <;> exact ⟨rfl, rfl, rfl⟩
      · exact ⟨rfl, rfl, rfl⟩
  | recv rv =>
      dsimp only
      split
      · cases rv with
        | failed errno => exact ⟨rfl, rfl, rfl⟩
        | data b =>
            unfold recv
            dsimp only
            split_ifs <;> exact ⟨rfl, rfl, rfl⟩
      · exact ⟨rfl, rfl, rfl⟩
  | toTx accepted =>
      dsimp only
      split
      · unfold toTx
        split_ifs <;> exact ⟨rfl, rfl, rfl⟩
      · exact ⟨rfl, rfl, rfl⟩
  | accept fd =>
      dsimp only
      split
      · unfold onNewConnection
        dsimp only
        split_ifs <;> exact ⟨rfl, rfl, rfl⟩
      · exact ⟨rfl, rfl, rfl⟩
  | event =>
      dsimp only
      split
      · unfold takeEvent
        dsimp only
        split
        · exact ⟨rfl, rfl, rfl⟩
        · split_ifs <;> exact ⟨rfl, rfl, rfl⟩
      · exact ⟨rfl, rfl, rfl⟩

/-- What `check_state` can change. -/
theorem checkState_eq (ep : TcpEndPoint) (target : Option Nat) (ok : Bool) :
    ∃ sock asked, ep.checkState target ok = { ep with sock := sock, asked := asked } := by
  unfold checkState
  split
  · split_ifs
    · exact ⟨_, _, rfl⟩
    · exact ⟨_, _, rfl⟩
  · split_ifs
    · exact ⟨_, _, rfl⟩
    · unfold connect
      split
      · exact ⟨_, _, rfl⟩
      · split_ifs
        · exact ⟨_, _, rfl⟩
        · exact ⟨_, _, rfl⟩
    · exact ⟨_, _, rfl⟩

/-- A server keeps its client. -/
theorem checkState_server {ep : TcpEndPoint} (h : ep.role = .server) (target : Option Nat)
    (ok : Bool) : ep.checkState target ok = ep := by
  obtain ⟨role, tx, rx, sock, events, count, running, errno, set, phase, asked, received, taken⟩ := ep
  obtain rfl : role = .server := h
  unfold checkState
  dsimp only
  split_ifs <;> rfl

theorem op_server {ep : TcpEndPoint} (h : ep.role = .server) (target : Option Nat) (ok : Bool)
    (o : EpOp) : (ep.op target ok o).role = .server ∧ (ep.op target ok o).sock = ep.sock ∧
      (ep.op target ok o).asked = ep.asked ∧ (ep.op target ok o).phase = ep.phase := by
  cases o with
  | checkState =>
      show (ep.checkState target ok).role = _ ∧ _
      rw [show ep.op target ok .checkState = ep from checkState_server h target ok,
        checkState_server h]
      exact ⟨h, rfl, rfl, rfl⟩
  | _ => exact ⟨h, rfl, rfl, rfl⟩

/-- The thread reads from a peer only where there is one. -/
def Guarded (ep : TcpEndPoint) : Prop := Job.peer ∈ ep.phase.jobs → ep.sock.isSome = true

theorem thread_guarded {ep : TcpEndPoint} (h : ep.Guarded) (input : Input) :
    (ep.thread input).Guarded := by
  have hrest : ∀ {jobs : List Job} {j : Job}, ep.phase = .working (j :: jobs) →
      Job.peer ∈ jobs → ep.sock.isSome = true := fun hphase hmem =>
    h (by rw [hphase]; exact List.mem_cons_of_mem _ hmem)
  unfold thread
  cases input with
  | select rv =>
      dsimp only
      split
      next hphase =>
        unfold select
        split_ifs
        · exact fun hmem => (List.not_mem_nil hmem).elim
        · cases rv with
          | failed errno =>
              dsimp only
              rw [selectFailed_eq]
              exact h
          | ready set =>
              dsimp only
              split_ifs
              · exact h
              · exact h
              · intro hmem
                rcases List.mem_append.mp hmem with hfirst | hlast
                · rcases List.mem_append.mp hfirst with hpeer | hlistener
                  · split_ifs at hpeer with hready
                    · exact (Bool.and_eq_true _ _ ▸ hready).1
                    · cases hpeer
                  · split_ifs at hlistener
                    · cases List.mem_singleton.mp hlistener
                    · cases hlistener
                · split_ifs at hlast
                  · cases List.mem_singleton.mp hlast
                  · cases hlast
      · exact h
  | recv rv =>
      dsimp only
      split
      next jobs hphase =>
        cases rv with
        | failed errno => exact fun hmem => hrest hphase hmem
        | data b =>
            unfold recv
            dsimp only
            split_ifs <;> exact fun hmem => hrest hphase hmem
      · exact h
  | toTx accepted =>
      dsimp only
      split
      next b jobs hphase =>
        have hjobs : Job.peer ∈ jobs → ep.sock.isSome = true := fun hmem =>
          h (by rw [hphase]; exact hmem)
        unfold toTx
        split_ifs
        · exact hjobs
        · exact h
        · exact hjobs
      · exact h
  | accept fd =>
      dsimp only
      split
      next jobs hphase =>
        have hsome : Job.peer ∈ jobs → ep.sock.isSome = true := fun hmem => hrest hphase hmem
        unfold onNewConnection
        dsimp only
        split_ifs with hfree htx
        · exact hsome
        · exact fun hmem => absurd (hsome hmem) hfree
        · exact fun hmem => absurd (hsome hmem) hfree
      · exact h
  | event =>
      dsimp only
      split
      next jobs hphase =>
        unfold takeEvent
        dsimp only
        split
        · exact h
        · split_ifs
          · exact fun hmem => (List.not_mem_nil hmem).elim
          · exact fun hmem => hrest hphase hmem
      · exact h

end TcpEndPoint

namespace Driven

/-- One step of a server. -/
structure Serves (d d' : Driven) (s : DrivenStep) : Prop where
  guarded : d.ep.Guarded → d'.ep.Guarded
  does : ∃ input, d.ep.Does input d'.ep ∧ (∀ fd, input = .accept fd → s = .thread (.accept fd))

theorem step_serves {d : Driven} (h : d.ep.role = .server) (s : DrivenStep) :
    Serves d (d.step s) s := by
  have hsame : Serves d d s :=
    ⟨id, .event, .nothing rfl rfl, fun _ heq => by cases heq⟩
  cases s with
  | enable value => exact ⟨id, .event, .nothing rfl rfl, fun _ heq => by cases heq⟩
  | destroy => exact ⟨id, .event, .nothing rfl rfl, fun _ heq => by cases heq⟩
  | op target ok =>
      unfold step
      cases d.ops with
      | nil => exact hsame
      | cons o ops =>
          obtain ⟨-, hsock, hasked, hphase⟩ := TcpEndPoint.op_server h target ok o
          refine ⟨fun hg hmem => ?_, .event, .nothing hsock hasked,
            fun _ heq => by cases heq⟩
          change Job.peer ∈ (d.ep.op target ok o).phase.jobs at hmem
          rw [hphase] at hmem
          show (d.ep.op target ok o).sock.isSome = true
          rw [hsock]
          exact hg hmem
  | thread input =>
      exact ⟨fun hg => TcpEndPoint.thread_guarded hg input, input, d.ep.thread_does input,
        fun fd heq => by rw [heq]⟩

theorem step_role {d : Driven} {role : Role} (h : d.ep.role = role) (s : DrivenStep) :
    (d.step s).ep.role = role := by
  cases s with
  | enable value => exact h
  | destroy => exact h
  | op target ok =>
      unfold step
      cases d.ops with
      | nil => exact h
      | cons o ops =>
          cases o with
          | checkState =>
              obtain ⟨sock, asked, heq⟩ := d.ep.checkState_eq target ok
              show (d.ep.checkState target ok).role = role
              rw [heq]
              exact h
          | _ => exact h
  | thread input => exact (d.ep.thread_same input).role.trans h

/-- A server with a client. -/
theorem kept_run {d : Driven} (hrole : d.ep.role = .server) {client : Sock}
    (hsock : d.ep.sock = some client) (ss : List DrivenStep) :
    (d.run ss).ep.sock = some client ∧
      ∃ n, (d.run ss).ep.asked = d.ep.asked ++ List.replicate n .rlf := by
  induction ss generalizing d with
  | nil => exact ⟨hsock, 0, (List.append_nil _).symm⟩
  | cons s ss ih =>
      have hstep := step_serves hrole s
      obtain ⟨input, hdoes, -⟩ := hstep.does
      cases hdoes with
      | nothing heq hasked =>
          obtain ⟨hkept, n, hrest⟩ := ih (step_role hrole s) (heq.trans hsock)
          exact ⟨hkept, n, by rw [← hasked]; exact hrest⟩
      | hangUp hpeer heq hasked =>
          obtain ⟨hkept, n, hrest⟩ := ih (step_role hrole s) (heq.trans hsock)
          refine ⟨hkept, n + 1, ?_⟩
          rw [hasked, List.append_assoc] at hrest
          exact hrest
      | accept fd hfd hfree heq hasked =>
          rw [hsock] at hfree
          cases hfree

theorem role_run {d : Driven} {role : Role} (h : d.ep.role = role) (ss : List DrivenStep) :
    (d.run ss).ep.role = role := by
  induction ss generalizing d with
  | nil => exact h
  | cons s ss ih => exact ih (step_role h s)

/-- A server that no one has connected to. -/
theorem free_run {d : Driven} (hrole : d.ep.role = .server) (hsock : d.ep.sock = none)
    (hguarded : d.ep.Guarded) (ss : List DrivenStep) (haccept : .thread (.accept none) ∉ ss) :
    ((d.run ss).ep.sock = none ∧ (d.run ss).ep.asked = d.ep.asked) ∨
      ∃ client first n, (d.run ss).ep.sock = some client ∧ (first = [] ∨ first = [.init]) ∧
        (d.run ss).ep.asked = d.ep.asked ++ first ++ List.replicate n .rlf := by
  induction ss generalizing d with
  | nil => exact Or.inl ⟨hsock, rfl⟩
  | cons s ss ih =>
      have hstep := step_serves hrole s
      rw [List.mem_cons, not_or] at haccept
      obtain ⟨input, hdoes, hinput⟩ := hstep.does
      cases hdoes with
      | nothing heq hasked =>
          rw [← hasked]
          exact ih (step_role hrole s) (heq.trans hsock) (hstep.guarded hguarded) haccept.2
      | hangUp hpeer heq hasked =>
          have hsome := hguarded hpeer
          rw [hsock] at hsome
          cases hsome
      | accept fd hfd hfree heq hasked =>
          cases fd with
          | none => exact absurd (hinput none hfd).symm haccept.1
          | some fd =>
              obtain ⟨hkept, n, hrest⟩ := kept_run (step_role hrole s) heq ss
              rw [hasked] at hrest
              refine Or.inr ⟨_, if d.ep.isTxEnabled then [] else [.init], n, hkept, ?_, hrest⟩
              split_ifs
              · exact Or.inl rfl
              · exact Or.inr rfl

/-- **The first client of a server is its last.**  Whatever happens to the channel, to the
connection and to the thread, and whoever connects, a server that has a client keeps it, and
asks for nothing any more but link failures. -/
theorem client_kept (ss ss' : List DrivenStep) {client : Sock}
    (hsock : ((start .server).run ss).ep.sock = some client) :
    ((start .server).run (ss ++ ss')).ep.sock = some client ∧
      ∃ n, ((start .server).run (ss ++ ss')).ep.asked =
        ((start .server).run ss).ep.asked ++ List.replicate n .rlf := by
  rw [run, List.foldl_append]
  exact kept_run (role_run rfl ss) hsock ss'

/-- A client connects, sends nothing and hangs up; a second one connects. -/
def oneClient : List DrivenStep :=
  [.thread (.select (.ready ⟨false, true, false⟩)), .thread (.accept (some 7)),
    .enable true] ++ List.replicate 8 (.op none false)

theorem client_kept_second :
    ((start .server).run (oneClient ++ [.thread (.select (.ready ⟨true, true, false⟩)),
      .thread (.recv (.data [])), .thread (.accept (some 8))])).ep.sock = some ⟨7, true⟩ :=
  (client_kept oneClient _ (by decide)).1

/-- **What a server asks for**, as long as `accept` does not fail: nothing before it has a
client; then at most one set-up, and behind that nothing but link failures. -/
theorem server_asks (ss : List DrivenStep) (haccept : .thread (.accept none) ∉ ss) :
    let d := (start .server).run ss
    (d.ep.sock = none ∧ d.ep.asked = []) ∨
      ∃ client first n, d.ep.sock = some client ∧ (first = [] ∨ first = [.init]) ∧
        d.ep.asked = first ++ List.replicate n .rlf :=
  free_run rfl rfl (fun hmem => (List.not_mem_nil hmem).elim) ss haccept

theorem server_asks_oneClient :
    let d := (start .server).run oneClient
    (d.ep.sock = none ∧ d.ep.asked = []) ∨
      ∃ client first n, d.ep.sock = some client ∧ (first = [] ∨ first = [.init]) ∧
        d.ep.asked = first ++ List.replicate n .rlf :=
  server_asks oneClient (by decide)

/-! ## The target of a client -/

/-- No state is checked while both flags are set. -/
def Inactive (tx rx : Bool) : List EpOp → Prop
  | [] => True
  | .setTx value :: ops => value = false ∧ Inactive false rx ops
  | .setRx value :: ops => value = false ∧ Inactive tx false ops
  | .checkState :: ops => (tx && rx) = false ∧ Inactive tx rx ops
  | .push _ :: ops => Inactive tx rx ops
  | .announce :: ops => Inactive tx rx ops
  | .halt :: ops => Inactive tx rx ops

theorem Inactive.append {tx rx : Bool} {ops ops' : List EpOp} (h : Inactive tx rx ops)
    (h' : ∀ tx rx, Inactive tx rx ops') : Inactive tx rx (ops ++ ops') := by
  induction ops generalizing tx rx with
  | nil => exact h' tx rx
  | cons o ops ih =>
      cases o with
      | setTx value => exact ⟨h.1, ih h.2⟩
      | setRx value => exact ⟨h.1, ih h.2⟩
      | checkState => exact ⟨h.1, ih h.2⟩
      | push event => exact ih h
      | announce => exact ih h
      | halt => exact ih h

theorem inactive_disable (tx rx : Bool) : Inactive tx rx (setEnabled false) := by
  cases tx <;> cases rx <;> exact ⟨rfl, rfl, rfl, rfl, trivial⟩

/-- A client with a target, and no activation in progress. -/
structure Dials (target : Sock) (d : Driven) : Prop where
  role : d.ep.role = .client
  sock : d.ep.sock = some target
  inactive : Inactive d.ep.isTxEnabled d.ep.isRxEnabled d.ops

/-- `check_state` of a client that is not active leaves the target as it is. -/
theorem checkState_inactive {ep : TcpEndPoint} (hrole : ep.role = .client)
    (h : (ep.isTxEnabled && ep.isRxEnabled) = false) (target : Option Nat) (ok : Bool) :
    ep.checkState target ok = ep := by
  obtain ⟨role, tx, rx, sock, events, count, running, errno, set, phase, asked, received, taken⟩ := ep
  obtain rfl : role = .client := hrole
  cases tx <;> cases rx <;> first | rfl | cases h

theorem Dials.step {target : Sock} {d : Driven} (h : Dials target d) {s : DrivenStep}
    (hs : s ≠ .enable true) : Dials target (d.step s) := by
  obtain ⟨ep, ops⟩ := d
  obtain ⟨hrole, hsock, hinactive⟩ := h
  cases s with
  | enable value =>
      cases value with
      | true => exact absurd rfl hs
      | false => exact ⟨hrole, hsock, hinactive.append inactive_disable⟩
  | destroy => exact ⟨hrole, hsock, hinactive.append fun _ _ => trivial⟩
  | op fd ok =>
      cases ops with
      | nil => exact ⟨hrole, hsock, hinactive⟩
      | cons o ops =>
          cases o with
          | setTx value =>
              obtain ⟨rfl, hrest⟩ := hinactive
              exact ⟨hrole, hsock, hrest⟩
          | setRx value =>
              obtain ⟨rfl, hrest⟩ := hinactive
              exact ⟨hrole, hsock, hrest⟩
          | checkState =>
              have heq := checkState_inactive hrole hinactive.1 fd ok
              show Dials target ⟨ep.checkState fd ok, ops⟩
              rw [heq]
              exact ⟨hrole, hsock, hinactive.2⟩
          | push event => exact ⟨hrole, hsock, hinactive⟩
          | announce => exact ⟨hrole, hsock, hinactive⟩
          | halt => exact ⟨hrole, hsock, hinactive⟩
  | thread input =>
      have hsame := ep.thread_same input
      refine ⟨hsame.role.trans hrole, ?_, ?_⟩
      · show (ep.thread input).sock = some target
        cases ep.thread_does input with
        | nothing heq _ => exact heq.trans hsock
        | hangUp _ heq _ => exact heq.trans hsock
        | accept fd _ hfree _ _ =>
            rw [show ep.sock = some target from hsock] at hfree
            cases hfree
      · show Inactive (ep.thread input).isTxEnabled (ep.thread input).isRxEnabled ops
        rw [hsame.tx, hsame.rx]
        exact hinactive

/-- **Only an activation replaces the target of a client.**  A client whose calls have come
to an end keeps its target through link failures, the end of the stream and all errors,
until the channel is activated again. -/
theorem target_kept (ss ss' : List DrivenStep) {target : Sock}
    (hops : ((start .client).run ss).ops = [])
    (hsock : ((start .client).run ss).ep.sock = some target) (hss' : .enable true ∉ ss') :
    ((start .client).run (ss ++ ss')).ep.sock = some target := by
  have hrun : ∀ d, Dials target d → Dials target (d.run ss') := by
    induction ss' with
    | nil => exact fun _ h => h
    | cons s ss' ih =>
        rw [List.mem_cons, not_or] at hss'
        exact fun d h => ih hss'.2 _ (h.step (Ne.symm hss'.1))
  rw [run, List.foldl_append]
  exact (hrun _ ⟨role_run rfl ss, hsock, by rw [hops]; trivial⟩).sock

/-- A link failure is reported behind an activation. -/
theorem target_kept_failure :
    ((start .client).run ((.enable true :: List.replicate 8 (.op (some 5) true)) ++
      (.enable false :: List.replicate 8 (.op none false)))).ep.sock = some ⟨5, true⟩ :=
  target_kept (.enable true :: List.replicate 8 (.op (some 5) true))
    (.enable false :: List.replicate 8 (.op none false)) (by decide) (by decide) (by decide)

end Driven

end Winject.EndPoint
