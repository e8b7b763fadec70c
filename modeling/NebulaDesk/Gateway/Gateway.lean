/-
A gateway between agents and clients (`nebula-gateway/src/lib.rs`, `tunnels.rs`,
`tickets.rs`, `manager.rs`).

One task serves each agent's control tunnel (`serve_agent`) and one each client
(`serve_client`).  A step is what one task does between two awaits: one turn
under a lock, one call to the manager, one read of the clock.  The manager
processes the calls about machines in the order they were sent.  Tickets are
arbitrary strings; the one assumption is that only the manager signs them
(`ClientEvent.accept`).
-/
import NebulaDesk.Common.Ticket
import NebulaDesk.Lib.Runs

namespace NebulaDesk

/-- How a machine introduces itself.  The manager knows it by its credential. -/
structure AgentHello where
  machine : ℕ
  /-- The machine the credential was issued to. -/
  credential : ℕ
  applicationWindows : Bool
deriving DecidableEq, Repr

/-- One agent's attachment to this gateway.  Its connection names its queue. -/
structure Tunnel where
  connection : ℕ
  credential : ℕ
  applicationWindows : Bool
deriving DecidableEq, Repr

inductive MachineStatus
  | online
  | draining
  | offline
deriving DecidableEq, Repr

structure MachineRow where
  status : MachineStatus
  /-- `gateway_id` is this gateway's. -/
  here : Bool
deriving DecidableEq, Repr

/-- A call to the manager's `heartbeat`. -/
inductive ManagerCall
  /-- `verify_machine`. -/
  | verify (connection : ℕ) (hello : AgentHello)
  /-- `mark_machine_draining`. -/
  | drain (connection : ℕ) (hello : AgentHello)
  /-- An attached agent reports itself. -/
  | beat (machine : ℕ)
deriving DecidableEq, Repr

/-- How a call ends for its caller: it succeeds, its answer is lost, or the
manager does not take it. -/
inductive Reply
  | success
  | lost
  | refused
deriving DecidableEq, Repr

inductive AgentTask
  | hello
  | verifying (hello : AgentHello)
  /-- The manager knows the machine; the tunnel is not registered yet. -/
  | verified (hello : AgentHello)
  | attached (hello : AgentHello)
  /-- The tunnel has ended; its entry is not removed yet. -/
  | ending (hello : AgentHello)
  /-- It removed its own entry and is about to say so. -/
  | removed (hello : AgentHello)
  | draining (hello : AgentHello)
  | finished
deriving DecidableEq, Repr

inductive AgentEvent
  | hello (hello : AgentHello)
  /-- No hello arrives. -/
  | abandon
  | insert
  /-- The acceptance cannot be written. -/
  | ackFails
  | pumpEnds
  /-- The writer of the tunnel's queue stops. -/
  | writerEnds
  | remove
  | drain
deriving DecidableEq, Repr

structure ClientHello where
  ticket : String
  applicationWindows : Bool
deriving DecidableEq

/-- What an agent is asked to serve. -/
structure SessionRequest where
  session : ℕ
  resourceId : ℕ
  policy : SessionPolicy
  role : SessionRole
  launchTarget : LaunchTarget
  signedTicket : String
deriving DecidableEq

inductive GatewayMessage
  | startSession (request : SessionRequest)
  | stopSession (session : ℕ)
deriving DecidableEq

/-- A message put into the queue of a tunnel, by the task of this client. -/
structure Enqueued where
  tunnel : ℕ
  client : ℕ
  message : GatewayMessage
deriving DecidableEq

/-- What a client's task does once its ticket is spent. -/
inductive Admission
  | lookup (hello : ClientHello)
  | send (request : SessionRequest) (tunnel : Tunnel)
deriving DecidableEq

inductive ClientTask
  | hello
  | verifying (hello : ClientHello)
  /-- A desktop ticket is consumed next, an application's after the lookup. -/
  | verified (hello : ClientHello) (claims : TicketClaims)
  /-- An application request that both peers can receive. -/
  | matched (claims : TicketClaims) (request : SessionRequest) (tunnel : Tunnel)
  /-- In `consume`, with its reading of the clock, before the lock. -/
  | consuming (claims : TicketClaims) (now : ℤ) (next : Admission)
  /-- A desktop ticket that was spent. -/
  | spent (hello : ClientHello) (claims : TicketClaims)
  | sending (claims : TicketClaims) (request : SessionRequest) (tunnel : Tunnel)
  /-- The request is queued; the client is not told yet. -/
  | accepting (claims : TicketClaims) (tunnel : Tunnel)
  | brokered (claims : TicketClaims) (tunnel : Tunnel)
  /-- The client's connection closed. -/
  | stopping (claims : TicketClaims) (tunnel : Tunnel)
  | reporting (claims : TicketClaims)
  /-- It finished because the client's connection closed. -/
  | departed (claims : TicketClaims)
  | rejected (reason : String)
deriving DecidableEq

/-- The task after `consume`. -/
def Admission.task (claims : TicketClaims) : Admission → ClientTask
  | .lookup hello => .spent hello claims
  | .send request tunnel => .sending claims request tunnel

inductive ClientEvent
  | hello (hello : ClientHello)
  | abandon
  | accept
  | refuse
  /-- `consume` reads the clock. -/
  | readClock
  /-- `consume` under the lock. -/
  | consume
  | lookup
  | send
  | ack
  /-- The acceptance cannot be written. -/
  | ackFails
  | closed
  | stop
  | report
deriving DecidableEq

/-- The gateway and the manager's rows of its machines. -/
structure Gateway where
  rows : ℕ → MachineRow
  /-- The calls the manager has not processed, in the order they were sent. -/
  calls : List ManagerCall
  tunnels : ℕ → Option Tunnel
  /-- Whether a connection's queue still has its receiver. -/
  writers : ℕ → Bool
  agents : ℕ → AgentTask
  clients : ℕ → ClientTask
  /-- The tickets the manager signed. -/
  issued : List TicketClaims
  clock : ℤ
  seen : ℕ → Option ℤ
  /-- Everything that was ever queued, with where and by whom. -/
  enqueued : List Enqueued
  /-- Which client's task spent which ticket id. -/
  spentBy : List (ℕ × ℕ)
  /-- The latest reading of the clock the replay table was pruned with. -/
  swept : Option ℤ
  /-- The connections that have introduced themselves. -/
  introduced : List ℕ

inductive GatewayEvent
  | tick (seconds : ℕ)
  | issue (claims : TicketClaims)
  | beat (machine : ℕ)
  | manager (reply : Reply)
  | agent (connection : ℕ) (e : AgentEvent)
  | client (connection : ℕ) (e : ClientEvent)

/-- Forward verified authority verbatim. -/
def sessionRequest (codec : LaunchCodec) (claims : TicketClaims) (hello : ClientHello)
    (agentApplicationWindows : Bool) : Except String SessionRequest :=
  if !claims.launchTarget.validate codec claims.rid claims.policy then
    .error "the ticket was not accepted"
  else if claims.launchTarget.isApplication &&
      (!hello.applicationWindows || !agentApplicationWindows) then
    .error "application windows are not supported"
  else .ok
    { session := claims.sid
      resourceId := claims.rid
      policy := claims.policy
      role := claims.role
      launchTarget := claims.launchTarget
      signedTicket := hello.ticket }

namespace Gateway

/-- A gateway that has just registered, with no machine attached. -/
def start (clock : ℤ) : Gateway where
  rows := fun _ => ⟨.offline, false⟩
  calls := []
  tunnels := fun _ => none
  writers := fun _ => false
  agents := fun _ => .hello
  clients := fun _ => .hello
  issued := []
  clock := clock
  seen := fun _ => none
  enqueued := []
  spentBy := []
  swept := none
  introduced := []

def setAgent (g : Gateway) (c : ℕ) (task : AgentTask) : Gateway :=
  { g with agents := Function.update g.agents c task }

def setClient (g : Gateway) (c : ℕ) (task : ClientTask) : Gateway :=
  { g with clients := Function.update g.clients c task }

def setTunnel (g : Gateway) (machine : ℕ) (tunnel : Option Tunnel) : Gateway :=
  { g with tunnels := Function.update g.tunnels machine tunnel }

def setWriter (g : Gateway) (c : ℕ) (live : Bool) : Gateway :=
  { g with writers := Function.update g.writers c live }

/-- A task of `serve_agent` goes on. -/
def agentStep (g : Gateway) (c : ℕ) (e : AgentEvent) : Option Gateway :=
  match e, g.agents c with
  | .hello h, .hello =>
    some { (g.setAgent c (.verifying h)) with
      calls := g.calls ++ [.verify c h]
      introduced := g.introduced ++ [c] }
  | .abandon, .hello => some (g.setAgent c .finished)
  | .insert, .verified h =>
    some (((g.setTunnel h.machine (some ⟨c, h.credential, h.applicationWindows⟩)).setWriter c
      true).setAgent c (.attached h))
  | .ackFails, .verified _ => some (g.setAgent c .finished)
  | .pumpEnds, .attached h => some (g.setAgent c (.ending h))
  | .writerEnds, _ => some (g.setWriter c false)
  | .remove, .ending h =>
    -- Only if it is still the one registered.
    if (g.tunnels h.machine).any (·.connection = c) then
      some ((g.setTunnel h.machine none).setAgent c (.removed h))
    else some (g.setAgent c .finished)
  | .drain, .removed h =>
    some { (g.setAgent c (.draining h)) with calls := g.calls ++ [.drain c h] }
  | _, _ => none

/-- `heartbeat` in the manager, for the machine the credential names. -/
def beatRow (g : Gateway) (machine : ℕ) (status : MachineStatus) (here : Option Bool) : Gateway :=
  { g with
    rows := Function.update g.rows machine ⟨status, here.getD (g.rows machine).here⟩ }

/-- The manager processes the oldest call, and its caller goes on. -/
def managerStep (g : Gateway) (reply : Reply) : Option Gateway :=
  match g.calls with
  | [] => none
  | .verify c h :: rest =>
    let g := { g with calls := rest }
    match reply with
    | .success => some ((g.beatRow h.credential .online (some true)).setAgent c (.verified h))
    | .lost => some ((g.beatRow h.credential .online (some true)).setAgent c .finished)
    | .refused => some (g.setAgent c .finished)
  | .drain c h :: rest =>
    let g := { g with calls := rest }
    match reply with
    | .refused => some (g.setAgent c .finished)
    | _ => some ((g.beatRow h.credential .draining none).setAgent c .finished)
  | .beat machine :: rest =>
    let g := { g with calls := rest }
    match reply with
    | .refused => some g
    | _ => some (g.beatRow machine .online (some true))

/-- The replay table without the entries that expired by `now`. -/
def pruned (g : Gateway) (now : ℤ) (jti : ℕ) : Option ℤ :=
  (g.seen jti).filter (now < ·)

/-- Drop what has expired and insert this ticket. -/
def sweep (g : Gateway) (claims : TicketClaims) (now : ℤ) : Gateway :=
  { g with
    seen := Function.update (g.pruned now) claims.jti (some (claims.exp + clockSkew))
    swept := some (g.swept.elim now (max now)) }

/-- `consume` under the lock. -/
def consume (g : Gateway) (c : ℕ) (claims : TicketClaims) (now : ℤ) (next : Admission) : Gateway :=
  if (g.pruned now claims.jti).isSome then
    (g.sweep claims now).setClient c (.rejected "the ticket was not accepted")
  else
    { ((g.sweep claims now).setClient c (next.task claims)) with
      spentBy := g.spentBy ++ [(claims.jti, c)] }

/-- `tunnels.get` and the request that follows. -/
def lookup (codec : LaunchCodec) (g : Gateway) (c : ℕ) (hello : ClientHello)
    (claims : TicketClaims) : Gateway :=
  match g.tunnels claims.mid with
  | none => g.setClient c (.rejected "the machine is not reachable")
  | some tunnel =>
    match sessionRequest codec claims hello tunnel.applicationWindows with
    | .error reason => g.setClient c (.rejected reason)
    | .ok request =>
      if claims.launchTarget.isApplication then g.setClient c (.matched claims request tunnel)
      else g.setClient c (.sending claims request tunnel)

/-- A message is put into the queue of a tunnel. -/
def enqueue (g : Gateway) (tunnel : Tunnel) (c : ℕ) (message : GatewayMessage) : Gateway :=
  { g with enqueued := g.enqueued ++ [⟨tunnel.connection, c, message⟩] }

/-- A task of `serve_client` goes on. -/
def clientStep (codec : LaunchCodec) (decode : String → Option TicketClaims) (g : Gateway) (c : ℕ)
    (e : ClientEvent) : Option Gateway :=
  match e, g.clients c with
  | .hello h, .hello => some (g.setClient c (.verifying h))
  | .abandon, .hello => some (g.setClient c (.rejected "no hello"))
  | .accept, .verifying h =>
    match decode h.ticket with
    | some claims =>
      -- A signature that verifies is the manager's.
      if claims ∈ g.issued ∧ g.clock ≤ claims.exp + clockSkew ∧
          claims.launchTarget.validate codec claims.rid claims.policy then
        some (g.setClient c (.verified h claims))
      else none
    | none => none
  | .refuse, .verifying _ => some (g.setClient c (.rejected "the ticket was not accepted"))
  | .readClock, .verified h claims =>
    if claims.launchTarget.isApplication then none
    else if claims.isValidAt g.clock then some (g.setClient c (.consuming claims g.clock (.lookup h)))
    else some (g.setClient c (.rejected "the ticket was not accepted"))
  | .readClock, .matched claims request tunnel =>
    if claims.isValidAt g.clock then
      some (g.setClient c (.consuming claims g.clock (.send request tunnel)))
    else some (g.setClient c (.rejected "the ticket was not accepted"))
  | .consume, .consuming claims now next => some (g.consume c claims now next)
  | .lookup, .verified h claims =>
    if claims.launchTarget.isApplication then some (g.lookup codec c h claims) else none
  | .lookup, .spent h claims => some (g.lookup codec c h claims)
  | .send, .sending claims request tunnel =>
    if g.writers tunnel.connection then
      some ((g.enqueue tunnel c (.startSession request)).setClient c (.accepting claims tunnel))
    else some (g.setClient c (.rejected "the machine is not reachable"))
  | .ack, .accepting claims tunnel => some (g.setClient c (.brokered claims tunnel))
  | .ackFails, .accepting claims _ => some (g.setClient c (.departed claims))
  | .closed, .brokered claims tunnel => some (g.setClient c (.stopping claims tunnel))
  | .stop, .stopping claims tunnel =>
    -- A queue without a receiver is ignored.
    if g.writers tunnel.connection then
      some ((g.enqueue tunnel c (.stopSession claims.sid)).setClient c (.reporting claims))
    else some (g.setClient c (.reporting claims))
  | .report, .reporting claims => some (g.setClient c (.departed claims))
  | _, _ => none

def step (codec : LaunchCodec) (decode : String → Option TicketClaims) (g : Gateway) :
    GatewayEvent → Option Gateway
  | .tick seconds => some { g with clock := g.clock + seconds }
  -- A session has one ticket, named after it.
  | .issue claims =>
    if claims.jti = claims.sid ∧ ∀ other ∈ g.issued, other.jti ≠ claims.jti then
      some { g with issued := g.issued ++ [claims] }
    else none
  | .beat machine => some { g with calls := g.calls ++ [.beat machine] }
  | .manager reply => g.managerStep reply
  | .agent c e => g.agentStep c e
  | .client c e => g.clientStep codec decode c e

end Gateway

end NebulaDesk
