/-
The steps of a gateway (`nebula-gateway/src/lib.rs`).

`ClientTurn`, `AgentTurn` and `ManagerTurn` say once what a step can do, guards
included.  Most steps of a client's task change nothing but the task
(`ClientMove`).
-/
import NebulaDesk.Gateway.Gateway

namespace NebulaDesk

namespace Gateway

variable {codec : LaunchCodec} {decode : String → Option TicketClaims} {g g' : Gateway} {c : ℕ}

@[simp] theorem setClient_self (task : ClientTask) : (g.setClient c task).clients c = task :=
  Function.update_self ..

theorem setClient_of_ne (task : ClientTask) {d : ℕ} (h : d ≠ c) :
    (g.setClient c task).clients d = g.clients d :=
  Function.update_of_ne h ..

@[simp] theorem setAgent_self (task : AgentTask) : (g.setAgent c task).agents c = task :=
  Function.update_self ..

theorem setAgent_of_ne (task : AgentTask) {d : ℕ} (h : d ≠ c) :
    (g.setAgent c task).agents d = g.agents d :=
  Function.update_of_ne h ..

inductive LooksUp (h : ClientHello) (claims : TicketClaims) : ClientTask → Prop
  | application (happ : claims.launchTarget.isApplication = true) :
      LooksUp h claims (.verified h claims)
  | desktop : LooksUp h claims (.spent h claims)

/-- The steps that change only a client's task. -/
inductive ClientMove (codec : LaunchCodec) (decode : String → Option TicketClaims) (g : Gateway) :
    ClientEvent → ClientTask → ClientTask → Prop
  | hello (h : ClientHello) : ClientMove codec decode g (.hello h) .hello (.verifying h)
  | abandon : ClientMove codec decode g .abandon .hello (.rejected "no hello")
  | accept {h : ClientHello} {claims : TicketClaims} (hdecode : decode h.ticket = some claims)
      (hissued : claims ∈ g.issued) :
      ClientMove codec decode g .accept (.verifying h) (.verified h claims)
  | refuse (h : ClientHello) :
      ClientMove codec decode g .refuse (.verifying h) (.rejected "the ticket was not accepted")
  | clockDesktop {h : ClientHello} {claims : TicketClaims}
      (happ : claims.launchTarget.isApplication = false) (hvalid : claims.isValidAt g.clock = true) :
      ClientMove codec decode g .readClock (.verified h claims)
        (.consuming claims g.clock (.lookup h))
  | clockApplication {claims : TicketClaims} {request : SessionRequest} {tunnel : Tunnel}
      (hvalid : claims.isValidAt g.clock = true) :
      ClientMove codec decode g .readClock (.matched claims request tunnel)
        (.consuming claims g.clock (.send request tunnel))
  | expiredDesktop (h : ClientHello) (claims : TicketClaims) :
      ClientMove codec decode g .readClock (.verified h claims)
        (.rejected "the ticket was not accepted")
  | expiredApplication (claims : TicketClaims) (request : SessionRequest) (tunnel : Tunnel) :
      ClientMove codec decode g .readClock (.matched claims request tunnel)
        (.rejected "the ticket was not accepted")
  | unreachable {h : ClientHello} {claims : TicketClaims} {task : ClientTask}
      (hlooks : LooksUp h claims task) :
      ClientMove codec decode g .lookup task (.rejected "the machine is not reachable")
  | unsupported {h : ClientHello} {claims : TicketClaims} {task : ClientTask} {windows : Bool}
      {reason : String} (hlooks : LooksUp h claims task)
      (hrequest : sessionRequest codec claims h windows = .error reason) :
      ClientMove codec decode g .lookup task (.rejected reason)
  | matched {h : ClientHello} {claims : TicketClaims} {task : ClientTask} {request : SessionRequest}
      {tunnel : Tunnel} (hlooks : LooksUp h claims task)
      (happ : claims.launchTarget.isApplication = true)
      (hrequest : sessionRequest codec claims h tunnel.applicationWindows = .ok request)
      (htunnel : g.tunnels claims.mid = some tunnel) :
      ClientMove codec decode g .lookup task (.matched claims request tunnel)
  | found {h : ClientHello} {claims : TicketClaims} {request : SessionRequest} {tunnel : Tunnel}
      (hrequest : sessionRequest codec claims h tunnel.applicationWindows = .ok request)
      (htunnel : g.tunnels claims.mid = some tunnel) :
      ClientMove codec decode g .lookup (.spent h claims) (.sending claims request tunnel)
  | unsent (claims : TicketClaims) (request : SessionRequest) (tunnel : Tunnel) :
      ClientMove codec decode g .send (.sending claims request tunnel)
        (.rejected "the machine is not reachable")
  | ack (claims : TicketClaims) (tunnel : Tunnel) :
      ClientMove codec decode g .ack (.accepting claims tunnel) (.brokered claims tunnel)
  | ackFails (claims : TicketClaims) (tunnel : Tunnel) :
      ClientMove codec decode g .ackFails (.accepting claims tunnel) (.departed claims)
  | closed (claims : TicketClaims) (tunnel : Tunnel) :
      ClientMove codec decode g .closed (.brokered claims tunnel) (.stopping claims tunnel)
  | unstopped {claims : TicketClaims} {tunnel : Tunnel}
      (hwriter : g.writers tunnel.connection = false) :
      ClientMove codec decode g .stop (.stopping claims tunnel) (.reporting claims)
  | report (claims : TicketClaims) :
      ClientMove codec decode g .report (.reporting claims) (.departed claims)

/-- The steps of a client's task. -/
inductive ClientTurn (codec : LaunchCodec) (decode : String → Option TicketClaims) (g : Gateway)
    (c : ℕ) : ClientEvent → Gateway → Prop
  | move {e : ClientEvent} {task : ClientTask} (hmove : ClientMove codec decode g e (g.clients c) task) :
      ClientTurn codec decode g c e (g.setClient c task)
  | consume {claims : TicketClaims} {now : ℤ} {next : Admission}
      (htask : g.clients c = .consuming claims now next) :
      ClientTurn codec decode g c .consume (g.consume c claims now next)
  | send {claims : TicketClaims} {request : SessionRequest} {tunnel : Tunnel}
      (htask : g.clients c = .sending claims request tunnel) :
      ClientTurn codec decode g c .send
        ((g.enqueue tunnel c (.startSession request)).setClient c (.accepting claims tunnel))
  | stop {claims : TicketClaims} {tunnel : Tunnel} (htask : g.clients c = .stopping claims tunnel)
      (hwriter : g.writers tunnel.connection = true) :
      ClientTurn codec decode g c .stop
        ((g.enqueue tunnel c (.stopSession claims.sid)).setClient c (.reporting claims))

variable {e : ClientEvent}

theorem ClientTurn.of_move {p task : ClientTask} (htask : g.clients c = p)
    (hmove : ClientMove codec decode g e p task) :
    ClientTurn codec decode g c e (g.setClient c task) :=
  .move (htask ▸ hmove)

theorem lookup_turn {h : ClientHello} {claims : TicketClaims} {task : ClientTask}
    (htask : g.clients c = task) (hlooks : LooksUp h claims task) :
    ClientTurn codec decode g c .lookup (g.lookup codec c h claims) := by
  unfold lookup
  split
  · exact .of_move htask (.unreachable hlooks)
  · next tunnel htunnel =>
    split
    · next reason hrequest => exact .of_move htask (.unsupported hlooks hrequest)
    · next request hrequest =>
      split
      · next happ => exact .of_move htask (.matched hlooks happ hrequest htunnel)
      · next happ =>
        cases hlooks with
        | application happ' => exact absurd happ' happ
        | desktop => exact .of_move htask (.found hrequest htunnel)

theorem client_cases (hs : g.clientStep codec decode c e = some g') :
    ClientTurn codec decode g c e g' := by
  unfold clientStep at hs
  split at hs
  · next h htask =>
    cases hs
    exact .of_move htask (.hello h)
  · next htask =>
    cases hs
    exact .of_move htask .abandon
  · next h htask =>
    split at hs
    · next claims hdecode =>
      obtain ⟨hguard, rfl⟩ := Runs.some_of_guard hs
      exact .of_move htask (.accept hdecode hguard.1)
    · cases hs
  · next h htask =>
    cases hs
    exact .of_move htask (.refuse h)
  · next h claims htask =>
    split at hs
    · cases hs
    · next happ =>
      split at hs
      · next hvalid =>
        cases hs
        exact .of_move htask (.clockDesktop (Bool.not_eq_true _ ▸ happ) hvalid)
      · cases hs
        exact .of_move htask (.expiredDesktop h claims)
  · next claims request tunnel htask =>
    split at hs
    · next hvalid =>
      cases hs
      exact .of_move htask (.clockApplication hvalid)
    · cases hs
      exact .of_move htask (.expiredApplication claims request tunnel)
  · next claims now next' htask =>
    cases hs
    exact .consume htask
  · next h claims htask =>
    obtain ⟨happ, rfl⟩ := Runs.some_of_guard hs
    exact lookup_turn htask (.application happ)
  · next h claims htask =>
    cases hs
    exact lookup_turn htask .desktop
  · next claims request tunnel htask =>
    split at hs
    · cases hs
      exact .send htask
    · cases hs
      exact .of_move htask (.unsent claims request tunnel)
  · next claims tunnel htask =>
    cases hs
    exact .of_move htask (.ack claims tunnel)
  · next claims tunnel htask =>
    cases hs
    exact .of_move htask (.ackFails claims tunnel)
  · next claims tunnel htask =>
    cases hs
    exact .of_move htask (.closed claims tunnel)
  · next claims tunnel htask =>
    split at hs
    · next hwriter =>
      cases hs
      exact .stop htask hwriter
    · next hwriter =>
      cases hs
      exact .of_move htask (.unstopped (Bool.not_eq_true _ ▸ hwriter))
  · next claims htask =>
    cases hs
    exact .of_move htask (.report claims)
  · cases hs

/-- The steps of an agent's task. -/
inductive AgentTurn (g : Gateway) (c : ℕ) : AgentEvent → Gateway → Prop
  | hello {h : AgentHello} (htask : g.agents c = .hello) :
      AgentTurn g c (.hello h)
        { (g.setAgent c (.verifying h)) with
          calls := g.calls ++ [.verify c h]
          introduced := g.introduced ++ [c] }
  | leave {e : AgentEvent} (htask : g.agents c = .hello ∨ ∃ h, g.agents c = .verified h)
      (hleaves : e = .abandon ∨ e = .ackFails) :
      AgentTurn g c e (g.setAgent c .finished)
  | insert {h : AgentHello} (htask : g.agents c = .verified h) :
      AgentTurn g c .insert
        (((g.setTunnel h.machine (some ⟨c, h.credential, h.applicationWindows⟩)).setWriter c
          true).setAgent c (.attached h))
  | pumpEnds {h : AgentHello} (htask : g.agents c = .attached h) :
      AgentTurn g c .pumpEnds (g.setAgent c (.ending h))
  | writerEnds : AgentTurn g c .writerEnds (g.setWriter c false)
  | remove {h : AgentHello} (htask : g.agents c = .ending h)
      (hown : (g.tunnels h.machine).any (·.connection = c) = true) :
      AgentTurn g c .remove ((g.setTunnel h.machine none).setAgent c (.removed h))
  | displaced {h : AgentHello} (htask : g.agents c = .ending h)
      (hother : (g.tunnels h.machine).any (·.connection = c) = false) :
      AgentTurn g c .remove (g.setAgent c .finished)
  | drain {h : AgentHello} (htask : g.agents c = .removed h) :
      AgentTurn g c .drain
        { (g.setAgent c (.draining h)) with calls := g.calls ++ [.drain c h] }

theorem agent_cases {e : AgentEvent} (hs : g.agentStep c e = some g') : AgentTurn g c e g' := by
  unfold agentStep at hs
  split at hs
  · next htask =>
    cases hs
    exact .hello htask
  · next htask =>
    cases hs
    exact .leave (.inl htask) (.inl rfl)
  · next htask =>
    cases hs
    exact .insert htask
  · next h htask =>
    cases hs
    exact .leave (.inr ⟨h, htask⟩) (.inr rfl)
  · next htask =>
    cases hs
    exact .pumpEnds htask
  · cases hs
    exact .writerEnds
  · next htask =>
    split at hs
    · next hown =>
      cases hs
      exact .remove htask hown
    · next hother =>
      cases hs
      exact .displaced htask (Bool.not_eq_true _ ▸ hother)
  · next htask =>
    cases hs
    exact .drain htask
  · cases hs

/-- What the manager does with the oldest call. -/
inductive ManagerTurn (g : Gateway) : Gateway → Prop
  | verify {c : ℕ} {h : AgentHello} {rest : List ManagerCall} {task : AgentTask}
      (hcalls : g.calls = .verify c h :: rest) (htask : task = .verified h ∨ task = .finished) :
      ManagerTurn g ((({ g with calls := rest } : Gateway).beatRow h.credential .online
        (some true)).setAgent c task)
  | drain {c : ℕ} {h : AgentHello} {rest : List ManagerCall}
      (hcalls : g.calls = .drain c h :: rest) :
      ManagerTurn g ((({ g with calls := rest } : Gateway).beatRow h.credential .draining
        none).setAgent c .finished)
  | beat {machine : ℕ} {rest : List ManagerCall} (hcalls : g.calls = .beat machine :: rest) :
      ManagerTurn g (({ g with calls := rest } : Gateway).beatRow machine .online (some true))
  | refuse {c : ℕ} {call : ManagerCall} {rest : List ManagerCall} (hcalls : g.calls = call :: rest)
      (hcaller : ∃ h, call = .verify c h ∨ call = .drain c h) :
      ManagerTurn g (({ g with calls := rest } : Gateway).setAgent c .finished)
  | refuseBeat {machine : ℕ} {rest : List ManagerCall} (hcalls : g.calls = .beat machine :: rest) :
      ManagerTurn g { g with calls := rest }

theorem manager_cases {reply : Reply} (hs : g.managerStep reply = some g') : ManagerTurn g g' := by
  unfold managerStep at hs
  split at hs
  · cases hs
  · next c h rest hcalls =>
    cases reply with
    | success =>
      cases hs
      exact .verify hcalls (.inl rfl)
    | lost =>
      cases hs
      exact .verify hcalls (.inr rfl)
    | refused =>
      cases hs
      exact .refuse hcalls ⟨h, .inl rfl⟩
  · next c h rest hcalls =>
    cases reply with
    | refused =>
      cases hs
      exact .refuse hcalls ⟨h, .inr rfl⟩
    | _ =>
      cases hs
      exact .drain hcalls
  · next machine rest hcalls =>
    cases reply with
    | refused =>
      cases hs
      exact .refuseBeat hcalls
    | _ =>
      cases hs
      exact .beat hcalls

/-- Nothing a client's task reads or writes has changed, save the tunnels. -/
structure SameClients (g g' : Gateway) : Prop where
  clients : g'.clients = g.clients
  issued : g'.issued = g.issued
  seen : g'.seen = g.seen
  enqueued : g'.enqueued = g.enqueued
  spentBy : g'.spentBy = g.spentBy
  swept : g'.swept = g.swept

theorem AgentTurn.sameClients {e : AgentEvent} (hs : AgentTurn g c e g') : SameClients g g' := by
  cases hs <;> exact ⟨rfl, rfl, rfl, rfl, rfl, rfl⟩

theorem ManagerTurn.sameClients (hs : ManagerTurn g g') : SameClients g g' := by
  cases hs <;> exact ⟨rfl, rfl, rfl, rfl, rfl, rfl⟩

/-- Nothing an agent's task reads or writes has changed. -/
structure SameAgents (g g' : Gateway) : Prop where
  rows : g'.rows = g.rows
  calls : g'.calls = g.calls
  tunnels : g'.tunnels = g.tunnels
  writers : g'.writers = g.writers
  agents : g'.agents = g.agents
  introduced : g'.introduced = g.introduced

theorem ClientTurn.sameAgents (hs : ClientTurn codec decode g c e g') : SameAgents g g' := by
  cases hs with
  | move hmove => exact ⟨rfl, rfl, rfl, rfl, rfl, rfl⟩
  | consume htask =>
    unfold Gateway.consume
    split <;> exact ⟨rfl, rfl, rfl, rfl, rfl, rfl⟩
  | send htask => exact ⟨rfl, rfl, rfl, rfl, rfl, rfl⟩
  | stop htask hwriter => exact ⟨rfl, rfl, rfl, rfl, rfl, rfl⟩

inductive Steps (codec : LaunchCodec) (decode : String → Option TicketClaims) (g : Gateway) :
    GatewayEvent → Gateway → Prop
  | tick (seconds : ℕ) : Steps codec decode g (.tick seconds) { g with clock := g.clock + seconds }
  | issue {claims : TicketClaims} (hjti : claims.jti = claims.sid)
      (hfresh : ∀ other ∈ g.issued, other.jti ≠ claims.jti) :
      Steps codec decode g (.issue claims) { g with issued := g.issued ++ [claims] }
  | beat (machine : ℕ) :
      Steps codec decode g (.beat machine) { g with calls := g.calls ++ [.beat machine] }
  | manager {reply : Reply} {g' : Gateway} (hturn : ManagerTurn g g') :
      Steps codec decode g (.manager reply) g'
  | agent {c : ℕ} {e : AgentEvent} {g' : Gateway} (hturn : AgentTurn g c e g') :
      Steps codec decode g (.agent c e) g'
  | client {c : ℕ} {e : ClientEvent} {g' : Gateway} (hturn : ClientTurn codec decode g c e g') :
      Steps codec decode g (.client c e) g'

theorem step_cases {a : GatewayEvent} (hs : g.step codec decode a = some g') :
    Steps codec decode g a g' := by
  cases a with
  | tick seconds =>
    cases hs
    exact .tick seconds
  | issue claims =>
    obtain ⟨hguard, rfl⟩ := Runs.some_of_guard hs
    exact .issue hguard.1 hguard.2
  | beat machine =>
    cases hs
    exact .beat machine
  | manager reply => exact .manager (manager_cases hs)
  | agent c e => exact .agent (agent_cases hs)
  | client c e => exact .client (client_cases hs)

end Gateway

end NebulaDesk
