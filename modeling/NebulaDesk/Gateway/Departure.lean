/-
A client's departure stops its session (`nebula-gateway/src/lib.rs`,
`serve_client`).

The task keeps the tunnel it looked up when the session started, and sends
`StopSession` into that tunnel's queue.  A machine that reconnected in between is
attached by another tunnel and never hears of it (`stop_sent_to_displaced_tunnel`).
The task also returns early when the client leaves before it is acknowledged.
`departure_stops_session` says that the session is stopped in every run in which
no machine reconnects while it has a session, no client leaves while the tunnel
of its machine goes down, and none before it is acknowledged (`Steady`).
-/
import NebulaDesk.Gateway.Redemption

namespace NebulaDesk

/-- The tunnel that a client's task has looked up and goes on to use. -/
def ClientTask.holding : ClientTask → Option (TicketClaims × Tunnel)
  | matched claims _ tunnel | consuming claims _ (.send _ tunnel) | sending claims _ tunnel
  | accepting claims tunnel | brokered claims tunnel | stopping claims tunnel =>
    some (claims, tunnel)
  | _ => none

def ClientTask.inSession : ClientTask → Option TicketClaims
  | reporting claims => some claims
  | task => task.holding.map Prod.fst

/-- The task has sent `StopSession`, or returned without it. -/
def ClientTask.over : ClientTask → Bool
  | reporting _ | departed _ => true
  | _ => false

namespace Gateway

variable {codec : LaunchCodec} {decode : String → Option TicketClaims} {g g' : Gateway} {c : ℕ}

/-! ### What is to hold -/

/-- The steps of a run, with the states they were taken in. -/
def trace (g : Gateway) (a : GatewayEvent) (_ : Gateway) : Option (Gateway × GatewayEvent) :=
  some (g, a)

/-- The machine and the connection of a tunnel that is registered. -/
def registration : Gateway × GatewayEvent → Option (ℕ × ℕ)
  | (g, .agent c .insert) =>
    match g.agents c with
    | .verified h => some (h.machine, c)
    | _ => none
  | _ => none

/-- The connection of the last tunnel that was registered for a machine: all others are displaced. -/
def latest (history : List (Gateway × GatewayEvent)) (machine : ℕ) : Option ℕ :=
  ((history.filterMap registration).filter (·.1 = machine)).getLast?.map Prod.snd

/-- `StopSession` is in the queue of the machine's registered tunnel, if there is
one. -/
def stopped (g : Gateway) (claims : TicketClaims) : Bool :=
  (g.tunnels claims.mid).all fun tunnel =>
    g.enqueued.any fun e => e.tunnel = tunnel.connection && e.message = .stopSession claims.sid

/-- The session is stopped, and its task has told no displaced tunnel. -/
structure Told (g : Gateway) (history : List (Gateway × GatewayEvent)) (c : ℕ)
    (claims : TicketClaims) : Prop where
  stopped : g.stopped claims = true
  current : ∀ e ∈ g.enqueued, e.client = c → e.message = .stopSession claims.sid →
    latest history claims.mid = some e.tunnel

/-- Whenever a task finishes because its client's connection closed, the session is stopped;
`allowed` says which steps are looked at. -/
def DepartureStops (codec : LaunchCodec) (decode : String → Option TicketClaims)
    (allowed : Gateway → GatewayEvent → Prop) (g : Gateway)
    (history : List (Gateway × GatewayEvent)) : Prop :=
  ∀ a g' c claims, allowed g a → g.step codec decode a = some g' →
    g.clients c ≠ .departed claims → g'.clients c = .departed claims →
      Told g' (history ++ [(g, a)]) c claims

/-- No tunnel is registered for a machine with a session, no client leaves between the end of its
tunnel's writer and the removal of the tunnel, and none before it is acknowledged. -/
def Steady (g : Gateway) : GatewayEvent → Prop
  | .agent c .insert => ∀ h d claims, g.agents c = .verified h →
    (g.clients d).inSession = some claims → claims.mid ≠ h.machine
  | .client c .stop => ∀ claims tunnel, g.clients c = .stopping claims tunnel →
    (g.tunnels claims.mid).isSome = true → g.writers tunnel.connection = true
  | .client _ .ackFails => False
  | _ => True

/-! ### The invariant -/

structure Departs (g : Gateway) (history : List (Gateway × GatewayEvent)) : Prop where
  last : ∀ machine tunnel, g.tunnels machine = some tunnel →
    latest history machine = some tunnel.connection
  held : ∀ c claims tunnel, (g.clients c).holding = some (claims, tunnel) →
    latest history claims.mid = some tunnel.connection
  unsent : ∀ c, (g.clients c).over = false → ∀ e ∈ g.enqueued, e.client = c →
    ∀ session, e.message ≠ .stopSession session
  reporting : ∀ c claims, g.clients c = .reporting claims → Told g history c claims

theorem departs_start (clock : ℤ) : Departs (start clock) [] where
  last := by simp [start]
  held := by simp [start, ClientTask.holding]
  unsent := by simp [start]
  reporting := by simp [start]

variable {claims : TicketClaims} {history : List (Gateway × GatewayEvent)} {a : GatewayEvent}

theorem stopped_iff : g.stopped claims = true ↔
    ∀ tunnel, g.tunnels claims.mid = some tunnel → ∃ e ∈ g.enqueued,
      e.tunnel = tunnel.connection ∧ e.message = .stopSession claims.sid := by
  unfold stopped
  cases g.tunnels claims.mid with
  | none => simp
  | some tunnel => simp

theorem stopped_mono (h : g.stopped claims = true)
    (htunnels : ∀ tunnel, g'.tunnels claims.mid = some tunnel → g.tunnels claims.mid = some tunnel)
    (henqueued : g.enqueued ⊆ g'.enqueued) : g'.stopped claims = true := by
  rw [stopped_iff] at h ⊢
  intro tunnel ht
  obtain ⟨e, he, hrest⟩ := h tunnel (htunnels tunnel ht)
  exact ⟨e, henqueued he, hrest⟩

theorem latest_registered {machine : ℕ} (hr : registration (g, a) = some (machine, c)) (m : ℕ) :
    latest (history ++ [(g, a)]) m = if machine = m then some c else latest history m := by
  unfold latest
  rw [List.filterMap_append, List.filterMap_cons, hr]
  by_cases hm : machine = m <;> simp [hm]

theorem latest_same (hr : registration (g, a) = none) :
    latest (history ++ [(g, a)]) = latest history := by
  unfold latest
  rw [List.filterMap_append, List.filterMap_cons, hr, List.filterMap_nil, List.append_nil]

theorem Told.same (h : Told g history c claims) (hr : registration (g, a) = none) :
    Told g (history ++ [(g, a)]) c claims where
  stopped := h.stopped
  current := by
    rw [latest_same hr]
    exact h.current

theorem Departs.same (h : Departs g history) (hr : registration (g, a) = none) :
    Departs g (history ++ [(g, a)]) where
  last := by
    rw [latest_same hr]
    exact h.last
  held := by
    rw [latest_same hr]
    exact h.held
  unsent := h.unsent
  reporting d claims hd := (h.reporting d claims hd).same hr

theorem Departs.fewer (h : Departs g history) (hclients : g'.clients = g.clients)
    (henqueued : g'.enqueued = g.enqueued)
    (htunnels : ∀ machine tunnel, g'.tunnels machine = some tunnel →
      g.tunnels machine = some tunnel) : Departs g' history where
  last machine tunnel ht := h.last machine tunnel (htunnels machine tunnel ht)
  held := by
    rw [hclients]
    exact h.held
  unsent := by
    rw [hclients, henqueued]
    exact h.unsent
  reporting d claims hd := by
    rw [hclients] at hd
    obtain ⟨hstopped, hcurrent⟩ := h.reporting d claims hd
    refine ⟨stopped_mono hstopped (htunnels _) ?_, ?_⟩ <;> rw [henqueued]
    · exact List.Subset.refl _
    · exact hcurrent

/-- A client's task goes on to `task`, and queues some messages of its own. -/
theorem Departs.turn (h : Departs g history) (task : ClientTask) (more : List Enqueued)
    (htunnels : g'.tunnels = g.tunnels) (hclients : g'.clients = Function.update g.clients c task)
    (henqueued : g'.enqueued = g.enqueued ++ more) (hmine : ∀ e ∈ more, e.client = c)
    (hheld : ∀ claims tunnel, task.holding = some (claims, tunnel) →
      latest history claims.mid = some tunnel.connection)
    (hunsent : task.over = false → (g.clients c).over = false ∧
      ∀ e ∈ more, ∀ session, e.message ≠ .stopSession session)
    (hreporting : ∀ claims, task = .reporting claims → Told g' history c claims) :
    Departs g' history where
  last := by
    rw [htunnels]
    exact h.last
  held := by
    intro d claims tunnel hd
    rw [hclients] at hd
    rcases eq_or_ne d c with rfl | hne
    · rw [Function.update_self] at hd
      exact hheld claims tunnel hd
    · rw [Function.update_of_ne hne] at hd
      exact h.held d claims tunnel hd
  unsent := by
    intro d hd e he hclient
    rw [henqueued] at he
    rw [hclients] at hd
    rcases eq_or_ne d c with rfl | hne
    · rw [Function.update_self] at hd
      obtain ⟨hbefore, hmore⟩ := hunsent hd
      rcases List.mem_append.mp he with he | he
      · exact h.unsent d hbefore e he hclient
      · exact hmore e he
    · rw [Function.update_of_ne hne] at hd
      rcases List.mem_append.mp he with he | he
      · exact h.unsent d hd e he hclient
      · exact absurd (hclient.symm.trans (hmine e he)) hne
  reporting := by
    intro d claims hd
    rw [hclients] at hd
    rcases eq_or_ne d c with rfl | hne
    · rw [Function.update_self] at hd
      exact hreporting claims hd
    · rw [Function.update_of_ne hne] at hd
      obtain ⟨hstopped, hcurrent⟩ := h.reporting d claims hd
      refine ⟨stopped_mono hstopped (by simp [htunnels]) ?_, ?_⟩ <;> rw [henqueued]
      · exact List.subset_append_left _ _
      · intro e he hclient
        rcases List.mem_append.mp he with he | he
        · exact hcurrent e he hclient
        · exact absurd (hclient.symm.trans (hmine e he)) hne

theorem holding_of_move {e : ClientEvent} {p q : ClientTask} {tunnel : Tunnel}
    (hmove : ClientMove codec decode g e p q) (hq : q.holding = some (claims, tunnel)) :
    p.holding = some (claims, tunnel) ∨ g.tunnels claims.mid = some tunnel := by
  cases hmove <;> simp_all [ClientTask.holding]

theorem over_of_move {e : ClientEvent} {p q : ClientTask}
    (hmove : ClientMove codec decode g e p q) (hq : q.over = false) : p.over = false := by
  cases hmove with
  | unreachable hlooks | unsupported hlooks | matched hlooks => cases hlooks <;> rfl
  | _ => simp_all [ClientTask.over]

theorem departs_turn (h : Departs g history) {e : ClientEvent} (hsteady : Steady g (.client c e))
    (hs : ClientTurn codec decode g c e g') : Departs g' history := by
  cases hs with
  | @move e task hmove =>
    refine h.turn _ [] rfl rfl (List.append_nil _).symm (by simp) ?_ ?_ ?_
    · intro claims tunnel htask
      rcases holding_of_move hmove htask with hheld | htunnel
      · exact h.held c claims tunnel hheld
      · exact h.last _ _ htunnel
    · intro hover
      exact ⟨over_of_move hmove hover, by simp⟩
    · rintro claims rfl
      generalize hp : g.clients c = p at hmove
      cases hmove with
      | @unstopped claims tunnel hwriter =>
        -- the writer has ended, so by `Steady` no tunnel is registered, and nothing was sent
        refine ⟨?_, fun e he hclient hstop => ?_⟩
        · rw [stopped_iff]
          intro t ht
          rw [hsteady claims tunnel hp (ht ▸ rfl)] at hwriter
          cases hwriter
        · exact absurd hstop (h.unsent c (by rw [hp]; rfl) e he hclient _)
  | @consume claims now next htask =>
    unfold Gateway.consume
    split
    · exact h.turn _ [] rfl rfl (List.append_nil _).symm (by simp)
        (by simp [ClientTask.holding]) (by simp [htask, ClientTask.over]) (by simp)
    · refine h.turn (next.task claims) [] rfl rfl (List.append_nil _).symm
        (by simp) ?_ (by simp [htask, ClientTask.over]) ?_
      · intro other tunnel hother
        refine h.held c other tunnel ?_
        rw [htask]
        cases next with
        | lookup hello => cases hother
        | send request tunnel => exact hother
      · intro other hother
        cases next <;> cases hother
  | @send claims request tunnel htask =>
    refine h.turn _ [⟨tunnel.connection, c, .startSession request⟩] rfl rfl rfl (by simp)
      ?_ (by simp [htask, ClientTask.over]) (by simp)
    intro other tunnel' hother
    exact h.held c other tunnel' (by rw [htask]; exact hother)
  | @stop claims tunnel htask hwriter =>
    refine h.turn _ [⟨tunnel.connection, c, .stopSession claims.sid⟩] rfl rfl rfl (by simp)
      (by simp [ClientTask.holding]) (by simp [ClientTask.over]) ?_
    intro other hother
    cases hother
    have hlatest := h.held c claims tunnel (by rw [htask]; rfl)
    refine ⟨?_, fun e he hclient hstop => ?_⟩
    · -- a registered tunnel is the last that was, and that is the one the task holds
      rw [stopped_iff]
      intro t ht
      have heq := Option.some.inj (hlatest.symm.trans (h.last _ t ht))
      exact ⟨_, List.mem_append_right _ (List.mem_singleton_self _), heq, rfl⟩
    · rcases List.mem_append.mp he with he | he
      · exact absurd hstop (h.unsent c (by rw [htask]; rfl) e he hclient _)
      · rw [List.mem_singleton.mp he]
        exact hlatest

theorem inSession_of_holding {task : ClientTask} {tunnel : Tunnel}
    (h : task.holding = some (claims, tunnel)) : task.inSession = some claims := by
  unfold ClientTask.inSession
  split
  · cases h
  · rw [h]
    rfl

theorem departs_agent (h : Departs g history) {e : AgentEvent} (hsteady : Steady g (.agent c e))
    (hs : AgentTurn g c e g') : Departs g' (history ++ [(g, .agent c e)]) := by
  have hsame := hs.sameClients
  have hquiet : registration (g, .agent c e) = none →
      (∀ machine tunnel, g'.tunnels machine = some tunnel → g.tunnels machine = some tunnel) →
      Departs g' (history ++ [(g, .agent c e)]) :=
    fun hr htunnels => (h.same hr).fewer hsame.clients hsame.enqueued htunnels
  cases hs with
  | @insert hello htask =>
    have hlatest : ∀ m, latest (history ++ [(g, .agent c .insert)]) m =
        if hello.machine = m then some c else latest history m :=
      latest_registered (by simp [registration, htask])
    -- the machine that gets a tunnel has no session
    have hother : ∀ d claims, (g.clients d).inSession = some claims →
        latest (history ++ [(g, .agent c .insert)]) claims.mid = latest history claims.mid := by
      intro d claims hd
      rw [hlatest]
      exact if_neg (hsteady hello d claims htask hd).symm
    refine ⟨?_, ?_, h.unsent, ?_⟩
    · intro machine tunnel ht
      rw [hlatest]
      replace ht : Function.update g.tunnels hello.machine _ machine = some tunnel := ht
      rcases eq_or_ne machine hello.machine with rfl | hne
      · rw [Function.update_self] at ht
        cases ht
        exact if_pos rfl
      · rw [Function.update_of_ne hne] at ht
        exact (if_neg hne.symm).trans (h.last machine tunnel ht)
    · intro d claims tunnel hd
      rw [hother d claims (inSession_of_holding hd)]
      exact h.held d claims tunnel hd
    · intro d claims hd
      have hin : (g.clients d).inSession = some claims := by
        rw [show g.clients d = .reporting claims from hd]
        rfl
      obtain ⟨hstopped, hcurrent⟩ := h.reporting d claims hd
      refine ⟨stopped_mono hstopped (fun tunnel ht => ?_) (List.Subset.refl _), ?_⟩
      · replace ht : Function.update g.tunnels hello.machine _ claims.mid = some tunnel := ht
        rwa [Function.update_of_ne (hsteady hello d claims htask hin)] at ht
      · rw [hother d claims hin]
        exact hcurrent
  | @remove hello htask hown =>
    refine hquiet rfl fun machine tunnel ht => ?_
    replace ht : Function.update g.tunnels hello.machine none machine = some tunnel := ht
    rcases eq_or_ne machine hello.machine with rfl | hne
    · rw [Function.update_self] at ht
      cases ht
    · rwa [Function.update_of_ne hne] at ht
  | leave htask hleaves =>
    refine hquiet ?_ fun _ _ => id
    rcases hleaves with rfl | rfl <;> rfl
  | hello htask | pumpEnds htask | writerEnds | displaced htask hother | drain htask =>
    exact hquiet rfl fun _ _ => id

/-- **Step lemma.** -/
theorem departs_step (h : Departs g history) (hsteady : Steady g a)
    (hs : Steps codec decode g a g') : Departs g' (history ++ [(g, a)]) := by
  cases hs with
  | tick seconds | issue hjti hfresh | beat machine =>
    exact (h.same rfl).fewer rfl rfl fun _ _ => id
  | manager hturn =>
    refine (h.same rfl).fewer hturn.sameClients.clients hturn.sameClients.enqueued ?_
    cases hturn <;> exact fun _ _ => id
  | agent hturn => exact departs_agent h hsteady hturn
  | client hturn => exact departs_turn (h.same rfl) hsteady hturn

theorem departs_observed {clock : ℤ}
    (hr : Runs.Observed (step codec decode) trace (start clock) g history)
    (hsteady : ∀ p ∈ history, Steady p.1 p.2) : Departs g history := by
  revert hsteady
  refine hr.invariant (P := fun g history => (∀ p ∈ history, Steady p.1 p.2) → Departs g history)
    (fun _ => departs_start clock) ?_
  intro g g' history a ih hs hsteady
  exact departs_step (ih fun p hp => hsteady p (List.mem_append_left _ hp))
    (hsteady (g, a) (List.mem_append_right _ (List.mem_singleton_self _))) (step_cases hs)

/-- A task finishes because its client left when it has reported, or when the
client could not be acknowledged. -/
theorem departed_by (hs : Steps codec decode g a g')
    (hbefore : g.clients c ≠ .departed claims) (hafter : g'.clients c = .departed claims) :
    g'.tunnels = g.tunnels ∧ g'.enqueued = g.enqueued ∧ registration (g, a) = none ∧
      (g.clients c = .reporting claims ∨
        a = .client c .ackFails ∧ ∃ tunnel, g.clients c = .accepting claims tunnel) := by
  have hstays : g'.clients = g.clients → False := by
    intro heq
    rw [heq] at hafter
    exact hbefore hafter
  cases hs with
  | tick seconds => exact (hstays rfl).elim
  | issue hjti hfresh => exact (hstays rfl).elim
  | beat machine => exact (hstays rfl).elim
  | manager hturn => exact (hstays hturn.sameClients.clients).elim
  | agent hturn => exact (hstays hturn.sameClients.clients).elim
  | @client d e _ hturn =>
    -- Only the task that moves can have finished.
    have hself : ∀ {g₁ : Gateway} {task : ClientTask}, g₁.clients = g.clients →
        (g₁.setClient d task).clients c = .departed claims → c = d ∧ task = .departed claims := by
      intro g₁ task hclients hdeparted
      rcases eq_or_ne c d with rfl | hne
      · rw [setClient_self] at hdeparted
        exact ⟨rfl, hdeparted⟩
      · rw [setClient_of_ne _ hne, hclients] at hdeparted
        exact absurd hdeparted hbefore
    cases hturn with
    | @move e task hmove =>
      obtain ⟨rfl, rfl⟩ := hself rfl hafter
      refine ⟨rfl, rfl, rfl, ?_⟩
      generalize hp : g.clients c = p at hmove
      cases hmove with
      | ackFails _ tunnel => exact .inr ⟨rfl, tunnel, rfl⟩
      | report _ => exact .inl rfl
    | @consume other now next htask =>
      unfold Gateway.consume at hafter
      split at hafter
      · obtain ⟨-, htask'⟩ := hself (by rfl) hafter
        cases htask'
      · have hdeparted : ((g.sweep other now).setClient d (next.task other)).clients c =
            .departed claims := hafter
        obtain ⟨-, htask'⟩ := hself rfl hdeparted
        cases next <;> cases htask'
    | send htask | stop htask hwriter =>
      obtain ⟨-, htask'⟩ := hself (by rfl) hafter
      cases htask'

/-- In every run whose steps are steady, a client's departure stops its session. -/
theorem departure_stops_session (codec : LaunchCodec) (decode : String → Option TicketClaims)
    (clock : ℤ) (g : Gateway) (history : List (Gateway × GatewayEvent))
    (hr : Runs.Observed (step codec decode) trace (start clock) g history)
    (hsteady : ∀ p ∈ history, Steady p.1 p.2) : DepartureStops codec decode Steady g history := by
  intro a g' c claims hallowed hs hbefore hafter
  obtain ⟨htunnels, henqueued, hquiet, hhow⟩ := departed_by (step_cases hs) hbefore hafter
  rcases hhow with hreporting | ⟨rfl, -⟩
  · obtain ⟨hstopped, hcurrent⟩ := (departs_observed hr hsteady).reporting c claims hreporting
    refine ⟨stopped_mono hstopped (by simp [htunnels]) (by rw [henqueued]; exact fun _ => id), ?_⟩
    rw [henqueued, latest_same hquiet]
    exact hcurrent
  · exact hallowed.elim

def sampleAttached : Gateway :=
  (Runs.tryRun (step sampleLaunchCodec sampleDecode) (start 1000) sampleAttach).getD (start 1000)

def sampleSession : List GatewayEvent :=
  .issue (sampleClaims 1 1000) ::
    (samplePresent 1 "first" ++ sampleStart 1 ++ [GatewayEvent.client 1 .ack])

/-- Steps that can be seen to be steady. -/
def calm (g : Gateway) : GatewayEvent → Bool
  | .agent _ .insert | .client _ .ackFails => false
  | .client c .stop =>
    match g.clients c with
    | .stopping _ tunnel => g.writers tunnel.connection
    | _ => true
  | _ => true

theorem steady_of_calm (h : g.calm a = true) : Steady g a := by
  unfold calm at h
  split at h
  · cases h
  · cases h
  · intro claims tunnel htask _
    simpa only [htask] using h
  · unfold Steady
    split
    all_goals simp_all

/-- The client of an attached machine leaves. -/
theorem departure_stops_session_attached :
    ∃ g g' history, Runs.Observed (step sampleLaunchCodec sampleDecode) trace (start 1000) g history ∧
      (∀ p ∈ history, Steady p.1 p.2) ∧
      g.step sampleLaunchCodec sampleDecode (.client 1 .report) = some g' ∧
      g'.tunnels 7 = some ⟨10, 7, false⟩ ∧
      Told g' (history ++ [(g, .client 1 .report)]) 1 (sampleClaims 1 1000) := by
  -- nobody is there yet when the machine is attached
  have hattach : ∃ before, Runs.Observed (step sampleLaunchCodec sampleDecode) trace (start 1000)
      sampleAttached before ∧ ∀ p ∈ before, Steady p.1 p.2 := by
    refine ⟨_, ((Runs.Observed.init.step (.agent 10 (.hello ⟨7, 7, false⟩)) rfl).step
      (.manager .success) rfl).step (.agent 10 .insert) rfl, fun p hp => ?_⟩
    simp only [trace, Option.toList_some, List.nil_append, List.cons_append, List.mem_cons,
      List.not_mem_nil, or_false] at hp
    rcases hp with rfl | rfl | rfl
    · trivial
    · trivial
    · intro h d claims _ hd
      cases hd
  obtain ⟨before, hbefore, hsteady⟩ := hattach
  have hrun : (Runs.tryObserve (step sampleLaunchCodec sampleDecode) trace sampleAttached
      (sampleSession ++ ([.client 1 .closed, .client 1 .stop] : List GatewayEvent))).bind (fun r =>
        (r.1.step sampleLaunchCodec sampleDecode (.client 1 .report)).map fun g' =>
          (r.2.all (fun p => p.1.calm p.2), r.1.clients 1, g'.clients 1, g'.tunnels 7)) =
      some (true, .reporting (sampleClaims 1 1000), .departed (sampleClaims 1 1000),
        some ⟨10, 7, false⟩) := by
    decide +kernel
  obtain ⟨⟨g, after⟩, htry, hrest⟩ := Option.bind_eq_some_iff.mp hrun
  obtain ⟨g', hs, hout⟩ := Option.map_eq_some_iff.mp hrest
  obtain ⟨hcalm, hrest⟩ := Prod.mk.inj hout
  obtain ⟨hreporting, hrest⟩ := Prod.mk.inj hrest
  obtain ⟨hdeparted, htunnel⟩ := Prod.mk.inj hrest
  have hr := Runs.observed_of_tryObserve hbefore htry
  have hall : ∀ p ∈ before ++ after, Steady p.1 p.2 := by
    intro p hp
    rcases List.mem_append.mp hp with hp | hp
    · exact hsteady p hp
    · exact steady_of_calm (List.all_eq_true.mp hcalm p hp)
  refine ⟨g, g', _, hr, hall, hs, htunnel, ?_⟩
  refine departure_stops_session sampleLaunchCodec sampleDecode 1000 g _ hr hall _ g' 1 _ trivial
    hs ?_ hdeparted
  rw [hreporting]
  simp

/-- The machine reconnects on connection 11 while its session runs: the client's
departure is told to the tunnel that was displaced, and to no other. -/
theorem stop_sent_to_displaced_tunnel :
    ∃ g history, Runs.Observed (step sampleLaunchCodec sampleDecode) trace (start 1000) g history ∧
      ¬ DepartureStops sampleLaunchCodec sampleDecode (fun _ _ => True) g history := by
  have hrun : (Runs.tryObserve (step sampleLaunchCodec sampleDecode) trace (start 1000)
      (sampleAttach ++ sampleSession ++ ([.agent 11 (.hello ⟨7, 7, false⟩), .manager .success,
        .agent 11 .insert, .client 1 .closed, .client 1 .stop] : List GatewayEvent))).bind (fun r =>
        (r.1.step sampleLaunchCodec sampleDecode (.client 1 .report)).map fun g' =>
          (r.1.clients 1, g'.clients 1, g'.stopped (sampleClaims 1 1000))) =
      some (.reporting (sampleClaims 1 1000), .departed (sampleClaims 1 1000), false) := by
    decide +kernel
  obtain ⟨⟨g, history⟩, htry, hrest⟩ := Option.bind_eq_some_iff.mp hrun
  obtain ⟨g', hs, hout⟩ := Option.map_eq_some_iff.mp hrest
  obtain ⟨hbefore, hrest⟩ := Prod.mk.inj hout
  obtain ⟨hafter, hstopped⟩ := Prod.mk.inj hrest
  refine ⟨g, history, Runs.observed_of_tryObserve .init htry, ?_⟩
  intro hstops
  have htold := hstops _ g' 1 _ trivial hs (by rw [hbefore]; simp) hafter
  rw [htold.stopped] at hstopped
  cases hstopped

end Gateway

end NebulaDesk
