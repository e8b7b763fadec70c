/-
A tunnelled machine stays placeable (`nebula-gateway/src/lib.rs`, `serve_agent`;
`nebula-manager/src/routes/machines.rs`, `heartbeat`).

A connection is verified with the manager before its tunnel is registered.  The
end of the machine's older connection may fall in between: it finds its own entry
still registered, removes it and reports the machine as draining, after the new
connection reported it online (`reconnect_left_draining`).  `tunnel_placeable`
says that a machine with a live tunnel is online at this gateway in every run in
which nobody reports a machine as draining while another of its connections is
being verified or is attached (`undisturbed`).
-/
import NebulaDesk.Gateway.Turns

namespace NebulaDesk

/-- The machine a task has told the manager about, and may keep a tunnel for. -/
def AgentTask.engaged : AgentTask → Option AgentHello
  | .verifying h | .verified h | .attached h => some h
  | _ => none

/-- The task waits for its peer, or has ended. -/
def AgentTask.idle : AgentTask → Bool
  | .hello | .attached _ | .finished => true
  | _ => false

/-- The task that waits for the answer. -/
def ManagerCall.caller : ManagerCall → Option ℕ
  | .verify c _ | .drain c _ => some c
  | .beat _ => none

def ManagerCall.drains : ManagerCall → Option ℕ
  | .drain _ h => some h.credential
  | _ => none

namespace Gateway

variable {codec : LaunchCodec} {decode : String → Option TicketClaims} {g g' : Gateway} {c : ℕ}

/-- An agent introduces itself as the machine it is, and a machine is reported as
draining only when none of its connections is being verified or is attached. -/
def undisturbed (g : Gateway) : GatewayEvent → Bool
  | .agent _ (.hello h) => h.machine = h.credential
  | .agent c .drain =>
    match g.agents c with
    | .removed h => g.introduced.all fun d => (g.agents d).engaged.all (·.credential ≠ h.credential)
    | _ => true
  | _ => true

def stepUndisturbed (codec : LaunchCodec) (decode : String → Option TicketClaims) (g : Gateway)
    (a : GatewayEvent) : Option Gateway :=
  if g.undisturbed a then g.step codec decode a else none

/-- Every started handler has run to its next wait, and no call is under way. -/
def settled (g : Gateway) : Bool :=
  g.calls = [] && g.introduced.all fun c => (g.agents c).idle

/-- Whenever the handlers have run to their next wait, a machine with a live
tunnel is online at this gateway. -/
def Placeable (g : Gateway) : Prop :=
  g.settled = true → ∀ machine tunnel h, g.tunnels machine = some tunnel →
    g.agents tunnel.connection = .attached h → g.rows machine = ⟨.online, true⟩

/-! ### The invariant -/

structure Attaches (g : Gateway) : Prop where
  introduced : ∀ d h, (g.agents d).engaged = some h → d ∈ g.introduced
  own : ∀ d h, (g.agents d).engaged = some h → h.machine = h.credential
  registered : ∀ machine tunnel, g.tunnels machine = some tunnel → ∃ h : AgentHello,
    h.machine = machine ∧
      (g.agents tunnel.connection = .attached h ∨ g.agents tunnel.connection = .ending h)
  verifying : ∀ d h, .verify d h ∈ g.calls → g.agents d = .verifying h
  draining : ∀ d h, .drain d h ∈ g.calls → g.agents d = .draining h
  callers : g.calls.Pairwise fun x y => ∀ d, x.caller = some d → y.caller ≠ some d
  -- Nobody reports a machine as draining behind its verification.
  order : g.calls.Pairwise fun x y => ∀ d h, x = .verify d h → y.drains ≠ some h.credential
  online : ∀ d h, g.agents d = .verified h ∨ g.agents d = .attached h →
    g.rows h.credential = ⟨.online, true⟩ ∧ ∀ x ∈ g.calls, x.drains ≠ some h.credential

theorem attaches_start (clock : ℤ) : Attaches (start clock) where
  introduced := by
    intro d h hd
    cases hd
  own := by
    intro d h hd
    cases hd
  registered := by
    intro machine tunnel h
    cases h
  verifying := by
    intro d h hd
    cases hd
  draining := by
    intro d h hd
    cases hd
  callers := List.Pairwise.nil
  order := List.Pairwise.nil
  online := by
    intro d h hd
    rcases hd with hd | hd <;> cases hd

theorem Attaches.same (h : Attaches g) (hs : SameAgents g g') : Attaches g' where
  introduced := by
    rw [hs.agents, hs.introduced]
    exact h.introduced
  own := hs.agents ▸ h.own
  registered := by
    rw [hs.agents, hs.tunnels]
    exact h.registered
  verifying := by
    rw [hs.agents, hs.calls]
    exact h.verifying
  draining := by
    rw [hs.agents, hs.calls]
    exact h.draining
  callers := hs.calls ▸ h.callers
  order := hs.calls ▸ h.order
  online := by
    rw [hs.agents, hs.rows, hs.calls]
    exact h.online

variable {task : AgentTask}

/-- A task that waits for no answer moves on; the table and the calls stay. -/
theorem Attaches.setAgent (h : Attaches g) (hquiet : ∀ x ∈ g.calls, x.caller ≠ some c)
    (hengaged : ∀ hello, task.engaged = some hello → (g.agents c).engaged = some hello)
    (honline : ∀ hello, task = .verified hello ∨ task = .attached hello →
      g.rows hello.credential = ⟨.online, true⟩ ∧ ∀ x ∈ g.calls, x.drains ≠ some hello.credential)
    (hregistered : ∀ hello, g.agents c = .attached hello ∨ g.agents c = .ending hello →
      task = .ending hello ∨ ∀ machine tunnel, g.tunnels machine = some tunnel →
        tunnel.connection ≠ c) :
    Attaches (g.setAgent c task) where
  introduced := by
    intro d hello hd
    rcases eq_or_ne d c with rfl | hne
    · rw [setAgent_self] at hd
      exact h.introduced d hello (hengaged hello hd)
    · rw [setAgent_of_ne _ hne] at hd
      exact h.introduced d hello hd
  own := by
    intro d hello hd
    rcases eq_or_ne d c with rfl | hne
    · rw [setAgent_self] at hd
      exact h.own d hello (hengaged hello hd)
    · rw [setAgent_of_ne _ hne] at hd
      exact h.own d hello hd
  registered := by
    intro machine tunnel ht
    obtain ⟨hello, hmachine, htask⟩ := h.registered machine tunnel ht
    refine ⟨hello, hmachine, ?_⟩
    rcases eq_or_ne tunnel.connection c with heq | hne
    · rw [heq] at htask
      rcases hregistered hello htask with hending | hfree
      · rw [heq, setAgent_self]
        exact .inr hending
      · exact absurd heq (hfree machine tunnel ht)
    · rw [setAgent_of_ne _ hne]
      exact htask
  verifying := by
    intro d hello hd
    have hne : d ≠ c := fun heq => hquiet _ hd (by rw [heq]; rfl)
    rw [setAgent_of_ne _ hne]
    exact h.verifying d hello hd
  draining := by
    intro d hello hd
    have hne : d ≠ c := fun heq => hquiet _ hd (by rw [heq]; rfl)
    rw [setAgent_of_ne _ hne]
    exact h.draining d hello hd
  __ := h
  online := by
    intro d hello hd
    rcases eq_or_ne d c with rfl | hne
    · rw [setAgent_self] at hd
      exact honline hello hd
    · rw [setAgent_of_ne _ hne] at hd
      exact h.online d hello hd

theorem Attaches.uncalled (h : Attaches g) (htask : g.agents c = task)
    (hverifying : ∀ hello, task ≠ .verifying hello) (hdraining : ∀ hello, task ≠ .draining hello) :
    ∀ x ∈ g.calls, x.caller ≠ some c := by
  intro x hx hcaller
  cases x with
  | verify d hello =>
    obtain rfl := Option.some.inj hcaller
    exact hverifying hello (htask.symm.trans (h.verifying d hello hx))
  | drain d hello =>
    obtain rfl := Option.some.inj hcaller
    exact hdraining hello (htask.symm.trans (h.draining d hello hx))
  | beat machine => cases hcaller

theorem Attaches.release (h : Attaches g)
    (hquiet : ∀ x ∈ g.calls, x.caller ≠ some c) (hengaged : task.engaged = none)
    (hregistered : ∀ hello, g.agents c = .attached hello ∨ g.agents c = .ending hello →
      task = .ending hello ∨ ∀ machine tunnel, g.tunnels machine = some tunnel →
        tunnel.connection ≠ c) :
    Attaches (g.setAgent c task) := by
  refine h.setAgent hquiet ?_ ?_ hregistered
  · intro hello hd
    rw [hengaged] at hd
    cases hd
  · rintro hello (rfl | rfl)
    · cases hengaged
    · cases hengaged

theorem Attaches.pop (h : Attaches g) {x : ManagerCall} {rest : List ManagerCall}
    (hcalls : g.calls = x :: rest) : Attaches { g with calls := rest } where
  __ := h
  verifying := by
    intro d hello hd
    exact h.verifying d hello (hcalls ▸ List.mem_cons_of_mem x hd)
  draining := by
    intro d hello hd
    exact h.draining d hello (hcalls ▸ List.mem_cons_of_mem x hd)
  callers := (List.pairwise_cons.mp (hcalls ▸ h.callers)).2
  order := (List.pairwise_cons.mp (hcalls ▸ h.order)).2
  online := by
    intro d hello hd
    obtain ⟨hrow, hdrains⟩ := h.online d hello hd
    exact ⟨hrow, fun y hy => hdrains y (hcalls ▸ List.mem_cons_of_mem x hy)⟩

theorem Attaches.rest_uncalled (h : Attaches g) {x : ManagerCall} {rest : List ManagerCall}
    (hcalls : g.calls = x :: rest) (hcaller : x.caller = some c) :
    ∀ y ∈ rest, y.caller ≠ some c := by
  intro y hy
  have hpairs := h.callers
  rw [hcalls] at hpairs
  exact (List.pairwise_cons.mp hpairs).1 y hy c hcaller

theorem Attaches.beat (h : Attaches g) (machine : ℕ) :
    Attaches (g.beatRow machine .online (some true)) where
  __ := h
  online := by
    intro d hello hd
    obtain ⟨hrow, hdrains⟩ := h.online d hello hd
    refine ⟨?_, hdrains⟩
    show Function.update g.rows machine _ hello.credential = _
    rcases eq_or_ne hello.credential machine with heq | hne
    · rw [heq, Function.update_self]
      rfl
    · rw [Function.update_of_ne hne]
      exact hrow

theorem Attaches.drainRow (h : Attaches g) {machine : ℕ}
    (hfree : ∀ d hello, g.agents d = .verified hello ∨ g.agents d = .attached hello →
      hello.credential ≠ machine) : Attaches (g.beatRow machine .draining none) where
  __ := h
  online := by
    intro d hello hd
    obtain ⟨hrow, hdrains⟩ := h.online d hello hd
    refine ⟨?_, hdrains⟩
    show Function.update g.rows machine _ hello.credential = _
    rw [Function.update_of_ne (hfree d hello hd)]
    exact hrow

theorem engaged_of_online {d : ℕ} {hello : AgentHello}
    (h : g.agents d = .verified hello ∨ g.agents d = .attached hello) :
    (g.agents d).engaged = some hello := by
  rcases h with h | h
  · rw [h]
    rfl
  · rw [h]
    rfl

theorem attaches_manager (h : Attaches g) (hs : ManagerTurn g g') : Attaches g' := by
  cases hs with
  | @verify c hello rest task hcalls htask =>
    have hpop := (h.pop hcalls).beat hello.credential
    have hc : g.agents c = .verifying hello := h.verifying c hello (by simp [hcalls])
    refine hpop.setAgent (h.rest_uncalled hcalls rfl) ?_ ?_ ?_
    · intro other hother
      show (g.agents c).engaged = some other
      rw [hc]
      rcases htask with rfl | rfl
      · exact hother
      · cases hother
    · intro other hother
      have heq : other = hello := by
        rcases htask with rfl | rfl <;> rcases hother with hother | hother <;> cases hother
        rfl
      subst heq
      constructor
      · show Function.update g.rows other.credential _ other.credential = _
        rw [Function.update_self]
        rfl
      · intro x hx
        have hpairs := h.order
        rw [hcalls] at hpairs
        exact (List.pairwise_cons.mp hpairs).1 x hx c other rfl
    · intro other hother
      replace hother : g.agents c = .attached other ∨ g.agents c = .ending other := hother
      rw [hc] at hother
      rcases hother with hother | hother <;> cases hother
  | @drain c hello rest hcalls =>
    have hc : g.agents c = .draining hello := h.draining c hello (by simp [hcalls])
    have hfree : ∀ d other, g.agents d = .verified other ∨ g.agents d = .attached other →
        other.credential ≠ hello.credential := by
      intro d other hd heq
      exact (h.online d other hd).2 (.drain c hello) (by simp [hcalls]) (by rw [heq]; rfl)
    refine ((h.pop hcalls).drainRow hfree).release (h.rest_uncalled hcalls rfl) rfl ?_
    intro other hother
    replace hother : g.agents c = .attached other ∨ g.agents c = .ending other := hother
    rw [hc] at hother
    rcases hother with hother | hother <;> cases hother
  | beat hcalls => exact (h.pop hcalls).beat _
  | @refuse c call rest hcalls hcaller =>
    obtain ⟨hello, hcall⟩ := hcaller
    have hcaller : call.caller = some c := by
      rcases hcall with rfl | rfl <;> rfl
    refine (h.pop hcalls).release (h.rest_uncalled hcalls hcaller) rfl ?_
    intro other hother
    replace hother : g.agents c = .attached other ∨ g.agents c = .ending other := hother
    have hc : g.agents c = .verifying hello ∨ g.agents c = .draining hello := by
      rcases hcall with rfl | rfl
      · exact .inl (h.verifying c hello (by simp [hcalls]))
      · exact .inr (h.draining c hello (by simp [hcalls]))
    rcases hc with hc | hc <;> rw [hc] at hother <;> rcases hother with hother | hother <;> cases hother
  | refuseBeat hcalls => exact h.pop hcalls

theorem Attaches.hello (h : Attaches g) {hello : AgentHello} (htask : g.agents c = .hello)
    (hown : hello.machine = hello.credential) :
    Attaches { (g.setAgent c (.verifying hello)) with
      calls := g.calls ++ [.verify c hello]
      introduced := g.introduced ++ [c] } := by
  have huncalled := h.uncalled htask (by simp) (by simp)
  constructor
  · intro d other hd
    rcases eq_or_ne d c with rfl | hne
    · exact List.mem_append_right _ (List.mem_singleton_self _)
    · replace hd : ((g.setAgent c (.verifying hello)).agents d).engaged = some other := hd
      rw [setAgent_of_ne _ hne] at hd
      exact List.mem_append_left _ (h.introduced d other hd)
  · intro d other hd
    replace hd : ((g.setAgent c (.verifying hello)).agents d).engaged = some other := hd
    rcases eq_or_ne d c with rfl | hne
    · rw [setAgent_self] at hd
      cases hd
      exact hown
    · rw [setAgent_of_ne _ hne] at hd
      exact h.own d other hd
  · intro machine tunnel ht
    obtain ⟨other, hmachine, hold⟩ := h.registered machine tunnel ht
    refine ⟨other, hmachine, ?_⟩
    have hne : tunnel.connection ≠ c := by
      intro heq
      rw [heq, htask] at hold
      rcases hold with hold | hold <;> cases hold
    show (g.setAgent c (.verifying hello)).agents tunnel.connection = _ ∨
      (g.setAgent c (.verifying hello)).agents tunnel.connection = _
    rw [setAgent_of_ne _ hne]
    exact hold
  · intro d other hd
    show (g.setAgent c (.verifying hello)).agents d = _
    rcases List.mem_append.mp hd with hd | hd
    · have hne : d ≠ c := fun heq => huncalled _ hd (by rw [heq]; rfl)
      rw [setAgent_of_ne _ hne]
      exact h.verifying d other hd
    · obtain ⟨rfl, rfl⟩ := ManagerCall.verify.inj (List.mem_singleton.mp hd)
      exact setAgent_self _
  · intro d other hd
    show (g.setAgent c (.verifying hello)).agents d = _
    rcases List.mem_append.mp hd with hd | hd
    · have hne : d ≠ c := fun heq => huncalled _ hd (by rw [heq]; rfl)
      rw [setAgent_of_ne _ hne]
      exact h.draining d other hd
    · cases List.mem_singleton.mp hd
  · refine List.pairwise_append.mpr ⟨h.callers, List.pairwise_singleton _ _, ?_⟩
    intro x hx y hy d hcaller hcaller'
    obtain rfl := List.mem_singleton.mp hy
    cases hcaller'
    exact huncalled x hx hcaller
  · refine List.pairwise_append.mpr ⟨h.order, List.pairwise_singleton _ _, ?_⟩
    intro x hx y hy d other heq hdrains
    obtain rfl := List.mem_singleton.mp hy
    cases hdrains
  · intro d other hd
    have hne : d ≠ c := by
      rintro rfl
      replace hd : (g.setAgent d (.verifying hello)).agents d = _ ∨
        (g.setAgent d (.verifying hello)).agents d = _ := hd
      rw [setAgent_self] at hd
      rcases hd with hd | hd <;> cases hd
    replace hd : (g.setAgent c (.verifying hello)).agents d = _ ∨
      (g.setAgent c (.verifying hello)).agents d = _ := hd
    rw [setAgent_of_ne _ hne] at hd
    obtain ⟨hrow, hdrains⟩ := h.online d other hd
    refine ⟨hrow, ?_⟩
    intro x hx
    rcases List.mem_append.mp hx with hx | hx
    · exact hdrains x hx
    · obtain rfl := List.mem_singleton.mp hx
      simp [ManagerCall.drains]

theorem Attaches.insert (h : Attaches g) {hello : AgentHello} (htask : g.agents c = .verified hello) :
    Attaches (((g.setTunnel hello.machine
      (some ⟨c, hello.credential, hello.applicationWindows⟩)).setWriter c true).setAgent c
        (.attached hello)) := by
  have huncalled := h.uncalled htask (by simp) (by simp)
  have hfree : ∀ machine tunnel, g.tunnels machine = some tunnel → tunnel.connection ≠ c := by
    intro machine tunnel ht heq
    obtain ⟨other, -, hold⟩ := h.registered machine tunnel ht
    rw [heq, htask] at hold
    rcases hold with hold | hold <;> cases hold
  have hbase : Attaches (g.setAgent c (.attached hello)) := by
    refine h.setAgent huncalled ?_ ?_ ?_
    · intro other hother
      rw [htask]
      exact hother
    · rintro other (hother | hother)
      · cases hother
      · cases hother
        exact h.online c hello (.inl htask)
    · intro other _
      exact .inr hfree
  refine ⟨hbase.introduced, hbase.own, ?_, hbase.verifying, hbase.draining, hbase.callers,
    hbase.order, hbase.online⟩
  intro machine tunnel ht
  show ∃ other : AgentHello, other.machine = machine ∧
    ((g.setAgent c (.attached hello)).agents tunnel.connection = .attached other ∨
      (g.setAgent c (.attached hello)).agents tunnel.connection = .ending other)
  replace ht : Function.update g.tunnels hello.machine _ machine = some tunnel := ht
  rcases eq_or_ne machine hello.machine with rfl | hne
  · rw [Function.update_self] at ht
    cases ht
    exact ⟨hello, rfl, .inl (setAgent_self _)⟩
  · rw [Function.update_of_ne hne] at ht
    exact hbase.registered machine tunnel ht

theorem Attaches.remove (h : Attaches g) {hello : AgentHello} (htask : g.agents c = .ending hello) :
    Attaches ((g.setTunnel hello.machine none).setAgent c (.removed hello)) := by
  have hbase : Attaches (g.setTunnel hello.machine none) := by
    refine ⟨h.introduced, h.own, ?_, h.verifying, h.draining, h.callers, h.order, h.online⟩
    intro machine tunnel ht
    replace ht : Function.update g.tunnels hello.machine none machine = some tunnel := ht
    rcases eq_or_ne machine hello.machine with rfl | hne
    · rw [Function.update_self] at ht
      cases ht
    · rw [Function.update_of_ne hne] at ht
      exact h.registered machine tunnel ht
  refine hbase.release (h.uncalled htask (by simp) (by simp)) rfl ?_
  intro other _
  refine .inr ?_
  intro machine tunnel ht heq
  -- The entry of the connection was the one under its own machine.
  obtain ⟨again, hmachine, hold⟩ := hbase.registered machine tunnel ht
  replace hold : g.agents tunnel.connection = _ ∨ g.agents tunnel.connection = _ := hold
  rw [heq, htask] at hold
  have hagain : again = hello := by
    rcases hold with hold | hold <;> cases hold
    rfl
  replace ht : Function.update g.tunnels hello.machine none machine = some tunnel := ht
  rw [← hmachine, hagain, Function.update_self] at ht
  cases ht

theorem Attaches.drain (h : Attaches g) {hello : AgentHello} (htask : g.agents c = .removed hello)
    (hun : g.undisturbed (.agent c .drain) = true) :
    Attaches { (g.setAgent c (.draining hello)) with calls := g.calls ++ [.drain c hello] } := by
  have huncalled := h.uncalled htask (by simp) (by simp)
  have hfree : ∀ d other, (g.agents d).engaged = some other →
      other.credential ≠ hello.credential := by
    intro d other hd
    simp only [undisturbed, htask, List.all_eq_true] at hun
    have hother := hun d (h.introduced d other hd)
    rw [hd] at hother
    exact of_decide_eq_true hother
  have hbase : Attaches (g.setAgent c (.draining hello)) := by
    refine h.release huncalled rfl ?_
    intro other hother
    rw [htask] at hother
    rcases hother with hother | hother <;> cases hother
  refine ⟨hbase.introduced, hbase.own, hbase.registered, ?_, ?_, ?_, ?_, ?_⟩
  · intro d other hd
    rcases List.mem_append.mp hd with hd | hd
    · exact hbase.verifying d other hd
    · cases List.mem_singleton.mp hd
  · intro d other hd
    rcases List.mem_append.mp hd with hd | hd
    · exact hbase.draining d other hd
    · obtain ⟨rfl, rfl⟩ := ManagerCall.drain.inj (List.mem_singleton.mp hd)
      exact setAgent_self _
  · refine List.pairwise_append.mpr ⟨h.callers, List.pairwise_singleton _ _, ?_⟩
    intro x hx y hy d hcaller hcaller'
    obtain rfl := List.mem_singleton.mp hy
    cases hcaller'
    exact huncalled x hx hcaller
  · refine List.pairwise_append.mpr ⟨h.order, List.pairwise_singleton _ _, ?_⟩
    rintro x hx y hy d other rfl hdrains
    obtain rfl := List.mem_singleton.mp hy
    have hengaged : (g.agents d).engaged = some other := by
      rw [h.verifying d other hx]
      rfl
    exact hfree d other hengaged (Option.some.inj hdrains).symm
  · intro d other hd
    obtain ⟨hrow, hdrains⟩ := hbase.online d other hd
    refine ⟨hrow, ?_⟩
    intro x hx
    rcases List.mem_append.mp hx with hx | hx
    · exact hdrains x hx
    · obtain rfl := List.mem_singleton.mp hx
      have hd' : g.agents d = .verified other ∨ g.agents d = .attached other := by
        have hne' : d ≠ c := by
          rintro rfl
          replace hd : (g.setAgent d (.draining hello)).agents d = _ ∨
            (g.setAgent d (.draining hello)).agents d = _ := hd
          rw [setAgent_self] at hd
          rcases hd with hd | hd <;> cases hd
        replace hd : (g.setAgent c (.draining hello)).agents d = _ ∨
          (g.setAgent c (.draining hello)).agents d = _ := hd
        rwa [setAgent_of_ne _ hne'] at hd
      intro heq
      exact hfree d other (engaged_of_online hd') (Option.some.inj heq).symm

theorem attaches_agent (h : Attaches g) {e : AgentEvent} (hun : g.undisturbed (.agent c e) = true)
    (hs : AgentTurn g c e g') : Attaches g' := by
  cases hs with
  | hello htask => exact h.hello htask (of_decide_eq_true hun)
  | leave htask =>
    rcases htask with htask | ⟨other, htask⟩
    · refine h.release (h.uncalled htask (by simp) (by simp)) rfl ?_
      simp [htask]
    · refine h.release (h.uncalled htask (by simp) (by simp)) rfl ?_
      simp [htask]
  | insert htask => exact h.insert htask
  | @pumpEnds hello htask =>
    refine h.release (h.uncalled htask (by simp) (by simp)) rfl ?_
    intro other hother
    rw [htask] at hother
    rcases hother with hother | hother <;> cases hother
    exact .inl rfl
  | writerEnds =>
    exact { h with }
  | remove htask hown => exact h.remove htask
  | @displaced hello htask hother =>
    refine h.release (h.uncalled htask (by simp) (by simp)) rfl ?_
    intro other _
    refine .inr ?_
    intro machine tunnel ht heq
    obtain ⟨again, hmachine, hold⟩ := h.registered machine tunnel ht
    rw [heq, htask] at hold
    have hagain : again = hello := by
      rcases hold with hold | hold <;> cases hold
      rfl
    rw [← hagain, hmachine, ht] at hother
    simp [heq] at hother
  | drain htask => exact h.drain htask hun

/-- **Step lemma.** -/
theorem attaches_step (h : Attaches g) {a : GatewayEvent} (hun : g.undisturbed a = true)
    (hs : Steps codec decode g a g') : Attaches g' := by
  cases hs with
  | tick seconds | issue hjti hfresh =>
    exact { h with }
  | beat machine =>
    refine ⟨h.introduced, h.own, h.registered, ?_, ?_, ?_, ?_, ?_⟩
    · intro d hello hd
      exact h.verifying d hello (by simpa using hd)
    · intro d hello hd
      exact h.draining d hello (by simpa using hd)
    · refine List.pairwise_append.mpr ⟨h.callers, List.pairwise_singleton _ _, ?_⟩
      simp [ManagerCall.caller]
    · refine List.pairwise_append.mpr ⟨h.order, List.pairwise_singleton _ _, ?_⟩
      simp [ManagerCall.drains]
    · intro d hello hd
      obtain ⟨hrow, hdrains⟩ := h.online d hello hd
      refine ⟨hrow, ?_⟩
      intro x hx
      rcases List.mem_append.mp hx with hx | hx
      · exact hdrains x hx
      · obtain rfl := List.mem_singleton.mp hx
        simp [ManagerCall.drains]
  | manager hturn => exact attaches_manager h hturn
  | agent hturn => exact attaches_agent h hun hturn
  | client hturn => exact h.same hturn.sameAgents

theorem attaches_reach {clock : ℤ}
    (hr : Runs.Reach (stepUndisturbed codec decode) (start clock) g) : Attaches g := by
  refine hr.invariant (attaches_start clock) ?_
  intro g g' a h hs
  unfold stepUndisturbed at hs
  split at hs
  · next hun => exact attaches_step h hun (step_cases hs)
  · cases hs

/-- In every run whose steps are undisturbed, a machine with a live tunnel is
online at this gateway, in every state. -/
theorem tunnel_placeable (codec : LaunchCodec) (decode : String → Option TicketClaims) (clock : ℤ)
    (g : Gateway) (hr : Runs.Reach (stepUndisturbed codec decode) (start clock) g) :
    g.Placeable ∧ ∀ machine tunnel h, g.tunnels machine = some tunnel →
      g.agents tunnel.connection = .attached h → g.rows machine = ⟨.online, true⟩ := by
  have h := attaches_reach hr
  have hrows : ∀ machine tunnel hello, g.tunnels machine = some tunnel →
      g.agents tunnel.connection = .attached hello → g.rows machine = ⟨.online, true⟩ := by
    intro machine tunnel hello ht hlive
    obtain ⟨other, hmachine, hold⟩ := h.registered machine tunnel ht
    have heq : other = hello := by
      rw [hlive] at hold
      rcases hold with hold | hold <;> cases hold
      rfl
    have hown := h.own tunnel.connection hello (engaged_of_online (.inr hlive))
    rw [← hmachine, heq, hown]
    exact (h.online tunnel.connection hello (.inr hlive)).1
  exact ⟨fun _ => hrows, hrows⟩

/-- Machine 7 attaches on connection 10 and introduces itself again on 11. -/
def sampleReconnect : List GatewayEvent :=
  [.agent 10 (.hello ⟨7, 7, false⟩), .manager .success, .agent 10 .insert,
    .agent 11 (.hello ⟨7, 7, false⟩), .manager .success]

/-- The new tunnel displaces the old one, whose end changes nothing. -/
theorem tunnel_placeable_displaced :
    ∃ g, Runs.Reach (stepUndisturbed sampleLaunchCodec fun _ => none) (start 0) g ∧
      g.tunnels 7 = some ⟨11, 7, false⟩ ∧ g.agents 10 = .finished ∧
      g.rows 7 = ⟨.online, true⟩ := by
  have hrun : (Runs.tryRun (stepUndisturbed sampleLaunchCodec fun _ => none) (start 0)
      (sampleReconnect ++ ([.agent 11 .insert, .agent 10 .pumpEnds,
        .agent 10 .remove] : List GatewayEvent))).map
        (fun g => (g.tunnels 7, g.agents 10, g.agents 11)) =
      some (some ⟨11, 7, false⟩, .finished, .attached ⟨7, 7, false⟩) := by
    decide +kernel
  obtain ⟨g, htry, hout⟩ := Option.map_eq_some_iff.mp hrun
  obtain ⟨htunnel, hrest⟩ := Prod.mk.inj hout
  obtain ⟨hold, hnew⟩ := Prod.mk.inj hrest
  have hr := Runs.reach_of_tryRun .init htry
  exact ⟨g, hr, htunnel, hold,
    (tunnel_placeable sampleLaunchCodec _ 0 g hr).2 7 ⟨11, 7, false⟩ ⟨7, 7, false⟩ htunnel hnew⟩

/-- The old tunnel ends between the verification and the registration of the new
one: the machine has a live tunnel and is draining. -/
theorem reconnect_left_draining :
    ∃ g, Runs.Reach (step sampleLaunchCodec fun _ => none) (start 0) g ∧ ¬ g.Placeable := by
  have hrun : (Runs.tryRun (step sampleLaunchCodec fun _ => none) (start 0)
      (sampleReconnect ++ ([.agent 10 .pumpEnds, .agent 10 .remove, .agent 10 .drain,
        .manager .success, .agent 11 .insert] : List GatewayEvent))).map
        (fun g => (g.settled, g.tunnels 7, g.agents 11, g.rows 7)) =
      some (true, some ⟨11, 7, false⟩, .attached ⟨7, 7, false⟩, ⟨.draining, true⟩) := by
    decide +kernel
  obtain ⟨g, htry, hout⟩ := Option.map_eq_some_iff.mp hrun
  obtain ⟨hsettled, hrest⟩ := Prod.mk.inj hout
  obtain ⟨htunnel, hrest⟩ := Prod.mk.inj hrest
  obtain ⟨hlive, hrow⟩ := Prod.mk.inj hrest
  refine ⟨g, Runs.reach_of_tryRun .init htry, ?_⟩
  intro hplaceable
  have honline := hplaceable hsettled 7 ⟨11, 7, false⟩ ⟨7, 7, false⟩ htunnel hlive
  rw [hrow] at honline
  cases honline

end Gateway

end NebulaDesk
