/-
Placement (`nebula-manager/src/routes/sessions.rs`, `pick_gateway`;
`nebula-manager/src/routes/machines.rs`, `my_gateway`).

An agent asks which gateway to attach to, and a session is placed on the gateway
its machine is attached to.  Both queries look only at gateways below their
capacity, while the load of a gateway is the number of its tunnels: the last agent
that fits takes its gateway out of both (`full_gateway_unplaceable`).
-/
import NebulaDesk.Lib.Query

namespace NebulaDesk

/-- A row of `gateways`. -/
structure GatewayRow where
  id : ℕ
  quicAddr : String
  certPin : String
  region : String
  capacity : ℕ
  /-- The number of attached tunnels, as the gateway last reported it. -/
  load : ℕ
  /-- Seconds. -/
  lastSeenAt : ℤ
deriving DecidableEq, Repr

/-- A row of `machines`, as placement reads it. -/
structure PlacedMachine where
  id : ℕ
  region : String
  gatewayId : Option ℕ
deriving DecidableEq, Repr

/-- How long a node may go unheard-from, in seconds. -/
def nodeLiveness : ℤ := 90

structure PlacementDb where
  gateways : List GatewayRow
  machines : List PlacedMachine
  now : ℤ
deriving DecidableEq

namespace PlacementDb

/-- A node that has reported recently. -/
def alive (db : PlacementDb) (g : GatewayRow) : Bool := db.now - nodeLiveness < g.lastSeenAt

/-- The gateways that `g.load < g.capacity AND alive` joins. -/
def candidates (db : PlacementDb) : List GatewayRow :=
  db.gateways.filter fun g => g.load < g.capacity && db.alive g

/-- `m.id IS NULL` of the left join. -/
def elsewhere (me : PlacedMachine) (g : GatewayRow) : Bool := me.gatewayId ≠ some g.id

def abroad (me : PlacedMachine) (g : GatewayRow) : Bool := g.region ≠ me.region

/-- Where `pick_gateway` orders a gateway: the attached one first. -/
def pickKey (me : PlacedMachine) (g : GatewayRow) : Bool ×ₗ Bool ×ₗ ℕ :=
  toLex (elsewhere me g, toLex (abroad me g, g.load))

/-- Where `my_gateway` orders a gateway: the region first. -/
def assignKey (me : PlacedMachine) (g : GatewayRow) : Bool ×ₗ Bool ×ₗ ℕ :=
  toLex (abroad me g, toLex (elsewhere me g, g.load))

/-- What a placement query may answer; `none` is the conflict "no gateway has
capacity right now". -/
def Places (key : PlacedMachine → GatewayRow → Bool ×ₗ Bool ×ₗ ℕ) (db : PlacementDb) (machine : ℕ)
    (answer : Option GatewayRow) : Prop :=
  match db.machines.find? (·.id = machine) with
  | none => answer = none
  | some me => Query.FirstBy (key me) db.candidates answer

def PickGateway : PlacementDb → ℕ → Option GatewayRow → Prop := Places pickKey

/-- The gateway an agent is told to attach to. -/
def MyGateway : PlacementDb → ℕ → Option GatewayRow → Prop := Places assignKey

/-- The agent's tunnel is verified: `heartbeat` records its gateway. -/
def attach (db : PlacementDb) (machine gateway : ℕ) : PlacementDb :=
  { db with machines := db.machines.map fun m =>
      if m.id = machine then { m with gatewayId := some gateway } else m }

def report (db : PlacementDb) (gateway load : ℕ) : PlacementDb :=
  { db with gateways := db.gateways.map fun g =>
      if g.id = gateway then { g with load := load, lastSeenAt := db.now } else g }

variable {db : PlacementDb}

theorem mem_candidates {g : GatewayRow} :
    g ∈ db.candidates ↔ g ∈ db.gateways ∧ g.load < g.capacity ∧ db.alive g = true := by
  simp [candidates]

theorem pickKey_lt {me : PlacedMachine} {g other : GatewayRow} (hg : me.gatewayId = some g.id)
    (hne : other.id ≠ g.id) : pickKey me g < pickKey me other := by
  have hhere : elsewhere me g = false := by simp [elsewhere, hg]
  have hother : elsewhere me other = true := by
    simp only [elsewhere, hg, decide_eq_true_eq]
    intro heq
    exact hne (Option.some.inj heq).symm
  rw [pickKey, pickKey, hhere, hother]
  exact Prod.Lex.toLex_lt_toLex.mpr (.inl Bool.false_lt_true)

/-- The machine `me` has its control tunnel at the living gateway `g`, whose load
counts its tunnels, with at most as many as its capacity. -/
structure Attached (db : PlacementDb) (me : PlacedMachine) (g : GatewayRow)
    (tunnels : Finset ℕ) : Prop where
  ids : ∀ a ∈ db.gateways, ∀ b ∈ db.gateways, a.id = b.id → a = b
  found : db.machines.find? (·.id = me.id) = some me
  mem : g ∈ db.gateways
  gateway : me.gatewayId = some g.id
  alive : db.alive g = true
  tunnel : me.id ∈ tunnels
  load : g.load = tunnels.card
  capacity : tunnels.card ≤ g.capacity

variable {me : PlacedMachine} {g : GatewayRow} {tunnels : Finset ℕ}

theorem places_iff {key : PlacedMachine → GatewayRow → Bool ×ₗ Bool ×ₗ ℕ}
    (hme : db.machines.find? (·.id = me.id) = some me) (answer : Option GatewayRow) :
    Places key db me.id answer ↔ Query.FirstBy (key me) db.candidates answer := by
  unfold Places
  rw [hme]

/-- A session is placed where its machine is, whatever the query answers, if and
only if the gateway has fewer tunnels than its capacity. -/
theorem session_placed_iff (h : Attached db me g tunnels) :
    (∀ answer, PickGateway db me.id answer → answer = some g) ↔ g.load < g.capacity := by
  constructor
  · intro hall
    -- The query has an answer, and it is among the candidates.
    have hanswer := Query.firstBy_spec (pickKey me) db.candidates
    have heq := hall _ ((places_iff h.found _).mpr hanswer)
    rw [heq] at hanswer
    exact (mem_candidates.mp hanswer.mem).2.1
  · intro hlt answer hanswer
    refine ((places_iff h.found answer).mp hanswer).eq_some
      (mem_candidates.mpr ⟨h.mem, hlt, h.alive⟩) ?_
    intro other hother hne
    refine pickKey_lt h.gateway ?_
    intro hid
    exact hne (h.ids other (mem_candidates.mp hother).1 g h.mem hid)

/-- A gateway for `capacity` agents that has heard from none. -/
def sampleGateway (capacity load : ℕ) : GatewayRow :=
  { id := 7, quicAddr := "10.0.0.7:4433", certPin := "pin", region := "default", capacity, load,
    lastSeenAt := 1000 }

def sampleMachine : PlacedMachine := { id := 1, region := "default", gatewayId := none }

def samplePlacement (capacity : ℕ) : PlacementDb :=
  { gateways := [sampleGateway capacity 0], machines := [sampleMachine], now := 1000 }

/-- The agent has attached and the gateway has reported its only tunnel. -/
def sampleAttached (capacity : ℕ) : PlacementDb := ((samplePlacement capacity).attach 1 7).report 7 1

theorem sampleAttached_attached (capacity : ℕ) (hcap : 1 ≤ capacity) :
    Attached (sampleAttached capacity) { sampleMachine with gatewayId := some 7 }
      (sampleGateway capacity 1) {1} := by
  refine ⟨?_, rfl, ?_, rfl, ?_, ?_, rfl, hcap⟩
  · intro a ha b hb _
    rw [List.mem_singleton.mp ha, List.mem_singleton.mp hb]
  · exact List.mem_singleton.mpr rfl
  · simp [PlacementDb.alive, sampleAttached, samplePlacement, attach, report, sampleGateway,
      nodeLiveness]
  · exact Finset.mem_singleton_self 1

/-- Room for a second agent: the session goes to the machine's gateway. -/
theorem session_placed_with_headroom :
    (sampleGateway 2 1).load < (sampleGateway 2 1).capacity ∧
      ∀ answer, PickGateway (sampleAttached 2) 1 answer → answer = some (sampleGateway 2 1) := by
  have hlt : (sampleGateway 2 1).load < (sampleGateway 2 1).capacity := by decide
  exact ⟨hlt, (session_placed_iff (sampleAttached_attached 2 (by decide))).mpr hlt⟩

/-- The only place of a gateway is handed out by `my_gateway`; with its agent there
the gateway is full, and the agent's sessions find no gateway. -/
theorem full_gateway_unplaceable :
    MyGateway (samplePlacement 1) 1 (some (sampleGateway 1 0)) ∧
      Attached (sampleAttached 1) { sampleMachine with gatewayId := some 7 } (sampleGateway 1 1) {1} ∧
      ∀ answer, PickGateway (sampleAttached 1) 1 answer → answer = none := by
  refine ⟨⟨List.mem_singleton.mpr rfl, ?_⟩, sampleAttached_attached 1 le_rfl, ?_⟩
  · intro s hs
    rw [List.mem_singleton.mp hs]
  · intro answer hanswer
    cases answer with
    | none => rfl
    | some g =>
      have hmem : g ∈ (sampleAttached 1).candidates := hanswer.1
      exact absurd hmem (by simp [candidates, sampleAttached, samplePlacement, attach, report,
        sampleGateway])

end PlacementDb

end NebulaDesk
