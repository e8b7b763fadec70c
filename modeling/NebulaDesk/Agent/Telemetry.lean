/-
What the file engine tells its consumer (`nebula-agent/src/files.rs`, `record_update`,
`flush_updates_at` and the calls that report).

The engine keeps the last update of every transfer until a flush; progress waits for the
interval, everything else is sent at once.  An id that a peer offers again, once the
transfer of that id has ended, begins a new transfer of the same key: what is published of a key
is told apart by how many offers of it have begun (`life`).
-/
import NebulaDesk.Agent.FilesSpec

namespace NebulaDesk

/-- A transfer id is unique within its direction, not across both peers. -/
def TransferUpdate.key (u : TransferUpdate) : TransferDirection × ℕ := (u.direction, u.id)

def TransferState.terminal : TransferState → Bool
  | .complete | .failed => true
  | .offered | .transferring => false

/-- `v` may be reported of a transfer after `u`. -/
structure TransferUpdate.Later (u v : TransferUpdate) : Prop where
  moving : u.state.terminal = false
  progress : u.transferred ≤ v.transferred
  state : v.state ≠ .offered

/-- What is reported of a transfer first: that it was offered, or that it never was. -/
structure TransferUpdate.Initial (u : TransferUpdate) : Prop where
  transferred : u.transferred = 0
  state : u.state = .offered ∨ u.state = .failed

namespace FileTransfers

/-- A local file that is not even offered. -/
def rejectLocal (ft : FileTransfers) (source : Source) (error : String) : FileTransfers :=
  { ft with nextId := ft.nextId + 1 }.localFailure ft.nextId source error

/-- `TELEMETRY_INTERVAL`, in milliseconds. -/
def telemetryInterval : ℕ := 100

/-- The updates that a flush keeps for later. -/
def deferred (progressDue : Bool) (u : TransferUpdate) : Bool :=
  u.state = .transferring && !progressDue

end FileTransfers

open FileTransfers

/-- The engine of a session, and what its consumer has got from it. -/
structure Telemetry where
  files : FileTransfers
  world : World
  lastTelemetry : ℕ
  /-- How many offers of an id have begun a transfer or been declined; not part of the code. -/
  offers : ℕ → ℕ
  /-- Everything sent to the consumer, with the life of its key. -/
  published : List (ℕ × TransferUpdate)

inductive TelemetryOp
  | call (op : FileOp)
  | rejectLocal (source : Source) (error : String)
  | flush (now : ℕ) (closed : Bool)

namespace Telemetry

def new (downloads : PathBuf) (enabled : Bool) (world : World) (now : ℕ) : Telemetry :=
  ⟨FileTransfers.new downloads enabled, world, now, fun _ => 0, []⟩

/-- Which of the transfers with a key is the last.  The ids of the own sends are never used
again. -/
def life (s : Telemetry) : TransferDirection × ℕ → ℕ
  | (.send, _) => 0
  | (.receive, id) => s.offers id

/-- An offer of an id that is not being received begins a life of its key. -/
def offersAfter (s : Telemetry) : FileOp → ℕ → ℕ
  | .offer _ offer =>
    if s.files.receiving.contains offer.transferId then s.offers
    else Function.update s.offers offer.transferId (s.offers offer.transferId + 1)
  | _ => s.offers

def call (p : Platform) (s : Telemetry) (op : FileOp) : Telemetry :=
  let done := FileTransfers.apply p (s.files, s.world) op
  { s with files := done.2.1, world := done.2.2, offers := s.offersAfter op }

/-- `flush_updates_at`. -/
def flushUpdatesAt (s : Telemetry) (now : ℕ) (closed : Bool) : Telemetry :=
  if closed then { s with files := { s.files with updates := [] } }
  else
    let progressDue : Bool := now - s.lastTelemetry ≥ telemetryInterval
    let sent := s.files.updates.filter fun u => !deferred progressDue u
    { s with
      files := { s.files with updates := s.files.updates.filter (deferred progressDue) }
      published := s.published ++ sent.map fun u => (s.life u.key, u)
      lastTelemetry := if progressDue then now else s.lastTelemetry }

def step (p : Platform) (s : Telemetry) : TelemetryOp → Telemetry
  | .call op => s.call p op
  | .rejectLocal source error => { s with files := s.files.rejectLocal source error }
  | .flush now closed => s.flushUpdatesAt now closed

/-! ### What is promised of every run -/

/-- What has been published of one life of a key. -/
def of (s : Telemetry) (key : TransferDirection × ℕ) (life : ℕ) : List TransferUpdate :=
  (s.published.filter fun p => p.2.key = key && p.1 = life).map Prod.snd

structure Orderly (s : Telemetry) : Prop where
  /-- Of one transfer nothing follows a terminal state, no progress is smaller than one before
  it, and only the first update can be the offer. -/
  published : ∀ key life, (s.of key life).Pairwise TransferUpdate.Later
  /-- There is at most one update of a key to be sent. -/
  pending : (s.files.updates.map TransferUpdate.key).Nodup
  /-- Own sends have one life. -/
  lives : ∀ p ∈ s.published, p.1 ≤ s.life p.2.key

/-- A key has begun a new life between two states. -/
def Begun (s s' : Telemetry) (key : TransferDirection × ℕ) : Prop :=
  (key.1 = .send ∧ s.files.nextId ≤ key.2 ∧ key.2 < s'.files.nextId) ∨ s'.life key ≠ s.life key

/-- What one call or flush does to what is waiting to be sent. -/
structure Kept (s : Telemetry) (op : TelemetryOp) (s' : Telemetry) : Prop where
  /-- No call takes an update away but for a later one of its transfer, another transfer of its
  key, or because there are too many, when the older ones are gone: a terminal state stays. -/
  coalesced : (∀ now closed, op ≠ .flush now closed) → ∀ before u after,
    s.files.updates = before ++ u :: after →
      Begun s s' u.key ∨ (∃ v ∈ s'.files.updates, v.key = u.key ∧ (v = u ∨ u.Later v)) ∨
        s'.files.updates.length = maxUpdates ∧ ∀ v ∈ before, v ∉ s'.files.updates
  /-- When a transfer begins its initial state waits, and nothing of it has been published. -/
  begins : ∀ key, Begun s s' key →
    (∃ v ∈ s'.files.updates, v.key = key ∧ v.Initial) ∧ s'.of key (s'.life key) = []
  /-- A flush sends what waits, but progress that is not due. -/
  flushed : ∀ now, op = .flush now false → ∀ u ∈ s.files.updates,
    (s.life u.key, u) ∈ s'.published ∨
      (u.state = .transferring ∧ now - s.lastTelemetry < telemetryInterval ∧
        u ∈ s'.files.updates)

end Telemetry

end NebulaDesk
