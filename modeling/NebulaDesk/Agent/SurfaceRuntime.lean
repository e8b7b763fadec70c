/-
The worker of an application's surfaces (`nebula-agent/src/application.rs`).

`Runtime.refresh` takes a snapshot from the backend, follows what changed, and then attends to
every live surface: it suspends the capture of one that is unavailable, resumes it when a retry
was scheduled, and starts what has no capture.  What the backend answers in one refresh is a
`RefreshInput`, with the time at which each surface is looked at and the room in the queue of
events.  Of a source the model keeps whether its frames keep their provenance; input, keyframe
requests and changes of bitrate leave no trace in the state.
-/
import NebulaDesk.Agent.FrameSink
import NebulaDesk.Agent.SurfacesRuns
import NebulaDesk.Lib.Command

namespace NebulaDesk

open Std (ExtTreeMap)

structure VideoConfig where
  width : ℕ
  height : ℕ
  fps : ℕ
  bitrate : ℕ

/-- A source of native video, and how its `start` goes. -/
structure SurfaceSource where
  preservesFrameProvenance : Bool
  start : VideoConfig → Except String Unit

structure ApplicationBackend where
  snapshot : Except String (List NativeSurface)
  unavailable : Finset ℕ
  /-- Whether a revision, from one generation to another, only resumes the same geometry. -/
  canResumeCapture : ℕ → ℕ → ℕ → Bool
  video : ℕ → Except String SurfaceSource

structure RefreshInput extends ApplicationBackend where
  /-- The time when a surface is looked at, by its id. -/
  now : ℕ → ℕ
  /-- How many more events fit the queue. -/
  room : ℕ

inductive WorkerEvent
  | metadata (message : ApplicationMessage)
  | surfaceFailed (id : ℕ)
deriving DecidableEq

structure SurfaceCapture where
  capture : Capture
  preserves : Bool
deriving DecidableEq

/-- Whether a resumed capture has come to its deadline without a keyframe; the deadline goes when
there is nothing to wait for. -/
def Capture.warmResumeStalled (now : ℕ) (c : Capture) : Bool × Capture :=
  match c.resumeDeadline with
  | none => (false, c)
  | some (epoch, deadline) =>
    if c.deliveryEpoch ≠ epoch ∨ c.producedKeyframe ≥ epoch then
      (false, { c with resumeDeadline := none })
    else (deadline ≤ now, c)

structure Runtime where
  surfaces : Surfaces
  captures : ExtTreeMap ℕ SurfaceCapture
  retry : ExtTreeMap ℕ ℕ
  bitrate : ℕ
  events : List WorkerEvent
  room : ℕ

/-- What a method of the worker does: an error ends the worker. -/
abbrev Refresh : Type → Type := Cmd Runtime Failure

namespace Runtime

def start (bitrate : ℕ) : Runtime := ⟨.new, ∅, ∅, bitrate, [], 0⟩

def surfaceBitrate (r : Runtime) : ℕ := max (r.bitrate / max r.surfaces.live.size 1) 1

def setCapture (id : ℕ) (c : SurfaceCapture) (r : Runtime) : Runtime :=
  { r with captures := r.captures.insert id c }

def removeCapture (id : ℕ) (r : Runtime) : Runtime :=
  { r with captures := r.captures.erase id }

def setRetry (id due : ℕ) (r : Runtime) : Runtime :=
  { r with retry := r.retry.insert id due }

def removeRetry (id : ℕ) (r : Runtime) : Runtime :=
  { r with retry := r.retry.erase id }

/-- `try_send` on the queue of events. -/
def send (event : WorkerEvent) : Refresh Unit := fun r =>
  if r.room = 0 then (.error (.text "application lifecycle queue stalled"), r)
  else (.ok (), { r with room := r.room - 1, events := r.events ++ [event] })

def sendIf (c : Bool) (event : WorkerEvent) : Refresh Unit := if c then send event else pure ()

/-- `self.surfaces.live[&id].native_id`. -/
def nativeOf (id : ℕ) : Refresh ℕ := Cmd.get fun r =>
  match r.surfaces.live[id]? with
  | none => .error (.panic "no entry found for key")
  | some surface => .ok surface.nativeId

def scheduled (id : ℕ) : Refresh Bool := Cmd.get fun r => .ok (r.retry.contains id)

/-! ### What changed -/

/-- What becomes of the capture of a surface that is announced. -/
def follow (b : ApplicationBackend) (native : ℕ) (surface : SurfaceInfo) (r : Runtime) : Runtime :=
  match r.captures[surface.surfaceId]? with
  | none => r
  | some c =>
    let restart := c.capture.generation ≠ surface.geometryGeneration &&
      !b.canResumeCapture native c.capture.generation surface.geometryGeneration
    if surface.minimized || restart then r.removeCapture surface.surfaceId
    else if c.capture.generation ≠ surface.geometryGeneration then
      r.setCapture surface.surfaceId
        { c with capture := c.capture.pause.retag surface.geometryGeneration }
    else r

def followChange (b : ApplicationBackend) : ApplicationMessage → Refresh Unit
  | .surfaceRemove id => Cmd.modify fun r => (r.removeCapture id).removeRetry id
  | .surfaceUpsert surface => do
    let native ← nativeOf surface.surfaceId
    Cmd.modify (follow b native surface)
  | _ => pure ()

def apply (b : ApplicationBackend) (change : ApplicationMessage) : Refresh Unit := do
  followChange b change
  send (.metadata change)

/-! ### Every live surface -/

/-- An unavailable surface is suspended, and looked at again as soon as possible. -/
def suspend (now id : ℕ) : Refresh Unit := do
  Cmd.modify fun r =>
    match r.captures[id]? with
    | none => r
    | some c => r.setCapture id { c with capture := c.capture.pause }
  sendIf (!(← scheduled id)) (.surfaceFailed id)
  Cmd.modify (setRetry id now)

/-- A source that does not keep provenance is not resumed. -/
def dropUnproven (id : ℕ) (r : Runtime) : Runtime :=
  if r.retry.contains id && r.captures[id]?.any (!·.preserves) then r.removeCapture id else r

def dropStalled (now id : ℕ) (r : Runtime) : Runtime :=
  match r.captures[id]? with
  | none => r
  | some c =>
    if (c.capture.warmResumeStalled now).1 then r.removeCapture id
    else r.setCapture id { c with capture := (c.capture.warmResumeStalled now).2 }

/-- `retry.remove(&id).is_some()`, and then the surface is announced again. -/
def announceRetried (id : ℕ) (surface : SurfaceInfo) : Refresh Bool := do
  let retried ← scheduled id
  Cmd.modify (removeRetry id)
  sendIf retried (.metadata (.surfaceUpsert surface))
  return retried

def startCapture (b : ApplicationBackend) (id : ℕ) (surface : SurfaceInfo) :
    Refresh (Except String Unit) := do
  let native ← nativeOf id
  match b.video native with
  | .error e => return .error e
  | .ok source =>
    let bitrate ← Cmd.get fun r => .ok r.surfaceBitrate
    match source.start ⟨surface.width, surface.height, 30, bitrate⟩ with
    | .error e => return .error e
    | .ok () =>
      Cmd.modify (setCapture id ⟨.new surface.geometryGeneration, source.preservesFrameProvenance⟩)
      return .ok ()

/-- Two looks at a surface whose capture did not start. -/
def retryInterval : ℕ := 1000000000

def tryStart (b : ApplicationBackend) (now id : ℕ) (surface : SurfaceInfo) : Refresh Unit := do
  let waiting ← Cmd.get fun r => .ok (r.retry[id]?.any (now < ·))
  if surface.minimized || waiting then pure ()
  else
    match ← startCapture b id surface with
    | .ok () => do
      let _ ← announceRetried id surface
    | .error _ => do
      sendIf (!(← scheduled id)) (.surfaceFailed id)
      Cmd.modify (setRetry id (now + retryInterval))

/-- One turn of the loop over the live surfaces. -/
def attend (w : RefreshInput) (id : ℕ) : Refresh Unit := do
  let native ← nativeOf id
  if native ∈ w.unavailable then suspend (w.now id) id
  else do
    let surface ← Cmd.get fun r =>
      match r.surfaces.registry.live[id]? with
      | none => .error (.panic "live surface")
      | some surface => .ok surface
    Cmd.modify fun r => dropStalled (w.now id) id (dropUnproven id r)
    match ← Cmd.get fun r => .ok r.captures[id]? with
    | some c => do
      if ← announceRetried id surface then
        Cmd.modify (setCapture id { c with capture := c.capture.resume (w.now id) })
    | none => tryStart w.toApplicationBackend (w.now id) id surface

def reconcile (snapshot : List NativeSurface) : Refresh (List ApplicationMessage) := fun r =>
  ((r.surfaces.reconcile snapshot).1,
    { r with surfaces := (r.surfaces.reconcile snapshot).2 })

def refresh (w : RefreshInput) : Refresh Unit := do
  Cmd.modify fun r => { r with room := w.room }
  let snapshot ← Cmd.ofExcept (w.snapshot.mapError .text)
  let changes ← reconcile snapshot
  changes.forM (apply w.toApplicationBackend)
  let ids ← Cmd.get fun r => .ok r.surfaces.live.keys
  ids.forM (attend w)

/-- The captures whose frames are no longer forwarded are given up. -/
def reap (finished : List ℕ) (now : ℕ) : Refresh Unit := do
  let ended ← Cmd.get fun r => .ok (finished.filter r.captures.contains)
  ended.forM fun id => send (.surfaceFailed id)
  ended.forM fun id => Cmd.modify fun r => (r.removeCapture id).setRetry id (now + retryInterval)

/-- A keyframe of a surface is on its way. -/
def noteFrame (id : ℕ) (frame : EncodedFrame) (epoch : ℕ) (r : Runtime) : Runtime :=
  match r.captures[id]? with
  | none => r
  | some c => r.setCapture id { c with capture := c.capture.noteFrame frame epoch }

end Runtime

/-- What happens to a worker. -/
inductive RuntimeAction
  | refresh (w : RefreshInput)
  | reap (finished : List ℕ) (now room : ℕ)
  | frame (id : ℕ) (frame : EncodedFrame) (epoch : ℕ)

namespace Runtime

/-- The state after a command that succeeded; the worker ends at an error. -/
def after (command : Refresh Unit) (r : Runtime) : Option Runtime :=
  match command r with
  | (.ok (), r') => some r'
  | (.error _, _) => none

/-- The capture of a surface is taken over to a new generation only where it is suspended or a retry
is scheduled. -/
def resumes (w : RefreshInput) (r : Runtime) (surface : NativeSurface) : Bool :=
  match r.surfaces.native[surface.nativeId]? with
  | none => true
  | some id =>
    match r.captures[id]? with
    | none => true
    | some c =>
      c.capture.generation = surface.geometryGeneration || surface.minimized ||
        !w.canResumeCapture surface.nativeId c.capture.generation surface.geometryGeneration ||
        r.retry.contains id || surface.nativeId ∈ w.unavailable

/-- Every surface of the snapshot is so. -/
def resumesAll (w : RefreshInput) (r : Runtime) : Bool :=
  match w.snapshot with
  | .error _ => true
  | .ok snapshot => snapshot.all (resumes w r)

def step (r : Runtime) : RuntimeAction → Option Runtime
  | .refresh w => r.after (refresh w)
  | .reap finished now room => { r with room := room }.after (reap finished now)
  | .frame id frame epoch => some (r.noteFrame id frame epoch)

/-- A step whose refresh takes captures over only so. -/
def stepResuming (r : Runtime) : RuntimeAction → Option Runtime
  | .refresh w => if resumesAll w r then r.step (.refresh w) else none
  | action => r.step action

end Runtime

end NebulaDesk
