/-
An application session of the client (`nebula-client/src/application.rs`).

The windows and the network task run side by side.  The windows queue commands
under the generation they have last been told; the network task applies the
agent's lifecycle messages to its registry, tells the windows, and sends a queued
command only if the registry has its surface in just that generation.  Whatever
ends a session, a full queue among it, is `stop`: disconnecting releases what the
session owned at the agent.
-/
import NebulaDesk.Client.AppTurns

namespace NebulaDesk

open Presses Runs

structure AppSession where
  inputAllowed : Bool
  app : App
  outbound : List ApplicationMessage
  network : ClientSurfaces
  updates : List Update
  /-- The commands the agent has been sent. -/
  sent : List ApplicationMessage
  ended : Bool

inductive AppAct
  | window (id : ℕ) (event : WindowEvent)
  | wait (id : ℕ) (resize : Option (ℕ × ℕ)) (minimized : Option Bool)
  /-- The windows hear of the oldest update. -/
  | drain
  /-- The network task takes the oldest command. -/
  | command
  | lifecycle (message : ApplicationMessage)
  | stop

namespace AppSession

/-- After the agent's hello. -/
def start (inputAllowed : Bool) (app : App) (registry : SurfaceRegistry) (os : ApplicationHostOs) :
    AppSession :=
  ⟨inputAllowed, { app with surfaces := fun _ => none }, [], ⟨registry, ∅⟩, [.host os], [], false⟩

/-- `send`: without the right to input nothing is queued. -/
def queued (s : AppSession) (messages : List ApplicationMessage) : List ApplicationMessage :=
  if s.inputAllowed then messages else []

def isKeyframeRequest : ApplicationMessage → Bool
  | .requestKeyframe _ _ => true
  | _ => false

/-- Whether the network task sends a command on. -/
def passes (s : AppSession) (c : ApplicationMessage) : Bool :=
  (match s.network.registry.validateCommand c with
    | .ok _ => true
    | .error _ => false) && (s.inputAllowed || isKeyframeRequest c)

/-- A message of the agent, and the update the windows are told. -/
def receive (s : AppSession) : ApplicationMessage → AppSession
  | .surfaceUnavailable id _ =>
    if id ∈ s.network.pixels then { s with updates := s.updates ++ [.unavailable id] }
    else { s with ended := true }
  | .surfaceUpsert info =>
    match s.network.onUpsert info with
    | .ok network => { s with network := network, updates := s.updates ++ [.upsert info] }
    | .error _ => { s with ended := true }
  | .surfaceRemove id =>
    match s.network.onRemove id with
    | .ok network => { s with network := network, updates := s.updates ++ [.remove id] }
    | .error _ => { s with ended := true }
  | _ => { s with ended := true }

/-- What the windows do and send, for the acts that are theirs. -/
def turn (s : AppSession) : AppAct → Option (App × List ApplicationMessage)
  | .window id event =>
    -- a viewer may end its connection, but cannot close a remote document
    if !s.inputAllowed && event.isClose then none
    else
      let r := s.app.windowEvent id event
      some (r.1, s.queued r.2)
  | .wait id resize minimized =>
    let r := s.app.aboutToWait id resize minimized
    some (r.1, s.queued r.2)
  | .drain => s.updates.head?.map fun update => s.app.apply update
  | _ => none

/-- One act of the windows, of the network task or of the agent. -/
def step (s : AppSession) (act : AppAct) : Option AppSession :=
  if s.ended then none
  else
    match act with
    | .window _ _ | .wait _ _ _ =>
      (s.turn act).map fun r => { s with app := r.1, outbound := s.outbound ++ r.2 }
    | .drain =>
      (s.turn act).map fun r =>
        { s with app := r.1, outbound := s.outbound ++ r.2, updates := s.updates.tail }
    | .command =>
      match s.outbound with
      | [] => none
      | c :: rest => some { s with
          outbound := rest
          sent := if s.passes c then s.sent ++ [c] else s.sent }
    | .lifecycle message => some (s.receive message)
    | .stop => some { s with ended := true }

def down (s : AppSession) (id : ℕ) : Finset InputKey := leaves ∅ (strokes id s.sent)

def isRelease (id : ℕ) (c : ApplicationMessage) : Bool :=
  match c.press id with
  | some (.up _) => true
  | _ => false

/-- A release under a generation that is not the one the network task has accepted. -/
def staleRelease (s : AppSession) (c : ApplicationMessage) : Bool :=
  match c.commandTarget with
  | none => false
  | some (id, generation) =>
    isRelease id c &&
      match s.network.registry.live[id]? with
      | none => false
      | some info => info.geometryGeneration ≠ generation

/-- The races: a release is sent before the window has heard of the generation the
network task has accepted, or a new generation is accepted while one is waiting. -/
def races (s : AppSession) : AppAct → Bool
  | .lifecycle (.surfaceUpsert info) =>
    match s.network.registry.live[info.surfaceId]? with
    | none => false
    | some previous => previous.geometryGeneration ≠ info.geometryGeneration &&
        s.outbound.any (isRelease info.surfaceId)
  | act =>
    match s.turn act with
    | none => false
    | some r => r.2.any s.staleRelease

def stepWithin (s : AppSession) (act : AppAct) : Option AppSession :=
  if s.races act then none else s.step act

end AppSession

end NebulaDesk
