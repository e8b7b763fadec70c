/-
The native sessions of the desktop (`nebula-desktop/src/sessions.rs`) and the requests that start
and end them (`nebula-desktop/src/lib.rs`, `invalidate`, `authenticate`, `Connect` and
`DisconnectSession`).

A session is a child process with a task that serves it, and an entry in the registry.  An
invalidation holds the authentication until the sessions have ended; a `Connect` holds the
gate from its look at the registry to the new entry, and the authentication while it adds it.
-/
import NebulaDesk.Lib.Runs

namespace NebulaDesk

namespace Sessions

def MAX_SESSIONS : ℕ := 32

/-! ### Fixed guidance -/

def REMOTE_SESSION_ENDED : String :=
  "The remote session ended unexpectedly. Check screen recording permission and sharing on the " ++
    "remote computer."

def APPLICATION_START_FAILED : String :=
  "The remote application could not start. Ask its publisher to check the application " ++
    "configuration and try again."

def APPLICATION_BACKEND_UNAVAILABLE : String :=
  "Application-only windows are unavailable on the remote computer. Update the remote agent or " ++
    "ask its publisher to check application-window support."

def APPLICATION_PERMISSION_REQUIRED : String :=
  "The remote application needs screen recording or accessibility permission. Ask its publisher " ++
    "to check permissions on the remote computer, then try again."

def isSafeSessionError (message : String) : Bool :=
  message = REMOTE_SESSION_ENDED || message = APPLICATION_START_FAILED ||
    message = APPLICATION_BACKEND_UNAVAILABLE || message = APPLICATION_PERMISSION_REQUIRED

/-! ### What the manager sends -/

inductive Kind
  | desktop
  | app
deriving DecidableEq

inductive KeyboardProfile
  | physical
  | editing
  | terminal
deriving DecidableEq

structure Resource where
  id : ℕ
  kind : Kind
  launchSupported : Bool
deriving DecidableEq

structure Policy where
  audio : Bool
  clipboard : Bool
  fileTransfer : Bool
deriving DecidableEq

structure Ticket where
  sessionId : ℕ
  policy : Policy
  applicationWindows : Bool
deriving DecidableEq

/-! ### Sessions and their children -/

inductive State
  | connecting
  | connected
  | disconnected
  | failed
deriving DecidableEq

def State.active : State → Bool
  | .connecting | .connected => true
  | .disconnected | .failed => false

inductive ConnectionPath
  | direct
  | relay
deriving DecidableEq

/-- The view in a registry entry. -/
structure Session where
  resourceId : ℕ
  state : State
  path : Option ConnectionPath
  error : Option String
deriving DecidableEq

inductive ChildEvent
  | state (state : State) (path : Option ConnectionPath) (error : Option String)
  /-- `Metrics` and `Transfer`. -/
  | other
deriving DecidableEq

/-- Where the task of a session is. -/
inductive Phase
  | launching
  | serving
  /-- The loop has been left; the child has been told and is waited for. -/
  | closing (failed : Bool)
  | reaped (failed : Bool)
  | finished
deriving DecidableEq

/-- A child process and its task.  `account` is the one whose `Connect` has started it. -/
structure Child where
  account : ℕ
  phase : Phase
  /-- The process runs. -/
  running : Bool
  /-- Two cancellation tokens. -/
  stop : Bool
  done : Bool
deriving DecidableEq

/-! ### Requests -/

inductive Purpose
  | signIn
  | signOut
deriving DecidableEq

/-- What a `Connect` is about, with its account and the generation of its token. -/
structure Connect where
  account : ℕ
  generation : ℕ
  resourceId : ℕ
  profile : KeyboardProfile
deriving DecidableEq

inductive Task
  | idle
  /-- Holds the authentication, and has cancelled the token. -/
  | invalidating (purpose : Purpose)
  /-- `stop_all` waits for the sessions it has stopped. -/
  | stopping (purpose : Purpose) (ids : List ℕ)
  | authenticating (generation : ℕ)
  /-- Waits for the authentication. -/
  | installing (generation : ℕ)
  /-- Waits for the gate. -/
  | gating (connect : Connect)
  | looking (connect : Connect)
  | fetching (connect : Connect)
  /-- Has its ticket and waits for the authentication. -/
  | locking (connect : Connect) (resource : Resource) (ticket : Ticket)
  | starting (connect : Connect) (resource : Resource) (ticket : Ticket)
  | disconnecting (id : ℕ)
  | done
deriving DecidableEq

/-- What a request goes on with after its invalidation. -/
def Purpose.next (generation : ℕ) : Purpose → Task
  | .signIn => .authenticating generation
  | .signOut => .done

inductive Event
  /-- `invalidate`, up to `stop_all`. -/
  | invalidate (c : ℕ) (purpose : Purpose)
  | stopAll (c : ℕ)
  | invalidated (c : ℕ)
  | authenticated (c : ℕ) (ok : Bool)
  | install (c : ℕ)
  | connect (c resourceId : ℕ) (profile : KeyboardProfile)
  | gate (c : ℕ)
  | existing (c : ℕ)
  | fetched (c : ℕ) (resource : Resource) (ticket : Ticket)
  /-- A request of a `Connect` fails. -/
  | unfetched (c : ℕ)
  /-- A `Connect` sees its token cancelled. -/
  | cancelled (c : ℕ)
  | lockAuth (c : ℕ)
  | start (c : ℕ) (spawned : Bool)
  | disconnect (c id : ℕ)
  | disconnected (c : ℕ)
  | launched (id : ℕ) (ok : Bool)
  | line (id : ℕ) (event : ChildEvent)
  /-- The loop is left without a terminal event; `ended` if the output has ended well. -/
  | leave (id : ℕ) (ended : Bool)
  | stopped (id : ℕ)
  | exit (id : ℕ)
  /-- `child.wait()` returns; `none` if it fails, which it does only of a process that is
  gone. -/
  | reap (id : ℕ) (success : Option Bool)
  /-- The wait times out, and the process is killed: `kill` succeeds on a child. -/
  | kill (id : ℕ)
  | finish (id : ℕ)
  | close (id : ℕ)
deriving DecidableEq

inductive Code
  | protocol
  | limit
  | clientUnavailable
deriving DecidableEq

end Sessions

open Sessions

/-- The desktop. -/
structure Sessions where
  generation : ℕ
  /-- The generation of the last invalidation that has returned. -/
  returned : ℕ
  /-- The account in `auth`; its number is the generation of its sign-in. -/
  account : Option ℕ
  /-- Who holds `auth` across an `await`. -/
  auth : Option ℕ
  connectGate : Option ℕ
  registry : List (ℕ × Session)
  children : ℕ → Option Child
  tasks : ℕ → Task
  /-- The session ids of the tickets that the manager has issued. -/
  issued : List ℕ

namespace Sessions

def new : Sessions where
  generation := 0
  returned := 0
  account := none
  auth := none
  connectGate := none
  registry := []
  children := fun _ => none
  tasks := fun _ => .idle
  issued := []

def setTask (s : Sessions) (c : ℕ) (task : Task) : Sessions :=
  { s with tasks := Function.update s.tasks c task }

def setChild (s : Sessions) (id : ℕ) (child : Child) : Sessions :=
  { s with children := Function.update s.children id (some child) }

/-- `e.done.is_cancelled()`. -/
def isDone (s : Sessions) (id : ℕ) : Bool := (s.children id).any (·.done)

/-- `stop.cancel()` for some of the sessions. -/
def stopAll (s : Sessions) (ids : List ℕ) : Sessions :=
  { s with
    children := fun id =>
      if id ∈ ids then (s.children id).map fun child => { child with stop := true }
      else s.children id }

/-- The ids in the registry. -/
def keys (s : Sessions) : List ℕ := s.registry.map (·.1)

/-- `get_mut`. -/
def modify (s : Sessions) (id : ℕ) (f : Session → Session) : Sessions :=
  { s with registry := s.registry.map fun e => if e.1 = id then (e.1, f e.2) else e }

/-! ### `Sessions` -/

def existing (s : Sessions) (resourceId : ℕ) : Option (ℕ × Session) :=
  s.registry.find? fun e => e.2.resourceId = resourceId && e.2.state.active

/-- The checks of `start` on what the manager has sent. -/
def launchable (resource : Resource) (ticket : Ticket) (profile : KeyboardProfile) : Bool :=
  !(!resource.launchSupported || decide (resource.kind = .app) != ticket.applicationWindows ||
    (!ticket.applicationWindows && decide (profile ≠ .physical)) ||
    (ticket.applicationWindows &&
      (ticket.policy.audio || ticket.policy.clipboard || ticket.policy.fileTransfer)))

/-- `start`; `spawned` if the child process could be created. -/
def start (s : Sessions) (account : ℕ) (resource : Resource) (ticket : Ticket)
    (profile : KeyboardProfile) (spawned : Bool) : Sessions × Except Code Session :=
  if !launchable resource ticket profile then (s, .error .protocol)
  else if MAX_SESSIONS ≤ (s.registry.filter fun e => !s.isDone e.1).length then (s, .error .limit)
  else
    let retained := { s with registry := s.registry.filter fun e => !s.isDone e.1 }
    if !spawned then (retained, .error .clientUnavailable)
    else
      let id := ticket.sessionId
      let view : Session :=
        { resourceId := resource.id, state := .connecting, path := none, error := none }
      ({ retained with
        registry := (id, view) :: retained.registry.filter (·.1 ≠ id)
        children := Function.update s.children id (some
          { account := account, phase := .launching, running := true, stop := false,
            done := false }) }, .ok view)

/-- What a `State` line does to the view. -/
def Session.report (view : Session) (state : State) (path : Option ConnectionPath)
    (error : Option String) : Session :=
  if view.state.active then
    { view with
      state := state
      path := path
      error := error.map fun message =>
        if isSafeSessionError message then message
        else "The native session reported an error." }
  else view

/-- `event`, without the transfers and the metrics; whether it was terminal. -/
def event (s : Sessions) (id : ℕ) : ChildEvent → Sessions × Bool
  | .state state path error =>
    (s.modify id fun view => view.report state path error, !state.active)
  | .other => (s, false)

/-- What `finish` does to the view. -/
def Session.finish (view : Session) (failed : Bool) : Session :=
  if view.state.active || failed then
    { view with
      state := if failed then .failed else .disconnected
      error :=
        if failed then some (view.error.getD "The native session ended unexpectedly.") else none }
  else view

/-! ### `Desktop` -/

/-- The loop of a session is left. -/
def leave (s : Sessions) (id : ℕ) (child : Child) (failed : Bool) : Sessions :=
  s.setChild id { child with phase := .closing failed }

/-- The gate of a `Connect` is dropped, and with it what it holds. -/
def giveUp (s : Sessions) (c : ℕ) : Sessions := { s with connectGate := none }.setTask c .done

def stepRequest (s : Sessions) : Event → Option Sessions
  | .invalidate c purpose =>
    if s.tasks c = .idle ∧ s.auth = none then
      some ({ s with generation := s.generation + 1, auth := some c }.setTask c
        (.invalidating purpose))
    else none
  | .stopAll c =>
    match s.tasks c with
    | .invalidating purpose =>
      some ((s.stopAll s.keys).setTask c (.stopping purpose s.keys))
    | _ => none
  | .invalidated c =>
    match s.tasks c with
    | .stopping purpose ids =>
      if ids.all s.isDone then
        let taken := { s with returned := s.generation, account := none, auth := none, registry := [] }
        some (taken.setTask c (purpose.next s.generation))
      else none
    | _ => none
  | .authenticated c ok =>
    match s.tasks c with
    | .authenticating g => some (s.setTask c (if ok then .installing g else .done))
    | _ => none
  | .install c =>
    match s.tasks c with
    | .installing g =>
      if s.auth = none then
        if s.generation = g then some ({ s with account := some g }.setTask c .done)
        else some (s.setTask c .done)
      else none
    | _ => none
  | .connect c resourceId profile =>
    if s.tasks c = .idle ∧ s.auth = none then
      match s.account with
      | none => some (s.setTask c .done)
      | some a => some (s.setTask c (.gating ⟨a, s.generation, resourceId, profile⟩))
    else none
  | .gate c =>
    match s.tasks c with
    | .gating connect =>
      if s.connectGate = none ∧ s.generation = connect.generation then
        some ({ s with connectGate := some c }.setTask c (.looking connect))
      else none
    | _ => none
  | .existing c =>
    match s.tasks c with
    | .looking connect =>
      if (s.existing connect.resourceId).isSome then some (s.giveUp c)
      else some (s.setTask c (.fetching connect))
    | _ => none
  | .fetched c resource ticket =>
    match s.tasks c with
    | .fetching connect =>
      -- The manager inserts the session, whose id is its primary key, before it answers.
      if s.generation = connect.generation ∧ ticket.sessionId ∉ s.issued then
        if resource.id ≠ connect.resourceId ∨ !resource.launchSupported ∨
            (resource.kind ≠ .app ∧ connect.profile ≠ .physical) then some (s.giveUp c)
        else
          some ({ s with issued := ticket.sessionId :: s.issued }.setTask c
            (.locking connect resource ticket))
      else none
    | _ => none
  | .unfetched c =>
    match s.tasks c with
    | .fetching _ => some (s.giveUp c)
    | _ => none
  | .cancelled c =>
    match s.tasks c with
    | .gating connect =>
      if s.generation ≠ connect.generation then some (s.setTask c .done) else none
    | .fetching connect => if s.generation ≠ connect.generation then some (s.giveUp c) else none
    | _ => none
  | .lockAuth c =>
    match s.tasks c with
    | .locking connect resource ticket =>
      if s.auth = none then
        if s.generation ≠ connect.generation then some (s.giveUp c)
        else some ({ s with auth := some c }.setTask c (.starting connect resource ticket))
      else none
    | _ => none
  | .start c spawned =>
    match s.tasks c with
    | .starting connect resource ticket =>
      let started := (s.start connect.account resource ticket connect.profile spawned).1
      some ({ started with auth := none }.giveUp c)
    | _ => none
  | .disconnect c id =>
    if s.tasks c = .idle then
      if id ∈ s.keys then some ((s.stopAll [id]).setTask c (.disconnecting id))
      else some (s.setTask c .done)
    else none
  | .disconnected c =>
    match s.tasks c with
    | .disconnecting id => if s.isDone id then some (s.setTask c .done) else none
    | _ => none
  | _ => none

/-- The task of a session, and its process. -/
def stepChild (s : Sessions) (id : ℕ) (child : Child) : Event → Option Sessions
  | .launched _ ok =>
    if child.phase = .launching then
      some (if ok then s.setChild id { child with phase := .serving } else s.leave id child true)
    else none
  | .line _ event =>
    if child.phase = .serving then
      let (s', terminal) := s.event id event
      some (if terminal then s'.leave id child false else s')
    else none
  | .leave _ ended => if child.phase = .serving then some (s.leave id child !ended) else none
  | .stopped _ =>
    if child.phase = .serving ∧ child.stop = true then some (s.leave id child false) else none
  | .exit _ =>
    if child.running = true then some (s.setChild id { child with running := false }) else none
  | .reap _ success =>
    match child.phase with
    | .closing failed =>
      if child.running = false then
        some (s.setChild id { child with
          phase := .reaped (success.elim true fun success => failed || (!child.stop && !success)) })
      else none
    | _ => none
  | .kill _ =>
    match child.phase with
    | .closing failed =>
      some (s.setChild id { child with running := false, phase := .reaped (failed || !child.stop) })
    | _ => none
  | .finish _ =>
    match child.phase with
    | .reaped failed =>
      some ((s.modify id fun view => view.finish failed).setChild id
        { child with phase := .finished })
    | _ => none
  | .close _ =>
    if child.phase = .finished then some (s.setChild id { child with done := true }) else none
  | _ => none

def step (s : Sessions) (e : Event) : Option Sessions :=
  match e with
  | .launched id _ | .line id _ | .leave id _ | .stopped id | .exit id | .reap id _ | .kill id
  | .finish id | .close id => (s.children id).bind fun child => s.stepChild id child e
  | _ => s.stepRequest e

end Sessions

end NebulaDesk
