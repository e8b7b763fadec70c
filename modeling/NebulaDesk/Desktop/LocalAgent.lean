/-
The local agent of the desktop (`nebula-desktop/src/local_host.rs`, `snapshot`, `enroll` and
`set_enabled`; `nebula-desktop/src/agent_daemon.rs`, `run_service`, `respond` and `request`).

Any number of desktop instances and helper processes share the files beside one identity: the
identity itself, the control manifest, and two advisory locks, `.lock` for the operations of the
desktops and `.service.lock` for the helper that serves.  A desktop finds out whether a helper
serves by taking the second lock and dropping it.  A process may die at every step.
-/
import NebulaDesk.Lib.Runs

namespace NebulaDesk

namespace LocalAgent

/-- What a desktop or a helper reads of an identity. -/
structure Identity where
  machineId : ℕ
  /-- `is_managed`. -/
  managed : Bool
  /-- `keypair` decodes the secret. -/
  keypair : Bool
deriving DecidableEq

/-- A file that is installed by a hard link; it can be read when the staging link is gone.
The content is `none` if it does not parse. -/
structure Linked (α : Type) where
  content : Option α
  staged : Bool
deriving DecidableEq

structure ControlManifest where
  port : ℕ
  capability : ℕ
  machineId : ℕ
deriving DecidableEq

inductive Party
  | desktop (i : ℕ)
  | helper (h : ℕ)
deriving DecidableEq

def Party.isHelper : Party → Bool
  | .helper _ => true
  | .desktop _ => false

inductive ControlCommand
  | status
  | stop
deriving DecidableEq

/-! ### The desktops -/

/-- What the service lock is tried for, and what a request is sent for. -/
inductive Goal
  | snapshot
  | toggle (enabled : Bool)
  /-- `set_enabled` waits for helper `h`, which it has started. -/
  | polling (h : ℕ)
  /-- `wait_stopped`. -/
  | stopping
deriving DecidableEq

def Goal.command : Goal → ControlCommand
  | .toggle false => .stop
  | _ => .status

/-- `holder` has the service lock when it is tried; it is no part of the code's errors. -/
inductive Code
  | agentState
  | agentUnowned
  | agentControl (holder : Party)
  | agentBusy (holder : Option Party)
  | notEnrolled
  | alreadyEnrolled
  | invalidEnrollment
  | enrollmentIncomplete
  | agentMissing
  | agentStartFailed
  | agentStartTimeout
  | agentStopTimeout
deriving DecidableEq

inductive HostError
  | unowned
  /-- "An Agent holds this identity …"; `holder` as above, if the lock has been tried. -/
  | detached (holder : Option Party)
deriving DecidableEq

structure LocalHost where
  enrolled : Bool
  machineId : Option ℕ
  running : Bool
  error : Option HostError
deriving DecidableEq

/-- Where an instance is in the operation that holds its `operations`. -/
inductive Phase
  | idle
  | ended (result : Except Code LocalHost)
  | snapshotReading
  | snapshotMarking (identity : Option Identity)
  | probing (goal : Goal) (identity : Identity)
  /-- The probe has the service lock and is about to drop it. -/
  | probed (goal : Goal) (identity : Identity)
  | requesting (goal : Goal) (identity : Identity) (holder : Party)
  | asking (goal : Goal) (identity : Identity) (holder : Party) (manifest : ControlManifest)
  | replied (goal : Goal) (identity : Identity) (holder : Party) (running : Bool)
  | polling (h : ℕ) (identity : Identity)
  | enrollLooking
  | enrollLocking
  | enrollLookingAgain
  | enrollMarking
  | enrollServing
  | enrollRequesting
  | enrollLinking (identity : Identity)
  | enrollLinked
  | enrollReleasing
  | enableLocking (enabled : Bool)
  | enableReading (enabled : Bool)
  | enableMarking (enabled : Bool) (identity : Identity)
  | cleaning (enabled : Bool) (identity : Identity)
  /-- Has the service lock and removes the manifest. -/
  | removing (enabled : Bool) (identity : Identity)
  | cleaned (enabled : Bool) (identity : Identity)
  | spawning (identity : Identity)

def Phase.holdsService : Phase → Bool
  | .probed .. | .enrollRequesting | .enrollLinking _ | .enrollLinked | .enrollReleasing
  | .removing .. | .cleaned .. => true
  | _ => false

/-! ### The helpers -/

/-- `run_service`. -/
inductive HelperPhase
  | absent
  | starting
  | locked
  | checked (identity : Identity)
  | cleared (identity : Identity)
  | bound (manifest : ControlManifest)
  | linked (manifest : ControlManifest)
  | serving (manifest : ControlManifest)
  | finishing
  /-- `run` has returned, and the process has not ended. -/
  | returned
  /-- The service lock was held. -/
  | refused (holder : Party)
  | exited
deriving DecidableEq

def HelperPhase.pastLock : HelperPhase → Bool
  | .locked | .checked _ | .cleared _ | .bound _ | .linked _ | .serving _ | .finishing
  | .returned => true
  | _ => false

def HelperPhase.hasExited : HelperPhase → Bool
  | .refused _ | .exited => true
  | _ => false

inductive Event
  | snapshot (i : ℕ)
  | enroll (i : ℕ)
  | setEnabled (i : ℕ) (enabled : Bool)
  /-- The next step of an operation. -/
  | go (i : ℕ)
  /-- The next step fails for a reason of its own: the system, the network, a timeout. -/
  | fail (i : ℕ)
  /-- The manager has enrolled the machine. -/
  | enrolled (i machineId : ℕ)
  | spawned (i h : ℕ)
  /-- The deadline of a wait passes. -/
  | expire (i : ℕ)
  /-- The instance dies, or the future of its operation is dropped. -/
  | crash (i : ℕ)
  /-- Somebody else runs a helper. -/
  | launch (h : ℕ)
  | helperGo (h : ℕ)
  | bound (h port capability : ℕ)
  | helperFail (h : ℕ)
  | helperCrash (h : ℕ)
  /-- A helper responds to the request of an instance. -/
  | answer (h i : ℕ)
  /-- A legacy agent writes or removes `.running`. -/
  | legacy (running : Bool)
deriving DecidableEq

/-- Who takes a step. -/
def Event.actor : Event → Option Party
  | .snapshot i | .enroll i | .setEnabled i _ | .go i | .fail i | .enrolled i _ | .spawned i _
  | .expire i | .crash i => some (.desktop i)
  | .launch h | .helperGo h | .bound h .. | .helperFail h | .helperCrash h | .answer h _ =>
    some (.helper h)
  | .legacy _ => none

end LocalAgent

open LocalAgent

/-- The files beside an identity, and the processes that use them. -/
structure LocalAgent where
  identity : Option (Linked Identity)
  manifest : Option (Linked ControlManifest)
  /-- `.running`. -/
  running : Bool
  /-- `.lock`. -/
  lock : Option ℕ
  /-- `.service.lock`. -/
  service : Option Party
  desktops : ℕ → Phase
  helpers : ℕ → HelperPhase

namespace LocalAgent

def start (identity : Option (Linked Identity)) (manifest : Option (Linked ControlManifest))
    (running : Bool) : LocalAgent where
  identity := identity
  manifest := manifest
  running := running
  lock := none
  service := none
  desktops := fun _ => .idle
  helpers := fun _ => .absent

def setDesktop (s : LocalAgent) (i : ℕ) (phase : Phase) : LocalAgent :=
  { s with desktops := Function.update s.desktops i phase }

def setHelper (s : LocalAgent) (h : ℕ) (phase : HelperPhase) : LocalAgent :=
  { s with helpers := Function.update s.helpers h phase }

def close (s : LocalAgent) (i : ℕ) : LocalAgent :=
  { s with
    lock := if s.lock = some i then none else s.lock
    service := if s.service = some (.desktop i) then none else s.service }

/-- The operation returns. -/
def finish (s : LocalAgent) (i : ℕ) (result : Except Code LocalHost) : LocalAgent :=
  (s.close i).setDesktop i (.ended result)

/-- The process of a helper ends, or its future does before the lock is forgotten. -/
def exit (s : LocalAgent) (h : ℕ) : LocalAgent :=
  let closed :=
    { s with service := if s.service = some (Party.helper h) then none else s.service }
  closed.setHelper h .exited

/-- `read_identity`. -/
def readIdentity (s : LocalAgent) : Except Unit (Option Identity) :=
  match s.identity with
  | none => .ok none
  | some ⟨some identity, false⟩ => .ok (some identity)
  | some _ => .error ()

/-- `read_manifest`. -/
def readManifest (s : LocalAgent) : Option ControlManifest :=
  match s.manifest with
  | some ⟨some manifest, false⟩ => some manifest
  | _ => none

/-- The staging link of a file is removed. -/
def Linked.unstage {α : Type} (file : Linked α) : Linked α := { file with staged := false }

/-- `request` returns an error. -/
def requestFailed (s : LocalAgent) (i : ℕ) (goal : Goal) (identity : Identity) (holder : Party) :
    LocalAgent :=
  match goal with
  | .snapshot =>
    s.finish i (.ok ⟨true, some identity.machineId, false, some (.detached (some holder))⟩)
  | .toggle _ => s.finish i (.error (.agentControl holder))
  | .polling h => s.setDesktop i (.polling h identity)
  | .stopping => s.setDesktop i (.probing .stopping identity)

/-- The next step of an instance. -/
def go (s : LocalAgent) (i : ℕ) : Option LocalAgent :=
  match s.desktops i with
  | .snapshotReading =>
    match s.readIdentity with
    | .error _ => some (s.finish i (.error .agentState))
    | .ok none => some (s.setDesktop i (.snapshotMarking none))
    | .ok (some identity) =>
      if identity.managed then some (s.setDesktop i (.snapshotMarking (some identity)))
      else some (s.finish i (.ok ⟨true, some identity.machineId, false, some .unowned⟩))
  | .snapshotMarking identity =>
    -- Legacy agents have no control protocol; they are never adopted or replaced.
    if s.running then
      some (s.finish i
        (.ok ⟨identity.isSome, identity.map (·.machineId), false, some (.detached none)⟩))
    else
      match identity with
      | none => some (s.finish i (.ok ⟨false, none, false, none⟩))
      | some identity => some (s.setDesktop i (.probing .snapshot identity))
  | .probing goal identity =>
    match s.service with
    | none =>
      some ({ s with service := some (Party.desktop i) }.setDesktop i (.probed goal identity))
    | some holder =>
      if goal = .stopping then some s
      else some (s.setDesktop i (.requesting goal identity holder))
  | .probed goal identity =>
    let free := { s with service := none }
    match goal with
    | .snapshot => some (free.finish i (.ok ⟨true, some identity.machineId, false, none⟩))
    | .toggle enabled => some (free.setDesktop i (.cleaning enabled identity))
    | .polling h => some (free.setDesktop i (.polling h identity))
    | .stopping => some (free.setDesktop i .snapshotReading)
  | .requesting goal identity holder =>
    match s.readManifest with
    | some manifest =>
      if manifest.machineId = identity.machineId then
        some (s.setDesktop i (.asking goal identity holder manifest))
      else some (s.requestFailed i goal identity holder)
    | none => some (s.requestFailed i goal identity holder)
  | .replied goal identity _ running =>
    match goal with
    | .snapshot => some (s.finish i (.ok ⟨true, some identity.machineId, running, none⟩))
    | .toggle true => some (s.setDesktop i .snapshotReading)
    | .toggle false => some (s.setDesktop i (.probing .stopping identity))
    | .polling h =>
      if running then some (s.setDesktop i .snapshotReading)
      else some (s.setDesktop i (.polling h identity))
    | .stopping => none
  | .polling h identity =>
    if (s.helpers h).hasExited then some (s.finish i (.error .agentStartFailed))
    else some (s.setDesktop i (.probing (.polling h) identity))
  | .enrollLooking =>
    if s.identity.isSome then some (s.finish i (.error .alreadyEnrolled))
    else some (s.setDesktop i .enrollLocking)
  | .enrollLocking =>
    if s.lock = none then some ({ s with lock := some i }.setDesktop i .enrollLookingAgain)
    else some (s.finish i (.error (.agentBusy none)))
  | .enrollLookingAgain =>
    if s.identity.isSome then some (s.finish i (.error .alreadyEnrolled))
    else some (s.setDesktop i .enrollMarking)
  | .enrollMarking =>
    if s.running then some (s.finish i (.error .agentUnowned))
    else some (s.setDesktop i .enrollServing)
  | .enrollServing =>
    match s.service with
    | none => some ({ s with service := some (Party.desktop i) }.setDesktop i .enrollRequesting)
    | some holder => some (s.finish i (.error (.agentBusy (some holder))))
  | .enrollLinking identity =>
    -- The hard link fails where a file is.
    if s.identity.isSome then some (s.finish i (.error .agentState))
    else some ({ s with identity := some ⟨some identity, true⟩ }.setDesktop i .enrollLinked)
  | .enrollLinked =>
    some ({ s with identity := s.identity.map Linked.unstage }.setDesktop i .enrollReleasing)
  | .enrollReleasing => some ((s.close i).setDesktop i .snapshotReading)
  | .enableLocking enabled =>
    if s.lock = none then some ({ s with lock := some i }.setDesktop i (.enableReading enabled))
    else some (s.finish i (.error (.agentBusy none)))
  | .enableReading enabled =>
    match s.readIdentity with
    | .error _ => some (s.finish i (.error .agentState))
    | .ok none =>
      if enabled then some (s.finish i (.error .notEnrolled))
      else some (s.setDesktop i .snapshotReading)
    | .ok (some identity) =>
      if !identity.managed then some (s.finish i (.error .agentUnowned))
      else if !identity.keypair then some (s.finish i (.error .agentState))
      else some (s.setDesktop i (.enableMarking enabled identity))
  | .enableMarking enabled identity =>
    if s.running then some (s.finish i (.error .agentUnowned))
    else some (s.setDesktop i (.probing (.toggle enabled) identity))
  | .cleaning enabled identity =>
    match s.service with
    | none =>
      some ({ s with service := some (Party.desktop i) }.setDesktop i (.removing enabled identity))
    | some holder => some (s.finish i (.error (.agentBusy (some holder))))
  | .removing enabled identity =>
    some ({ s with manifest := none }.setDesktop i (.cleaned enabled identity))
  | .cleaned enabled identity =>
    some ({ s with service := none }.setDesktop i
      (if enabled then .spawning identity else .snapshotReading))
  | .idle | .ended _ | .asking .. | .enrollRequesting | .spawning _ => none

/-- The next step of an instance fails. -/
def fail (s : LocalAgent) (i : ℕ) : Option LocalAgent :=
  match s.desktops i with
  | .idle | .ended _ | .replied .. | .polling .. => none
  | .requesting goal identity holder | .asking goal identity holder _ =>
    some (s.requestFailed i goal identity holder)
  | .enrollLooking => some (s.finish i (.error .invalidEnrollment))
  | .enrollRequesting => some (s.finish i (.error .enrollmentIncomplete))
  | .enrollLinked =>
    some ({ s with identity := s.identity.map Linked.unstage }.finish i (.error .agentState))
  | .spawning _ => some (s.finish i (.error .agentMissing))
  | _ => some (s.finish i (.error .agentState))

def helperGo (s : LocalAgent) (h : ℕ) : Option LocalAgent :=
  match s.helpers h with
  | .starting =>
    match s.service with
    | none => some ({ s with service := some (Party.helper h) }.setHelper h .locked)
    | some holder => some (s.setHelper h (.refused holder))
  | .locked =>
    match s.readIdentity with
    | .ok (some identity) =>
      if identity.managed && !s.running then some (s.setHelper h (.checked identity))
      else some (s.exit h)
    | _ => some (s.exit h)
  | .checked identity => some ({ s with manifest := none }.setHelper h (.cleared identity))
  | .bound manifest =>
    if s.manifest.isSome then some (s.exit h)
    else some ({ s with manifest := some ⟨some manifest, true⟩ }.setHelper h (.linked manifest))
  | .linked manifest =>
    some ({ s with manifest := s.manifest.map Linked.unstage }.setHelper h (.serving manifest))
  | .serving _ => some (s.setHelper h .finishing)
  | .finishing => some ({ s with manifest := none }.setHelper h .returned)
  | .returned => some (s.exit h)
  | .absent | .cleared _ | .refused _ | .exited => none

def helperFail (s : LocalAgent) (h : ℕ) : Option LocalAgent :=
  match s.helpers h with
  | .starting | .locked | .checked _ | .cleared _ | .bound _ => some (s.exit h)
  | .linked _ => some ({ s with manifest := s.manifest.map Linked.unstage }.exit h)
  | .finishing => some (s.setHelper h .returned)
  | _ => none

/-- `respond`, and what `request` makes of the response. -/
def answer (s : LocalAgent) (h i : ℕ) : Option LocalAgent :=
  match s.helpers h, s.desktops i with
  | .serving own, .asking goal identity holder manifest =>
    if manifest.port = own.port then
      if manifest.capability = own.capability ∧ own.machineId = identity.machineId then
        some (s.setDesktop i (.replied goal identity holder (goal.command ≠ .stop)))
      else some (s.requestFailed i goal identity holder)
    else none
  | _, _ => none

def Phase.resting : Phase → Bool
  | .idle | .ended _ => true
  | _ => false

def step (s : LocalAgent) : Event → Option LocalAgent
  | .snapshot i => if (s.desktops i).resting then some (s.setDesktop i .snapshotReading) else none
  | .enroll i => if (s.desktops i).resting then some (s.setDesktop i .enrollLooking) else none
  | .setEnabled i enabled =>
    if (s.desktops i).resting then some (s.setDesktop i (.enableLocking enabled)) else none
  | .go i => s.go i
  | .fail i => s.fail i
  | .enrolled i machineId =>
    match s.desktops i with
    | .enrollRequesting => some (s.setDesktop i (.enrollLinking ⟨machineId, true, true⟩))
    | _ => none
  | .spawned i h =>
    match s.desktops i, s.helpers h with
    | .spawning identity, .absent =>
      some ((s.setDesktop i (.polling h identity)).setHelper h .starting)
    | _, _ => none
  | .expire i =>
    match s.desktops i with
    | .polling .. => some (s.finish i (.error .agentStartTimeout))
    | .probing .stopping _ => some (s.finish i (.error .agentStopTimeout))
    | _ => none
  | .crash i => some ((s.close i).setDesktop i .idle)
  | .launch h => if s.helpers h = .absent then some (s.setHelper h .starting) else none
  | .helperGo h => s.helperGo h
  | .bound h port capability =>
    match s.helpers h with
    | .cleared identity =>
      some (s.setHelper h (.bound ⟨port, capability, identity.machineId⟩))
    | _ => none
  | .helperFail h => s.helperFail h
  | .helperCrash h => if s.helpers h = .absent then none else some (s.exit h)
  | .answer h i => s.answer h i
  | .legacy running => some { s with running := running }

end LocalAgent

end NebulaDesk
