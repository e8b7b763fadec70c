/-
Enrolment of the local agent (`nebula-desktop/src/local_host.rs`, `enroll`, `StagingFile`,
`verify_file` and `read_identity`).

The identity is written to a staging file and gets its own name by a hard link, and the staging
name is removed.  Every call of the file system is a step, and the process may die before any of
them; `.lock` keeps other instances out meanwhile.
-/
import NebulaDesk.Common.Uuids
import NebulaDesk.Lib.HardLinks
import NebulaDesk.Lib.JsonValue
import NebulaDesk.Manager.Api
import NebulaDesk.Manager.Signing

namespace NebulaDesk

open Json (Value)

namespace Enrollment

/-- `Identity` of the agent. -/
structure Identity where
  machineId : Uuid
  /-- The machine credential. -/
  credential : Text
  /-- The Noise static secret key, hex encoded. -/
  noiseSecret : Text
  managerUrl : Text
deriving DecidableEq

structure DesktopMetadata where
  version : UInt32
  name : Text
deriving DecidableEq

structure StoredIdentity where
  identity : Identity
  desktop : Option DesktopMetadata
deriving DecidableEq

/-- The names beside the path of an identity. -/
inductive Name
  | identity
  /-- `.lock`. -/
  | lock
  /-- `.service.lock`. -/
  | serviceLock
  /-- `.running`. -/
  | running
  /-- `.pending-<uuid>`. -/
  | pending (id : Uuid)
deriving DecidableEq

/-- The codes of `DesktopError`. -/
inductive Code
  | alreadyEnrolled
  | invalidEnrollment
  | managerUrl
  | agentState
  | agentBusy
  | agentUnowned
  | enrollmentIncomplete
deriving DecidableEq

/-- Code of other packages: `serde_json`, `uuid`, and the URL that `Manager::new` makes of a text. -/
structure HostCodec where
  json : Json.Reader
  uuids : UuidReader
  managerUrl : Text → (allowHttp : Bool) → Option Text

/-! ### The identity as JSON -/

def DesktopMetadata.value (desktop : DesktopMetadata) : Value :=
  .object [("version".toList, .number desktop.version.toNat),
    ("name".toList, .string desktop.name)]

/-- The fields of the identity are those of the object itself. -/
def StoredIdentity.value (stored : StoredIdentity) : Value :=
  .object [("machine_id".toList, .string (uuid stored.identity.machineId.val)),
    ("credential".toList, .string stored.identity.credential),
    ("noise_secret".toList, .string stored.identity.noiseSecret),
    ("manager_url".toList, .string stored.identity.managerUrl),
    ("desktop".toList, (stored.desktop.map DesktopMetadata.value).getD .null)]

/-- `serde_json::to_vec`. -/
def StoredIdentity.json (stored : StoredIdentity) : List UInt8 := Json.utf8 stored.value.text

def DesktopMetadata.ofValue (v : Value) : Option DesktopMetadata := do
  let fields ← v.asObject
  let version ← (← Json.required fields "version".toList).asNumber (2 ^ 32)
  let name ← (← Json.required fields "name".toList).asString
  some ⟨UInt32.ofNat version, name⟩

def StoredIdentity.ofValue (uuids : UuidReader) (v : Value) : Option StoredIdentity := do
  let fields ← v.asObject
  let machineId ← uuids.parse (← (← Json.required fields "machine_id".toList).asString)
  let credential ← (← Json.required fields "credential".toList).asString
  let noiseSecret ← (← Json.required fields "noise_secret".toList).asString
  let managerUrl ← (← Json.required fields "manager_url".toList).asString
  let identity : Identity := ⟨machineId, credential, noiseSecret, managerUrl⟩
  match ← Json.member fields "desktop".toList with
  | none => some ⟨identity, none⟩
  | some .null => some ⟨identity, none⟩
  | some v => do
    let desktop ← DesktopMetadata.ofValue v
    some ⟨identity, some desktop⟩

/-! ### The files -/

/-- `reject_existing`. -/
def rejectExisting (d : LinkDirectory Name) : Except Code Unit :=
  if d.lookup .identity = none then .ok () else .error .alreadyEnrolled

/-- `verify_file`: the open file `i` is what the name links to, a regular file of the user's own
that has no other name. -/
def verifyFile (d : LinkDirectory Name) (name : Name) (i : ℕ) : Bool :=
  d.lookup name = some i && d.nlink i = 1 &&
    (d.file i).any fun inode => inode.regular && inode.restricted

/-- `acquire_named_lock`, up to the lock: the lock file is made, or found in order. -/
def acquireNamedLock (d : LinkDirectory Name) (name : Name) : Except Code (LinkDirectory Name) :=
  match d.lookup name with
  | some i => if verifyFile d name i then .ok d else .error .agentState
  | none =>
    match d.create name ⟨[], true, true⟩ with
    | some d => .ok d
    | none => .error .agentState

/-- What `read_identity` reads at most. -/
def maxIdentity : ℕ := 64 * 1024

/-- `read_identity`. -/
def readIdentity (codec : HostCodec) (d : LinkDirectory Name) : Except Code (Option StoredIdentity) :=
  match d.lookup .identity with
  | none => .ok none
  | some i =>
    match d.file i with
    | none => .error .agentState
    | some inode =>
      if inode.regular = false then .error .agentState
      else if verifyFile d .identity i = false then .error .agentState
      else
        let bytes := inode.content.take (maxIdentity + 1)
        if maxIdentity < bytes.length then .error .agentState
        else
          match (codec.json.read bytes).bind (StoredIdentity.ofValue codec.uuids) with
          | some stored => .ok (some stored)
          | none => .error .agentState

/-! ### The call -/

structure Request where
  managerUrl : Text
  token : Text
  name : Text
  allowHttp : Bool
deriving DecidableEq

/-- What is kept of a request: the trimmed name and the manager's URL. -/
structure Plan where
  name : Text
  url : Text
deriving DecidableEq

/-- The checks between the first look and the lock. -/
def Request.check (codec : HostCodec) (r : Request) : Except Code Plan :=
  let name := trim r.name
  if name = [] ∨ 200 < name.len ∨ r.token = [] ∨ 8192 < r.token.len then .error .invalidEnrollment
  else
    match codec.managerUrl r.managerUrl r.allowHttp with
    | some url => .ok ⟨name, url⟩
    | none => .error .managerUrl

/-- The staging file: its name, and the file that is open. -/
structure Staging where
  id : Uuid
  file : ℕ
deriving DecidableEq

/-- Where a call of `enroll` is: each is named for the step it takes next. -/
inductive Phase
  /-- No call, or its process has died. -/
  | idle
  | ended (result : Except Code (Option StoredIdentity))
  | looking (r : Request)
  | locking (plan : Plan)
  | lookingAgain (plan : Plan)
  | marking (plan : Plan)
  | serving (plan : Plan)
  | creating (plan : Plan)
  | verifying (plan : Plan) (staging : Staging)
  | requesting (plan : Plan) (staging : Staging)
  | writing (stored : StoredIdentity) (staging : Staging)
  | syncing (stored : StoredIdentity) (staging : Staging)
  | linking (stored : StoredIdentity) (staging : Staging)
  /-- The identity has its name; `sync_parent` is next. -/
  | linked (stored : StoredIdentity) (staging : Staging)
  /-- The staging file is dropped; `synced` is what came of `sync_parent`. -/
  | dropping (stored : StoredIdentity) (staging : Staging) (synced : Bool)
  /-- `removed` is whether the staging name is gone, which the code does not ask. -/
  | dropped (stored : StoredIdentity) (removed synced : Bool)
  | reading (stored : StoredIdentity) (removed : Bool)
  /-- An error before the link: the staging file is dropped. -/
  | unwinding (staging : Staging) (code : Code)

/-- No call is in progress. -/
def Phase.out : Phase → Bool
  | idle | ended _ => true
  | _ => false

inductive Event
  | begin (r : Request)
  /-- The next call of the file system is made. -/
  | go
  /-- It fails. -/
  | fail
  /-- Another instance has the lock. -/
  | busy
  /-- The staging file is made under a new UUID. -/
  | stage (id : Uuid)
  /-- The manager's answer, to the public key of a new pair. -/
  | answer (secret : Key32) (machineId : Uuid) (credential : Text)
  /-- `write_all` has written this much. -/
  | part (n : ℕ)
  /-- The process dies. -/
  | die

end Enrollment

structure Enrollment where
  disk : LinkDirectory Enrollment.Name
  phase : Enrollment.Phase

namespace Enrollment

def next (s : Enrollment) (phase : Phase) : Option Enrollment := some { s with phase := phase }

/-- `enroll` returns. -/
def finish (s : Enrollment) (code : Code) : Option Enrollment := s.next (.ended (.error code))

/-- A lock is taken on the way to the next phase. -/
def lockThen (s : Enrollment) (name : Name) (phase : Phase) : Option Enrollment :=
  match acquireNamedLock s.disk name with
  | .ok disk => some ⟨disk, phase⟩
  | .error code => s.finish code

/-- `remove_file` of the staging name. -/
def unstage (s : Enrollment) (staging : Staging) (phase : Phase) : Option Enrollment :=
  some ⟨s.disk.unlink (.pending staging.id), phase⟩

/-- The next call of the file system. -/
def go (codec : HostCodec) (s : Enrollment) : Option Enrollment :=
  match s.phase with
  | .looking r =>
    match rejectExisting s.disk with
    | .error code => s.finish code
    | .ok () =>
      match r.check codec with
      | .error code => s.finish code
      | .ok plan => s.next (.locking plan)
  | .locking plan => s.lockThen .lock (.lookingAgain plan)
  | .lookingAgain plan =>
    match rejectExisting s.disk with
    | .error code => s.finish code
    | .ok () => s.next (.marking plan)
  | .marking plan =>
    if s.disk.lookup .running = none then s.next (.serving plan) else s.finish .agentUnowned
  | .serving plan => s.lockThen .serviceLock (.creating plan)
  | .verifying plan staging =>
    if verifyFile s.disk (.pending staging.id) staging.file then s.next (.requesting plan staging)
    -- there is no `StagingFile` yet that would be dropped
    else s.finish .agentState
  | .writing stored staging =>
    some ⟨s.disk.write staging.file stored.json, .syncing stored staging⟩
  | .syncing stored staging => s.next (.linking stored staging)
  | .linking stored staging =>
    match s.disk.hardLink (.pending staging.id) .identity with
    | some disk => some ⟨disk, .linked stored staging⟩
    | none => s.next (.unwinding staging .agentState)
  | .linked stored staging => s.next (.dropping stored staging true)
  | .dropping stored staging synced => s.unstage staging (.dropped stored true synced)
  | .dropped stored removed true => s.next (.reading stored removed)
  | .dropped _ _ false => s.finish .agentState
  | .reading _ _ => s.next (.ended (readIdentity codec s.disk))
  | .unwinding staging code => s.unstage staging (.ended (.error code))
  | .idle | .ended _ | .creating _ | .requesting _ _ => none

def fail (s : Enrollment) : Option Enrollment :=
  match s.phase with
  | .looking _ | .locking _ | .lookingAgain _ | .marking _ | .serving _ | .creating _
  | .verifying _ _ => s.finish .agentState
  | .requesting _ staging => s.next (.unwinding staging .enrollmentIncomplete)
  | .writing _ staging | .syncing _ staging | .linking _ staging =>
    s.next (.unwinding staging .agentState)
  | .linked stored staging => s.next (.dropping stored staging false)
  -- an error of `remove_file` is passed over
  | .dropping stored _ synced => s.next (.dropped stored false synced)
  | .unwinding _ code => s.finish code
  | .dropped _ _ _ | .reading _ _ => s.finish .agentState
  | .idle | .ended _ => none

def answer (s : Enrollment) (secret : Key32) (machineId : Uuid) (credential : Text) :
    Option Enrollment :=
  match s.phase with
  | .requesting plan staging =>
    if credential = [] then s.next (.unwinding staging .enrollmentIncomplete)
    else
      let stored : StoredIdentity :=
        { identity :=
            { machineId := machineId
              credential := credential
              noiseSecret := hexEncode secret.val
              managerUrl := plan.url }
          desktop := some ⟨1, plan.name⟩ }
      s.next (.writing stored staging)
  | _ => none

def step (codec : HostCodec) (s : Enrollment) : Event → Option Enrollment
  | .begin r => if s.phase.out then s.next (.looking r) else none
  | .go => s.go codec
  | .fail => s.fail
  | .busy =>
    match s.phase with
    | .locking _ | .serving _ => s.finish .agentBusy
    | _ => none
  | .stage id =>
    match s.phase with
    | .creating plan =>
      match s.disk.create (.pending id) ⟨[], true, true⟩ with
      | some disk => some ⟨disk, .verifying plan ⟨id, s.disk.files.length⟩⟩
      | none => s.finish .agentState
    | _ => none
  | .answer secret machineId credential => s.answer secret machineId credential
  | .part n =>
    match s.phase with
    | .writing stored staging =>
      some { s with disk := s.disk.write staging.file (stored.json.take n) }
    | _ => none
  | .die => if s.phase.out then none else s.next .idle

/-- What a dead process may leave behind: no identity, so that `enroll` begins anew, or one that can
be read. -/
def Recoverable (codec : HostCodec) (d : LinkDirectory Name) : Prop :=
  (readIdentity codec d = .ok none ∧ rejectExisting d = .ok ()) ∨
    ∃ stored, readIdentity codec d = .ok (some stored)

/-- A call may end here: the identity has no name yet, or the staging name is gone and
`read_identity` takes what was written. -/
def Phase.safe : Phase → Bool
  | linked _ _ | dropping _ _ _ => false
  | dropped stored removed _ | reading stored removed =>
    removed && stored.json.length ≤ maxIdentity
  | _ => true

/-- The runs in which every call ends where it may. -/
def safeStep (codec : HostCodec) (s : Enrollment) (e : Event) : Option Enrollment :=
  (s.step codec e).filter fun s' => !s'.phase.out || s.phase.safe

end Enrollment

end NebulaDesk
