/-
One-time secrets (`nebula-manager/src/routes/machines.rs`, `enroll`;
`nebula-manager/src/routes/auth.rs`, `refresh`;
`nebula-manager/src/routes/workspace.rs`, `accept_invitation`).

Each handler is a transaction that locks the row of its secret, writes to itself and
commits.  A statement that needs a row locked by another transaction waits: its step
is not enabled.  Every statement, a commit included, may fail.
-/
import NebulaDesk.Lib.Transactions
import NebulaDesk.Manager.Api

namespace NebulaDesk

open Transactions

/-- A row of `enrollment_tokens`. -/
structure EnrollmentToken where
  tenantId : ℕ
  /-- Pins the machine name. -/
  machineName : Option Text
  ownerUserId : Option ℕ
  region : Text
  expiresAt : ℤ
  usedAt : Option ℤ
  usedBy : Option ℕ
deriving DecidableEq

/-- A row of `refresh_tokens`. -/
structure RefreshToken where
  tenantId : ℕ
  userId : ℕ
  expiresAt : ℤ
  revokedAt : Option ℤ
deriving DecidableEq

/-- A row of `workspace_invitations`. -/
structure Invitation where
  tenantId : ℕ
  issuerId : ℕ
  email : Text
  expiresAt : ℤ
  revokedAt : Option ℤ
  acceptedAt : Option ℤ
deriving DecidableEq

/-- A row of `users`. -/
structure Account where
  tenantId : ℕ
  email : Text
  passwordHash : Text
  displayName : Text
  role : UserRole
  disabled : Bool
deriving DecidableEq

inductive WorkspaceKind
  | personal
  | organization
deriving DecidableEq

/-- A row of `tenants`. -/
structure Tenant where
  slug : Text
  name : Text
  kind : WorkspaceKind
  disabled : Bool
deriving DecidableEq

/-- A row of `machines`, as enrolment writes it. -/
structure EnrolledMachine where
  tenantId : ℕ
  name : Text
  os : Text
  noisePublicKey : List UInt8
  ownerUserId : Option ℕ
  region : Text
deriving DecidableEq

/-- The rows and the entries of the unique indexes.  Secrets go by their
`token_hash`. -/
inductive Address
  | enrollment (hash : ℕ)
  | refresh (hash : ℕ)
  | invitation (hash : ℕ)
  | user (id : ℕ)
  | tenant (id : ℕ)
  | machine (id : ℕ)
  | machineName (tenant : ℕ) (name : Text)
  | noiseKey (key : List UInt8)
  | email (tenant : ℕ) (email : Text)
deriving DecidableEq

def Address.Row : Address → Type
  | enrollment _ => EnrollmentToken
  | refresh _ => RefreshToken
  | invitation _ => Invitation
  | user _ => Account
  | tenant _ => Tenant
  | machine _ => EnrolledMachine
  | machineName .. | noiseKey _ | email .. => ℕ

abbrev ManagerDb := Store Address.Row

/-- What an agent sends when enrolling; the key is decoded from hex, if it can be. -/
structure EnrollRequest where
  tokenHash : ℕ
  name : Text
  os : Text
  noiseKey : Option (List UInt8)
deriving DecidableEq

/-- `password` is the outcome of hashing the password of the request. -/
structure AcceptRequest where
  tokenHash : ℕ
  tokenLen : ℕ
  displayName : Text
  email : Text
  password : Except ApiError Text
deriving DecidableEq

/-! ### Where a request is -/

/-- An enrolment that has claimed its token: `start` is the transaction's `now()`,
`claimed` the time of the claiming statement. -/
structure EnrollClaim where
  start : ℤ
  claimed : ℤ
  token : EnrollmentToken
deriving DecidableEq

inductive EnrollPhase
  | begun (start : ℤ)
  | claimed (claim : EnrollClaim)
  | inserted (claim : EnrollClaim) (id : ℕ) (machine : EnrolledMachine)
  /-- `used_by` is set too. -/
  | linked (claim : EnrollClaim) (id : ℕ) (machine : EnrolledMachine)
  /-- Committed; the gateways are being listed. -/
  | committed (id tenant : ℕ)
  | returned (answer : Except ApiError (ℕ × ℕ))
deriving DecidableEq

structure RefreshClaim where
  start : ℤ
  claimed : ℤ
  token : RefreshToken
deriving DecidableEq

inductive RefreshPhase
  | begun (start : ℤ)
  | claimed (claim : RefreshClaim)
  | admitted (claim : RefreshClaim)
  /-- The account is disabled: only the revocation is committed. -/
  | refused (claim : RefreshClaim)
  | inserted (claim : RefreshClaim) (hash : ℕ) (successor : RefreshToken)
  | returned (answer : Except ApiError ℕ)
deriving DecidableEq

/-- An account on its way in, with its first refresh token. -/
structure Joining where
  invitation : Invitation
  id : ℕ
  account : Account
  tokenHash : ℕ
  token : RefreshToken
deriving DecidableEq

inductive AcceptPhase
  | begun (email : Text) (passwordHash : Text)
  | locked (passwordHash : Text) (invitation : Invitation)
  /-- The issuer is still an administrator, and stays one. -/
  | admitted (passwordHash : Text) (invitation : Invitation)
  | inserted (invitation : Invitation) (id : ℕ) (account : Account)
  | issued (joining : Joining)
  | viewed (joining : Joining)
  | consumed (claimed : ℤ) (joining : Joining)
  | returned (answer : Except ApiError (ℕ × ℕ))
deriving DecidableEq

inductive SecretTask
  | idle
  | enroll (req : EnrollRequest) (phase : EnrollPhase)
  | refresh (hash : ℕ) (phase : RefreshPhase)
  | accept (req : AcceptRequest) (phase : AcceptPhase)
deriving DecidableEq

/-- What a commit has done, and when its secret was claimed. -/
inductive Deed
  | enrolled (hash id : ℕ) (machine : EnrolledMachine) (claimed : ℤ)
  | rotated (hash : ℕ) (successor : RefreshToken) (claimed : ℤ)
  | accepted (hash id : ℕ) (account : Account) (claimed : ℤ)
  | other
deriving DecidableEq

structure Secrets where
  db : ManagerDb
  locks : Locks Address
  clock : ℤ
  tasks : ℕ → SecretTask
  history : List (Commit Address.Row Deed)

inductive SecretEvent
  | tick (now : ℤ)
  | enroll (c : ℕ) (req : EnrollRequest)
  | refresh (c : ℕ) (hash : ℕ)
  | accept (c : ℕ) (req : AcceptRequest)
  /-- The next statement of a request, with the id or token it generates. -/
  | run (c fresh : ℕ)
  /-- The commit; without an answer, it has taken effect and the caller sees an
  error. -/
  | commit (c : ℕ) (answered : Bool)
  /-- The statement, or the commit, fails. -/
  | fail (c : ℕ)
  /-- Any other handler's statement writes a row. -/
  | other (write : Write Address.Row)

namespace Secrets

def start (db : ManagerDb) (clock : ℤ) : Secrets :=
  { db, locks := Locks.none, clock, tasks := fun _ => .idle, history := [] }

def setTask (s : Secrets) (c : ℕ) (task : SecretTask) : Secrets :=
  { s with tasks := Function.update s.tasks c task }

def takeLock (s : Secrets) (c : ℕ) (k : Address) : Secrets := { s with locks := s.locks.take c k }

def shareLock (s : Secrets) (c : ℕ) (k : Address) : Secrets := { s with locks := s.locks.share c k }

/-- The transaction is rolled back, if there is one, and the request returns. -/
def finish (s : Secrets) (c : ℕ) (task : SecretTask) : Secrets :=
  { s with locks := s.locks.release c, tasks := Function.update s.tasks c task }

/-- The transaction is committed. -/
def record (s : Secrets) (task : Option ℕ) (writes : List (Write Address.Row)) (what : Deed) :
    Secrets :=
  { s with db := s.db.writeAll writes, history := s.history ++ [⟨task, writes, what⟩] }

/-! ### The statements of `enroll` -/

/-- The checks before the transaction. -/
def enrollBegin (clock : ℤ) (req : EnrollRequest) : EnrollPhase :=
  match req.noiseKey with
  | none => .returned (.error (.badRequest "noise_public_key must be hex"))
  | some key =>
    if key.length ≠ 32 then
      .returned (.error (.badRequest "noise_public_key must be 32 bytes"))
    else
      let os := req.os.map Char.toUpper
      if os = "WINDOWS".toList ∨ os = "MACOS".toList ∨ os = "LINUX".toList then .begun clock
      else .returned (.error (.badRequest ("unsupported os " ++ String.ofList os)))

/-- `UPDATE enrollment_tokens SET used_at = now() …`. -/
def claimEnrollment (s : Secrets) (c : ℕ) (req : EnrollRequest) (start : ℤ) : Option Secrets :=
  let refuse := s.finish c (.enroll req (.returned (.error .unauthorized)))
  match (s.db (.enrollment req.tokenHash)).get? with
  | none => some refuse
  | some (token : EnrollmentToken) =>
    if !s.locks.mayTake c (.enrollment req.tokenHash) then none
    else if token.usedAt.isNone ∧ start < token.expiresAt then
      some ((s.takeLock c (.enrollment req.tokenHash)).setTask c
        (.enroll req (.claimed ⟨start, s.clock, token⟩)))
    else some refuse

/-- The row of the machine, once the name is the token's. -/
def enrolledMachine (req : EnrollRequest) (token : EnrollmentToken) : EnrolledMachine where
  tenantId := token.tenantId
  name := req.name
  os := req.os.map Char.toUpper
  noisePublicKey := req.noiseKey.getD []
  ownerUserId := token.ownerUserId
  region := token.region

/-- The name check and `INSERT INTO machines`. -/
def insertMachine (s : Secrets) (c : ℕ) (req : EnrollRequest) (claim : EnrollClaim) (id : ℕ) :
    Option Secrets :=
  let error (e : ApiError) := s.finish c (.enroll req (.returned (.error e)))
  if claim.token.machineName.any (· ≠ req.name) then
    some (error (.forbidden "this enrolment token is bound to a different machine name"))
  else
    let machine := enrolledMachine req claim.token
    let name := Address.machineName machine.tenantId machine.name
    let key := Address.noiseKey machine.noisePublicKey
    -- A row that another transaction is inserting under the same key is waited for.
    if !(s.locks.mayTake c (.machine id) && s.locks.mayTake c name && s.locks.mayTake c key) then
      none
    else if (s.db (.machine id)).get?.isSome ∨ (s.db name).get?.isSome ∨ (s.db key).get?.isSome then
      some (error (.conflict "a machine with that name or key already exists"))
    else
      some ((((s.takeLock c (.machine id)).takeLock c name).takeLock c key).setTask c
        (.enroll req (.inserted claim id machine)))

def enrollWrites (hash : ℕ) (claim : EnrollClaim) (id : ℕ) (machine : EnrolledMachine) :
    List (Write Address.Row) :=
  let token : EnrollmentToken :=
    { claim.token with usedAt := some claim.start, usedBy := some id }
  [⟨.enrollment hash, .row token⟩, ⟨.machine id, .row machine⟩,
   ⟨.machineName machine.tenantId machine.name, .row id⟩,
   ⟨.noiseKey machine.noisePublicKey, .row id⟩]

def enrollStep (s : Secrets) (c : ℕ) (req : EnrollRequest) (phase : EnrollPhase) (fresh : ℕ) :
    Option Secrets :=
  match phase with
  | .begun start => s.claimEnrollment c req start
  | .claimed claim => s.insertMachine c req claim fresh
  | .inserted claim id machine => some (s.setTask c (.enroll req (.linked claim id machine)))
  | .linked .. => none
  | .committed id tenant => some (s.setTask c (.enroll req (.returned (.ok (id, tenant)))))
  | .returned _ => none

/-! ### The statements of `refresh` -/

/-- `UPDATE refresh_tokens SET revoked_at = now() …`. -/
def claimRefresh (s : Secrets) (c hash : ℕ) (start : ℤ) : Option Secrets :=
  let refuse := s.finish c (.refresh hash (.returned (.error .unauthorized)))
  match (s.db (.refresh hash)).get? with
  | none => some refuse
  | some (token : RefreshToken) =>
    if !s.locks.mayTake c (.refresh hash) then none
    else if token.revokedAt.isNone ∧ start < token.expiresAt then
      some ((s.takeLock c (.refresh hash)).setTask c
        (.refresh hash (.claimed ⟨start, s.clock, token⟩)))
    else some refuse

/-- `SELECT … FROM users`. -/
def readUser (s : Secrets) (c hash : ℕ) (claim : RefreshClaim) : Secrets :=
  match (s.db (.user claim.token.userId)).get? with
  | none => s.finish c (.refresh hash (.returned (.error .unauthorized)))
  | some (account : Account) =>
    s.setTask c (.refresh hash (if account.disabled then .refused claim else .admitted claim))

/-- `INSERT INTO refresh_tokens`, under a fresh secret. -/
def insertRefresh (ttl : ℤ) (s : Secrets) (c hash : ℕ) (claim : RefreshClaim) (fresh : ℕ) :
    Option Secrets :=
  if !s.locks.mayTake c (.refresh fresh) ∨ fresh = hash then none
  else if (s.db (.refresh fresh)).isAbsent then
    some ((s.takeLock c (.refresh fresh)).setTask c (.refresh hash (.inserted claim fresh
      { tenantId := claim.token.tenantId, userId := claim.token.userId,
        expiresAt := s.clock + ttl, revokedAt := none })))
  else some (s.finish c (.refresh hash (.returned (.error .database))))

def revoked (claim : RefreshClaim) : RefreshToken :=
  { claim.token with revokedAt := some claim.start }

def refreshStep (ttl : ℤ) (s : Secrets) (c hash : ℕ) (phase : RefreshPhase) (fresh : ℕ) :
    Option Secrets :=
  match phase with
  | .begun start => s.claimRefresh c hash start
  | .claimed claim => some (s.readUser c hash claim)
  | .admitted claim => s.insertRefresh ttl c hash claim fresh
  | .refused _ | .inserted .. | .returned _ => none

/-! ### The statements of `accept_invitation` -/

/-- The checks before the transaction. -/
def acceptBegin (req : AcceptRequest) : AcceptPhase :=
  if 128 < req.tokenLen then .returned (.error .unauthorized)
  else
    match validateName req.displayName "display_name", normalizeEmail req.email, req.password with
    | .error e, _, _ => .returned (.error e)
    | .ok _, .error e, _ => .returned (.error e)
    | .ok _, .ok _, .error e => .returned (.error e)
    | .ok _, .ok email, .ok hash => .begun email hash

/-- `SELECT … FOR UPDATE` and the checks on the row. -/
def lockInvitation (s : Secrets) (c : ℕ) (req : AcceptRequest) (email passwordHash : Text) :
    Option Secrets :=
  let refuse := s.finish c (.accept req (.returned (.error .unauthorized)))
  match (s.db (.invitation req.tokenHash)).get? with
  | none => some refuse
  | some (invitation : Invitation) =>
    if !s.locks.mayTake c (.invitation req.tokenHash) then none
    else if invitation.email = email ∧ invitation.revokedAt.isNone ∧ invitation.acceptedAt.isNone ∧
        s.clock < invitation.expiresAt then
      some ((s.takeLock c (.invitation req.tokenHash)).setTask c
        (.accept req (.locked passwordHash invitation)))
    else some refuse

def isOrganizationAdmin (db : ManagerDb) (tenantId userId : ℕ) : Bool :=
  match (db (.user userId)).get?, (db (.tenant tenantId)).get? with
  | some (user : Account), some (tenant : Tenant) =>
    user.tenantId = tenantId && !user.disabled && !tenant.disabled && user.role.isAdmin &&
      tenant.kind = .organization
  | _, _ => false

/-- `organization_admin`: `SELECT … FOR SHARE OF u, t`. -/
def admitIssuer (s : Secrets) (c : ℕ) (req : AcceptRequest) (passwordHash : Text)
    (invitation : Invitation) : Option Secrets :=
  if !(s.locks.mayShare c (.user invitation.issuerId) &&
      s.locks.mayShare c (.tenant invitation.tenantId)) then none
  else if isOrganizationAdmin s.db invitation.tenantId invitation.issuerId then
    some (((s.shareLock c (.user invitation.issuerId)).shareLock c
      (.tenant invitation.tenantId)).setTask c (.accept req (.admitted passwordHash invitation)))
  else some (s.finish c (.accept req (.returned (.error .unauthorized))))

/-- `insert_user`. -/
def insertUser (s : Secrets) (c : ℕ) (req : AcceptRequest) (passwordHash : Text)
    (invitation : Invitation) (id : ℕ) : Option Secrets :=
  let email := Address.email invitation.tenantId invitation.email
  if !(s.locks.mayTake c (.user id) && s.locks.mayTake c email) then none
  else if (s.db (.user id)).isAbsent ∧ (s.db email).get?.isNone then
    let account : Account :=
      { tenantId := invitation.tenantId, email := invitation.email, passwordHash,
        displayName := req.displayName, role := .user, disabled := false }
    some (((s.takeLock c (.user id)).takeLock c email).setTask c
      (.accept req (.inserted invitation id account)))
  else some (s.finish c (.accept req (.returned (.error .database))))

/-- `issue_pair`. -/
def issueFirst (ttl : ℤ) (s : Secrets) (c : ℕ) (req : AcceptRequest) (invitation : Invitation)
    (id : ℕ) (account : Account) (fresh : ℕ) : Option Secrets :=
  if !s.locks.mayTake c (.refresh fresh) then none
  else if (s.db (.refresh fresh)).isAbsent then
    some ((s.takeLock c (.refresh fresh)).setTask c (.accept req (.issued
      { invitation, id, account, tokenHash := fresh,
        token := { tenantId := account.tenantId, userId := id, expiresAt := s.clock + ttl,
                   revokedAt := none } })))
  else some (s.finish c (.accept req (.returned (.error .database))))

/-- `workspace`. -/
def viewWorkspace (s : Secrets) (c : ℕ) (req : AcceptRequest) (j : Joining) : Secrets :=
  match (s.db (.tenant j.invitation.tenantId)).get? with
  | some (tenant : Tenant) =>
    if tenant.disabled then s.finish c (.accept req (.returned (.error .unauthorized)))
    else s.setTask c (.accept req (.viewed j))
  | none => s.finish c (.accept req (.returned (.error .unauthorized)))

/-- `UPDATE workspace_invitations SET accepted_at = clock_timestamp() …`. -/
def consume (s : Secrets) (c : ℕ) (req : AcceptRequest) (j : Joining) : Secrets :=
  if s.clock < j.invitation.expiresAt ∧ j.invitation.revokedAt.isNone ∧
      j.invitation.acceptedAt.isNone then
    s.setTask c (.accept req (.consumed s.clock j))
  else s.finish c (.accept req (.returned (.error .unauthorized)))

def acceptWrites (hash : ℕ) (claimed : ℤ) (j : Joining) : List (Write Address.Row) :=
  let invitation : Invitation := { j.invitation with acceptedAt := some claimed }
  [⟨.invitation hash, .row invitation⟩, ⟨.user j.id, .row j.account⟩,
   ⟨.email j.account.tenantId j.account.email, .row j.id⟩, ⟨.refresh j.tokenHash, .row j.token⟩]

def acceptStep (ttl : ℤ) (s : Secrets) (c : ℕ) (req : AcceptRequest) (phase : AcceptPhase)
    (fresh : ℕ) : Option Secrets :=
  match phase with
  | .begun email hash => s.lockInvitation c req email hash
  | .locked hash invitation => s.admitIssuer c req hash invitation
  | .admitted hash invitation => s.insertUser c req hash invitation fresh
  | .inserted invitation id account => s.issueFirst ttl c req invitation id account fresh
  | .issued j => some (s.viewWorkspace c req j)
  | .viewed j => some (s.consume c req j)
  | .consumed .. | .returned _ => none

/-! ### The system -/

def commitStep (s : Secrets) (c : ℕ) (answered : Bool) : Option Secrets :=
  match s.tasks c with
  | .enroll req (.linked claim id machine) =>
    some ((s.record (some c) (enrollWrites req.tokenHash claim id machine)
      (.enrolled req.tokenHash id machine claim.claimed)).finish c (.enroll req
        (if answered then .committed id machine.tenantId else .returned (.error .database))))
  | .refresh hash (.refused claim) =>
    some ((s.record (some c) [⟨.refresh hash, .row (revoked claim)⟩] .other).finish c (.refresh hash
      (.returned (.error (if answered then .unauthorized else .database)))))
  | .refresh hash (.inserted claim fresh successor) =>
    some ((s.record (some c)
      [⟨.refresh hash, .row (revoked claim)⟩, ⟨.refresh fresh, .row successor⟩]
      (.rotated hash successor claim.claimed)).finish c (.refresh hash
        (.returned (if answered then .ok fresh else .error .database))))
  | .accept req (.consumed claimed j) =>
    some ((s.record (some c) (acceptWrites req.tokenHash claimed j)
      (.accepted req.tokenHash j.id j.account claimed)).finish c (.accept req
        (.returned (if answered then .ok (j.id, j.tokenHash) else .error .database))))
  | _ => none

/-- A statement fails: the transaction is rolled back and the request returns. -/
def failStep (s : Secrets) (c : ℕ) : Option Secrets :=
  match s.tasks c with
  | .enroll _ (.returned _) | .refresh _ (.returned _) | .accept _ (.returned _) | .idle => none
  | .enroll req _ => some (s.finish c (.enroll req (.returned (.error .database))))
  | .refresh hash _ => some (s.finish c (.refresh hash (.returned (.error .database))))
  | .accept req _ => some (s.finish c (.accept req (.returned (.error .database))))

/-- The changes other handlers make to a row: secrets are issued, revoked and deleted,
accounts and tenants change as they like. -/
def mayOverwrite : (k : Address) → Slot k.Row → Slot k.Row → Bool
  | .enrollment _, .absent, .row _ => true
  -- `ON DELETE SET NULL` of the machine a token was used by.
  | .enrollment _, .row (old : EnrollmentToken), .row (new : EnrollmentToken) =>
    new = { old with usedBy := none }
  | .enrollment _, .row _, .gone => true
  | .enrollment _, _, _ => false
  | .refresh _, .absent, .row _ => true
  | .refresh _, .row (old : RefreshToken), .row (new : RefreshToken) =>
    new = { old with revokedAt := new.revokedAt } && new.revokedAt.isSome
  | .refresh _, .row _, .gone => true
  | .refresh _, _, _ => false
  | .invitation _, .absent, .row _ => true
  | .invitation _, .row (old : Invitation), .row (new : Invitation) =>
    new = { old with revokedAt := new.revokedAt } && new.revokedAt.isSome
  | .invitation _, .row _, .gone => true
  | .invitation _, _, _ => false
  | .user _, .gone, _ | .tenant _, .gone, _ => false
  | .user _, _, _ | .tenant _, _, _ => true
  | .machine _, _, _ | .machineName .., _, _ | .noiseKey _, _, _ | .email .., _, _ => true

def runStep (ttl : ℤ) (s : Secrets) (c fresh : ℕ) : Option Secrets :=
  match s.tasks c with
  | .idle => none
  | .enroll req phase => s.enrollStep c req phase fresh
  | .refresh hash phase => s.refreshStep ttl c hash phase fresh
  | .accept req phase => s.acceptStep ttl c req phase fresh

def step (ttl : ℤ) (s : Secrets) : SecretEvent → Option Secrets
  | .tick now => if s.clock ≤ now then some { s with clock := now } else none
  | .enroll c req =>
    if s.tasks c = .idle then some (s.setTask c (.enroll req (enrollBegin s.clock req))) else none
  | .refresh c hash =>
    if s.tasks c = .idle then some (s.setTask c (.refresh hash (.begun s.clock))) else none
  | .accept c req =>
    if s.tasks c = .idle then some (s.setTask c (.accept req (acceptBegin req))) else none
  | .run c fresh => s.runStep ttl c fresh
  | .commit c answered => s.commitStep c answered
  | .fail c => s.failStep c
  | .other w =>
    if s.locks.isFree w.1 && mayOverwrite w.1 (s.db w.1) w.2 then
      some (s.record none [w] .other)
    else none

/-- A token that was not expired when the transaction began is not expired when it is
claimed. -/
def claimsInTime (s : Secrets) (c : ℕ) : Bool :=
  match s.tasks c with
  | .enroll req (.begun start) =>
    (s.db (.enrollment req.tokenHash)).get?.all fun (token : EnrollmentToken) =>
      token.expiresAt ≤ start || s.clock < token.expiresAt
  | .refresh hash (.begun start) =>
    (s.db (.refresh hash)).get?.all fun (token : RefreshToken) =>
      token.expiresAt ≤ start || s.clock < token.expiresAt
  | _ => true

/-- The steps that the handlers count on: claims are made in time, what a commit has
done is answered, and the gateways are listed. -/
def orderly (s : Secrets) : SecretEvent → Bool
  | .run c _ => s.claimsInTime c
  | .commit c answered =>
    match s.tasks c with
    | .refresh .. => true
    | _ => answered
  | .fail c =>
    match s.tasks c with
    | .enroll _ (.committed ..) => false
    | _ => true
  | _ => true

def stepOrderly (ttl : ℤ) (s : Secrets) (e : SecretEvent) : Option Secrets :=
  if s.orderly e then s.step ttl e else none

end Secrets

end NebulaDesk
