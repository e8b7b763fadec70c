/-
Published resources and entitlements (`nebula-manager/src/routes/resources.rs`,
`nebula-manager/src/routes/sessions.rs`).

A machine offers resources, an entitlement grants a user or a group access to one,
and the owner of a machine has a full grant of his own.  `list_mine`, `detail` and
`resolve_grant` read the same join, and `create` signs what `resolve_grant` finds.
-/
import NebulaDesk.Manager.Api
import NebulaDesk.Manager.Signing
import NebulaDesk.Gateway.Gateway

namespace NebulaDesk

inductive ResourceKind
  | desktop
  | app
deriving DecidableEq, Repr

/-- A row of `published_resources`. -/
structure PublishedResource where
  id : ℕ
  tenantId : ℕ
  machineId : ℕ
  kind : ResourceKind
  name : Text
  description : Text
  launchPath : Option Text
  launchArgs : List Text
  workingDir : Option Text
  enabled : Bool
deriving DecidableEq

/-- A row of `machines`. -/
structure Device where
  id : ℕ
  tenantId : ℕ
  os : Text
  osVersion : Text
  noisePublicKey : List UInt8
  ownerUserId : Option ℕ
  status : MachineStatus
  /-- The `application` member of the advertisement, if it is there and parses. -/
  capabilities : Option ApplicationCapability
  lastSeenAt : Option ℤ
deriving DecidableEq

/-- A row of `users`, as far as a resource list shows it. -/
structure OwnerRow where
  id : ℕ
  tenantId : ℕ
  displayName : Text
deriving DecidableEq

inductive SubjectKind
  | user
  | group
deriving DecidableEq, Repr

/-- A row of `entitlements`. -/
structure Entitlement where
  id : ℕ
  tenantId : ℕ
  resourceId : ℕ
  subjectKind : SubjectKind
  subjectId : ℕ
  role : SessionRole
  allowClipboard : Bool
  allowFileTransfer : Bool
  allowAudio : Bool
  expiresAt : Option ℤ
  revokedAt : Option ℤ
deriving DecidableEq, Repr

/-- A row of `user_group_members`. -/
structure GroupMember where
  tenantId : ℕ
  groupId : ℕ
  userId : ℕ
deriving DecidableEq, Repr

/-- What a statement sees of the database, with its primary keys. -/
structure Catalog where
  resources : List PublishedResource
  machines : List Device
  users : List OwnerRow
  entitlements : List Entitlement
  members : List GroupMember
  now : ℤ
  resources_key : (resources.map (·.id)).Nodup
  machines_key : (machines.map (·.id)).Nodup
  entitlements_key : (entitlements.map (·.id)).Nodup

/-- How long a machine may go unheard-from before it counts as offline, in seconds. -/
def livenessGrace : ℤ := 90

/-- A row of the subquery `grants`. -/
structure Grant where
  id : ℕ
  role : SessionRole
  allowClipboard : Bool
  allowFileTransfer : Bool
  allowAudio : Bool
  priority : ℕ
deriving DecidableEq, Repr

namespace Grant

/-- The strongest role first. -/
def rank (g : Grant) : ℕ :=
  match g.role with
  | .admin => 0
  | .controller => 1
  | .viewer => 2

/-- The order of the grants: role, direct before group, id. -/
def key (g : Grant) : ℕ ×ₗ ℕ ×ₗ ℕ := toLex (g.rank, toLex (g.priority, g.id))

end Grant

def Entitlement.grant (e : Entitlement) : Grant where
  id := e.id
  role := e.role
  allowClipboard := e.allowClipboard
  allowFileTransfer := e.allowFileTransfer
  allowAudio := e.allowAudio
  priority := if e.subjectKind = .user then 1 else 2

def Device.ownerGrant (m : Device) : Grant := ⟨m.id, .admin, true, true, true, 0⟩

/-- One entry in a user's own resource list; `machineCapabilities` is not
serialised. -/
structure EntitledResource where
  id : ℕ
  kind : ResourceKind
  name : Text
  description : Text
  machineStatus : MachineStatus
  machineOs : Option Text
  role : SessionRole
  allowClipboard : Bool
  allowFileTransfer : Bool
  allowAudio : Bool
  ownerName : Option Text
  owned : Bool
  machineId : Option ℕ
  os : Option Text
  osVersion : Option Text
  lastSeenAt : Option ℤ
  launchSupported : Bool
  machineCapabilities : Option ApplicationCapability
deriving DecidableEq

/-- Consumer metadata plus the exact role-clamped admission policy. -/
structure ResourceView where
  resource : EntitledResource
  policy : SessionPolicy
  application : Option ApplicationCapability
deriving DecidableEq

/-- The authorisation a user holds over one resource. -/
structure ResolvedGrant where
  kind : ResourceKind
  machineId : ℕ
  machineStatus : MachineStatus
  noisePublicKey : List UInt8
  role : SessionRole
  allowClipboard : Bool
  allowFileTransfer : Bool
  allowAudio : Bool
  machineCapabilities : Option ApplicationCapability
  launchPath : Option Text
  launchArgs : List Text
  workingDir : Option Text
deriving DecidableEq

/-- Fails closed on absent and malformed data. -/
def ApplicationCapability.fromMachineCapabilities (c : Option ApplicationCapability) :
    ApplicationCapability :=
  c.getD .unavailable

/-- The effective policy, clamped to what the role may ever grant; every role a row
may hold parses. -/
def effectivePolicy (role : SessionRole) (clipboard fileTransfer audio : Bool) :
    SessionRole × SessionPolicy :=
  (role, { clipboard := clipboard && role.maxPolicy.clipboard,
           fileTransfer := fileTransfer && role.maxPolicy.fileTransfer,
           audio := audio && role.maxPolicy.audio,
           input := role.maxPolicy.input })

namespace ResolvedGrant

def policy (g : ResolvedGrant) : SessionRole × SessionPolicy :=
  effectivePolicy g.role g.allowClipboard g.allowFileTransfer g.allowAudio

/-- The publisher's configuration, as the resource row has it. -/
def launch (g : ResolvedGrant) : ApplicationLaunch where
  launchPath := g.launchPath.getD []
  launchArgs := g.launchArgs
  workingDir := g.workingDir

end ResolvedGrant

namespace EntitledResource

/-- The view of a row for a caller that does or does not implement application
windows. -/
def intoView (row : EntitledResource) (applicationWindows : Bool) : ResourceView :=
  let policy := (effectivePolicy row.role row.allowClipboard row.allowFileTransfer
    row.allowAudio).2
  match row.kind with
  | .app =>
    let capability := ApplicationCapability.fromMachineCapabilities row.machineCapabilities
    let policy := applicationPolicy policy
    { resource := { row with
        launchSupported := applicationWindows && capability.isSupported
        allowClipboard := policy.clipboard
        allowFileTransfer := policy.fileTransfer
        allowAudio := policy.audio }
      policy := policy
      application := some capability }
  | .desktop =>
    { resource := { row with
        allowClipboard := policy.clipboard
        allowFileTransfer := policy.fileTransfer
        allowAudio := policy.audio }
      policy := policy
      application := none }

end EntitledResource

namespace Catalog

/-- The status a machine actually has, as opposed to the one it last claimed. -/
def liveStatus (db : Catalog) (m : Device) : MachineStatus :=
  if m.status = .online ∧ m.lastSeenAt.all (· < db.now - livenessGrace) then .offline else m.status

/-- The user himself, or one of his groups. -/
def reaches (db : Catalog) (tenant user : ℕ) (e : Entitlement) : Bool :=
  match e.subjectKind with
  | .user => e.subjectId = user
  | .group => db.members.any fun g =>
      g.tenantId = tenant && g.userId = user && g.groupId = e.subjectId

/-- Neither revoked nor expired. -/
def live (db : Catalog) (e : Entitlement) : Bool :=
  e.revokedAt.isNone && e.expiresAt.all (db.now < ·)

/-- The subquery `grants` for a resource on a machine. -/
def grants (db : Catalog) (tenant user : ℕ) (r : PublishedResource) (m : Device) : List Grant :=
  (db.entitlements.filter fun e => e.tenantId = tenant && e.resourceId = r.id && db.live e &&
    db.reaches tenant user e).map Entitlement.grant ++
    if m.ownerUserId = some user then [m.ownerGrant] else []

def machineOf (db : Catalog) (r : PublishedResource) : Option Device :=
  db.machines.find? fun m => m.id = r.machineId && m.tenantId = r.tenantId

def ownerName (db : Catalog) (m : Device) : Option Text :=
  (db.users.find? fun u => m.ownerUserId = some u.id && u.tenantId = m.tenantId).map (·.displayName)

/-- The columns of the entitled-resources query. -/
def select (db : Catalog) (user : ℕ) (r : PublishedResource) (m : Device) (g : Grant) :
    EntitledResource where
  id := r.id
  kind := r.kind
  name := r.name
  description := r.description
  machineStatus := db.liveStatus m
  machineOs := if r.kind = .desktop then some m.os else none
  role := g.role
  allowClipboard := g.allowClipboard
  allowFileTransfer := g.allowFileTransfer
  allowAudio := g.allowAudio
  ownerName := db.ownerName m
  owned := r.kind = .desktop && m.ownerUserId = some user
  machineId := if r.kind = .desktop then some m.id else none
  os := if r.kind = .desktop then some m.os else none
  osVersion := if r.kind = .desktop then some m.osVersion else none
  lastSeenAt := if r.kind = .desktop then m.lastSeenAt else none
  launchSupported := r.kind = .desktop
  machineCapabilities := m.capabilities

/-- The row of one resource: `none` where a join or the filter leaves it out. -/
def entitledRow (db : Catalog) (tenant user : ℕ) (r : PublishedResource) :
    Option EntitledResource :=
  if r.tenantId = tenant && r.enabled then do
    let m ← db.machineOf r
    let g ← Query.firstBy Grant.key (db.grants tenant user r m)
    return db.select user r m g
  else none

/-- Every resource one user may launch, and the terms they may launch it on. -/
def entitledResources (db : Catalog) (tenant user : ℕ) : List EntitledResource :=
  db.resources.filterMap (db.entitledRow tenant user)

/-- `GET /v1/resources`. -/
def listMine (db : Catalog) (caller : AuthUser) (applicationWindows : Bool) : List ResourceView :=
  ((db.entitledResources caller.tenant caller.id).mergeSort fun a b => a.name ≤ b.name).map
    (·.intoView applicationWindows)

/-- `GET /v1/resources/{id}`. -/
def detail (db : Catalog) (caller : AuthUser) (id : ℕ) (applicationWindows : Bool) :
    Except ApiError ResourceView :=
  match (db.entitledResources caller.tenant caller.id).find? (·.id = id) with
  | none => .error (.notFound "resource")
  | some row => .ok (row.intoView applicationWindows)

def resolveGrant (db : Catalog) (caller : AuthUser) (resource : ℕ) : Option ResolvedGrant := do
  let g ← (db.entitledResources caller.tenant caller.id).find? (·.id = resource)
  let r ← db.resources.find? (·.id = g.id)
  let m ← db.machines.find? (·.id = r.machineId)
  return { kind := g.kind, machineId := m.id, machineStatus := db.liveStatus m,
           noisePublicKey := m.noisePublicKey, role := g.role, allowClipboard := g.allowClipboard,
           allowFileTransfer := g.allowFileTransfer, allowAudio := g.allowAudio,
           machineCapabilities := m.capabilities, launchPath := r.launchPath,
           launchArgs := r.launchArgs, workingDir := r.workingDir }

end Catalog

def launchTarget (codec : LaunchCodec) (grant : ResolvedGrant) (resource : ℕ)
    (clientSupport : Bool) : Except ApiError LaunchTarget :=
  match grant.kind with
  | .desktop => .ok .desktop
  | .app =>
    if !clientSupport ||
        !(ApplicationCapability.fromMachineCapabilities grant.machineCapabilities).isSupported then
      .error (.conflict "isolated APP streaming is not supported; desktop fallback is forbidden")
    else if grant.launch.validate codec then
      .ok (.application resource (grant.launch.version codec) grant.launch)
    else .error (.conflict "application launch configuration is unavailable")

/-- A row of `gateways` or `relays`, as a session is placed on it. -/
structure NodeRow where
  id : ℕ
  quicAddr : String
  certPin : String
  region : String
deriving DecidableEq, Repr

/-- Everything a client needs to establish the session. -/
structure SessionTicket (jwt : Jwt) where
  sessionId : ℕ
  resourceId : ℕ
  ticket : jwt.Token
  gatewayAddr : String
  gatewayPin : String
  relayAddr : String
  relayPin : String
  agentKey : Text
  policy : SessionPolicy
  applicationWindows : Bool

structure CreateSession where
  resourceId : ℕ
  applicationWindows : Bool
deriving DecidableEq, Repr

section Create

variable (jwt : Jwt) (codec : LaunchCodec)

def TicketSigner.claims (session tenant user machine resource : ℕ) (role : SessionRole)
    (policy : SessionPolicy) (now : ℤ) : TicketClaims where
  jti := session
  iat := now
  exp := now + defaultTtl
  sid := session
  tid := tenant
  uid := user
  mid := machine
  rid := resource
  role := role
  policy := policy
  launchTarget := .desktop

/-- The claims of a session that `create` has admitted. -/
def sessionClaims (db : Catalog) (caller : AuthUser) (req : CreateSession) (grant : ResolvedGrant)
    (target : LaunchTarget) (session : ℕ) : TicketClaims :=
  let policy := grant.policy.2
  let policy := if target.isApplication then applicationPolicy policy else policy
  let claims := TicketSigner.claims session caller.tenant caller.id grant.machineId req.resourceId
    grant.policy.1 policy db.now
  { claims with launchTarget := target }

/-- `POST /v1/sessions`, with the answers of `pick_gateway` and `pick_relay`. -/
def createSession (signer : TicketSigner) (db : Catalog) (caller : AuthUser) (req : CreateSession)
    (gateway relay : Option NodeRow) (session : ℕ) : Except ApiError (SessionTicket jwt) :=
  match db.resolveGrant caller req.resourceId with
  | none => .error (.notFound "resource")
  | some grant =>
    match launchTarget codec grant req.resourceId req.applicationWindows with
    | .error e => .error e
    | .ok target =>
      if grant.machineStatus ≠ .online then
        .error (.conflict "the machine serving this resource is not online")
      else
        let claims := sessionClaims db caller req grant target session
        match gateway, relay with
        | none, _ => .error (.conflict "no gateway has capacity right now")
        | some _, none => .error (.conflict "no relay has capacity right now")
        | some gateway, some relay =>
          match signer.issue jwt codec claims with
          | none => .error (.conflict "invalid application session authority")
          | some ticket =>
            .ok { sessionId := session, resourceId := req.resourceId, ticket := ticket,
                  gatewayAddr := gateway.quicAddr, gatewayPin := gateway.certPin,
                  relayAddr := relay.quicAddr, relayPin := relay.certPin,
                  agentKey := hexEncode grant.noisePublicKey, policy := claims.policy,
                  applicationWindows := target.isApplication }

end Create

end NebulaDesk
