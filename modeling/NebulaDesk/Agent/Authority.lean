/-
Which sessions an agent serves (`nebula-agent/src/manager.rs`, `verify_session_authority`;
`ndp-signal/src/messages.rs`, `SessionRequest::verify_signed_authority`;
`nebula-agent/src/session.rs`, `bind_session_ticket` and `pump_media`).

A gateway sends a request.  If it carries a ticket of the manager, or is for an application, the
ticket is verified against keys that the manager has published.  Then the client presents a
ticket inside the encrypted handshake, and that must be the one of the request; if the request
has none, its target is only compared.  Gateways are not trusted: requests are arbitrary.
-/
import NebulaDesk.Client.Hello
import NebulaDesk.Lib.Runs

namespace NebulaDesk

namespace Authority

/-! ### What is read -/

inductive Algorithm
  | edDsa
  | other (name : Text)
deriving DecidableEq

structure JwtHeader where
  alg : Algorithm
  kid : Option Text
deriving DecidableEq

/-- What `jsonwebtoken` is told to check. -/
structure Validation where
  algorithm : Algorithm
  audience : List Text
  issuer : List Text
  requiredSpecClaims : List Text
  leeway : ℤ
deriving DecidableEq

/-- `Jwk`, with its key in base 64. -/
structure WebKey where
  kty : Text
  crv : Text
  x : Text
  kid : Text
  use : Text
  alg : Text
deriving DecidableEq

def WebKey.isNamed (k : WebKey) (kid : Text) : Bool :=
  k.kid = kid && k.kty = "OKP".toList && k.crv = "Ed25519".toList && k.alg = "EdDSA".toList &&
    k.use = "sig".toList

/-- Issuer and verification keys, fetched together. -/
structure TicketAuthority where
  issuer : Text
  jwks : List WebKey
deriving DecidableEq

/-- `serde_json` and `jsonwebtoken`, as far as the agent reads with them. -/
structure Reader where
  /-- `serde_json::Value`. -/
  Value : Type
  /-- `from_slice::<SessionHello>`. -/
  hello : List UInt8 → Option SessionHello
  value : List UInt8 → Option Value
  isObject : Value → Bool
  get : Value → Text → Option Value
  /-- `from_value::<LaunchTarget>`. -/
  target : Value → Option LaunchTarget
  decodeHeader : Text → Option JwtHeader
  /-- With the clock that it reads. -/
  decode : (key : List UInt8) → Validation → ℤ → Text → Option SignedClaims

/-! ### Requests -/

/-- Instructions for one session, sent to the agent. -/
structure SessionRequest where
  session : ℕ
  resourceId : ℕ
  launchTarget : LaunchTarget
  signedTicket : Option Text
  policy : SessionPolicy
  role : SessionRole
  relayAddr : Text
  relayPin : Text
deriving DecidableEq

variable (reader : Reader) (codec : LaunchCodec)

def validation (issuer : Text) : Validation where
  algorithm := .edDsa
  audience := [audience]
  issuer := [issuer]
  requiredSpecClaims := ["exp".toList, "aud".toList, "iss".toList]
  leeway := clockSkew

/-- The claims are those of the request, for this machine. -/
def SessionRequest.agrees (request : SessionRequest) (machine : ℕ) (agentKey : Text)
    (claims : SignedClaims) : Bool :=
  claims.mid = machine && claims.agentKey = agentKey && claims.sid = request.session &&
    claims.rid = request.resourceId && claims.role = request.role &&
    claims.policy = request.policy && claims.launchTarget = request.launchTarget &&
    claims.relayAddr = request.relayAddr && claims.relayPin = request.relayPin

/-- `verify_signed_authority`; all its errors are one.  `now` is the clock as `jsonwebtoken` and
then the agent reads it. -/
def SessionRequest.verifySignedAuthority (request : SessionRequest) (authority : TicketAuthority)
    (machine : ℕ) (agentKey : Text) (now : ℤ × ℤ) : Option SignedClaims := do
  let token ← request.signedTicket
  let header ← reader.decodeHeader token
  guard (header.alg = .edDsa)
  let kid ← header.kid
  let jwk ← authority.jwks.find? (·.isNamed kid)
  let key ← Base64.decode jwk.x
  let claims ← reader.decode key (validation authority.issuer) now.1 token
  guard (claims.isValidAt now.2 && request.agrees machine agentKey claims)
  guard (claims.launchTarget.validate codec claims.rid claims.policy)
  return claims

/-! ### Admission -/

/-- What `v1/machines/session-authority` gives; the manager has published it. -/
inductive Answer (published : TicketAuthority → Prop)
  | failed
  | redirected
  | authority (authority : { authority // published authority })

structure CachedKeys where
  fetched : ℕ
  authority : TicketAuthority

/-- The clocks of one admission: milliseconds when the cache is looked at and when an answer is
there, and the time of day at the verification with the cached keys and with the new ones. -/
structure Clocks where
  looked : ℕ
  fetched : ℕ
  cached : ℤ × ℤ
  fresh : ℤ × ℤ
deriving DecidableEq

inductive AuthorityError
  /-- "application authority is missing". -/
  | missing
  | unavailable
  /-- "manager signing key redirects are not accepted". -/
  | redirected
  | denied
deriving DecidableEq

/-- How long fetched keys are used, in milliseconds. -/
def keysTtl : ℕ := 300 * 1000

/-- `verify_session_authority`, and the keys that are cached afterwards. -/
def verifySessionAuthority {published : TicketAuthority → Prop} (signing : Option CachedKeys)
    (request : SessionRequest) (machine : ℕ) (agentKey : Text) (clocks : Clocks)
    (answer : Answer published) : Except AuthorityError Unit × Option CachedKeys :=
  if request.signedTicket.isNone && !request.launchTarget.isApplication then (.ok (), signing)
  else if request.signedTicket.isNone then (.error .missing, signing)
  else if signing.any fun keys => clocks.looked - keys.fetched < keysTtl &&
      (request.verifySignedAuthority reader codec keys.authority machine agentKey
        clocks.cached).isSome then
    (.ok (), signing)
  else
    match answer with
    | .failed => (.error .unavailable, signing)
    | .redirected => (.error .redirected, signing)
    | .authority authority =>
      let verified := request.verifySignedAuthority reader codec authority machine agentKey
        clocks.fresh
      (if verified.isSome then .ok () else .error .denied, some ⟨clocks.fetched, authority⟩)

/-! ### The handshake -/

/-- `String::from_utf8`. -/
def fromUtf8 (bytes : List UInt8) : Option Text :=
  (String.fromUTF8? ⟨bytes.toArray⟩).map String.toList

def presented (payload : List UInt8) : Except String Text :=
  -- An opening brace begins a hello, anything else is the ticket.
  if payload.head? = some 123 then
    match reader.hello payload with
    | some hello => .ok hello.ticket
    | none => .error "malformed session hello"
  else
    match fromUtf8 payload with
    | some ticket => .ok ticket
    | none => .error "malformed session ticket"

/-- The target that the claims of a ticket name, unverified; a ticket without one is for a
desktop. -/
def claimedTarget (claims : reader.Value) : Option LaunchTarget :=
  match reader.get claims "launch_target".toList with
  | some target => reader.target target
  | none => some .desktop

def compareTarget (request : SessionRequest) (ticket : Text) : Except String Unit :=
  match ticket.splitOn '.' with
  | [_, claims, _] =>
    match Base64.decode claims with
    | none => .error "malformed session ticket"
    | some bytes =>
      match reader.value bytes with
      | none => .error "malformed session ticket"
      | some claims =>
        if !reader.isObject claims then .error "malformed session ticket"
        else
          match claimedTarget reader claims with
          | none => .error "invalid session target"
          | some target =>
            if target ≠ request.launchTarget ∨
                (target.isApplication ∧ request.signedTicket.isNone) then
              .error "session target does not match authenticated client ticket"
            else .ok ()
  | _ =>
    if request.launchTarget.isApplication then .error "malformed application ticket" else .ok ()

/-- `bind_session_ticket`. -/
def bindSessionTicket (request : SessionRequest) (payload : List UInt8) : Except String Unit :=
  match presented reader payload with
  | .error e => .error e
  | .ok ticket =>
    match request.signedTicket with
    | some admitted =>
      if ticket ≠ admitted then .error "session ticket does not match admission"
      else compareTarget reader request ticket
    | none =>
      if request.launchTarget.isApplication then .error "application authority is missing"
      else compareTarget reader request ticket

/-- `session_multipath`. -/
def sessionMultipath (payload : List UInt8) : Except String Bool :=
  if payload.head? = some 123 then
    match reader.hello payload with
    | none => .error "malformed session hello"
    | some hello =>
      if hello.ticket.isEmpty then .error "no ticket was presented" else .ok hello.multipath
  else if payload.isEmpty then .error "no ticket was presented"
  else .ok false

/-! ### What is served -/

inductive Service
  /-- The desktop, with what the policy permits. -/
  | desktop (permitted : SessionPolicy)
  /-- The windows of one process; the clipboard, audio and files have no part in it. -/
  | application (launch : ApplicationLaunch) (input : Bool)
  /-- "application_authority_invalid". -/
  | refused
deriving DecidableEq

/-- `pump_media` and `pump_application`. -/
def pumpMedia (request : SessionRequest) : Service :=
  match request.launchTarget with
  | .application _ _ launch =>
    if request.launchTarget.validate codec request.resourceId request.policy then
      .application launch request.policy.input
    else .refused
  | .desktop => .desktop request.policy

/-! ### An agent -/

structure Session where
  request : SessionRequest
  clocks : Clocks
  payload : List UInt8
  service : Service
deriving DecidableEq

end Authority

open Authority

/-- The sessions of an agent. -/
structure Authority where
  signing : Option CachedKeys
  /-- The requests whose authority was accepted, and when. -/
  admitted : List (SessionRequest × Clocks)
  served : List Authority.Session

namespace Authority

inductive Event (published : TicketAuthority → Prop)
  /-- A gateway sends a request. -/
  | startSession (request : SessionRequest) (clocks : Clocks) (answer : Answer published)
  /-- The handshake of an admitted session, with what the client has sent in it. -/
  | accept (request : SessionRequest) (clocks : Clocks) (payload : List UInt8)

def start : Authority := ⟨none, [], []⟩

variable (reader : Reader) (codec : LaunchCodec)

def step (machine : ℕ) (agentKey : Text) (s : Authority) : Event published → Option Authority
  | .startSession request clocks answer =>
    let verified := verifySessionAuthority reader codec s.signing request machine agentKey clocks
      answer
    match verified.1 with
    | .ok () => some { s with
        signing := verified.2
        admitted := (request, clocks) :: s.admitted }
    | .error _ => some { s with signing := verified.2 }
  | .accept request clocks payload =>
    if (request, clocks) ∈ s.admitted then
      match bindSessionTicket reader request payload, sessionMultipath reader payload with
      | .ok (), .ok _ =>
        some { s with served := ⟨request, clocks, payload, pumpMedia codec request⟩ :: s.served }
      | _, _ => none
    else none

/-! ### What is promised -/

/-- What is assumed of the manager, which has signed `signed` and published `published`. -/
structure Trusted (signed : TicketKey → SignedClaims → Prop) (published : TicketAuthority → Prop) :
    Prop where
  /-- No one else makes a ticket that verifies with a published key. -/
  unforgeable : ∀ authority, published authority → ∀ jwk ∈ authority.jwks, ∀ key v now token claims,
    Base64.decode jwk.x = some key → reader.decode key v now token = some claims →
      ∃ k, signed k claims ∧ token = k.sign claims
  /-- `serde_json` reads back the target in the claims that it has written. -/
  read : ∀ k claims, signed k claims → ∃ value target,
    reader.value claims.json.bytes = some value ∧ reader.isObject value = true ∧
      reader.get value "launch_target".toList = some target ∧
      reader.target target = some claims.launchTarget

/-- The ticket is for this machine and grants exactly what the request asks for. -/
structure Grants (machine : ℕ) (agentKey : Text) (claims : SignedClaims)
    (request : SessionRequest) : Prop where
  machine : claims.mid = machine
  agentKey : claims.agentKey = agentKey
  session : claims.sid = request.session
  resource : claims.rid = request.resourceId
  role : claims.role = request.role
  policy : claims.policy = request.policy
  launchTarget : claims.launchTarget = request.launchTarget
  relayAddr : claims.relayAddr = request.relayAddr
  relayPin : claims.relayPin = request.relayPin

structure Session.Bound (signed : TicketKey → SignedClaims → Prop) (machine : ℕ) (agentKey : Text)
    (s : Session) : Prop where
  /-- A request with a ticket, or for an application, is what the manager has signed for this
  machine, and the client has presented that ticket. -/
  authority : s.request.signedTicket.isSome = true ∨ s.request.launchTarget.isApplication = true →
    ∃ k claims, signed k claims ∧ presented reader s.payload = .ok (k.sign claims) ∧
      s.request.signedTicket = some (k.sign claims) ∧
      (claims.isValidAt s.clocks.cached.2 = true ∨ claims.isValidAt s.clocks.fresh.2 = true) ∧
      Grants machine agentKey claims s.request
  /-- What is launched is in the ticket, and nothing else is shared. -/
  launch : ∀ launch input, s.service = .application launch input →
    ∃ k claims, signed k claims ∧ presented reader s.payload = .ok (k.sign claims) ∧
      claims.launchTarget = .application claims.rid (launch.version codec) launch ∧
      launch.validate codec = true ∧ s.request.policy = ⟨false, false, false, input⟩ ∧
      claims.policy = ⟨false, false, false, input⟩
  /-- A client with a ticket for an application gets no desktop. -/
  desktop : ∀ k claims, signed k claims → presented reader s.payload = .ok (k.sign claims) →
    claims.launchTarget.isApplication = true → ∀ permitted, s.service ≠ .desktop permitted

end Authority

end NebulaDesk
