/-
The routes of a logical session (`Shared` of `ndp-transport/src/multipath.rs`).

A logical session keeps up to two native paths and selects one of them for what
it sends; every switch starts a new route epoch.  The functions here are those
that run under the routes' lock: what they make of the state is all they can do
to it, and what they ask of the native sessions they leave in `Shared.calls`.
-/
import NebulaDesk.Multipath.Envelope

namespace NebulaDesk

namespace Multipath

def probeInterval : ℕ := 500000000
def pathTimeout : ℕ := 2500000000
def relayStartupTimeout : ℕ := 15000000000
def maxRelayTimeout : ℕ := 15000000000
def cooldown : ℕ := 5000000000
def codePathFailed : ℕ := 0x4d5001
def codeLogicalClose : ℕ := 0x4d5000000000

/-- The carrier selected for new logical messages. -/
inductive PathKind
  | relay | direct
deriving DecidableEq, Repr

namespace PathKind

/-- Both kinds, in index order. -/
def all : List PathKind := [relay, direct]

def other : PathKind → PathKind
  | relay => direct
  | direct => relay

end PathKind

/-- A media discontinuity notification. -/
structure PathState where
  kind : PathKind
  epoch : ℕ
deriving DecidableEq, Repr

structure Path where
  id : ℕ
  kind : PathKind
  native : Native
  peerReady : Bool
  lastEcho : ℕ
  lastProbe : Option ℕ
  probes : List (ℕ × ℕ)
  rtt : Option ℕ
  samples : ℕ
deriving DecidableEq, Repr

def Path.new (id : ℕ) (kind : PathKind) (native : Native) (now : ℕ) : Path where
  id := id
  kind := kind
  native := native
  peerReady := false
  lastEcho := now
  lastProbe := none
  probes := []
  rtt := none
  samples := 0

structure Routes where
  paths : PathKind → Option Path
  active : PathKind
  txEpoch : ℕ
  changedAt : ℕ
  nextId : ℕ
  nextProbe : ℕ
  directAfter : ℕ

structure Selected where
  id : ℕ
  kind : PathKind
  epoch : ℕ
  native : Native
deriving DecidableEq, Repr

inductive NativeCall
  | close (conn code : ℕ) (reason : String)
  | datagram (conn : ℕ) (payload : List UInt8)
deriving DecidableEq, Repr

structure Shared where
  routes : Routes
  changes : PathState
  shutdown : Bool
  terminal : Option TransportError
  acknowledged : Channel → ℕ
  allocated : Channel → ℕ
  received : Channel → ℕ
  maxRecord : ℕ
  /-- The calls made on native sessions. -/
  calls : List NativeCall

/-- What a call reads of the world: the time in nanoseconds, whether a
connection is closed, whether it refuses a datagram, and the floating-point
comparison of two round-trip times. -/
structure Host where
  now : ℕ
  closed : ℕ → Bool
  refuses : ℕ → Option SendDatagramError
  faster : ℕ → ℕ → Bool

namespace Shared

/-- The path with this id. -/
def find (id : ℕ) (s : Shared) : Option Path :=
  (PathKind.all.filterMap s.routes.paths).find? (·.id = id)

/-- Where the path with this id sits. -/
def position (id : ℕ) (s : Shared) : Option PathKind :=
  PathKind.all.find? fun kind => (s.routes.paths kind).any (·.id = id)

def setPath (kind : PathKind) (path : Option Path) (s : Shared) : Shared :=
  { s with routes := { s.routes with paths := Function.update s.routes.paths kind path } }

/-- Change the path with this id in place. -/
def modifyPath (id : ℕ) (f : Path → Path) (s : Shared) : Shared :=
  match s.position id with
  | none => s
  | some kind => s.setPath kind ((s.routes.paths kind).map f)

def call (c : NativeCall) (s : Shared) : Shared := { s with calls := s.calls ++ [c] }

def selected (s : Shared) : Option Selected :=
  (s.routes.paths s.routes.active).map fun p => ⟨p.id, p.kind, s.routes.txEpoch, p.native⟩

def publish (kind : PathKind) (s : Shared) : Shared :=
  { s with changes := ⟨kind, min (s.changes.epoch + 1) (2 ^ 64 - 1)⟩ }

def switch (h : Host) (kind : PathKind) (s : Shared) : Shared :=
  if s.routes.active = kind then s
  else publish kind
    { s with routes :=
      { s.routes with active := kind, txEpoch := s.routes.txEpoch + 1, changedAt := h.now } }

def stopWithCode (error : TransportError) (code : ℕ) (reason : String) (s : Shared) : Shared :=
  if s.shutdown then s
  else
    { s with
      terminal := some error
      calls := s.calls ++ (PathKind.all.filterMap s.routes.paths).map fun p =>
        .close p.native.conn (codeLogicalClose ||| code) reason
      routes := { s.routes with paths := fun _ => none }
      shutdown := true }

def stop (error : TransportError) (reason : String) (s : Shared) : Shared :=
  s.stopWithCode error 0 reason

end Shared

def isLogicalClose : TransportError → Bool
  | .connection (.applicationClosed code) => code &&& 0xffffffff00000000 == codeLogicalClose
  | _ => false

/-- A late copy of a record that rides a stream of its own. -/
def isLateReplay : TransportError → Bool
  | .crypto (.replay channel _) => channel == "clipboard" || channel == "file"
  | _ => false

def isProtocolFailure : TransportError → Bool
  | .crypto _ | .proto _ | .wrongCarrier _ _ | .unknownChannel _ | .multipathProtocol _
  | .recordTooLarge _ _ => true
  | _ => false

namespace Shared

/-- Take a failed path out and close it. -/
def removePath (h : Host) (index : PathKind) (path : Path) (s : Shared) : Shared :=
  { s with
    routes :=
      { s.routes with
        paths := Function.update s.routes.paths index none
        directAfter := if path.kind = .direct then h.now + cooldown else s.routes.directAfter }
    calls := s.calls ++ [.close path.native.conn codePathFailed "path unavailable"] }

def failPath (h : Host) (id : ℕ) (error : TransportError) (s : Shared) : Shared :=
  if isLogicalClose error then s.stop error "peer closed logical session"
  else if isLateReplay error then s
  else if isProtocolFailure error then s.stop error "multipath protocol failure"
  else match s.position id with
    | none => s
    | some index => match s.routes.paths index with
      | none => s
      | some path =>
        let s := s.removePath h index path
        if s.routes.active = path.kind then
          if (s.routes.paths path.kind.other).isSome then s.switch h path.kind.other
          else s.stop error "all paths unavailable"
        else s

/-- Send an internal message on a path. -/
def internal (h : Host) (id : ℕ) (kind : InternalKind) (nonce : Option ℕ) (s : Shared) : Shared :=
  match s.find id with
  | none => s
  | some path =>
    match h.refuses path.native.conn with
    | none => s.call (.datagram path.native.conn (internalPayload kind nonce s.received))
    | some error => s.failPath h id (.datagram error)

def peerReady (h : Host) (id : ℕ) (s : Shared) : Shared :=
  s.modifyPath id fun path =>
    if path.peerReady then path
    else { path with peerReady := true, lastEcho := h.now, probes := [], lastProbe := none }

def probeTimeout (kind : PathKind) (peerReady : Bool) (rtt : Option ℕ) : ℕ :=
  match kind, peerReady, rtt with
  | .relay, false, _ => relayStartupTimeout
  | .relay, true, some rtt => max pathTimeout (min (rtt * 4 + probeInterval) maxRelayTimeout)
  | _, _, _ => pathTimeout

/-- What one round of `heartbeat` decides under the lock. -/
structure Round where
  shared : Shared
  expired : List ℕ
  probes : List (ℕ × ℕ)

/-- One path's turn in a round. -/
def beat (h : Host) (r : Round) (kind : PathKind) : Round :=
  let nonce := r.shared.routes.nextProbe
  let s := { r.shared with routes :=
    { r.shared.routes with nextProbe := (nonce + 1) % 2 ^ 64 } }
  match s.routes.paths kind with
  | none => { r with shared := s }
  | some path =>
    if h.now - path.lastEcho ≥ probeTimeout path.kind path.peerReady path.rtt then
      { r with shared := s, expired := r.expired ++ [path.id] }
    else if path.lastProbe.all fun last => h.now - last ≥ probeInterval then
      let probes := path.probes ++ [(nonce, h.now)]
      { shared := s.setPath kind
          (some { path with lastProbe := some h.now, probes := probes.drop (probes.length - 8) })
        expired := r.expired
        probes := r.probes ++ [(path.id, nonce)] }
    else { r with shared := s }

def heartbeat (h : Host) (s : Shared) : Shared :=
  let r := PathKind.all.foldl (beat h) ⟨s, [], []⟩
  let s := r.expired.foldl (fun s id => s.failPath h id (.connection .timedOut)) r.shared
  r.probes.foldl (fun s p => s.internal h p.1 .probe (some p.2)) s

/-- Which path the round-trip times prefer, once both are known well enough. -/
def preferred (h : Host) (s : Shared) : Option PathKind :=
  match s.routes.paths .relay, s.routes.paths .direct with
  | some relay, some direct =>
    if relay.samples ≥ 3 ∧ direct.samples ≥ 3 then
      if h.faster (direct.rtt.getD 0) (relay.rtt.getD 0) then some .direct
      else if h.faster (relay.rtt.getD 0) (direct.rtt.getD 0) then some .relay
      else none
    else none
  | _, _ => none

/-- An echo of the probe `nonce`, sent at `sent`, has come back. -/
def measure (now nonce sent : ℕ) (path : Path) : Path :=
  { path with
    probes := path.probes.eraseP (·.1 = nonce)
    lastEcho := now
    rtt := some (match path.rtt with
      | none => now - sent
      | some old => (old * 3 + (now - sent)) / 4)
    samples := min (path.samples + 1) (2 ^ 32 - 1) }

def echo (h : Host) (id nonce : ℕ) (s : Shared) : Shared :=
  match s.find id with
  | none => s
  | some path =>
    match path.probes.find? (·.1 = nonce) with
    | none => s
    | some (_, sent) =>
      let s := s.modifyPath id (measure h.now nonce sent)
      match s.preferred h with
      | none => s
      | some target =>
        -- The first direct upgrade need not wait through a cooldown.
        if s.routes.txEpoch = 0 ∨ h.now - s.routes.changedAt ≥ cooldown then s.switch h target
        else s

end Shared

/-- Whether a path carries probes, echoes and acknowledgments. -/
def supportsProbes (native : Native) : Bool :=
  native.maxAudioRecord.any fun n => n ≥ 45 + headerLen + aeadTagLen

namespace Shared

/-- Refuse a direct path, closing it. -/
def reject (native : Native) (reason : String) (s : Shared) : Shared × Except TransportError ℕ :=
  (s.call (.close native.conn codePathFailed reason), .error (.rejected reason))

/-- Attach a direct path; the result is its id. -/
def attach (h : Host) (native : Native) (s : Shared) : Shared × Except TransportError ℕ :=
  let paths := PathKind.all.filterMap s.routes.paths
  let identity := paths.head?.bind fun p => p.native.peerStatic
  if paths.any (·.native.conn = native.conn) then
    -- An aliased existing path is not closed.
    (s, .error (.rejected "direct path reuses an existing connection"))
  else if native.isMultipath || !supportsProbes native then
    s.reject native "direct path must be native and support datagrams"
  else if h.closed native.conn then s.reject native "direct path is already closed"
  else if identity.isNone || identity ≠ native.peerStatic then
    s.reject native "direct path peer identity does not match logical session"
  else if s.shutdown then s.reject native "logical session closed"
  else if (s.routes.paths .direct).isSome || h.now < s.routes.directAfter then
    s.reject native "direct path already attached or cooling down"
  else if native.limit < s.maxRecord then
    s.reject native "direct path record limit is smaller than relay"
  else
    let id := s.routes.nextId
    (({ s with routes := { s.routes with nextId := id + 1 } } : Shared).setPath .direct
      (some (Path.new id .direct native h.now)), .ok id)

def disconnectDirect (h : Host) (s : Shared) : Shared × Except TransportError Unit :=
  match s.routes.paths .direct with
  | none => (s, .error .noDirectPath)
  | some path => (s.failPath h path.id .closed, .ok ())

/-- A session starts with the relay path. -/
def start (native : Native) (now : ℕ) : Shared where
  routes :=
    { paths := fun kind => match kind with
        | .relay => some (Path.new 0 .relay native now)
        | .direct => none
      active := .relay
      txEpoch := 0
      changedAt := now
      nextId := 1
      nextProbe := 0
      directAfter := now }
  changes := ⟨.relay, 0⟩
  shutdown := false
  terminal := none
  acknowledged _ := 0
  allocated _ := 0
  received _ := 0
  maxRecord := native.limit
  calls := []

end Shared

end Multipath

end NebulaDesk
