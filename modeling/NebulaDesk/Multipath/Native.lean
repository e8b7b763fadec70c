/-
What a logical session sees of its native sessions (`ndp-transport`: `lib.rs`,
`session.rs`).

A native session is one QUIC connection with its own keys.  Each reliable
channel has one `Lane` per direction: `Lane.push` seals a copy under the next
counter of the channel, `Lane.take` opens a copy that has arrived.  Copies of
one channel arrive in order on Control and Input, which ride one stream each,
and in any order on the channels that open a stream per message.
-/
import NebulaDesk.Crypto.Record

namespace NebulaDesk

/-- How a connection ended, as seen from one side. -/
inductive ConnectionError
  | applicationClosed (code : ℕ)
  | locallyClosed
  | timedOut
deriving DecidableEq, Repr

inductive SendDatagramError
  | unsupportedByPeer
  | tooLarge
  | connectionLost (error : ConnectionError)
deriving DecidableEq, Repr

inductive TransportError
  | connection (error : ConnectionError)
  | write (error : ConnectionError)
  | read (error : ConnectionError)
  | rejected (reason : String)
  | datagram (error : SendDatagramError)
  | truncated (carrier : String) (got : ℕ)
  | recordTooLarge (len limit : ℕ)
  | unknownChannel (id : ℕ)
  | wrongCarrier (channel carrier : String)
  | crypto (error : CryptoError)
  | proto (error : ProtoError)
  | config (text : String)
  | multipathProtocol (text : String)
  | noDirectPath
  | closed
deriving DecidableEq, Repr

/-- Validate a length against a limit. -/
def checkLen (len limit : ℕ) : Except TransportError Unit :=
  if len > limit then .error (.recordTooLarge len limit) else .ok ()

theorem checkLen_ok {len limit : ℕ} : checkLen len limit = .ok () ↔ len ≤ limit := by
  unfold checkLen
  by_cases h : len > limit
  · simp [h]
  · simp [h, Nat.le_of_not_gt h]

/-- A decrypted inbound message. -/
structure Incoming where
  channel : Channel
  header : MsgHeader
  payload : List UInt8
deriving DecidableEq, Repr

/-- A native session as its owner knows it; `conn` names the connection. -/
structure Native where
  conn : ℕ
  isMultipath : Bool
  maxAudioRecord : Option ℕ
  peerStatic : Option (List UInt8)
  limit : ℕ
deriving DecidableEq, Repr

/-- The end of a connection: which end closed it, if one did, and with what code. -/
structure Closure where
  closer : Option Bool
  code : ℕ
deriving DecidableEq, Repr

/-- What the end `e` learns of a closed connection. -/
def Closure.error (e : Bool) (c : Closure) : ConnectionError :=
  match c.closer with
  | none => .timedOut
  | some closer => if closer = e then .locallyClosed else .applicationClosed c.code

/-! ### One direction of one channel -/

/-- The records of one channel that one end seals on one connection. -/
structure Lane (α : Type) where
  /-- What has been sealed; the counter is the position. -/
  log : List α
  /-- The counters of the records that have not arrived. -/
  flight : List ℕ
  opener : ChannelState

namespace Lane

variable {α : Type}

def new (c : Channel) : Lane α := ⟨[], [], ChannelState.new c⟩

/-- Seal a record under the next counter. -/
def push (x : α) (l : Lane α) : Lane α :=
  { l with log := l.log ++ [x], flight := l.flight ++ [l.log.length] }

/-- Whether the carrier may deliver record `n` next. -/
def arrives (c : Channel) (n : ℕ) (l : Lane α) : Bool :=
  if c.isStreamPerMessage then l.flight.contains n else l.flight.head? == some n

/-- Open the sealed record `n`; only its own counter decrypts it. -/
def openAt (c : Channel) (n : ℕ) (x : α) (l : Lane α) : Except CryptoError α × ChannelState :=
  l.opener.openWith c (UInt32.ofNat (n % 2 ^ 64)) fun seq =>
    if seq = n % 2 ^ 64 then some x else none

/-- Record `n` arrives, and is opened or refused. -/
def take (c : Channel) (n : ℕ) (x : α) (l : Lane α) : Except CryptoError α × Lane α :=
  ((l.openAt c n x).1,
    { l with flight := l.flight.erase n, opener := (l.openAt c n x).2 })

end Lane

end NebulaDesk
