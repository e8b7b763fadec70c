/-
The ordered carriers of a native session (`ndp-transport/src/session.rs`,
`ndp-transport/src/wire.rs`).

Control and Input ride one long-lived stream each.  A send waits for the lock of
its stream, seals its record under the lock and writes `length ‖ record` piece by
piece; it can be dropped or fail wherever it waits.  A guard that is dropped
before the record is whole closes the connection.  On the other side a reader
cuts the arriving bytes into records and opens them in turn.

`OrderedCarriers.step` interleaves any number of sends with the network, the readers of
the peer and the other channels of the same sealer and opener.
-/
import NebulaDesk.Multipath.Native
import NebulaDesk.Lib.Runs

namespace NebulaDesk

open Bytes

def Channel.isOrdered : Channel → Bool
  | .control | .input => true
  | _ => false

/-- Bytes of length prefix in front of each record on a long-lived carrier. -/
def lengthPrefixLen : ℕ := 4

/-- Frame one record for a long-lived carrier: `len ‖ record`. -/
def frame (record : List UInt8) (limit : ℕ) : Except TransportError (List UInt8) := do
  checkLen record.length limit
  return toLeBytes lengthPrefixLen record.length ++ record

/-- What follows the bytes that have arrived on a stream. -/
inductive StreamTail
  | more
  | finished
  | failed (error : ConnectionError)
deriving DecidableEq, Repr

/-- Read one record from the bytes that have arrived; `none` while it waits for
more of them.  The record comes with the bytes behind it. -/
def readFramed (limit : ℕ) (bytes : List UInt8) (tail : StreamTail) :
    Option (Except TransportError (Option (List UInt8 × List UInt8))) :=
  if bytes.length < lengthPrefixLen then
    match tail with
    | .more => none
    | .finished =>
      if bytes.length = 0 then some (.ok none)
      else some (.error (.truncated "length prefix" bytes.length))
    | .failed error => some (.error (.read error))
  else
    let len := fromLeBytes (bytes.take lengthPrefixLen)
    let body := bytes.drop lengthPrefixLen
    match checkLen len limit with
    | .error e => some (.error e)
    | .ok () =>
      if body.length < len then
        match tail with
        | .more => none
        | .finished => some (.error (.truncated "record body" body.length))
        | .failed error => some (.error (.read error))
      else some (.ok (some (body.take len, body.drop len)))

/-- A message as its sender hands it over; `MsgHeader.new` stamps the version. -/
structure Outgoing where
  kind : MsgKind
  flags : MsgFlags
  seq : UInt32
  timestampUs : UInt64
  payload : List UInt8
deriving DecidableEq, Repr

namespace Outgoing

def header (m : Outgoing) : MsgHeader := (MsgHeader.new m.kind m.seq m.timestampUs).withFlags m.flags

end Outgoing

/-- Where a call of `send_native` waits. -/
inductive SendPhase
  | locking
  /-- Under the lock, with the first `written` bytes of the frame on the stream. -/
  | writing (frame : List UInt8) (written : ℕ)
deriving DecidableEq, Repr

/-- A call of `send_native` on an ordered channel that has not returned. -/
structure SendTask where
  channel : Channel
  message : Outgoing
  phase : SendPhase
deriving DecidableEq, Repr

structure SealedMessage where
  seq : ℕ
  message : Outgoing
deriving DecidableEq, Repr

/-- One ordered stream, from the lock in front of it to the reader behind it. -/
structure Carrier where
  /-- The call that holds the lock. -/
  holder : Option ℕ
  /-- The records sealed on the channel, in the order of their sealing. -/
  log : List SealedMessage
  stream : List UInt8
  /-- How many bytes of the stream the peer has received, and how many of these
  its reader has consumed. -/
  arrived : ℕ
  consumed : ℕ
  /-- What the reader reported, and whether it has returned. -/
  outcomes : List (Except TransportError Incoming)
  stopped : Bool

def Carrier.new : Carrier := ⟨none, [], [], 0, 0, [], false⟩

/-- The bytes the reader has in front of it. -/
def Carrier.unread (k : Carrier) : List UInt8 := (k.stream.take k.arrived).drop k.consumed

/-- `max_record` of the sender and of its peer; a length prefix has 32 bits. -/
structure RecordLimits where
  own : ℕ
  peer : ℕ
  own_lt : own < 2 ^ 32

/-- The parts the record layer takes from outside: both directions of the AEAD. -/
structure Aead where
  cipher : Cipher
  decrypt : (nonce aad ciphertext : List UInt8) → Option (List UInt8)

/-- Opening what was sealed gives back the message. -/
def Aead.Correct (aead : Aead) : Prop :=
  ∀ nonce aad msg, aead.decrypt nonce aad (aead.cipher.encrypt nonce aad msg) = some msg

/-- One direction of a native session. -/
structure OrderedCarriers where
  limits : RecordLimits
  sealer : RecordSealer
  tasks : ℕ → Option SendTask
  carriers : Channel → Carrier
  closed : Bool
  /-- The peer's opener. -/
  opener : RecordOpener

namespace OrderedCarriers

def start (limits : RecordLimits) : OrderedCarriers where
  limits := limits
  sealer := RecordSealer.new
  tasks _ := none
  carriers _ := Carrier.new
  closed := false
  opener := RecordOpener.new

def setTask (id : ℕ) (t : Option SendTask) (s : OrderedCarriers) : OrderedCarriers :=
  { s with tasks := Function.update s.tasks id t }

def setCarrier (c : Channel) (k : Carrier) (s : OrderedCarriers) : OrderedCarriers :=
  { s with carriers := Function.update s.carriers c k }

/-- The call has returned or was dropped: it no longer holds its lock. -/
def release (id : ℕ) (c : Channel) (s : OrderedCarriers) : OrderedCarriers :=
  (s.setTask id none).setCarrier c { s.carriers c with holder := none }

/-- The head of `send_native`: a record that is too large is refused, any other
waits for the stream of its channel. -/
def call (id : ℕ) (c : Channel) (m : Outgoing) (s : OrderedCarriers) : OrderedCarriers :=
  match checkLen (m.payload.length + (headerLen + aeadTagLen)) s.limits.own with
  | .error _ => s
  | .ok () => s.setTask id (some ⟨c, m, .locking⟩)

/-- The lock is granted: the sequence is allocated and the record sealed and
framed under it. -/
def acquire (aead : Aead) (id : ℕ) (c : Channel) (m : Outgoing) (s : OrderedCarriers) : OrderedCarriers :=
  let (record, sealer) := s.sealer.sealRecord aead.cipher c m.header m.payload
  let log := (s.carriers c).log ++ [⟨s.sealer.counters c, m⟩]
  let s := { s with sealer := sealer }
  match frame record s.limits.own with
  -- the guard is armed by now, so this closes the connection
  | .error _ =>
    { (s.setTask id none).setCarrier c { s.carriers c with log := log } with closed := true }
  | .ok bytes =>
    (s.setTask id (some ⟨c, m, .writing bytes 0⟩)).setCarrier c
      { s.carriers c with holder := some id, log := log }

/-- The stream takes `n` more bytes of the frame; the last ones complete the
record and release the lock. -/
def write (id : ℕ) (c : Channel) (m : Outgoing) (bytes : List UInt8) (written n : ℕ)
    (s : OrderedCarriers) : OrderedCarriers :=
  let stream := (s.carriers c).stream ++ (bytes.drop written).take n
  let s := s.setCarrier c { s.carriers c with stream := stream }
  if bytes.length ≤ written + n then s.release id c
  else s.setTask id (some ⟨c, m, .writing bytes (written + n)⟩)

/-- The call fails or is dropped where it waits.  The guard closes the
connection before the lock is released. -/
def interrupt (id : ℕ) (t : SendTask) (s : OrderedCarriers) : OrderedCarriers :=
  match t.phase with
  | .locking => s.setTask id none
  | .writing _ _ => ({ s with closed := true }).release id t.channel

/-- One turn of the loop of `read_ordered`. -/
def readOrdered (aead : Aead) (c : Channel) (tail : StreamTail) (s : OrderedCarriers) : Option OrderedCarriers :=
  let k := s.carriers c
  match readFramed s.limits.peer k.unread tail with
  | none => none
  | some (.error e) =>
    some (s.setCarrier c { k with outcomes := k.outcomes ++ [.error e], stopped := true })
  | some (.ok none) =>
    some (s.setCarrier c { k with outcomes := k.outcomes ++ [.error .closed], stopped := true })
  | some (.ok (some (record, rest))) =>
    let consumed := k.consumed + (k.unread.length - rest.length)
    let (result, opener) := s.opener.openRecord aead.decrypt c record
    let s := { s with opener := opener }
    match result with
    | .error e =>
      some (s.setCarrier c { k with
        consumed := consumed
        outcomes := k.outcomes ++ [.error (.crypto e)]
        stopped := true })
    | .ok (header, payload) =>
      some (s.setCarrier c { k with
        consumed := consumed
        outcomes := k.outcomes ++ [.ok ⟨c, header, payload⟩] })

inductive Event
  | call (id : ℕ) (c : Channel) (m : Outgoing)
  | lock (id : ℕ)
  | write (id n : ℕ)
  | interrupt (id : ℕ)
  /-- Either end or the network closes the connection. -/
  | close
  | arrive (c : Channel) (n : ℕ)
  | read (c : Channel) (failure : Option ConnectionError)
  /-- The reader's task ends with the peer's session. -/
  | abort (c : Channel)
  /-- A record of a channel that is not ordered is sealed, or opened. -/
  | sealOther (c : Channel) (m : Outgoing)
  | openOther (c : Channel) (record : List UInt8)

def step (aead : Aead) (s : OrderedCarriers) : Event → Option OrderedCarriers
  | .call id c m =>
    if s.tasks id = none ∧ c.isOrdered = true then some (s.call id c m) else none
  | .lock id =>
    match s.tasks id with
    | some ⟨c, m, .locking⟩ =>
      if (s.carriers c).holder = none then some (s.acquire aead id c m) else none
    | _ => none
  | .write id n =>
    match s.tasks id with
    | some ⟨c, m, .writing bytes written⟩ =>
      if s.closed = false ∧ 0 < n then some (s.write id c m bytes written n) else none
    | _ => none
  | .interrupt id =>
    match s.tasks id with
    | some t => some (s.interrupt id t)
    | none => none
  | .close => some { s with closed := true }
  | .arrive c n =>
    let k := s.carriers c
    if k.arrived + n ≤ k.stream.length then
      some (s.setCarrier c { k with arrived := k.arrived + n })
    else none
  | .read c failure =>
    if c.isOrdered = true ∧ (s.carriers c).stopped = false then
      match failure with
      | none => s.readOrdered aead c .more
      | some error => if s.closed = true then s.readOrdered aead c (.failed error) else none
    else none
  | .abort c => some (s.setCarrier c { s.carriers c with stopped := true })
  | .sealOther c m =>
    if c.isOrdered = false then
      some { s with sealer := (s.sealer.sealRecord aead.cipher c m.header m.payload).2 }
    else none
  | .openOther c record =>
    if c.isOrdered = false then
      some { s with opener := (s.opener.openRecord aead.decrypt c record).2 }
    else none

end OrderedCarriers

end NebulaDesk
