/-
One end of a logical session (`Inbox`, `receive_loop` and the rest of
`Multipath` in `ndp-transport/src/multipath.rs`).

`End` is everything one end owns: the shared routes and counters, a writer per
reliable channel, the inbox and the queues on both sides of it.  `receive` takes
in one message of a path; `deliver` hands the next record of a ready channel to
the application and acknowledges it on every path.
-/
import NebulaDesk.Multipath.Writer

namespace NebulaDesk

namespace Multipath

/-- The media sequences already seen. -/
structure LossyWindow where
  highest : Option ℕ
  bits : BitVec 64
deriving DecidableEq, Repr

namespace LossyWindow

def accept (w : LossyWindow) (sequence : ℕ) : Bool × LossyWindow :=
  match w.highest with
  | none => (true, ⟨some sequence, 1⟩)
  | some highest =>
    if sequence > highest then
      let advance := sequence - highest
      (true, ⟨some sequence, if advance ≥ 64 then 1 else w.bits <<< advance ||| 1⟩)
    else
      let behind := highest - sequence
      if behind ≥ 64 ∨ w.bits &&& (1#64 <<< behind) ≠ 0 then (false, w)
      else (true, ⟨w.highest, w.bits ||| (1#64 <<< behind)⟩)

end LossyWindow

structure Inbox where
  pending : Channel → List (ℕ × Incoming)
  bytes : ℕ
  /-- Of video and of audio. -/
  lossy : Bool → LossyWindow
  mediaEpoch : ℕ
  cursor : ℕ

def Inbox.new : Inbox where
  pending _ := []
  bytes := 0
  lossy _ := ⟨none, 0⟩
  mediaEpoch := 0
  cursor := 0

/-- What the task that reads a path reports. -/
inductive Event
  | received (id : ℕ) (message : Incoming)
  | failed (id : ℕ) (error : TransportError)
deriving DecidableEq, Repr

def eventCapacity : ℕ := 128

def outputCapacity : ℕ := 64

structure End where
  shared : Shared
  writers : Channel → Writer
  inbox : Inbox
  events : List Event
  /-- What was put in the queue to the application, and how much it has taken. -/
  output : List (Except TransportError Incoming)
  consumed : ℕ
  /-- Whether the receive loop has returned. -/
  finished : Bool
  /-- Every record that was numbered, in order. -/
  records : Channel → List Request

namespace Shared

/-- Take in the counts of an acknowledgment, channel by channel. -/
def readAcksFrom : List Channel → List UInt8 → Shared → Shared × Except TransportError Unit
  | [], _, s => (s, .ok ())
  | c :: cs, bytes, s =>
    let next := readU64 0 bytes
    if next > s.allocated c then
      (s, .error (.multipathProtocol "acknowledgment beyond allocated sequence"))
    else readAcksFrom cs (bytes.drop 8)
      { s with acknowledged :=
        Function.update s.acknowledged c (max (s.acknowledged c) next) }

def readAcks (bytes : List UInt8) (s : Shared) : Shared × Except TransportError Unit :=
  if bytes.length ≠ reliable.length * 8 then
    (s, .error (.multipathProtocol "invalid acknowledgment length"))
  else readAcksFrom reliable bytes s

end Shared

namespace End

def start (native : Native) (now : ℕ) : End where
  shared := Shared.start native now
  writers _ := Writer.new
  inbox := Inbox.new
  events := []
  output := []
  consumed := 0
  finished := false
  records _ := []

def onShared (f : Shared → Shared) (t : End) : End := { t with shared := f t.shared }

def setWriter (c : Channel) (w : Writer) (t : End) : End :=
  { t with writers := Function.update t.writers c w }

/-- Whether the queue to the application has room. -/
def hasRoom (t : End) : Bool := t.output.length - t.consumed < outputCapacity

/-! #### Sending -/

/-- The checks `send` makes before it waits. -/
def admits (payload : List UInt8) (t : End) : Except TransportError Unit := do
  checkLen (payload.length + (envelopeLen + headerLen + aeadTagLen)) t.shared.maxRecord
  checkLen (payload.length + envelopeLen) byteWindow
  if t.shared.shutdown then .error .closed else .ok ()

/-- A call of `send` on a reliable channel begins. -/
def send (c : Channel) (request : Request) (t : End) : Except TransportError End := do
  t.admits request.payload
  let w := t.writers c
  return t.setWriter c { w with callers := w.callers ++ [⟨request, .count⟩] }

/-- The top of the writer's loop. -/
def wake (c : Channel) (t : End) : End :=
  let w := (t.writers c).retire (t.shared.acknowledged c)
  match t.shared.selected with
  | none => t.setWriter c w
  | some y => t.setWriter c (w.attempt y)

/-- The writer takes a queued record, if its window has room. -/
def take (c : Channel) (t : End) : Option End :=
  match (t.writers c).queue with
  | [] => none
  | request :: rest =>
    if (t.writers c).pending.length < window then
      let sequence := t.shared.allocated c
      if sequence + 1 = 2 ^ 64 then
        some (t.onShared fun s =>
          s.stop (.multipathProtocol "logical sequence exhausted") "sequence exhausted")
      else some
        { t with
          shared :=
            { t.shared with allocated := Function.update t.shared.allocated c (sequence + 1) }
          writers := Function.update t.writers c ((t.writers c).number sequence request rest)
          records := Function.update t.records c (t.records c ++ [request]) }
    else none

def lossySequence (c : Channel) (t : End) : Except TransportError (ℕ × End) :=
  if t.shared.allocated c + 1 = 2 ^ 64 then
    .error (.multipathProtocol "logical sequence exhausted")
  else .ok (t.shared.allocated c, t.onShared fun s =>
    { s with allocated := Function.update s.allocated c (s.allocated c + 1) })

/-! #### Receiving -/

/-- A data envelope on a reliable channel, its tag already removed. -/
def receiveReliable (h : Host) (id sequence : ℕ) (m : Incoming) (t : End) :
    End × Except TransportError Unit :=
  let next := t.shared.received m.channel
  if sequence < next then (t.onShared (·.internal h id .ack none), .ok ())
  else if sequence = 2 ^ 64 - 1 ∨ sequence - next ≥ window then
    (t, .error (.multipathProtocol "logical receive window exceeded"))
  else match (t.inbox.pending m.channel).lookup sequence with
    | some previous =>
      if previous.header ≠ m.header ∨ previous.payload ≠ m.payload then
        (t, .error (.multipathProtocol "conflicting logical retransmission"))
      else (t, .ok ())
    | none =>
      if t.inbox.bytes + m.payload.length ≤ byteWindow * reliable.length then
        ({ t with inbox :=
          { t.inbox with
            bytes := t.inbox.bytes + m.payload.length
            pending := Function.update t.inbox.pending m.channel
              ((sequence, m) :: t.inbox.pending m.channel) } }, .ok ())
      else (t, .ok ())

/-- A data envelope on a media channel: dropped if stale, and never waited for. -/
def receiveMedia (epoch sequence : ℕ) (m : Incoming) (t : End) : End :=
  if epoch < t.inbox.mediaEpoch then t
  else
    let t := if epoch > t.inbox.mediaEpoch then
        { t with
          inbox := { t.inbox with mediaEpoch := epoch }
          shared := t.shared.publish t.shared.routes.active }
      else t
    let audio := m.channel == .audio
    let (fresh, seen) := (t.inbox.lossy audio).accept sequence
    let t := { t with inbox := { t.inbox with lossy := Function.update t.inbox.lossy audio seen } }
    if fresh && t.hasRoom then { t with output := t.output ++ [.ok m] } else t

def receiveData (h : Host) (id sequence epoch : ℕ) (m : Incoming) (t : End) :
    End × Except TransportError Unit :=
  let t := t.onShared (·.peerReady h id)
  if m.channel ∈ reliable then t.receiveReliable h id sequence m
  else (t.receiveMedia epoch sequence m, .ok ())

/-- A probe, an echo or an acknowledgment. -/
def receiveInternal (h : Host) (id : ℕ) (kind : InternalKind) (nonce : ℕ) (bytes : List UInt8)
    (t : End) : End × Except TransportError Unit :=
  match t.shared.readAcks bytes with
  | (shared, .error error) => ({ t with shared := shared }, .error error)
  | (shared, .ok ()) =>
    let shared := shared.peerReady h id
    let shared := match kind with
      | .ack => shared
      | .probe => shared.internal h id .echo (some nonce)
      | .echo => shared.echo h id nonce
    ({ t with shared := shared }, .ok ())

def receive (h : Host) (id : ℕ) (m : Incoming) (t : End) : End × Except TransportError Unit :=
  match parse m with
  | .error error => (t, .error error)
  | .ok (.data sequence epoch payload) =>
    t.receiveData h id sequence epoch
      { m with header := { m.header with seq := UInt32.ofNat sequence }, payload := payload }
  | .ok (.internal kind nonce bytes) => t.receiveInternal h id kind nonce bytes

/-- The receive loop takes the next event. -/
def process (h : Host) (t : End) : Option End :=
  match t.events with
  | [] => none
  | event :: rest =>
    let t := { t with events := rest }
    match event with
    | .failed id error => some (t.onShared (·.failPath h id error))
    | .received id m =>
      match t.receive h id m with
      | (t, .ok ()) => some t
      | (t, .error error) => some (t.onShared (·.failPath h id error))

/-- The next channel in turn whose next record is there. -/
def ready (t : End) : Option Channel :=
  ((List.range 6).map fun offset => Channel.all.getD ((t.inbox.cursor + offset) % 6) .control).find?
    fun c => ((t.inbox.pending c).lookup (t.shared.received c)).isSome

/-- Hand the next record of a channel to the application and acknowledge it on
every path. -/
def deliver (h : Host) (c : Channel) (t : End) : Option End :=
  let next := t.shared.received c
  match (t.inbox.pending c).lookup next with
  | none => none
  | some m =>
    let t : End := { t with
      inbox :=
        { t.inbox with
          pending := Function.update t.inbox.pending c
            ((t.inbox.pending c).filter (·.1 ≠ next))
          bytes := t.inbox.bytes - m.payload.length
          cursor := (c.id + 1) % 6 }
      output := t.output ++ [.ok m]
      shared := { t.shared with received := Function.update t.shared.received c (next + 1) } }
    let ids := (PathKind.all.filterMap t.shared.routes.paths).map (·.id)
    some (t.onShared fun s => ids.foldl (fun s id => s.internal h id .ack none) s)

/-- The receive loop ends and reports why. -/
def report (t : End) : End :=
  { t with
    output := t.output ++ [.error (t.shared.terminal.getD .closed)]
    shared := { t.shared with terminal := none }
    finished := true }

end End

end Multipath

end NebulaDesk
