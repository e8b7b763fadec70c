/-
Two ends of a logical session and the connections between them.

Each end runs one step of one of its tasks at a time: a caller of `send`, the
writer of a channel, a reader of a path, the receive loop.  A connection carries
the records of each reliable channel on a lane of its own and everything else in
a bag whose messages may be lost, repeated and reordered.  It can be closed by
either end or by the network at any time; what is under way then does not
arrive.
-/
import NebulaDesk.Multipath.Inbox
import NebulaDesk.Lib.Runs

namespace NebulaDesk

namespace Multipath

/-- A connection between the two ends; a direction goes by its sending end. -/
structure Conn where
  established : Bool
  closed : Option Closure
  lanes : Bool → Channel → Lane Copy
  /-- Datagrams and video frames each end has sent. -/
  bag : Bool → List Incoming
  /-- What each end's native session has read and not handed on. -/
  opened : Bool → List (Except TransportError Incoming)
  /-- The path id under which each end has attached the connection. -/
  pathId : Bool → Option ℕ

def Conn.new : Conn where
  established := false
  closed := none
  lanes _ c := Lane.new c
  bag _ := []
  opened _ := []
  pathId _ := none

namespace Conn

def setLane (e : Bool) (c : Channel) (l : Lane Copy) (conn : Conn) : Conn :=
  { conn with lanes := Function.update conn.lanes e (Function.update (conn.lanes e) c l) }

def addToBag (e : Bool) (m : Incoming) (conn : Conn) : Conn :=
  { conn with bag := Function.update conn.bag e (conn.bag e ++ [m]) }

def setOpened (e : Bool) (l : List (Except TransportError Incoming)) (conn : Conn) : Conn :=
  { conn with opened := Function.update conn.opened e l }

def setPathId (e : Bool) (id : ℕ) (conn : Conn) : Conn :=
  { conn with pathId := Function.update conn.pathId e (some id) }

/-- The first reason for which a connection is closed stays. -/
def shut (closure : Closure) (conn : Conn) : Conn :=
  { conn with closed := conn.closed.or (some closure) }

end Conn

structure System where
  clock : ℕ
  ends : Bool → End
  conns : ℕ → Conn

/-- What a run depends on besides its events: the comparison of round-trip times,
and how many streams of a channel may be under way on a connection. -/
structure Setting where
  faster : ℕ → ℕ → Bool
  streams : ℕ

/-- A step of one end, or of the network.  `bad` are the connections that refuse
a datagram although they are open. -/
inductive Action
  | tick (time : ℕ)
  /-- A native session is established between the ends. -/
  | connect (k : ℕ)
  /-- The network gives a connection up, or one end drops its native session. -/
  | sever (k : ℕ) (closer : Option Bool) (code : ℕ)
  /-- The check at the start that the relay path carries datagrams. -/
  | check (e : Bool)
  | attach (e : Bool) (native : Native)
  | disconnect (e : Bool)
  | close (e : Bool) (code : ℕ)
  | report (e : Bool)
  | send (e : Bool) (c : Channel) (request : Request)
  | advance (e : Bool) (c : Channel) (i : ℕ)
  | cancel (e : Bool) (c : Channel) (i : ℕ)
  | wake (e : Bool) (c : Channel)
  | take (e : Bool) (c : Channel)
  /-- The write `i` of a channel seals its record. -/
  | sealCopy (e : Bool) (c : Channel) (i : ℕ)
  | written (e : Bool) (c : Channel) (i : ℕ)
  /-- The write `i` fails, in opening its stream or in writing to it. -/
  | writeFails (e : Bool) (c : Channel) (i : ℕ) (inWrite : Bool)
  | media (e : Bool) (c : Channel) (header : MsgHeader) (payload : List UInt8) (bad : List ℕ)
  /-- Record `n` of a lane of `e` arrives at the other end. -/
  | arrive (e : Bool) (k : ℕ) (c : Channel) (n : ℕ)
  /-- A message of the bag of `e` arrives at the other end. -/
  | lossy (e : Bool) (k : ℕ) (i : ℕ)
  /-- The reader of a path hands message `i` on. -/
  | forward (e : Bool) (k : ℕ) (i : ℕ)
  /-- The reader of a path sees that the connection is closed. -/
  | notice (e : Bool) (k : ℕ)
  | process (e : Bool) (bad : List ℕ)
  | deliver (e : Bool) (bad : List ℕ)
  | heartbeat (e : Bool) (bad : List ℕ)
  | consume (e : Bool)

/-- Carry out what the end `e` asks of a native session. -/
def perform (e : Bool) (conns : ℕ → Conn) : NativeCall → ℕ → Conn
  | .close k code _ => Function.update conns k ((conns k).shut ⟨some e, code⟩)
  | .datagram k payload => Function.update conns k
      ((conns k).addToBag e ⟨.audio, MsgHeader.new .ping 0 0, payload⟩)

namespace System

def setConn (k : ℕ) (c : Conn) (sys : System) : System :=
  { sys with conns := Function.update sys.conns k c }

/-- The end `e` is now `t`, and its native calls are carried out. -/
def commit (e : Bool) (t : End) (sys : System) : System :=
  { sys with
    ends := Function.update sys.ends e (t.onShared fun s => { s with calls := [] })
    conns := t.shared.calls.foldl (perform e) sys.conns }

def live (e : Bool) (sys : System) : Bool := !(sys.ends e).shared.shutdown

/-- What the end `e` sees of the world. -/
def host (g : Setting) (e : Bool) (bad : List ℕ) (sys : System) : Host where
  now := sys.clock
  closed k := (sys.conns k).closed.isSome
  refuses k := match (sys.conns k).closed with
    | some closure => some (.connectionLost (closure.error e))
    | none => if bad.contains k then some .tooLarge else none
  faster := g.faster

/-- The end `e` attaches a native session. -/
def attach (g : Setting) (e : Bool) (native : Native) (sys : System) : System :=
  let t := sys.ends e
  match t.shared.attach (sys.host g e []) native with
  | (shared, .error _) => sys.commit e { t with shared := shared }
  | (shared, .ok id) =>
    let sys := sys.commit e { t with shared := shared }
    sys.setConn native.conn ((sys.conns native.conn).setPathId e id)

/-- The write `i` of a channel of `e` seals its record. -/
def sealCopy (g : Setting) (e : Bool) (c : Channel) (i : ℕ) (sys : System) : Option System :=
  let t := sys.ends e
  let w := t.writers c
  match w.sending[i]? with
  | some ⟨x, false⟩ =>
    let lane := (sys.conns x.conn).lanes e c
    if c.isStreamPerMessage ∧ lane.flight.length ≥ g.streams then none
    else
      let sys := sys.commit e (t.setWriter c { w with sending := w.sending.set i ⟨x, true⟩ })
      some (sys.setConn x.conn ((sys.conns x.conn).setLane e c (lane.push x)))
  | _ => none

/-- A media message of `e`. -/
def media (g : Setting) (e : Bool) (c : Channel) (header : MsgHeader) (payload : List UInt8)
    (bad : List ℕ) (sys : System) : Except TransportError System := do
  let t := sys.ends e
  let h := sys.host g e bad
  checkLen (payload.length + (envelopeLen + headerLen + aeadTagLen)) t.shared.maxRecord
  match t.shared.selected with
  | none => .error .closed
  | some y =>
    let (sequence, t) ← t.lossySequence c
    match h.refuses y.native.conn with
    | none =>
      let sys := sys.commit e t
      return sys.setConn y.native.conn ((sys.conns y.native.conn).addToBag e
        ⟨c, header, envelope sequence y.epoch payload⟩)
    | some .tooLarge => return sys.commit e t
    | some .unsupportedByPeer =>
      return sys.commit e (t.onShared (·.failPath h y.id (.datagram .unsupportedByPeer)))
    | some (.connectionLost error) =>
      return sys.commit e (t.onShared (·.failPath h y.id
        (if c = .audio then .datagram (.connectionLost error) else .connection error)))

/-- Record `n` of a lane of `e` arrives. -/
def arrive (e : Bool) (k : ℕ) (c : Channel) (n : ℕ) (sys : System) : Option System :=
  let conn := sys.conns k
  let lane := conn.lanes e c
  match lane.log[n]? with
  | none => none
  | some x =>
    if conn.closed.isSome ∨ !lane.arrives c n then none
    else
      let message := match (lane.take c n x).1 with
        | .ok x => .ok (x.message c n)
        | .error error => .error (.crypto error)
      some (sys.setConn k ((conn.setLane e c (lane.take c n x).2).setOpened (!e)
        (conn.opened (!e) ++ [message])))

/-- The event a reader of path `id` makes of what it has read. -/
def event (id : ℕ) : Except TransportError Incoming → Event
  | .ok m => .received id m
  | .error error => .failed id error

def step (g : Setting) (sys : System) : Action → Option System
  | .tick time => some { sys with clock := sys.clock + time }
  | .connect k =>
    if (sys.conns k).established then none
    else some (sys.setConn k { sys.conns k with established := true })
  | .sever k closer code =>
    if (sys.conns k).established ∧ code < 2 ^ 32 then
      some (sys.setConn k ((sys.conns k).shut ⟨closer, code⟩))
    else none
  | .check e =>
    match (sys.ends e).shared.routes.paths .relay with
    | none => none
    | some path =>
      if supportsProbes path.native then none
      else some (sys.commit e ((sys.ends e).onShared
        (·.stop (.config "multipath requires QUIC datagrams") "datagrams required")))
  | .attach e native =>
    if (sys.conns native.conn).established then some (sys.attach g e native) else none
  | .disconnect e =>
    some (sys.commit e ((sys.ends e).onShared fun s => (s.disconnectDirect (sys.host g e [])).1))
  | .close e code =>
    if code < 2 ^ 32 then
      some (sys.commit e ((sys.ends e).onShared (·.stopWithCode .closed code "closed")))
    else none
  | .report e =>
    if !sys.live e && !(sys.ends e).finished && (sys.ends e).hasRoom then
      some (sys.commit e (sys.ends e).report)
    else none
  | .send e c request =>
    -- Headers are built by `MsgHeader::new`, at the current version.
    if c ∈ reliable ∧ request.header.version = protocolVersion then
      match (sys.ends e).send c request with
      | .error _ => none
      | .ok t => some (sys.commit e t)
    else none
  | .advance e c i =>
    if sys.live e ∧ c ∈ reliable then
      (((sys.ends e).writers c).advance i).map fun w => sys.commit e ((sys.ends e).setWriter c w)
    else none
  | .cancel e c i =>
    if c ∈ reliable then
      (((sys.ends e).writers c).cancel i).map fun w => sys.commit e ((sys.ends e).setWriter c w)
    else none
  | .wake e c =>
    if sys.live e ∧ c ∈ reliable then some (sys.commit e ((sys.ends e).wake c)) else none
  | .take e c =>
    if sys.live e ∧ c ∈ reliable then ((sys.ends e).take c).map (sys.commit e) else none
  | .sealCopy e c i => if sys.live e ∧ c ∈ reliable then sys.sealCopy g e c i else none
  | .written e c i =>
    if sys.live e ∧ c ∈ reliable then
      match ((sys.ends e).writers c).sending[i]? with
      | some ⟨_, true⟩ =>
        some (sys.commit e ((sys.ends e).setWriter c (((sys.ends e).writers c).complete i)))
      | _ => none
    else none
  | .writeFails e c i inWrite =>
    if sys.live e ∧ c ∈ reliable then
      match ((sys.ends e).writers c).sending[i]? with
      | none => none
      | some x =>
        (sys.conns x.copy.conn).closed.map fun closure =>
          sys.commit e (((sys.ends e).setWriter c (((sys.ends e).writers c).complete i)).onShared
            (·.failPath (sys.host g e []) x.copy.path
              (if inWrite then .write (closure.error e) else .connection (closure.error e))))
    else none
  | .media e c header payload bad =>
    if c ∈ reliable ∨ header.version ≠ protocolVersion then none
    else match sys.media g e c header payload bad with
      | .error _ => none
      | .ok sys => some sys
  | .arrive e k c n => if c ∈ reliable then sys.arrive e k c n else none
  | .lossy e k i =>
    let conn := sys.conns k
    if conn.closed.isSome then none
    else (conn.bag e)[i]?.map fun m =>
      sys.setConn k (conn.setOpened (!e) (conn.opened (!e) ++ [.ok m]))
  | .forward e k i =>
    let conn := sys.conns k
    let t := sys.ends e
    match (conn.opened e)[i]?, conn.pathId e with
    | some r, some id =>
      if sys.live e ∧ t.events.length < eventCapacity then
        some ((sys.commit e { t with events := t.events ++ [event id r] }).setConn k
          (conn.setOpened e ((conn.opened e).eraseIdx i)))
      else none
    | _, _ => none
  | .notice e k =>
    let t := sys.ends e
    match (sys.conns k).closed, (sys.conns k).pathId e with
    | some closure, some id =>
      if sys.live e ∧ t.events.length < eventCapacity then
        some (sys.commit e
          { t with events := t.events ++ [.failed id (.connection (closure.error e))] })
      else none
    | _, _ => none
  | .process e bad =>
    if sys.live e then ((sys.ends e).process (sys.host g e bad)).map (sys.commit e) else none
  | .deliver e bad =>
    if sys.live e && (sys.ends e).hasRoom then
      ((sys.ends e).ready.bind fun c => (sys.ends e).deliver (sys.host g e bad) c).map (sys.commit e)
    else none
  | .heartbeat e bad =>
    if sys.live e then
      some (sys.commit e ((sys.ends e).onShared (·.heartbeat (sys.host g e bad))))
    else none
  | .consume e =>
    let t := sys.ends e
    if t.consumed < t.output.length then
      some (sys.commit e { t with consumed := t.consumed + 1 })
    else none

/-- The ends have just agreed on a logical session over connection `0`. -/
def start (native : Bool → Native) (now : ℕ) : System where
  clock := now
  ends e := End.start { native e with conn := 0 } now
  conns k := if k = 0 then
      { Conn.new with established := true, pathId := fun _ => some 0 }
    else Conn.new

end System

end Multipath

end NebulaDesk
