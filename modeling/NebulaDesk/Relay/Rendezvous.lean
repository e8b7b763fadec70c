/-
The rendezvous table of a relay (`nebula-relay/src/rendezvous.rs`,
`nebula-relay/src/lib.rs`).

Every connection is served by one task: it presents a pairing token, calls
`join` once, and tells its peer what `join` returned.  A step is what one task
does between two awaits, so `join` is three of them: its turn under the lock, the
`select!` that ends its wait, and the second turn under the lock that gives the
slot up.  Tokens are presented at any times and in any order; the one assumption
is that nobody but a gateway makes a MAC (`unforged`).
-/
import NebulaDesk.Relay.Pairing
import NebulaDesk.Lib.Runs

namespace NebulaDesk

/-- What happened when a peer presented itself. -/
inductive Outcome
  | spliced
  | timedOut
  | duplicate
  | abandoned
deriving DecidableEq, Repr

inductive RelayHelloAck
  | spliced
  | rejected (reason : String)
deriving DecidableEq, Repr

/-- The answer of `handle`; any other than `spliced` also closes the connection. -/
def Outcome.ack : Outcome → RelayHelloAck
  | .spliced => .spliced
  | .timedOut => .rejected "counterpart did not arrive"
  | .duplicate => .rejected "session already has this side"
  | .abandoned => .rejected "peer went away"

/-- A parked peer.  The sender of its oneshot is with its entry. -/
structure Waiting where
  side : Side
  connection : ℕ
deriving DecidableEq, Repr

/-- Two connections whose bytes are forwarded to each other. -/
structure Splice where
  session : SessionId
  client : ℕ
  agent : ℕ
deriving DecidableEq, Repr

namespace Splice

/-- The splice of a connection on this side with its counterpart. -/
def join (session : SessionId) (side : Side) (connection counterpart : ℕ) : Splice :=
  match side with
  | .client => ⟨session, connection, counterpart⟩
  | .agent => ⟨session, counterpart, connection⟩

/-- The connection on one side. -/
def on (sp : Splice) : Side → ℕ
  | .client => sp.client
  | .agent => sp.agent

@[simp] theorem join_session (session : SessionId) (side : Side) (c d : ℕ) :
    (join session side c d).session = session := by
  cases side <;> rfl

@[simp] theorem join_on (session : SessionId) (side : Side) (c d : ℕ) :
    (join session side c d).on side = c := by
  cases side <;> rfl

@[simp] theorem join_on_peer (session : SessionId) (side : Side) (c d : ℕ) :
    (join session side c d).on side.peer = d := by
  cases side <;> rfl

end Splice

/-- Where the task that serves a connection is. -/
inductive Task
  /-- It has not read a hello yet. -/
  | hello
  /-- The token was refused and the connection closed. -/
  | refused (e : TokenError)
  /-- In `join`, before its turn under the lock. -/
  | joining (token : PairToken)
  /-- In the `select!`; `ready` once the oneshot holds a value. -/
  | waiting (token : PairToken) (ready : Bool)
  /-- The wait ended otherwise; the slot is not given up yet. -/
  | leaving (token : PairToken) (outcome : Outcome)
  /-- `join` has returned. -/
  | returned (token : PairToken) (outcome : Outcome)
deriving DecidableEq

namespace Task

def token : Task → Option PairToken
  | hello | refused _ => none
  | joining t | waiting t _ | leaving t _ | returned t _ => some t

/-- The token of a task that has had its turn in `join`. -/
def joined : Task → Option PairToken
  | hello | refused _ | joining _ => none
  | waiting t _ | leaving t _ | returned t _ => some t

/-- The oneshot is sent to; a receiver that is gone is ignored. -/
def notify : Task → Task
  | waiting t _ => waiting t true
  | task => task

theorem token_of_joined {task : Task} {t : PairToken} (h : task.joined = some t) :
    task.token = some t := by
  cases task <;> first | exact h | cases h

@[simp] theorem notify_token (task : Task) : task.notify.token = task.token := by
  cases task <;> rfl

@[simp] theorem notify_joined (task : Task) : task.notify.joined = task.joined := by
  cases task <;> rfl

end Task

/-- A token that was presented on a connection, at this time. -/
structure Presentation where
  connection : ℕ
  token : String
  now : UInt64
deriving DecidableEq

/-- The relay, with what was minted, presented and spliced so far. -/
structure Relay where
  waiting : SessionId → Option Waiting
  tasks : ℕ → Task
  minted : List PairToken
  presented : List Presentation
  splices : List Splice

inductive RelayEvent
  /-- A gateway mints a token. -/
  | mint (now : UInt64) (session : SessionId) (side : Side)
  | present (connection : ℕ) (token : String) (now : UInt64)
  | join (connection : ℕ)
  /-- The receiver of the oneshot is ready. -/
  | wake (connection : ℕ)
  /-- The sender of the oneshot was dropped. -/
  | orphan (connection : ℕ)
  | timeout (connection : ℕ)
  | closed (connection : ℕ)
  /-- The second turn under the lock. -/
  | giveUp (connection : ℕ)

namespace Relay

/-- A relay that has just bound its endpoint. -/
def start : Relay where
  waiting := fun _ => none
  tasks := fun _ => .hello
  minted := []
  presented := []
  splices := []

def setTask (r : Relay) (c : ℕ) (task : Task) : Relay :=
  { r with tasks := Function.update r.tasks c task }

def setSlot (r : Relay) (session : SessionId) (slot : Option Waiting) : Relay :=
  { r with waiting := Function.update r.waiting session slot }

/-- A MAC that checks was made by a gateway. -/
def unforged (codec : PairCodec) (key : PairKey) (r : Relay) (token : String) : Bool :=
  match key.authentic codec token with
  | .ok body => body ∈ r.minted.map PairToken.body
  | .error _ => true

/-- `handle`, up to its call of `join`. -/
def present (codec : PairCodec) (key : PairKey) (r : Relay) (c : ℕ) (token : String)
    (now : UInt64) : Relay :=
  let r : Relay := { r with presented := r.presented ++ [⟨c, token, now⟩] }
  match key.verify codec now token with
  | .ok t => r.setTask c (.joining t)
  | .error e => r.setTask c (.refused e)

/-- The first turn of `join` under the lock. -/
def join (r : Relay) (c : ℕ) (t : PairToken) : Relay :=
  match r.waiting t.session with
  | some peer =>
    if peer.side = t.side.peer then
      -- The counterpart is here: splice and release it.
      { (r.setSlot t.session none) with
        tasks := Function.update
          (Function.update r.tasks peer.connection (r.tasks peer.connection).notify) c
          (.returned t .spliced)
        splices := r.splices ++ [.join t.session t.side c peer.connection] }
    else
      -- Same side twice: the original is put back.
      r.setTask c (.returned t .duplicate)
  | none => (r.setSlot t.session (some ⟨t.side, c⟩)).setTask c (.waiting t false)

/-- The second turn: only its own entry is removed. -/
def giveUp (r : Relay) (c : ℕ) (t : PairToken) (outcome : Outcome) : Relay :=
  let r : Relay := if r.waiting t.session = some ⟨t.side, c⟩ then r.setSlot t.session none else r
  r.setTask c (.returned t outcome)

/-- Whether an entry of the table is this connection's. -/
def parks (r : Relay) (session : SessionId) (c : ℕ) : Bool :=
  (r.waiting session).any (·.connection = c)

def step (codec : PairCodec) (key : PairKey) (r : Relay) : RelayEvent → Option Relay
  | .mint now session side =>
    some { r with minted := r.minted ++ [⟨session, side, now + tokenTtl⟩] }
  | .present c token now =>
    match r.tasks c with
    | .hello => if r.unforged codec key token then some (r.present codec key c token now) else none
    | _ => none
  | .join c =>
    match r.tasks c with
    | .joining t => some (r.join c t)
    | _ => none
  | .wake c =>
    match r.tasks c with
    | .waiting t true => some (r.setTask c (.returned t .spliced))
    | _ => none
  | .orphan c =>
    match r.tasks c with
    | .waiting t false =>
      if r.parks t.session c then none else some (r.setTask c (.leaving t .abandoned))
    | _ => none
  -- `timeout` looks at its receiver first.
  | .timeout c =>
    match r.tasks c with
    | .waiting t false => some (r.setTask c (.leaving t .timedOut))
    | _ => none
  | .closed c =>
    match r.tasks c with
    | .waiting t _ => some (r.setTask c (.leaving t .abandoned))
    | _ => none
  | .giveUp c =>
    match r.tasks c with
    | .leaving t outcome => some (r.giveUp c t outcome)
    | _ => none

end Relay

end NebulaDesk
