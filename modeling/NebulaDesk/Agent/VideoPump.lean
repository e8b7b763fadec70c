/-
From the encoder to the wire (`nebula-agent/src/platform/macos/capture.rs`,
`nebula-agent/src/platform/linux/capture.rs`, `nebula-agent/src/session.rs`).

The frames of one display, or of one application surface, on their way through
the agent: into the encoder, out of it into a bounded queue, from there into the
send that is under way, which has a sequence number at last.  Each thread's next
piece of work is a step.  What the encoder does is told by the events, within
what it promises: frames come out in the order they went in, and one that was
forced is a keyframe.

For an application surface `queue` is the source's channel, the frame
`forward_frames` holds and the session's channel, one behind the other.
-/
import NebulaDesk.Lib.Runs

namespace NebulaDesk

/-- An encoded frame: the `id`th its source has produced, by which of its
encoders, and the delivery epoch it was captured in. -/
structure Coded where
  encoder : ℕ
  id : ℕ
  keyframe : Bool
  stamp : ℕ
deriving DecidableEq, Repr

/-- A frame inside the encoder. -/
structure Submitted where
  forced : Bool
  stamp : ℕ
deriving DecidableEq, Repr

inductive SourceKind
  | mac | linux
deriving DecidableEq, Repr

structure VideoSource where
  kind : SourceKind
  /-- The flag through which a keyframe is requested. -/
  requested : Bool
  /-- The next frame is to be forced. -/
  forceKey : Bool
  /-- The cached image, by its epoch. -/
  last : Option ℕ
  encoder : ℕ
  pending : List Submitted
  produced : ℕ
  /-- `Recovery`: deltas are held back until a keyframe was delivered. -/
  broken : Bool
deriving DecidableEq, Repr

namespace VideoSource

/-- A source as it starts; on Linux `Recovery` starts as `lost`. -/
def new (kind : SourceKind) : VideoSource := ⟨kind, false, true, none, 0, [], 0, kind = .linux⟩

def requestKeyframe (v : VideoSource) : VideoSource := { v with requested := true }

/-- `CaptureFrames::select`: the image to encode, and whether as a keyframe. -/
def select (image : Option ℕ) (v : VideoSource) : Option (ℕ × Bool) × VideoSource :=
  match image.or v.last with
  | none => (none, v)
  | some frame =>
    let v := { v with last := some frame }
    if image.isNone && !v.forceKey && !v.requested then (none, v)
    else (some (frame, v.requested || v.forceKey),
      { v with requested := false, forceKey := false })

/-- One round of the macOS `pump`: an image, if there is one, goes into the
encoder, unless the encoder rejects it or the image is out of date. -/
def submit (current : ℕ → Bool) (image : Option ℕ) (rejected : Bool) (v : VideoSource) :
    VideoSource :=
  match v.select image with
  | (none, v) => v
  | (some (frame, force), v) =>
    if !current frame || v.pending.length ≥ 32 || rejected then v.requestKeyframe
    else { v with pending := v.pending ++ [⟨force, frame⟩] }

/-- A new bitrate means a new encoder, without reference frames. -/
def replace (v : VideoSource) : VideoSource :=
  { v with encoder := v.encoder + 1, pending := [], forceKey := true }

/-- The Linux `pump` passes a request on to the encoder. -/
def signal (v : VideoSource) : VideoSource :=
  if v.requested then { v with requested := false, forceKey := true } else v

/-- A frame enters the Linux encoder. -/
def enter (stamp : ℕ) (v : VideoSource) : VideoSource :=
  { v with pending := v.pending ++ [⟨v.forceKey, stamp⟩], forceKey := false }

end VideoSource

inductive FrameSend
  /-- Not begun; an application surface has given it a number. -/
  | waiting (frame : Coded) (number : Option ℕ)
  | started
deriving DecidableEq, Repr

structure SentFrame where
  number : ℕ
  route : ℕ
  frame : Coded
deriving DecidableEq, Repr

structure VideoPump where
  /-- An application surface, or the desktop. -/
  application : Bool
  source : VideoSource
  queue : List Coded
  sending : Option FrameSend
  next : ℕ
  route : ℕ
  /-- The delivery epoch; the desktop has one. -/
  stamp : ℕ
  /-- The epoch whose frames the session has begun to look at. -/
  heard : ℕ
  sent : List SentFrame
  /-- A path change has been handled up to its keyframe request. -/
  asking : Bool

inductive PumpEvent
  | submit (image : Option ℕ) (rejected : Bool)
  | replace
  | signal
  | enter
  /-- The encoder returns a frame, which may be empty. -/
  | output (keyframe empty full : Bool)
  /-- The session looks at the next frame, and may find its registry behind. -/
  | take (refused : Bool)
  | poll
  /-- The send ends, sent or discarded. -/
  | finish
  /-- The session drops the send of an application surface. -/
  | cancel
  /-- `forward_frames` drops a frame that is out of date. -/
  | stale (index : ℕ)
  /-- The transport switches to another path. -/
  | switch
  /-- The session handles a path change: it drops the send and so many frames. -/
  | pathChange (count : ℕ)
  /-- Somebody asks for a keyframe. -/
  | request
  /-- The capture is paused, resumed or takes a new generation. -/
  | transition (stamp : ℕ)
  /-- The surface gets a new capture. -/
  | restart (stamp : ℕ)

def frameQueue : ℕ := 3

namespace VideoPump

def start (application : Bool) (kind : SourceKind) : VideoPump :=
  ⟨application, .new kind, [], none, 0, 0, 1, 0, [], false⟩

/-- Whether the epoch is the one frames are delivered in. -/
def current (p : VideoPump) (stamp : ℕ) : Bool := stamp = p.stamp && stamp % 2 = 1

/-- The encoder's frame goes to the queue: `drain`, or the end of the Linux loop. -/
def output (keyframe empty full : Bool) (p : VideoPump) : Option VideoPump :=
  match p.source.pending with
  | [] => none
  | first :: rest =>
    -- a forced frame comes out, as a keyframe
    if first.forced && (!keyframe || empty) then none
    -- the desktop's queue is full when it is full
    else if !p.application && full ≠ decide (p.queue.length ≥ frameQueue) then none
    else
      let source := { p.source with pending := rest }
      if empty then some { p with source := source }
      else
        let frame : Coded := ⟨source.encoder, source.produced, keyframe, first.stamp⟩
        let source := { source with produced := source.produced + 1 }
        if source.broken && !keyframe then some { p with source := source }
        else if p.current first.stamp && !full then
          some { p with
            source := { source with broken := source.broken && !keyframe }
            queue := p.queue ++ [frame] }
        else
          some { p with source :=
            { source with requested := true, broken := source.kind = .linux || source.broken } }

def step (p : VideoPump) : PumpEvent → Option VideoPump
  | .submit image rejected =>
    if p.source.kind = .mac then
      some { p with source := p.source.submit p.current image rejected }
    else none
  | .replace => if p.source.kind = .mac then some { p with source := p.source.replace } else none
  | .signal => if p.source.kind = .linux then some { p with source := p.source.signal } else none
  | .enter =>
    if p.source.kind = .linux && p.current p.stamp then
      some { p with source := p.source.enter p.stamp }
    else none
  | .output keyframe empty full => p.output keyframe empty full
  | .take refused =>
    match p.sending, p.queue with
    | none, frame :: rest =>
      if !p.current frame.stamp then some { p with queue := rest }
      else if p.application then
        -- the session hears of an epoch before its second frame at the latest: the
        -- worker tells it first, and it handles what it was told before it takes a frame
        if refused then
          if p.heard = p.stamp then none
          else some { p with queue := rest, heard := p.stamp }
        else
          some { p with
            queue := rest
            sending := some (.waiting frame (some p.next))
            next := p.next + 1
            heard := p.stamp }
      else some { p with queue := rest, sending := some (.waiting frame none), heard := p.stamp }
    | _, _ => none
  | .poll =>
    match p.sending with
    | some (.waiting frame number) =>
      some { p with
        sending := some .started
        sent := p.sent ++ [⟨number.getD p.next, p.route, frame⟩]
        next := if number.isNone then p.next + 1 else p.next }
    | _ => none
  | .finish => if p.sending = some .started then some { p with sending := none } else none
  | .cancel => if p.application then some { p with sending := none } else none
  | .stale index =>
    match p.queue[index]? with
    | none => none
    | some frame =>
      if p.application && !p.current frame.stamp then
        some { p with queue := p.queue.eraseIdx index }
      else none
  | .switch => some { p with route := p.route + 1 }
  | .pathChange count =>
    if p.application || count = p.queue.length then
      some { p with sending := none, queue := p.queue.drop count, asking := true }
    else none
  | .request => some { p with source := p.source.requestKeyframe, asking := false }
  | .transition stamp =>
    if p.application && p.stamp < stamp then some { p with stamp := stamp } else none
  | .restart stamp =>
    if p.application && p.stamp < stamp then
      some { p with
        source := { VideoSource.new p.source.kind with encoder := p.source.encoder + 1 }
        stamp := stamp }
    else none

end VideoPump

end NebulaDesk
