/-
Delivery epochs of an application surface (`nebula-agent/src/media.rs`,
`nebula-agent/src/application.rs`).

A `Capture` shares one 64-bit number with the threads that produce and forward
its frames: the generation of the surface's geometry in the high half, a count of
pauses and resumes in the low half, odd while frames are wanted.  A sink is
frozen with the number as it was when a native image was accepted.  A step here
is what one thread does between two looks at the shared number.
-/
import NebulaDesk.Lib.Runs

namespace NebulaDesk

structure EncodedFrame where
  keyframe : Bool
  timestampUs : ℕ
  data : List UInt8
deriving DecidableEq

inductive FrameOutput
  | desktop | application
deriving DecidableEq

/-- Where encoded frames are delivered. -/
structure FrameSink where
  output : FrameOutput
  epoch : Option ℕ
deriving DecidableEq

namespace FrameSink

/-- Freeze provenance when accepting a native image. -/
def forFrame (delivery : ℕ) (sink : FrameSink) : FrameSink :=
  match sink.epoch, sink.output with
  | none, .application => { sink with epoch := some delivery }
  | _, _ => sink

/-- Whether a frozen native image still belongs to the enabled delivery epoch. -/
def isCurrent (delivery : ℕ) (sink : FrameSink) : Bool :=
  match sink.output, sink.epoch with
  | .application, some epoch => epoch % 2 ≠ 0 && delivery = epoch
  | _, _ => true

end FrameSink

/-- The delivery epoch of a generation, with this count. -/
def epochOf (generation count : ℕ) : ℕ := generation * 2 ^ 32 + count

def warmResumeFrameDeadline : ℕ := 500000000

structure Capture where
  deliveryEpoch : ℕ
  producedKeyframe : ℕ
  resumeDeadline : Option (ℕ × ℕ)
  generation : ℕ
deriving DecidableEq

namespace Capture

/-- A capture as `start_capture` makes it. -/
def new (generation : ℕ) : Capture := ⟨epochOf generation 1, 0, none, generation⟩

def pause (c : Capture) : Capture :=
  if c.deliveryEpoch % 2 ≠ 0 then
    { c with deliveryEpoch := (c.deliveryEpoch + 1) % 2 ^ 64 }
  else c

/-- Ask for a keyframe and enable delivery again. -/
def resume (now : ℕ) (c : Capture) : Capture :=
  if c.deliveryEpoch % 2 = 0 then
    let epoch := (c.deliveryEpoch + 1) % 2 ^ 64
    { c with
      deliveryEpoch := epoch
      resumeDeadline := some (epoch, now + warmResumeFrameDeadline) }
  else c

/-- Take over a new generation, having paused. -/
def retag (generation : ℕ) (c : Capture) : Capture :=
  { c with
    generation := generation
    deliveryEpoch := epochOf generation (c.deliveryEpoch % 2 ^ 32) }

/-- What a keyframe that is on its way leaves. -/
def noteFrame (frame : EncodedFrame) (epoch : ℕ) (c : Capture) : Capture :=
  if frame.keyframe then { c with producedKeyframe := max c.producedKeyframe epoch } else c

end Capture

/-- A native image, with the generation under which it was captured. -/
structure Shot where
  frame : EncodedFrame
  generation : ℕ
deriving DecidableEq

structure SurfaceFrame where
  generation : ℕ
  shot : Shot
  epoch : ℕ
deriving DecidableEq

def SurfaceFrame.isCurrent (delivery : ℕ) (f : SurfaceFrame) : Bool :=
  f.epoch % 2 ≠ 0 && delivery = f.epoch

/-- A capture with everything it has under way. -/
structure Delivery where
  capture : Capture
  /-- Whether the source keeps the sink an image was accepted with. -/
  preserves : Bool
  /-- Native images, which may be cached and encoded again. -/
  images : List (Shot × FrameSink)
  /-- Frames found current, not yet in the queue. -/
  sending : List (Shot × ℕ)
  queue : List (Shot × ℕ)
  /-- The frame that `forward_frames` is waiting to pass on. -/
  forwarding : Option (Shot × ℕ)
  delivered : List SurfaceFrame

inductive DeliveryEvent
  | pause
  | resume (now : ℕ)
  | retag (generation : ℕ)
  /-- The compositor hands over an image. -/
  | image (frame : EncodedFrame)
  /-- The image at this place is encoded, and `send` or `try_send` looks at its sink. -/
  | offer (index : ℕ)
  /-- The frame at this place enters the queue, or finds it full. -/
  | enqueue (index : ℕ) (full : Bool)
  | receive
  | permit

namespace Delivery

def start (preserves : Bool) (generation : ℕ) : Delivery :=
  ⟨.new generation, preserves, [], [], [], none, []⟩

def step (s : Delivery) : DeliveryEvent → Option Delivery
  | .pause => some { s with capture := s.capture.pause }
  | .resume now =>
    -- a source that loses provenance is started anew
    if s.preserves then some { s with capture := s.capture.resume now } else none
  | .retag generation =>
    -- the registry refuses a generation that goes back
    if s.capture.deliveryEpoch % 2 = 0 ∧ s.capture.generation < generation ∧
        generation < 2 ^ 32 then
      some { s with capture := s.capture.retag generation }
    else none
  | .image frame =>
    let sink : FrameSink := ⟨.application, none⟩
    let sink := if s.preserves then sink.forFrame s.capture.deliveryEpoch else sink
    some { s with images := s.images ++ [(⟨frame, s.capture.generation⟩, sink)] }
  | .offer index =>
    match s.images[index]? with
    | none => none
    | some (shot, sink) =>
      let sink := sink.forFrame s.capture.deliveryEpoch
      match sink.isCurrent s.capture.deliveryEpoch, sink.epoch with
      | true, some epoch => some { s with
          capture := s.capture.noteFrame shot.frame epoch
          sending := s.sending ++ [(shot, epoch)] }
      | _, _ => some s
  | .enqueue index full =>
    match s.sending[index]? with
    | none => none
    | some entry => some { s with
        sending := s.sending.eraseIdx index
        queue := if full then s.queue else s.queue ++ [entry] }
  | .receive =>
    match s.forwarding, s.queue with
    | none, (shot, epoch) :: rest =>
      if epoch % 2 = 0 ∨ s.capture.deliveryEpoch ≠ epoch then some { s with queue := rest }
      else some { s with queue := rest, forwarding := some (shot, epoch) }
    | _, _ => none
  | .permit =>
    match s.forwarding with
    | none => none
    | some (shot, epoch) =>
      if s.capture.deliveryEpoch = epoch then
        some { s with
          forwarding := none
          delivered := s.delivered ++ [⟨epoch / 2 ^ 32 % 2 ^ 32, shot, epoch⟩] }
      else some { s with forwarding := none }

end Delivery

end NebulaDesk
