/-
Descriptors that prefix media payloads (`ndp-proto/src/media.rs`, and
`SurfaceFrameInfo` of `application.rs`).

A video payload is `VideoFrameInfo ‖ bitstream`; in an application session the
bitstream is itself prefixed, `VideoFrameInfo ‖ SurfaceFrameInfo ‖ bitstream`
(`splitScoped`).
-/
import NebulaDesk.Proto.Header

namespace NebulaDesk

open Bytes

inductive VideoCodec
  | h264 | hevc | av1
deriving DecidableEq, Repr

inductive AudioCodec
  | opus
deriving DecidableEq, Repr

def videoCodecId : VideoCodec → ℕ
  | .h264 => 1
  | .hevc => 2
  | .av1 => 3

def videoCodecFromId (v : ℕ) : Except ProtoError VideoCodec :=
  match v with
  | 1 => .ok .h264
  | 2 => .ok .hevc
  | 3 => .ok .av1
  | other => .error (.invalidValue "video codec" (toString other))

structure VideoFrameInfo where
  display : ℕ
  codec : VideoCodec
  width : ℕ
  height : ℕ
  durationUs : ℕ
deriving DecidableEq, Repr

namespace VideoFrameInfo

/-- Serialize into the fixed layout: `display(1) codec(1) reserved(2) width(2)
height(2) duration_us(4)`. -/
def toBytes (info : VideoFrameInfo) : List UInt8 :=
  toLeBytes 1 info.display ++ (toLeBytes 1 (videoCodecId info.codec) ++ (toLeBytes 2 0 ++
    (toLeBytes 2 info.width ++ (toLeBytes 2 info.height ++ toLeBytes 4 info.durationUs))))

/-- Parse the descriptor and return it with the bitstream that follows. -/
def split (payload : List UInt8) : Except ProtoError (VideoFrameInfo × List UInt8) := do
  let (display, cursor) ← readInt 1 payload
  let (codec, cursor) ← readInt 1 cursor
  let codec ← videoCodecFromId codec
  let (_reserved, cursor) ← readInt 2 cursor
  let (width, cursor) ← readInt 2 cursor
  let (height, cursor) ← readInt 2 cursor
  let (durationUs, cursor) ← readInt 4 cursor
  if width = 0 || height = 0 then
    throw (.invalidValue "frame size" (toString width ++ "x" ++ toString height))
  return (⟨display, codec, width, height, durationUs⟩, cursor)

/-- Build a complete video payload from the descriptor and a bitstream. -/
def framePayload (info : VideoFrameInfo) (bitstream : List UInt8) : List UInt8 :=
  info.toBytes ++ bitstream

end VideoFrameInfo

/-- Descriptor preceding an encoded audio packet. -/
structure AudioFrameInfo where
  codec : AudioCodec
  channels : ℕ
  frameMs : ℕ
deriving DecidableEq, Repr

namespace AudioFrameInfo

/-- Serialize into the fixed layout: `codec(1) channels(1) frame_ms(1) reserved(1)`. -/
def toBytes (info : AudioFrameInfo) : List UInt8 :=
  toLeBytes 1 1 ++ (toLeBytes 1 info.channels ++ (toLeBytes 1 info.frameMs ++ toLeBytes 1 0))

/-- Parse the descriptor and return it with the packet that follows. -/
def split (payload : List UInt8) : Except ProtoError (AudioFrameInfo × List UInt8) := do
  let (codec, cursor) ← readInt 1 payload
  if codec ≠ 1 then throw (.invalidValue "audio codec" (toString codec))
  let (channels, cursor) ← readInt 1 cursor
  let (frameMs, cursor) ← readInt 1 cursor
  let (_reserved, cursor) ← readInt 1 cursor
  if channels = 0 || channels > 8 then
    throw (.invalidValue "channels" (toString channels))
  return (⟨.opus, channels, frameMs⟩, cursor)

end AudioFrameInfo

/-- Binds video bytes to the exact surface geometry that produced them. -/
structure SurfaceFrameInfo where
  geometryGeneration : ℕ
  surfaceSequence : ℕ
deriving DecidableEq, Repr

namespace SurfaceFrameInfo

/-- Encode generation then surface sequence, each four bytes little-endian. -/
def toBytes (frame : SurfaceFrameInfo) : List UInt8 :=
  toLeBytes 4 frame.geometryGeneration ++ toLeBytes 4 frame.surfaceSequence

/-- Parse from the bytes remaining after `VideoFrameInfo.split`. -/
def split (payload : List UInt8) : Except ProtoError (SurfaceFrameInfo × List UInt8) := do
  let (geometryGeneration, cursor) ← readInt 4 payload
  let (surfaceSequence, cursor) ← readInt 4 cursor
  if geometryGeneration = 0 then
    throw (.invalidValue "application message" "invalid surface state")
  return (⟨geometryGeneration, surfaceSequence⟩, cursor)

/-- Prefix encoded codec bytes. -/
def framePayload (frame : SurfaceFrameInfo) (bitstream : List UInt8) : List UInt8 :=
  frame.toBytes ++ bitstream

end SurfaceFrameInfo

/-- What an application session reads off a video record: the frame's descriptor, then
the surface's. -/
def splitScoped (payload : List UInt8) :
    Except ProtoError ((VideoFrameInfo × SurfaceFrameInfo) × List UInt8) := do
  let (info, remaining) ← VideoFrameInfo.split payload
  let (frame, bitstream) ← SurfaceFrameInfo.split remaining
  return ((info, frame), bitstream)

end NebulaDesk
