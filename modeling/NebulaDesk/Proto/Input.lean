/-
Input events on the wire (`ndp-proto/src/input.rs`): the fixed 32-byte layout,
its decoder with the field checks it makes, and batches of events.
-/
import NebulaDesk.Lib.Float32
import NebulaDesk.Proto.Header

namespace NebulaDesk

open Bytes

/-- Serialized size of one `InputEvent`. -/
def inputEventLen : ℕ := 32

inductive InputKind
  | mouseMove | mouseDown | mouseUp | mouseDrag | wheel | keyDown | keyUp | pointerLeave
deriving DecidableEq, Repr

namespace InputKind

/-- Wire discriminant. -/
def toU8 : InputKind → ℕ
  | mouseMove => 1
  | mouseDown => 2
  | mouseUp => 3
  | mouseDrag => 4
  | wheel => 5
  | keyDown => 6
  | keyUp => 7
  | pointerLeave => 8

def fromU8 (v : ℕ) : Except ProtoError InputKind :=
  match v with
  | 1 => .ok mouseMove
  | 2 => .ok mouseDown
  | 3 => .ok mouseUp
  | 4 => .ok mouseDrag
  | 5 => .ok wheel
  | 6 => .ok keyDown
  | 7 => .ok keyUp
  | 8 => .ok pointerLeave
  | other => .error (.invalidValue "input kind" (toString other))

/-- Whether this event carries a meaningful pointer position. -/
def isPointer : InputKind → Bool
  | mouseMove | mouseDown | mouseUp | mouseDrag | wheel => true
  | _ => false

end InputKind

inductive MouseButton
  | none | left | right | middle | back | forward
deriving DecidableEq, Repr

/-- Wire discriminant. -/
def MouseButton.toU8 : MouseButton → ℕ
  | .none => 0
  | .left => 1
  | .right => 2
  | .middle => 3
  | .back => 4
  | .forward => 5

def MouseButton.fromU8 (v : ℕ) : Except ProtoError MouseButton :=
  match v with
  | 0 => .ok .none
  | 1 => .ok .left
  | 2 => .ok .right
  | 3 => .ok .middle
  | 4 => .ok .back
  | 5 => .ok .forward
  | other => .error (.invalidValue "mouse button" (toString other))

structure InputEvent where
  kind : InputKind
  button : MouseButton
  modifiers : ℕ
  display : ℕ
  pointerId : ℕ
  x : F32
  y : F32
  scrollX : F32
  scrollY : F32
  key : ℕ
  unicode : ℕ
deriving DecidableEq, Repr

def showNonFinite (v : F32) : String :=
  if v.isNan then "NaN" else if v.bits.toNat < 2 ^ 31 then "inf" else "-inf"

def readFinite (field : String) (buf : List UInt8) : Except ProtoError (F32 × List UInt8) := do
  let (bits, buf) ← readInt 4 buf
  let v : F32 := ⟨BitVec.ofNat 32 bits⟩
  if !v.isFinite then throw (.invalidValue field (showNonFinite v))
  return (v, buf)

/-- `v.clamp(0.0, 1.0)`. -/
def clampUnit (v : F32) : F32 :=
  if v.lt ⟨0⟩ then ⟨0⟩ else if F32.lt ⟨0x3f800000⟩ v then ⟨0x3f800000⟩ else v

def readCoord (field : String) (buf : List UInt8) : Except ProtoError (F32 × List UInt8) := do
  let (v, buf) ← readFinite field buf
  return (clampUnit v, buf)

/-- Parse one event from the front of `buf`. -/
def InputEvent.decode (buf : List UInt8) : Except ProtoError (InputEvent × List UInt8) := do
  let (kind, buf) ← readInt 1 buf
  let kind ← InputKind.fromU8 kind
  let (button, buf) ← readInt 1 buf
  let button ← MouseButton.fromU8 button
  let (modifiers, buf) ← readInt 2 buf
  let (display, buf) ← readInt 1 buf
  let (_reserved, buf) ← readInt 1 buf
  let (pointerId, buf) ← readInt 2 buf
  let (x, buf) ← readCoord "x" buf
  let (y, buf) ← readCoord "y" buf
  let (scrollX, buf) ← readFinite "scroll_x" buf
  let (scrollY, buf) ← readFinite "scroll_y" buf
  let (key, buf) ← readInt 4 buf
  let (unicode, buf) ← readInt 4 buf
  if key > 0xe7 then throw (.invalidValue "key" (toString key))
  return (⟨kind, button, modifiers, display, pointerId, x, y, scrollX, scrollY, key, unicode⟩, buf)

/-- Serialize into the fixed 32-byte layout. -/
def InputEvent.toBytes (e : InputEvent) : List UInt8 :=
  toLeBytes 1 e.kind.toU8 ++ (toLeBytes 1 e.button.toU8 ++ (toLeBytes 2 e.modifiers ++
    (toLeBytes 1 e.display ++ (toLeBytes 1 0 ++ (toLeBytes 2 e.pointerId ++
      (toLeBytes 4 e.x.bits.toNat ++ (toLeBytes 4 e.y.bits.toNat ++
        (toLeBytes 4 e.scrollX.bits.toNat ++ (toLeBytes 4 e.scrollY.bits.toNat ++
          (toLeBytes 4 e.key ++ toLeBytes 4 e.unicode))))))))))

/-- The loop of `decode_batch`: events are read until nothing is left. -/
def InputEvent.decodeEvents : ℕ → List UInt8 → Except ProtoError (List InputEvent)
  | 0, _ => .ok []
  | n + 1, buf =>
    if buf.isEmpty then .ok []
    else do
      let (e, buf) ← InputEvent.decode buf
      let es ← decodeEvents n buf
      return e :: es

def InputEvent.decodeBatch (buf : List UInt8) : Except ProtoError (List InputEvent) :=
  if buf.length % inputEventLen ≠ 0 then
    .error (.truncated ((buf.length / inputEventLen + 1) * inputEventLen) buf.length)
  else
    -- Every round takes bytes off the buffer, so its length bounds the rounds.
    decodeEvents buf.length buf

def InputEvent.encodeBatch (events : List InputEvent) : List UInt8 :=
  events.flatMap InputEvent.toBytes

end NebulaDesk
