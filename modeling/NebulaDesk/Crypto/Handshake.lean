/-
The first message of the Noise handshake (`ndp-crypto/src/handshake.rs`, `Initiator::write_first`
and `Responder::read_first`).

* **`carried_iff`** — exactly the payloads of at most `maxHandshakePayload` bytes reach the
  responder: the two buffers hold every message they are written into.
-/
import Mathlib

namespace NebulaDesk

/-- Largest handshake payload accepted, bounding memory before authentication. -/
def maxHandshakePayload : ℕ := 4096

/-- Buffer size for one Noise message: payload plus pattern overhead. -/
def msgBuf : ℕ := maxHandshakePayload + 256

inductive HandshakeError
  | handshake (message : String)
  | payloadTooLarge (len : ℕ)
deriving DecidableEq, Repr

/-- `snow`, the first message of the pattern IK between two given parties: an ephemeral key,
a static key with its tag, and the payload with its tag. -/
structure NoiseIk where
  writeMessage : List UInt8 → List UInt8
  readMessage : List UInt8 → Option (List UInt8)
  length_writeMessage : ∀ payload, (writeMessage payload).length = payload.length + 96
  readMessage_writeMessage : ∀ payload, readMessage (writeMessage payload) = some payload

namespace NoiseIk

/-- `Initiator::write_first`. -/
def writeFirst (noise : NoiseIk) (payload : List UInt8) : Except HandshakeError (List UInt8) :=
  if maxHandshakePayload < payload.length then .error (.payloadTooLarge payload.length)
  else if msgBuf < (noise.writeMessage payload).length then .error (.handshake "output buffer")
  else .ok (noise.writeMessage payload)

/-- `Responder::read_first`. -/
def readFirst (noise : NoiseIk) (message : List UInt8) : Except HandshakeError (List UInt8) :=
  if msgBuf < message.length then .error (.payloadTooLarge message.length)
  else
    match noise.readMessage message with
    | some payload => .ok payload
    | none => .error (.handshake "decrypt error")

/-- The payload reaches the responder. -/
def Carried (noise : NoiseIk) (payload : List UInt8) : Prop :=
  ∃ message, noise.writeFirst payload = .ok message ∧ noise.readFirst message = .ok payload

theorem carried_iff (noise : NoiseIk) (payload : List UInt8) :
    noise.Carried payload ↔ payload.length ≤ maxHandshakePayload := by
  have hlen := noise.length_writeMessage payload
  constructor
  · rintro ⟨message, hwrite, -⟩
    by_contra hlong
    rw [writeFirst, if_pos (not_le.mp hlong)] at hwrite
    cases hwrite
  · intro hshort
    have hfits : ¬ msgBuf < (noise.writeMessage payload).length := by
      unfold msgBuf
      omega
    refine ⟨noise.writeMessage payload, ?_, ?_⟩
    · rw [writeFirst, if_neg (not_lt.mpr hshort), if_neg hfits]
    · rw [readFirst, if_neg hfits, noise.readMessage_writeMessage]

end NoiseIk

end NebulaDesk
