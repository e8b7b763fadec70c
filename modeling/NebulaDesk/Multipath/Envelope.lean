/-
The `multipath/1` envelope (`ndp-transport/src/multipath.rs`).

Every payload of a logical session starts with a tag.  A data envelope carries
the logical sequence and the route epoch of its sender; an internal message is a
probe, an echo or a bare acknowledgment, and carries how many records of each
reliable channel its sender has received.  `parse_envelope` and
`parse_internalPayload` say that an honest peer's payload is read back as it was
written.
-/
import NebulaDesk.Multipath.Native

namespace NebulaDesk

namespace Multipath

open Bytes

def magic : List UInt8 := [0x4e, 0x4d, 0x50, 0x31]

def dataTag : UInt8 := 0

def envelopeLen : ℕ := 21

/-- The channels whose records are retained until acknowledged. -/
def reliable : List Channel := [.control, .input, .clipboard, .file]

/-- Records of a channel that may be unacknowledged. -/
def window : ℕ := 32

/-- Bytes of a channel that may be unacknowledged. -/
def byteWindow : ℕ := 32 * 1024 * 1024

inductive InternalKind
  | probe | echo | ack
deriving DecidableEq, Repr

def InternalKind.tag : InternalKind → UInt8
  | probe => 1 | echo => 2 | ack => 3

def envelope (sequence epoch : ℕ) (payload : List UInt8) : List UInt8 :=
  magic ++ [dataTag] ++ toLeBytes 8 sequence ++ toLeBytes 8 epoch ++ payload

/-- The received count of every reliable channel. -/
def acks (received : Channel → ℕ) : List UInt8 :=
  reliable.flatMap fun c => toLeBytes 8 (received c)

/-- A probe or an echo has a nonce, an acknowledgment has none. -/
def internalPayload (kind : InternalKind) (nonce : Option ℕ) (received : Channel → ℕ) :
    List UInt8 :=
  magic ++ [kind.tag] ++ (nonce.map (toLeBytes 8)).getD [] ++ acks received

/-- What a payload says. -/
inductive Frame
  | data (sequence epoch : ℕ) (payload : List UInt8)
  | internal (kind : InternalKind) (nonce : ℕ) (acks : List UInt8)
deriving DecidableEq, Repr

/-- The 64-bit integer at an offset. -/
def readU64 (offset : ℕ) (payload : List UInt8) : ℕ := fromLeBytes ((payload.drop offset).take 8)

/-- The rest of `receive`'s checks on a probe, an echo or an acknowledgment. -/
def parseInternal (m : Incoming) (kind : InternalKind) : Except TransportError Frame :=
  let offset := if kind = .ack then 5 else 13
  if m.channel ≠ .audio ∨ m.header.kind ≠ .ping then
    .error (.multipathProtocol "wrong internal-message carrier")
  else if m.payload.length ≠ offset + reliable.length * 8 then
    .error (.multipathProtocol "invalid internal-message length")
  else .ok (.internal kind (readU64 5 m.payload) (m.payload.drop offset))

/-- The checks `Inbox::receive` makes on a payload before it acts on it. -/
def parse (m : Incoming) : Except TransportError Frame :=
  if m.payload.length < 5 ∨ m.payload.take 4 ≠ magic then
    .error (.multipathProtocol "missing multipath/1 envelope")
  else match (m.payload.getD 4 0).toNat with
    | 0 =>
      if m.payload.length < envelopeLen then
        .error (.multipathProtocol "truncated data envelope")
      else .ok (.data (readU64 5 m.payload) (readU64 13 m.payload) (m.payload.drop envelopeLen))
    | 1 => parseInternal m .probe
    | 2 => parseInternal m .echo
    | 3 => parseInternal m .ack
    | _ => .error (.multipathProtocol "unknown envelope type")

/-! ### Reading back -/

theorem mem_reliable {c : Channel} : c ∈ reliable ↔ c ≠ .video ∧ c ≠ .audio := by
  cases c <;> decide

@[simp] theorem length_acks (received : Channel → ℕ) : (acks received).length = 32 := by
  simp [acks, reliable]

theorem take_toLeBytes_append (v : ℕ) (rest : List UInt8) :
    (toLeBytes 8 v ++ rest).take 8 = toLeBytes 8 v := List.take_left' (length_toLeBytes 8 v)

theorem readU64_append (offset : ℕ) (pre : List UInt8) (v : ℕ) (rest : List UInt8)
    (h : pre.length = offset) : readU64 offset (pre ++ (toLeBytes 8 v ++ rest)) = v % 2 ^ 64 := by
  rw [readU64, List.drop_left' h, take_toLeBytes_append, fromLeBytes_toLeBytes]
  norm_num

theorem parse_envelope (c : Channel) (header : MsgHeader) (sequence epoch : ℕ)
    (payload : List UInt8) :
    parse ⟨c, header, envelope sequence epoch payload⟩ =
      .ok (.data (sequence % 2 ^ 64) (epoch % 2 ^ 64) payload) := by
  have hlen : (envelope sequence epoch payload).length = 21 + payload.length := by
    simp [envelope, magic]
    omega
  have hseq : readU64 5 (envelope sequence epoch payload) = sequence % 2 ^ 64 := by
    have := readU64_append 5 (magic ++ [dataTag]) sequence (toLeBytes 8 epoch ++ payload) rfl
    simpa [envelope] using this
  have hepoch : readU64 13 (envelope sequence epoch payload) = epoch % 2 ^ 64 := by
    have := readU64_append 13 (magic ++ [dataTag] ++ toLeBytes 8 sequence) epoch payload
      (by simp [magic])
    simpa [envelope] using this
  have hrest : (envelope sequence epoch payload).drop envelopeLen = payload := by
    have : envelope sequence epoch payload =
        (magic ++ [dataTag] ++ toLeBytes 8 sequence ++ toLeBytes 8 epoch) ++ payload := rfl
    rw [this]
    exact List.drop_left' (by simp [magic, envelopeLen])
  have hshort : ¬ ((envelope sequence epoch payload).length < 5 ∨
      (envelope sequence epoch payload).take 4 ≠ magic) := by
    rw [hlen]
    simp [envelope, magic]
    omega
  have htag : ((envelope sequence epoch payload).getD 4 0).toNat = 0 := by
    simp [envelope, magic, dataTag]
  have hfull : ¬ (envelope sequence epoch payload).length < envelopeLen := by
    rw [hlen, envelopeLen]
    omega
  unfold parse
  simp only [hshort, if_false, htag, hfull, hseq, hepoch, hrest]

/-- The reliable channel's count in the acknowledgment part of a message. -/
def ackOf (c : Channel) (bytes : List UInt8) : ℕ :=
  readU64 (8 * reliable.idxOf c) bytes

theorem ackOf_acks {c : Channel} (hc : c ∈ reliable) (received : Channel → ℕ) :
    ackOf c (acks received) = received c % 2 ^ 64 := by
  have happ : acks received = toLeBytes 8 (received .control) ++ (toLeBytes 8 (received .input) ++
      (toLeBytes 8 (received .clipboard) ++ (toLeBytes 8 (received .file) ++ []))) := by
    simp [acks, reliable]
  rw [ackOf, happ]
  rw [mem_reliable] at hc
  cases c with
  | control => exact readU64_append 0 [] _ _ rfl
  | input => exact readU64_append 8 (toLeBytes 8 (received .control)) _ _ (by simp)
  | clipboard =>
    rw [← List.append_assoc]
    exact readU64_append 16 (toLeBytes 8 (received .control) ++ toLeBytes 8 (received .input)) _ _
      (by simp)
  | file =>
    rw [← List.append_assoc, ← List.append_assoc]
    exact readU64_append 24 (toLeBytes 8 (received .control) ++ toLeBytes 8 (received .input) ++
      toLeBytes 8 (received .clipboard)) _ _ (by simp)
  | video => exact absurd rfl hc.1
  | audio => exact absurd rfl hc.2

def InternalKind.Fits : InternalKind → Option ℕ → Prop
  | .ack, nonce => nonce = none
  | _, nonce => nonce.isSome

theorem parse_internalPayload {kind : InternalKind} {nonce : Option ℕ} (h : kind.Fits nonce)
    (header : MsgHeader) (hping : header.kind = .ping) (received : Channel → ℕ) :
    ∃ n, parse ⟨.audio, header, internalPayload kind nonce received⟩ =
      .ok (.internal kind n (acks received)) := by
  have hshort : ¬ ((internalPayload kind nonce received).length < 5 ∨
      (internalPayload kind nonce received).take 4 ≠ magic) := by
    simp [internalPayload, magic]
  have htag : (internalPayload kind nonce received).getD 4 0 = kind.tag := by
    simp [internalPayload, magic]
  have hinternal : ∃ n, parseInternal ⟨.audio, header, internalPayload kind nonce received⟩ kind =
      .ok (.internal kind n (acks received)) := by
    have hrest : (internalPayload kind nonce received).drop (if kind = .ack then 5 else 13) =
        acks received := by
      refine List.drop_left' ?_
      cases kind <;> cases nonce <;> first | (cases h; done) | simp [magic]
    have hlen : (internalPayload kind nonce received).length =
        (if kind = .ack then 5 else 13) + reliable.length * 8 := by
      cases kind <;> cases nonce <;> first | (cases h; done) | simp [internalPayload, magic, reliable]
    refine ⟨readU64 5 (internalPayload kind nonce received), ?_⟩
    unfold parseInternal
    simp only [hping, hlen, hrest]
    simp
  obtain ⟨n, hn⟩ := hinternal
  refine ⟨n, ?_⟩
  unfold parse
  simp only [hshort, if_false, htag]
  cases kind <;> exact hn

end Multipath

end NebulaDesk
