/-
Channels and the 16-byte cleartext record header (`ndp-proto`: `channel.rs`,
`header.rs`, the readers of `lib.rs`).

Every record starts with a `MsgHeader` in the clear.  `MsgHeader.split` is the
left inverse of `MsgHeader.toBytes` (`split_toBytes`), and whatever it accepts
is spelled by the header it returns (`split_eq_ok`), so the header bytes of a
record and the decoded header determine each other.
-/
import NebulaDesk.Lib.Bytes

namespace NebulaDesk

open Bytes

/-- A logical channel; the discriminant is folded into the record nonce. -/
inductive Channel
  | control
  | video
  | audio
  | input
  | clipboard
  | file
deriving DecidableEq, Repr

namespace Channel

/-- Every channel, in wire order. -/
def all : List Channel := [control, video, audio, input, clipboard, file]

/-- The channel's stable wire discriminant. -/
def id : Channel → ℕ
  | control => 0
  | video => 1
  | audio => 2
  | input => 3
  | clipboard => 4
  | file => 5

/-- Whether the channel tolerates loss and therefore rides datagrams. -/
def isUnreliable : Channel → Bool
  | audio => true
  | _ => false

def isStreamPerMessage : Channel → Bool
  | video | clipboard | file => true
  | _ => false

def name : Channel → String
  | control => "control"
  | video => "video"
  | audio => "audio"
  | input => "input"
  | clipboard => "clipboard"
  | file => "file"

theorem id_lt (c : Channel) : c.id < 6 := by cases c <;> decide

theorem id_inj {c d : Channel} (h : c.id = d.id) : c = d := by
  cases c <;> cases d <;> first | rfl | exact absurd h (by decide)

end Channel

/-- Errors produced while decoding a message. -/
inductive ProtoError
  | truncated (need have_ : ℕ)
  | unsupportedVersion (version : UInt8)
  | unknownKind (kind : UInt8)
  | invalidValue (field value : String)
  | json (text : String)
deriving DecidableEq, Repr

/-- What a record carries. -/
inductive MsgKind
  | hello | helloAck | bye | ping | pong | capsUpdate | displayLayout | cursorShape
  | cursorPos | qosReport | pathCandidates | application
  | videoFrame | audioFrame
  | inputEvent | inputBatch
  | clipboardOffer | clipboardData | clipboardRequest
  | fileOffer | fileChunk | fileAck
deriving DecidableEq, Repr

namespace MsgKind

def toU8 : MsgKind → UInt8
  | hello => 0x01 | helloAck => 0x02 | bye => 0x03 | ping => 0x04 | pong => 0x05
  | capsUpdate => 0x06 | displayLayout => 0x07 | cursorShape => 0x08 | cursorPos => 0x09
  | qosReport => 0x0a | pathCandidates => 0x0b | application => 0x0c
  | videoFrame => 0x20 | audioFrame => 0x21
  | inputEvent => 0x40 | inputBatch => 0x41
  | clipboardOffer => 0x60 | clipboardData => 0x61 | clipboardRequest => 0x62
  | fileOffer => 0x70 | fileChunk => 0x71 | fileAck => 0x72

/-- Decode a wire discriminant. -/
def fromU8 (v : UInt8) : Except ProtoError MsgKind :=
  match v.toNat with
  | 0x01 => .ok hello
  | 0x02 => .ok helloAck
  | 0x03 => .ok bye
  | 0x04 => .ok ping
  | 0x05 => .ok pong
  | 0x06 => .ok capsUpdate
  | 0x07 => .ok displayLayout
  | 0x08 => .ok cursorShape
  | 0x09 => .ok cursorPos
  | 0x0a => .ok qosReport
  | 0x0b => .ok pathCandidates
  | 0x0c => .ok application
  | 0x20 => .ok videoFrame
  | 0x21 => .ok audioFrame
  | 0x40 => .ok inputEvent
  | 0x41 => .ok inputBatch
  | 0x60 => .ok clipboardOffer
  | 0x61 => .ok clipboardData
  | 0x62 => .ok clipboardRequest
  | 0x70 => .ok fileOffer
  | 0x71 => .ok fileChunk
  | 0x72 => .ok fileAck
  | _ => .error (.unknownKind v)

theorem fromU8_toU8 (k : MsgKind) : fromU8 k.toU8 = .ok k := by cases k <;> rfl

theorem toU8_of_fromU8 {v : UInt8} {k : MsgKind} (h : fromU8 v = .ok k) : k.toU8 = v := by
  unfold fromU8 at h
  split at h
  all_goals first
    | (rename_i hv
       cases h
       exact UInt8.toNat_inj.mp (by rw [hv]; rfl))
    | cases h

end MsgKind

/-- Per-record flag bits. -/
structure MsgFlags where
  bits : UInt16
deriving DecidableEq, Repr

namespace MsgFlags

def none : MsgFlags := ⟨0⟩
def keyframe : MsgFlags := ⟨1⟩

/-- True when every bit in `other` is set. -/
def contains (f other : MsgFlags) : Bool := f.bits &&& other.bits == other.bits

end MsgFlags

def protocolVersion : UInt8 := 3

/-- Serialized size of a `MsgHeader`. -/
def headerLen : ℕ := 16

structure MsgHeader where
  version : UInt8
  kind : MsgKind
  flags : MsgFlags
  seq : UInt32
  timestampUs : UInt64
deriving DecidableEq, Repr

/-- Take `n` bytes from the front of a buffer. -/
def take (buf : List UInt8) (n : ℕ) : Except ProtoError (List UInt8 × List UInt8) :=
  if buf.length < n then .error (.truncated n buf.length) else .ok (buf.splitAt n)

/-- Read an `n`-byte little-endian integer from the front of a buffer. -/
def readInt (n : ℕ) (buf : List UInt8) : Except ProtoError (ℕ × List UInt8) :=
  match take buf n with
  | .error e => .error e
  | .ok (head, tail) => .ok (fromLeBytes head, tail)

theorem readInt_append {n v : ℕ} (h : v < 256 ^ n) (rest : List UInt8) :
    readInt n (toLeBytes n v ++ rest) = .ok (v, rest) := by
  have hlen : ¬ (toLeBytes n v ++ rest).length < n := by simp
  have hsplit : (toLeBytes n v ++ rest).splitAt n = (toLeBytes n v, rest) := by
    rw [List.splitAt_eq, List.take_left' (length_toLeBytes n v),
      List.drop_left' (length_toLeBytes n v)]
  rw [readInt, take, if_neg hlen, hsplit]
  simp only [fromLeBytes_toLeBytes_of_lt h]

theorem readInt_eq_ok {n v : ℕ} {buf rest : List UInt8} (h : readInt n buf = .ok (v, rest)) :
    v < 256 ^ n ∧ buf = toLeBytes n v ++ rest := by
  unfold readInt take at h
  by_cases hlen : buf.length < n
  · rw [if_pos hlen] at h
    cases h
  · rw [if_neg hlen, List.splitAt_eq] at h
    simp only [Except.ok.injEq, Prod.mk.injEq] at h
    obtain ⟨hv, hr⟩ := h
    have htake : (buf.take n).length = n := by simp; omega
    have hlt := fromLeBytes_lt (buf.take n)
    have hback := toLeBytes_fromLeBytes (buf.take n)
    rw [htake, hv] at hlt hback
    refine ⟨hlt, ?_⟩
    rw [hback, ← hr, List.take_append_drop]

namespace MsgHeader

/-- Build a header at the current protocol version. -/
def new (kind : MsgKind) (seq : UInt32) (timestampUs : UInt64) : MsgHeader :=
  ⟨protocolVersion, kind, MsgFlags.none, seq, timestampUs⟩

/-- Builder-style flag setter. -/
def withFlags (h : MsgHeader) (flags : MsgFlags) : MsgHeader := { h with flags := flags }

/-- Serialize into a fixed 16-byte array. -/
def toBytes (h : MsgHeader) : List UInt8 :=
  toLeBytes 1 h.version.toNat ++ (toLeBytes 1 h.kind.toU8.toNat ++
    (toLeBytes 2 h.flags.bits.toNat ++ (toLeBytes 4 h.seq.toNat ++
      toLeBytes 8 h.timestampUs.toNat)))

/-- Split a wire record into its header and the sealed payload that follows. -/
def split (record : List UInt8) : Except ProtoError (MsgHeader × List UInt8) := do
  let (version, buf) ← readInt 1 record
  if UInt8.ofNat version ≠ protocolVersion then
    throw (.unsupportedVersion (UInt8.ofNat version))
  let (kindByte, buf) ← readInt 1 buf
  let kind ← MsgKind.fromU8 (UInt8.ofNat kindByte)
  let (flags, buf) ← readInt 2 buf
  let (seq, buf) ← readInt 4 buf
  let (timestampUs, buf) ← readInt 8 buf
  return (⟨UInt8.ofNat version, kind, ⟨UInt16.ofNat flags⟩, UInt32.ofNat seq,
    UInt64.ofNat timestampUs⟩, buf)

@[simp] theorem length_toBytes (h : MsgHeader) : h.toBytes.length = headerLen := by
  simp [toBytes, headerLen]

/-- Decoding a serialized header of the current version gives it back, with
whatever follows untouched. -/
theorem split_toBytes {h : MsgHeader} (hv : h.version = protocolVersion)
    (rest : List UInt8) : split (h.toBytes ++ rest) = .ok (h, rest) := by
  obtain ⟨version, kind, flags, seq, timestampUs⟩ := h
  obtain rfl : version = protocolVersion := hv
  have h1 := readInt_append (n := 1) protocolVersion.toNat_lt
  have h2 := readInt_append (n := 1) kind.toU8.toNat_lt
  have h3 := readInt_append (n := 2) flags.bits.toNat_lt
  have h4 := readInt_append (n := 4) seq.toNat_lt
  have h5 := readInt_append (n := 8) timestampUs.toNat_lt
  simp only [split, toBytes, List.append_assoc, h1, h2, h3, h4, h5, bind, Except.bind,
    UInt8.ofNat_toNat, UInt16.ofNat_toNat, UInt32.ofNat_toNat, UInt64.ofNat_toNat,
    MsgKind.fromU8_toU8, ne_eq, not_true_eq_false, if_false, pure, Except.pure]

/-- Whatever `split` accepts is the serialization of the header it returns. -/
theorem split_eq_ok {record rest : List UInt8} {h : MsgHeader} (hs : split record = .ok (h, rest)) :
    h.version = protocolVersion ∧ record = h.toBytes ++ rest := by
  simp only [split, bind, Except.bind, pure, Except.pure] at hs
  split at hs
  · cases hs
  rename_i p1 e1
  split at hs
  · cases hs
  rename_i hver
  split at hs
  · cases hs
  rename_i p2 e2
  split at hs
  · cases hs
  rename_i kind ek
  split at hs
  · cases hs
  rename_i p3 e3
  split at hs
  · cases hs
  rename_i p4 e4
  split at hs
  · cases hs
  rename_i p5 e5
  obtain ⟨rfl, rfl⟩ := hs
  obtain ⟨b1, r1⟩ := readInt_eq_ok e1
  obtain ⟨b2, r2⟩ := readInt_eq_ok e2
  obtain ⟨b3, r3⟩ := readInt_eq_ok e3
  obtain ⟨b4, r4⟩ := readInt_eq_ok e4
  obtain ⟨b5, r5⟩ := readInt_eq_ok e5
  refine ⟨by simpa using hver, ?_⟩
  rw [r1, r2, r3, r4, r5, toBytes, MsgKind.toU8_of_fromU8 ek]
  simp only [List.append_assoc, UInt8.toNat_ofNat_of_lt' b1, UInt8.toNat_ofNat_of_lt' b2,
    UInt16.toNat_ofNat_of_lt' b3, UInt32.toNat_ofNat_of_lt' b4, UInt64.toNat_ofNat_of_lt' b5]

end MsgHeader

end NebulaDesk
