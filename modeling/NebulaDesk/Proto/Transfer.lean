/-
File transfer messages (`ndp-proto/src/transfer.rs`).

`FileOffer.hasSafeName` is the only check a name passes before it reaches the
file system.  What it guarantees is `Plain`: a name that both POSIX and Windows
read as one ordinary component (`plain_of_hasSafeName`).
-/
import NebulaDesk.Proto.Surface

namespace NebulaDesk

def Text.bytes (t : Text) : List UInt8 := t.flatMap String.utf8EncodeChar

/-- Metadata announcing a file transfer. -/
structure FileOffer where
  transferId : ℕ
  name : Text
  size : ℕ
  blake3 : Text
  modifiedSecs : Option ℤ
deriving DecidableEq

structure FileChunkHeader where
  transferId : ℕ
  offset : ℕ
deriving DecidableEq, Repr

/-- Flow-control acknowledgement, letting the sender bound in-flight data. -/
structure FileAck where
  transferId : ℕ
  received : ℕ
  window : ℕ
deriving DecidableEq, Repr

open Bytes

/-- Serialized size of `FileChunkHeader`. -/
def fileChunkHeaderLen : ℕ := 16

namespace FileChunkHeader

/-- Serialize into the fixed layout: `transfer_id(8) offset(8)`. -/
def toBytes (h : FileChunkHeader) : List UInt8 :=
  toLeBytes 8 h.transferId ++ toLeBytes 8 h.offset

/-- Parse the header and return it with the chunk data that follows. -/
def split (payload : List UInt8) : Except ProtoError (FileChunkHeader × List UInt8) := do
  let (transferId, cursor) ← readInt 8 payload
  let (offset, cursor) ← readInt 8 cursor
  return (⟨transferId, offset⟩, cursor)

end FileChunkHeader

namespace FileAck

/-- Serialized size of a `FileAck`. -/
def len : ℕ := 20

/-- Serialize into the fixed layout. -/
def toBytes (a : FileAck) : List UInt8 :=
  toLeBytes 8 a.transferId ++ (toLeBytes 8 a.received ++ toLeBytes 4 a.window)

/-- Parse from a payload. -/
def decode (payload : List UInt8) : Except ProtoError FileAck := do
  let (transferId, cursor) ← readInt 8 payload
  let (received, cursor) ← readInt 8 cursor
  let (window, _) ← readInt 4 cursor
  if window = 0 then throw (.invalidValue "window" "0")
  return ⟨transferId, received, window⟩

end FileAck

/-- Reject names that would let a sender escape the download directory. -/
def FileOffer.hasSafeName (offer : FileOffer) : Bool :=
  let n := offer.name
  !n.isEmpty
    && n.len ≤ 255
    && n ≠ ['.']
    && n ≠ ['.', '.']
    && !n.contains '/'
    && !n.contains '\\'
    && !n.contains '\x00'
    && n.head? ≠ some '.'
    && !(n.len ≥ 2 && n.bytes[1]? = some 0x3a)

/-- A name that is one ordinary path component under either system's rules. -/
structure Plain (n : Text) : Prop where
  nonempty : n ≠ []
  notDots : n ≠ ['.'] ∧ n ≠ ['.', '.']
  noSlash : '/' ∉ n
  noBackslash : '\\' ∉ n
  noNul : '\x00' ∉ n
  noDrive : ∀ c rest, n = c :: ':' :: rest → ¬ c.isAlpha

theorem Text.bytes_drive {c : Char} (hc : c.isAlpha) (rest : Text) :
    Text.bytes (c :: ':' :: rest) = String.utf8EncodeChar c ++ 0x3a :: Text.bytes rest ∧
      (String.utf8EncodeChar c).length = 1 := by
  have hsize : c.utf8Size = 1 := by
    have hval : c.val ≤ 0x7f := by
      simp only [Char.isAlpha, Char.isUpper, Char.isLower, ge_iff_le, Bool.or_eq_true,
        Bool.and_eq_true, decide_eq_true_eq] at hc
      rcases hc with hc | hc
      · exact UInt32.le_trans hc.2 (by decide)
      · exact UInt32.le_trans hc.2 (by decide)
    simp [Char.utf8Size, hval]
  refine ⟨?_, ?_⟩
  · rw [Text.bytes, List.flatMap_cons, List.flatMap_cons]
    rfl
  · rw [String.length_utf8EncodeChar, hsize]

/-- **A safe name is a plain name.** -/
theorem plain_of_hasSafeName {offer : FileOffer} (h : offer.hasSafeName = true) :
    Plain offer.name := by
  simp only [FileOffer.hasSafeName, Bool.and_eq_true, Bool.not_eq_true', decide_eq_true_eq,
    List.isEmpty_eq_false_iff, Bool.and_eq_false_imp, decide_eq_false_iff_not,
    List.contains_eq_mem, ne_eq] at h
  obtain ⟨⟨⟨⟨⟨⟨⟨⟨hne, -⟩, hdot⟩, hdots⟩, hslash⟩, hback⟩, hnul⟩, -⟩, hcolon⟩ := h
  refine ⟨hne, ⟨hdot, hdots⟩, hslash, hback, hnul, ?_⟩
  intro c rest hn hc
  obtain ⟨hbytes, hlen⟩ := Text.bytes_drive hc rest
  refine hcolon ?_ ?_
  · rw [hn]
    simp only [Text.len, List.map_cons, List.sum_cons]
    have h1 := Char.utf8Size_pos c
    have h2 := Char.utf8Size_pos ':'
    omega
  · rw [hn, hbytes, List.getElem?_append_right (by omega), hlen]
    rfl

end NebulaDesk
