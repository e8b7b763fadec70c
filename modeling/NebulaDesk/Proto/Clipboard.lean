/-
Clipboard messages (`ndp-proto/src/transfer.rs`).

An offer names what one side has, a request asks for one format of it, and the
contents travel behind a 12-byte binary header.  `ClipboardDataHeader.split`
undoes `ClipboardDataHeader.payload` (`split_payload`).
-/
import NebulaDesk.Proto.Header

namespace NebulaDesk

open Bytes

inductive ClipboardFormat
  | text
  | html
  | png
  | fileList
deriving DecidableEq, Repr

namespace ClipboardFormat

/-- Wire discriminant. -/
def toU8 : ClipboardFormat → UInt8
  | text => 1
  | html => 2
  | png => 3
  | fileList => 4

/-- Decode a wire discriminant. -/
def fromU8 (v : UInt8) : Except ProtoError ClipboardFormat :=
  match v.toNat with
  | 1 => .ok text
  | 2 => .ok html
  | 3 => .ok png
  | 4 => .ok fileList
  | other => .error (.invalidValue "clipboard format" (toString other))

theorem fromU8_toU8 (f : ClipboardFormat) : fromU8 f.toU8 = .ok f := by cases f <;> rfl

end ClipboardFormat

/-- Announcement that the sender's clipboard changed. -/
structure ClipboardOffer where
  offerId : ℕ
  formats : List ClipboardFormat
  sizeHint : ℕ
deriving DecidableEq, Repr

structure ClipboardRequest where
  offerId : ℕ
  format : ClipboardFormat
deriving DecidableEq, Repr

def clipboardDataHeaderLen : ℕ := 12

structure ClipboardDataHeader where
  offerId : ℕ
  format : ClipboardFormat
deriving DecidableEq, Repr

namespace ClipboardDataHeader

/-- Serialize into the fixed layout: `offer_id(8) format(1) reserved(3)`. -/
def toBytes (h : ClipboardDataHeader) : List UInt8 :=
  toLeBytes 8 h.offerId ++ (toLeBytes 1 h.format.toU8.toNat ++ toLeBytes 3 0)

/-- Parse the header and return it with the contents that follow. -/
def split (payload : List UInt8) : Except ProtoError (ClipboardDataHeader × List UInt8) := do
  let (offerId, cursor) ← readInt 8 payload
  let (formatByte, cursor) ← readInt 1 cursor
  let format ← ClipboardFormat.fromU8 (UInt8.ofNat formatByte)
  -- Three reserved bytes, read so the contents start where they should.
  let (_, cursor) ← readInt 1 cursor
  let (_, cursor) ← readInt 1 cursor
  let (_, cursor) ← readInt 1 cursor
  return (⟨offerId, format⟩, cursor)

/-- Build a complete payload from the header and the contents. -/
def payload (h : ClipboardDataHeader) (contents : List UInt8) : List UInt8 :=
  h.toBytes ++ contents

@[simp] theorem length_toBytes (h : ClipboardDataHeader) :
    h.toBytes.length = clipboardDataHeaderLen := by
  simp [toBytes, clipboardDataHeaderLen]

@[simp] theorem length_payload (h : ClipboardDataHeader) (contents : List UInt8) :
    (h.payload contents).length = clipboardDataHeaderLen + contents.length := by
  simp [payload]

/-- **Clipboard contents arrive under the header they were sent with.** -/
theorem split_payload {h : ClipboardDataHeader} (hid : h.offerId < 2 ^ 64)
    (contents : List UInt8) : split (h.payload contents) = .ok (h, contents) := by
  have hzero : toLeBytes 3 0 = toLeBytes 1 0 ++ (toLeBytes 1 0 ++ toLeBytes 1 0) := rfl
  have h1 := readInt_append (n := 8) hid
  have h2 := readInt_append (n := 1) h.format.toU8.toNat_lt
  have h3 := readInt_append (n := 1) (v := 0) (by decide)
  simp only [split, payload, toBytes, hzero, List.append_assoc, h1, h2, h3, bind, Except.bind,
    UInt8.ofNat_toNat, ClipboardFormat.fromU8_toU8, pure, Except.pure]

end ClipboardDataHeader

end NebulaDesk
