/-
H.264 between Media Foundation and the wire
(`nebula-agent/src/platform/windows/bitstream.rs`).

Media Foundation takes and gives Annex B, the wire has AVCC units behind four-byte lengths.
`u32` and `i32` arithmetic is checked: an overflow, or an index out of range, is a `panic`.
-/
import NebulaDesk.Lib.BitString
import NebulaDesk.Lib.Bytes
import NebulaDesk.Lib.StartCodes

namespace NebulaDesk

open StartCodes (slice trimEnd)

namespace Bitstream

inductive Fault
  /-- An error with its text. -/
  | refused (reason : String)
  | panic
deriving DecidableEq

/-- `u32::from_be_bytes`. -/
def fromBeBytes (bytes : List UInt8) : ℕ := Bytes.fromLeBytes bytes.reverse

/-- `u32::to_be_bytes`. -/
def toBeBytes (n : ℕ) : List UInt8 := (Bytes.toLeBytes 4 n).reverse

/-! ### AVCC to Annex B -/

/-- The loop of `annex_b`. -/
def annexBLoop (rest out : List UInt8) : Except Fault (List UInt8) :=
  match rest with
  | [] => .ok out
  | a :: b :: c :: d :: rest =>
    let length := fromBeBytes [a, b, c, d]
    if ¬ (0 < length ∧ length ≤ rest.length) then .error (.refused "invalid AVCC NAL length")
    else if rest.headD 0 &&& 0x80 ≠ 0 then .error (.refused "invalid H.264 forbidden bit")
    else annexBLoop (rest.drop length) (out ++ [0, 0, 0, 1] ++ rest.take length)
  | _ => .error (.refused "truncated AVCC NAL length")
termination_by rest.length
decreasing_by simp only [List.length_drop, List.length_cons]; omega

/-- Validate a four-byte-length AVCC frame and convert its NAL units to Annex B. -/
def annexB (avcc : List UInt8) : Except Fault (List UInt8) := do
  let out ← annexBLoop avcc []
  if out = [] then throw (.refused "empty H.264 frame")
  return out

/-! ### The units of Annex B -/

/-- The start codes in what is left at offset `i`: where each begins, and where its unit does.
The scan goes on behind a code. -/
def scan : List UInt8 → ℕ → List (ℕ × ℕ)
  | a :: b :: c :: d :: rest, i =>
    if [a, b, c, d] = [0, 0, 0, 1] then (i, i + 4) :: scan rest (i + 4)
    else if [a, b, c] = [0, 0, 1] then (i, i + 3) :: scan (d :: rest) (i + 3)
    else scan (b :: c :: d :: rest) (i + 1)
  | [a, b, c], i => if [a, b, c] = [0, 0, 1] then [(i, i + 3)] else []
  | _, _ => []

def unitsFrom (bytes : List UInt8) : List (ℕ × ℕ) → Except Fault (List (List UInt8))
  | [] => .ok []
  | (_, start) :: more => do
    let stop := trimEnd bytes start ((more.head?.map Prod.fst).getD bytes.length)
    if stop ≤ start then throw (.refused "empty Annex B NAL")
    let units ← unitsFrom bytes more
    return slice bytes start stop :: units

def units (bytes : List UInt8) : Except Fault (List (List UInt8)) :=
  match scan bytes 0 with
  | [] =>
    .error (.refused "Media Foundation returned H.264 without Annex B start codes")
  | (first, start) :: more =>
    if (bytes.take first).all (· = 0) then unitsFrom bytes ((first, start) :: more)
    else .error (.refused "invalid Annex B prefix")

/-- `unit[0] & 31`. -/
def kind (unit : List UInt8) : UInt8 := unit.headD 0 &&& 31

/-! ### Bits -/

/-- The loop of `unescape`; the zeros are counted in an `i32`. -/
def unescapeLoop : ℕ → List UInt8 → Except Fault (List UInt8)
  | _, [] => .ok []
  | zeros, byte :: data =>
    if zeros = 2 ∧ byte = 3 then unescapeLoop 0 data
    else if byte = 0 ∧ ¬ zeros + 1 < 2 ^ 31 then .error .panic
    else do
      let rbsp ← unescapeLoop (if byte = 0 then zeros + 1 else 0) data
      return byte :: rbsp

def unescape (data : List UInt8) : Except Fault (List UInt8) := unescapeLoop 0 data

structure Bits where
  data : List UInt8
  offset : ℕ

/-- What a method of `Bits` does. -/
abbrev Reading (α : Type) : Type := Cmd Bits Fault α

def refuse {α : Type} (reason : String) : Reading α := Cmd.throw (.refused reason)

/-- A `u32`. -/
def u32 (n : ℕ) : Reading ℕ := if n < 2 ^ 32 then pure n else Cmd.throw .panic

/-- An `i32`. -/
def i32 (n : ℤ) : Reading ℤ := if -2 ^ 31 ≤ n ∧ n < 2 ^ 31 then pure n else Cmd.throw .panic

/-- `as i32`. -/
def asI32 (n : ℕ) : ℤ := if n < 2 ^ 31 then n else n - 2 ^ 32

namespace Bits

def readLoop : ℕ → ℕ → Reading ℕ
  | 0, value => pure value
  | count + 1, value => fun bits =>
    match bits.data[bits.offset / 8]? with
    | none => (.error .panic, bits)
    | some byte =>
      readLoop count ((value * 2) % 2 ^ 32 + (byte.toNat.testBit (7 - bits.offset % 8)).toNat)
        { bits with offset := bits.offset + 1 }

def read (count : ℕ) : Reading ℕ := fun bits =>
  if bits.offset + count ≤ bits.data.length * 8 then readLoop count 0 bits
  else (.error (.refused "truncated H.264 SPS"), bits)

/-- The loop of `ue`, which goes round 31 times at most. -/
def leadingZeros : ℕ → ℕ → Reading ℕ
  | 0, _ => refuse "oversized H.264 Exp-Golomb value"
  | rounds + 1, leading => do
    if (← read 1) ≠ 0 then pure leading
    else if leading + 1 < 31 then leadingZeros rounds (leading + 1)
    else refuse "oversized H.264 Exp-Golomb value"

def ue : Reading ℕ := do
  let leading ← leadingZeros 31 0
  let top ← u32 (2 ^ leading)
  let low ← read leading
  u32 (top - 1 + low)

def se : Reading ℤ := do
  let value ← ue
  if value % 2 ≠ 0 then pure (asI32 ((value + 1) / 2))
  else i32 (-(asI32 value).tdiv 2)

end Bits

/-! ### Parameter sets -/

/-- Cached SPS/PPS used to make every encoded IDR independently decodable. -/
structure ParameterSets where
  sps : List UInt8 := []
  pps : List UInt8 := []
deriving DecidableEq

/-- `append`. -/
def append (out unit : List UInt8) : Except Fault (List UInt8) :=
  if unit.length < 2 ^ 32 then .ok (out ++ toBeBytes unit.length ++ unit)
  else .error (.refused "out of range integral type conversion attempted")

def checkSlice (unit : List UInt8) : Except Fault Unit := do
  let rbsp ← unescape ((unit.take 64).drop 1)
  let check : Reading Unit := do
    let _ ← Bits.ue
    let slice ← Bits.ue
    if ¬ (slice ≤ 9 ∧ slice % 5 ≠ 1) then
      refuse "hardware encoder produced a B slice despite zero-B-frame configuration"
  (check ⟨rbsp, 0⟩).1

def appendNals : List (List UInt8) → List UInt8 → Except Fault (List UInt8)
  | [], out => .ok out
  | unit :: nals, out => do
    if kind unit = 1 ∨ kind unit = 5 then checkSlice unit
    let out ← if kind unit = 7 ∨ kind unit = 8 then .ok out else append out unit
    appendNals nals out

namespace ParameterSets

def absorbUnit (sets : ParameterSets) (unit : List UInt8) : ParameterSets :=
  if kind unit = 7 then { sets with sps := unit }
  else if kind unit = 8 then { sets with pps := unit }
  else sets

/-- Cache parameter sets from an Annex B sequence header or encoded frame. -/
def absorb (bytes : List UInt8) : Cmd ParameterSets Fault Unit := fun sets =>
  match units bytes with
  | .error e => (.error e, sets)
  | .ok nals => (.ok (), nals.foldl absorbUnit sets)

/-- The beginning of the output of `frame`. -/
def header (sets : ParameterSets) (idr : Bool) : Except Fault (List UInt8) :=
  if idr then
    if sets.sps = [] ∨ sets.pps = [] then
      .error (.refused "hardware encoder emitted an IDR without SPS/PPS")
    else do
      let out ← append [] sets.sps
      append out sets.pps
  else .ok []

/-- What `frame` does after `absorb`. -/
def emit (sets : ParameterSets) (bytes : List UInt8) : Except Fault (Bool × List UInt8) := do
  let nals ← units bytes
  let idr := nals.any (kind · = 5)
  let out ← sets.header idr
  let out ← appendNals nals out
  return (idr, out)

/-- Keyframe status comes from an IDR NAL, not a driver's clean-point hint. -/
def frame (bytes : List UInt8) : Cmd ParameterSets Fault (Bool × List UInt8) := do
  absorb bytes
  Cmd.get fun sets => sets.emit bytes

end ParameterSets

/-! ### The geometry of a picture -/

namespace Bits

def scalingList : ℕ → ℤ → ℤ → Reading Unit
  | 0, _, _ => pure ()
  | count + 1, last, next => do
    let next ←
      if next ≠ 0 then do
        let delta ← se
        let sum ← i32 (last + delta)
        let sum ← i32 (sum + 256)
        pure (sum % 256)
      else pure next
    scalingList count (if next = 0 then last else next) next

def scalingLists : List ℕ → Reading Unit
  | [] => pure ()
  | index :: indices => do
    if (← read 1) ≠ 0 then scalingList (if index < 6 then 16 else 64) 8 8
    scalingLists indices

/-- The profiles whose SPS has the format of the samples and scaling lists. -/
def highProfiles : List ℕ := [100, 110, 122, 244, 44, 83, 86, 118, 128, 138, 139, 134, 135]

def highProfile : Reading Unit := do
  if (← ue) ≠ 1 then refuse "Windows decoder requires 4:2:0 H.264"
  let luma ← ue
  if luma ≠ 0 then refuse "Windows decoder requires 8-bit H.264"
  if (← ue) ≠ 0 then refuse "Windows decoder requires 8-bit H.264"
  let _ ← read 1
  if (← read 1) ≠ 0 then scalingLists (List.range 8)

def skipSe : ℕ → Reading Unit
  | 0 => pure ()
  | count + 1 => do
    let _ ← se
    skipSe count

def pictureOrder : Reading Unit := do
  match ← ue with
  | 0 =>
    let _ ← ue
  | 1 =>
    let _ ← read 1
    let _ ← se
    let _ ← se
    let count ← ue
    if ¬ count ≤ 255 then refuse "invalid SPS picture-order cycle"
    skipSe count
  | 2 => pure ()
  | _ => refuse "invalid SPS picture order"

def cropSide (side crop : ℕ) (reason : String) : Reading ℕ :=
  if 2 * crop < 2 ^ 32 then
    if 2 * crop ≤ side then pure (side - 2 * crop) else refuse reason
  else refuse "SPS crop overflow"

def crop (width height : ℕ) : Reading (ℕ × ℕ) := do
  if (← read 1) ≠ 0 then
    let left ← ue
    let right ← ue
    let top ← ue
    let bottom ← ue
    if ¬ (left = 0 ∧ top = 0) then refuse "nonzero H.264 crop origin is unsupported"
    let width ← cropSide width right "invalid horizontal SPS crop"
    let height ← cropSide height bottom "invalid vertical SPS crop"
    pure (width, height)
  else pure (width, height)

/-- What `dimensions` reads. -/
def geometry : Reading (ℕ × ℕ) := do
  let profile ← read 8
  let _ ← read 16
  let _ ← ue
  if profile ∈ highProfiles then highProfile
  let _ ← ue
  pictureOrder
  let _ ← ue
  let _ ← read 1
  let macroWidth ← ue
  let macroHeight ← ue
  if ¬ (macroWidth < 512 ∧ macroHeight < 512) then refuse "H.264 dimensions exceed 8192 pixels"
  if (← read 1) ≠ 1 then refuse "interlaced H.264 is not supported"
  let _ ← read 1
  let width ← u32 ((macroWidth + 1) * 16)
  let height ← u32 ((macroHeight + 1) * 16)
  let (width, height) ← crop width height
  if ¬ (width ≥ 2 ∧ height ≥ 2) then refuse "empty H.264 picture"
  pure (width, height)

end Bits

/-- Read just the progressive, 8-bit 4:2:0 geometry needed to configure MF. -/
def dimensions (sps : List UInt8) : Except Fault (ℕ × ℕ) := do
  if ¬ sps.head?.any (· &&& 31 = 7) then throw (.refused "missing H.264 SPS")
  let rbsp ← unescape (sps.drop 1)
  (Bits.geometry ⟨rbsp, 0⟩).1

end Bitstream

end NebulaDesk
