/-
H.264 between the native plugins of Linux and the wire
(`nebula-agent/src/platform/linux/h264.rs`).
-/
import NebulaDesk.Agent.Bitstream

namespace NebulaDesk

namespace H264

open StartCodes (slice trimEnd next)
open Bitstream (Fault fromBeBytes)

/-! ### AVCC to Annex B -/

/-- The loop of `avcc_units`. -/
def avccLoop (bytes : List UInt8) : Except Fault (List (List UInt8)) :=
  match bytes with
  | [] => .ok []
  | a :: b :: c :: d :: bytes =>
    let size := fromBeBytes [a, b, c, d]
    if ¬ (0 < size ∧ size ≤ bytes.length) then .error (.refused "invalid AVCC NAL length")
    else if bytes.headD 0 &&& 0x80 ≠ 0 then .error (.refused "invalid H.264 NAL header")
    else do
      let units ← avccLoop (bytes.drop size)
      return bytes.take size :: units
  | _ => .error (.refused "truncated AVCC length")
termination_by bytes.length
decreasing_by simp only [List.length_drop, List.length_cons]; omega

def avccUnits (bytes : List UInt8) : Except Fault (List (List UInt8)) :=
  if bytes = [] then .error (.refused "empty H.264 access unit") else avccLoop bytes

/-- Convert wire access units without changing NAL order or parameter sets. -/
def annexB (bytes : List UInt8) : Except Fault (List UInt8) := do
  let units ← avccUnits bytes
  return units.flatMap ([0, 0, 0, 1] ++ ·)

/-! ### Annex B to AVCC -/

/-- Parameter-set cache ensures every IDR is independently usable by VideoToolbox. -/
structure AccessUnits where
  sps : List UInt8 := []
  pps : List UInt8 := []
deriving DecidableEq

/-- Where `0 0 1` stands among all windows of three bytes. -/
def starts : List UInt8 → ℕ → List ℕ
  | a :: b :: c :: rest, index =>
    if [a, b, c] = [0, 0, 1] then index :: starts (b :: c :: rest) (index + 1)
    else starts (b :: c :: rest) (index + 1)
  | _, _ => []

/-- `append`. -/
def append (out unit : List UInt8) : Except Fault (List UInt8) :=
  if unit.length < 2 ^ 32 then .ok (out ++ Bitstream.toBeBytes unit.length ++ unit)
  else .error (.refused "out of range integral type conversion attempted")

def appendAll : List (List UInt8) → List UInt8 → Except Fault (List UInt8)
  | [], out => .ok out
  | unit :: units, out => do
    let out ← append out unit
    appendAll units out

namespace AccessUnits

/-- The loop of `convert` over the units; the caches are written as it goes. -/
def convertLoop (data : List UInt8) :
    List ℕ → List (List UInt8) → Bool → Cmd AccessUnits Fault (List (List UInt8) × Bool)
  | [], units, idr => pure (units, idr)
  | start :: more, units, idr => fun cache =>
    let stop := trimEnd data (start + 3) (more.head?.getD data.length)
    let unit := slice data (start + 3) stop
    if unit = [] ∨ unit.headD 0 &&& 0x80 ≠ 0 then (.error (.refused "invalid Annex B NAL"), cache)
    else if unit.headD 0 &&& 0x1f = 7 then
      convertLoop data more units idr { cache with sps := unit }
    else if unit.headD 0 &&& 0x1f = 8 then
      convertLoop data more units idr { cache with pps := unit }
    else if unit.headD 0 &&& 0x1f = 5 then convertLoop data more (units ++ [unit]) true cache
    else convertLoop data more (units ++ [unit]) idr cache

/-- The beginning of the output of `convert`. -/
def header (cache : AccessUnits) (idr : Bool) : Except Fault (List UInt8) :=
  if idr then
    if cache.sps = [] ∨ cache.pps = [] then .error (.refused "IDR has no SPS/PPS")
    else do
      let out ← append [] cache.sps
      append out cache.pps
  else .ok []

/-- What `convert` gives for the units that are not parameter sets. -/
def emit (cache : AccessUnits) (units : List (List UInt8)) (idr : Bool) :
    Except Fault (Bool × List UInt8) := do
  let out ← cache.header idr
  let out ← appendAll units out
  return (idr, out)

/-- Convert a parser-aligned Annex B AU into the NDP wire format. -/
def convert (data : List UInt8) : Cmd AccessUnits Fault (Bool × List UInt8) :=
  match starts data 0 with
  | [] => Cmd.throw (.refused "native H.264 parser did not produce Annex B")
  | first :: more =>
    if (data.take first).all (· = 0) then do
      let (units, idr) ← convertLoop data (first :: more) [] false
      Cmd.get fun cache => cache.emit units idr
    else Cmd.throw (.refused "invalid Annex B prefix")

end AccessUnits

end H264

end NebulaDesk
