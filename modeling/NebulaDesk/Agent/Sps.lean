/-
Sequence parameter sets, as H.264 spells them (7.3.2.1.1), for progressive pictures of 8-bit
4:2:0 samples.
-/
import NebulaDesk.Agent.Bitstream

namespace NebulaDesk

open BitString

namespace Sps

/-- `delta_scale`, for as many coefficients as a list has. -/
def Deltas : Type := { deltas : ℕ → ℤ // ∀ j, -128 ≤ deltas j ∧ deltas j ≤ 127 }

/-- `offset_for_ref_frame` and the like. -/
def Offset : Type := { offset : ℤ // -2 ^ 31 < offset ∧ offset < 2 ^ 31 }

/-- `scaling_list`: a next scale of zero stands for the rest of the list. -/
def scalingBits : ℕ → ℤ → ℤ → (ℕ → ℤ) → List Bool
  | 0, _, _, _ => []
  | count + 1, last, next, deltas =>
    if next ≠ 0 then
      let next := (last + deltas 0 + 256) % 256
      se (deltas 0) ++
        scalingBits count (if next = 0 then last else next) next fun j => deltas (j + 1)
    else scalingBits count last next fun j => deltas (j + 1)

/-- The samples of the high profiles. -/
structure Format where
  bypass : Bool
  /-- A scaling matrix, with some of its lists. -/
  scaling : Option (ℕ → Option Deltas)

def listBits (lists : ℕ → Option Deltas) (index : ℕ) : List Bool :=
  match lists index with
  | none => [false]
  | some deltas => true :: scalingBits (if index < 6 then 16 else 64) 8 8 deltas.1

def Format.bits (f : Format) : List Bool :=
  ue 1 ++ (ue 0 ++ (ue 0 ++ ([f.bypass] ++
    match f.scaling with
    | none => [false]
    | some lists => true :: (List.range 8).flatMap (listBits lists))))

/-- `pic_order_cnt_type` and what goes with it. -/
inductive PictureOrder
  | lsb (log2 : { n : ℕ // n ≤ 12 })
  | cycle (alwaysZero : Bool) (nonRef topToBottom : Offset)
      (refs : { refs : List Offset // refs.length ≤ 255 })
  | output

def PictureOrder.bits : PictureOrder → List Bool
  | lsb log2 => ue 0 ++ ue log2.1
  | cycle alwaysZero nonRef topToBottom refs =>
    ue 1 ++ ([alwaysZero] ++ (se nonRef.1 ++ (se topToBottom.1 ++
      (ue refs.1.length ++ refs.1.flatMap fun offset => se offset.1))))
  | output => ue 2

end Sps

/-- A sequence parameter set. -/
structure Sps where
  header : UInt8
  header_kind : header &&& 31 = 7
  profile : UInt8
  constraints : UInt8
  level : UInt8
  id : { n : ℕ // n ≤ 31 }
  format : Sps.Format
  frameNum : { n : ℕ // n ≤ 12 }
  order : Sps.PictureOrder
  refFrames : { n : ℕ // n ≤ 16 }
  gaps : Bool
  /-- In macroblocks. -/
  width : { n : ℕ // 1 ≤ n ∧ n ≤ 512 }
  height : { n : ℕ // 1 ≤ n ∧ n ≤ 512 }
  direct : Bool
  /-- At the right and at the bottom, in units of two samples. -/
  crop : Option { crop : ℕ × ℕ // 2 * crop.1 < 16 * width.1 ∧ 2 * crop.2 < 16 * height.1 }
  /-- `vui_parameters_present_flag` and the parameters. -/
  vui : List Bool

namespace Sps

def cropBits (s : Sps) : List Bool :=
  match s.crop with
  | none => [false]
  | some crop => true :: (ue 0 ++ (ue crop.1.1 ++ (ue 0 ++ ue crop.1.2)))

/-- What is read of the parameters. -/
def bits (s : Sps) : List Bool :=
  ofByte s.profile ++ ((ofByte s.constraints ++ ofByte s.level) ++ (ue s.id.1 ++
    ((if s.profile.toNat ∈ Bitstream.Bits.highProfiles then s.format.bits else []) ++
      (ue s.frameNum.1 ++ (s.order.bits ++ (ue s.refFrames.1 ++ ([s.gaps] ++
        (ue (s.width.1 - 1) ++ (ue (s.height.1 - 1) ++ ([true] ++ ([s.direct] ++
          s.cropBits)))))))))))

/-- With the stop bit and the zeros that fill the last byte. -/
def rbsp (s : Sps) : List Bool :=
  let all := s.bits ++ s.vui ++ [true]
  all ++ List.replicate ((8 - all.length % 8) % 8) false

/-- Emulation prevention: behind two zeros no byte is less than four. -/
def escape : ℕ → List UInt8 → List UInt8
  | _, [] => []
  | zeros, byte :: data =>
    if zeros = 2 ∧ byte ≤ 3 then 3 :: byte :: escape (if byte = 0 then 1 else 0) data
    else byte :: escape (if byte = 0 then zeros + 1 else 0) data

def encode (s : Sps) : List UInt8 := s.header :: escape 0 (pack s.rbsp)

def size (s : Sps) : ℕ × ℕ :=
  match s.crop with
  | none => (16 * s.width.1, 16 * s.height.1)
  | some crop => (16 * s.width.1 - 2 * crop.1.1, 16 * s.height.1 - 2 * crop.1.2)

/-- All offsets are less than `2 ^ 30` in magnitude. -/
def PictureOrder.Small : PictureOrder → Prop
  | cycle _ nonRef topToBottom refs =>
    nonRef.1.natAbs < 2 ^ 30 ∧ topToBottom.1.natAbs < 2 ^ 30 ∧
      ∀ offset ∈ refs.1, offset.1.natAbs < 2 ^ 30
  | _ => True

instance : DecidablePred PictureOrder.Small
  | .cycle _ nonRef topToBottom refs =>
    inferInstanceAs (Decidable (nonRef.1.natAbs < 2 ^ 30 ∧ topToBottom.1.natAbs < 2 ^ 30 ∧
      ∀ offset ∈ refs.1, offset.1.natAbs < 2 ^ 30))
  | .lsb _ => isTrue trivial
  | .output => isTrue trivial

end Sps

end NebulaDesk
