/-
IEEE single-precision bit patterns and their comparisons.

Only comparison is defined, so a pattern is its bits.  `key` orders the
patterns that are not NaN the way the numbers they denote are ordered, with the
two zeros equal.
-/
import Mathlib

/-- A single-precision floating-point value, as its bit pattern. -/
structure F32 where
  bits : BitVec 32
deriving DecidableEq, Repr

namespace F32

/-- The pattern without its sign bit. -/
def magnitude (x : F32) : ℕ := x.bits.toNat % 2 ^ 31

def isNan (x : F32) : Bool := x.magnitude > 0x7f800000

def isFinite (x : F32) : Bool := x.magnitude < 0x7f800000

/-- Position of a number in the order of the floating-point numbers. -/
def key (x : F32) : ℤ := if x.bits.toNat < 2 ^ 31 then x.magnitude else -x.magnitude

/-- The comparison `x <= y`; false when either is NaN. -/
def le (x y : F32) : Bool := !x.isNan && !y.isNan && x.key ≤ y.key

/-- The comparison `x < y`; false when either is NaN. -/
def lt (x y : F32) : Bool := !x.isNan && !y.isNan && x.key < y.key

/-- The comparison `x == y`; false when either is NaN, true of the two zeros. -/
def feq (x y : F32) : Bool := !x.isNan && !y.isNan && x.key = y.key

theorem bits_of_le {a x : F32} (ha : 0 < a.key) (h : le a x = true) :
    x.key = x.bits.toNat ∧ x.isNan = false := by
  simp only [le, Bool.and_eq_true, Bool.not_eq_true', decide_eq_true_eq] at h
  obtain ⟨⟨-, hx⟩, hle⟩ := h
  refine ⟨?_, hx⟩
  have hpos : 0 < x.key := lt_of_lt_of_le ha hle
  unfold key magnitude at *
  split
  · rw [Nat.mod_eq_of_lt (by assumption)]
  · rw [if_neg (by assumption)] at hpos
    omega

theorem feq_iff_of_le {a x y : F32} (ha : 0 < a.key) (hx : le a x = true)
    (hy : le a y = true) : feq x y = true ↔ x = y := by
  obtain ⟨kx, nx⟩ := bits_of_le ha hx
  obtain ⟨ky, ny⟩ := bits_of_le ha hy
  simp only [feq, nx, ny, kx, ky, Bool.not_false, Bool.true_and, decide_eq_true_eq]
  constructor
  · intro h
    cases x; cases y
    congr
    exact BitVec.eq_of_toNat_eq (by exact_mod_cast h)
  · rintro rfl
    rfl

end F32
