/-
Sliding bitmaps.

A bitmap of `w` bits below a moving top represents the recent part of a set of
numbers: bit `i` stands for the number `i` below the top.  `Tracks bits top S`
states that the bitmap and the set agree on that range, and the lemmas follow
the three things a window does with it: test one bit (`Tracks.test`), mark a
number that arrived late (`Tracks.mark`) and move the top up
(`Tracks.advance`).
-/
import Mathlib

namespace Bitmap

variable {w : ℕ} {bits : BitVec w} {top : ℕ} {S : Set ℕ}

/-- `bits` marks exactly the members of `S` that lie less than `w` below `top`. -/
def Tracks (bits : BitVec w) (top : ℕ) (S : Set ℕ) : Prop :=
  ∀ i < w, (bits.getLsbD i = true ↔ i ≤ top ∧ top - i ∈ S)

theorem getLsbD_one_shiftLeft (age i : ℕ) : ((1#w) <<< age).getLsbD i = true ↔ i < w ∧ i = age := by
  rw [BitVec.getLsbD_shiftLeft]
  simp only [BitVec.getLsbD_one, Bool.and_eq_true, Bool.not_eq_true', decide_eq_true_eq,
    decide_eq_false_iff_not]
  omega

/-- A bitmap with only its lowest bit set represents the set `{top}`. -/
theorem tracks_singleton (top : ℕ) : Tracks (1#w) top {top} := by
  intro i hi
  have h1 : (1#w).getLsbD i = true ↔ i < w ∧ i = 0 := by
    simpa using getLsbD_one_shiftLeft 0 i
  rw [h1, Set.mem_singleton_iff]
  omega

theorem Tracks.test (h : Tracks bits top S) (age : ℕ) (hw : age < w) (ht : age ≤ top) :
    bits &&& (1#w <<< age) = 0 ↔ top - age ∉ S := by
  have key : bits &&& (1#w <<< age) = 0 ↔ bits.getLsbD age = false := by
    constructor
    · intro hz
      have hbit : (bits &&& (1#w <<< age)).getLsbD age = false := by rw [hz]; simp
      have hone : ((1#w) <<< age).getLsbD age = true :=
        (getLsbD_one_shiftLeft age age).mpr ⟨hw, rfl⟩
      rw [BitVec.getLsbD_and, hone, Bool.and_true] at hbit
      exact hbit
    · intro hf
      refine BitVec.eq_of_getLsbD_eq fun i _ => ?_
      rw [BitVec.getLsbD_and]
      by_cases hi : i = age
      · subst hi; simp [hf]
      · have : ((1#w) <<< age).getLsbD i = false := by
          rw [Bool.eq_false_iff]
          exact fun hc => hi ((getLsbD_one_shiftLeft age i).mp hc).2
        simp [this]
  rw [key, ← Bool.not_eq_true, h age hw]
  tauto

/-- Marking a number less than `w` below the top adds it to the set. -/
theorem Tracks.mark (h : Tracks bits top S) (age : ℕ) (ht : age ≤ top) :
    Tracks (bits ||| (1#w <<< age)) top (insert (top - age) S) := by
  intro i hi
  rw [BitVec.getLsbD_or, Bool.or_eq_true, h i hi, getLsbD_one_shiftLeft, Set.mem_insert_iff]
  constructor
  · rintro (⟨hle, hmem⟩ | ⟨-, rfl⟩)
    · exact ⟨hle, Or.inr hmem⟩
    · exact ⟨ht, Or.inl rfl⟩
  · rintro ⟨hle, heq | hmem⟩
    · exact Or.inr ⟨hi, by omega⟩
    · exact Or.inl ⟨hle, hmem⟩

/-- Moving the top up to a new member `s` shifts the bitmap and marks `s`. -/
theorem Tracks.advance (h : Tracks bits top S) (hmax : ∀ t ∈ S, t ≤ top) {s : ℕ}
    (hs : top < s) :
    Tracks ((if s - top ≥ w then 0 else bits <<< (s - top)) ||| 1#w) s (insert s S) := by
  intro i hi
  have h1 : (1#w).getLsbD i = true ↔ i = 0 := by
    have := getLsbD_one_shiftLeft (w := w) 0 i
    simp only [BitVec.shiftLeft_zero] at this
    rw [this]
    exact ⟨fun hc => hc.2, fun hc => ⟨hi, hc⟩⟩
  rw [BitVec.getLsbD_or, Bool.or_eq_true, h1, Set.mem_insert_iff]
  have hshift : (if s - top ≥ w then 0 else bits <<< (s - top)).getLsbD i = true ↔
      s - top ≤ i ∧ i ≤ s ∧ s - i ∈ S := by
    by_cases hbig : s - top ≥ w
    · rw [if_pos hbig]
      simp only [BitVec.ofNat_eq_ofNat, BitVec.getLsbD_zero, Bool.false_eq_true, false_iff]
      omega
    · rw [if_neg hbig, BitVec.getLsbD_shiftLeft]
      simp only [hi, decide_true, Bool.true_and, Bool.and_eq_true, Bool.not_eq_true',
        decide_eq_false_iff_not, not_lt]
      constructor
      · rintro ⟨hle, hbit⟩
        obtain ⟨hbnd, hmem⟩ := (h (i - (s - top)) (by omega)).mp hbit
        have : top - (i - (s - top)) = s - i := by omega
        rw [this] at hmem
        exact ⟨hle, by omega, hmem⟩
      · rintro ⟨hle, his, hmem⟩
        refine ⟨hle, (h (i - (s - top)) (by omega)).mpr ⟨by omega, ?_⟩⟩
        have : top - (i - (s - top)) = s - i := by omega
        rwa [this]
  rw [hshift]
  constructor
  · rintro (⟨-, his, hmem⟩ | rfl)
    · exact ⟨his, Or.inr hmem⟩
    · exact ⟨Nat.zero_le s, Or.inl rfl⟩
  · rintro ⟨his, heq | hmem⟩
    · exact Or.inr (by omega)
    · have := hmax _ hmem
      exact Or.inl ⟨by omega, his, hmem⟩

end Bitmap
