/-
Replay protection (`ndp-crypto/src/replay.rs`).

`ReplayWindow` is a sliding bitmap of accepted counters and `SeqExpander`
recovers the 64-bit counter from its low 32 bits.  Both are described by the
set `S` of counters accepted so far:

* `ReplayWindow.Holds` — the window represents `S`;
* `ReplayWindow.wouldAccept_iff` — a counter is admitted iff it is newer than
  all of `S`, or new and less than the width behind the newest;
* `SeqExpander.expand_eq` — the low half of a counter less than `2 ^ 31` away
  from the newest one expands to that counter, across every wrap.
-/
import NebulaDesk.Lib.Bitmap

namespace NebulaDesk

open Bitmap

/-- A sliding bitmap of recently accepted sequence numbers. -/
structure ReplayWindow where
  highest : ℕ
  bitmap : BitVec 64
  started : Bool
  width : ℕ
deriving DecidableEq, Repr

namespace ReplayWindow

def defaultWidth : ℕ := 64

/-- A window of the given width, capped at 64. -/
def withWidth (width : ℕ) : ReplayWindow := ⟨0, 0, false, min width 64⟩

/-- A window that tolerates reordering up to `defaultWidth`. -/
def new : ReplayWindow := withWidth defaultWidth

/-- A window that requires strictly increasing sequences. -/
def strict : ReplayWindow := withWidth 0

/-- Test whether `seq` would be accepted, without recording it. -/
def wouldAccept (w : ReplayWindow) (seq : ℕ) : Bool :=
  if !w.started then true
  else if seq > w.highest then true
  else
    let age := w.highest - seq
    if age ≥ max w.width 1 then false
    else w.bitmap &&& (1#64 <<< age) == 0

/-- Accept `seq` and record it; `false` if it is a replay. -/
def accept (w : ReplayWindow) (seq : ℕ) : Bool × ReplayWindow :=
  if !w.started then
    (true, { w with started := true, highest := seq, bitmap := 1 })
  else if seq > w.highest then
    let shift := seq - w.highest
    let bitmap := if shift ≥ 64 then 0 else w.bitmap <<< shift
    (true, { w with bitmap := bitmap ||| 1, highest := seq })
  else if !w.wouldAccept seq then (false, w)
  else
    let age := w.highest - seq
    (true, { w with bitmap := w.bitmap ||| (1#64 <<< age) })

/-- The window represents the set `S` of accepted counters. -/
structure Holds (w : ReplayWindow) (S : Set ℕ) : Prop where
  started_iff : w.started = true ↔ S.Nonempty
  highest_mem : w.started = true → w.highest ∈ S
  le_highest : ∀ s ∈ S, s ≤ w.highest
  bits : w.started = true → Tracks w.bitmap w.highest S
  width_le : w.width ≤ 64

variable {w : ReplayWindow} {S : Set ℕ} {s : ℕ}

theorem holds_withWidth (n : ℕ) : (withWidth n).Holds ∅ where
  started_iff := by simp [withWidth]
  highest_mem := by simp [withWidth]
  le_highest := by simp
  bits := by simp [withWidth]
  width_le := by simp [withWidth]

/-- The counters a window of this width admits after `S`. -/
def Admits (width : ℕ) (S : Set ℕ) (s : ℕ) : Prop :=
  (∀ t ∈ S, t < s) ∨ (s ∉ S ∧ ∀ t ∈ S, t - s < max width 1)

theorem wouldAccept_iff (h : w.Holds S) : w.wouldAccept s = true ↔ Admits w.width S s := by
  unfold wouldAccept Admits
  by_cases hst : w.started = true
  · have hmem := h.highest_mem hst
    simp only [hst, Bool.not_true, Bool.false_eq_true, if_false]
    by_cases hgt : s > w.highest
    · rw [if_pos hgt]
      exact iff_of_true rfl (Or.inl fun t ht => lt_of_le_of_lt (h.le_highest t ht) hgt)
    · rw [if_neg hgt]
      have hnew : ¬ ∀ t ∈ S, t < s := fun hc => absurd (hc _ hmem) (by omega)
      by_cases hage : w.highest - s ≥ max w.width 1
      · rw [if_pos hage]
        refine iff_of_false (by simp) ?_
        rintro (hc | ⟨-, hc⟩)
        · exact hnew hc
        · exact absurd (hc _ hmem) (by omega)
      · rw [if_neg hage]
        have hw := h.width_le
        have htest := (h.bits hst).test (w.highest - s) (by omega) (by omega)
        have hback : w.highest - (w.highest - s) = s := by omega
        rw [hback] at htest
        rw [beq_iff_eq]
        refine htest.trans ⟨fun hs => Or.inr ⟨hs, fun t ht => ?_⟩, ?_⟩
        · have := h.le_highest t ht
          omega
        · rintro (hc | ⟨hc, -⟩)
          · exact absurd hc hnew
          · exact hc
  · have hemp : ¬ S.Nonempty := fun hc => hst (h.started_iff.mpr hc)
    rw [Set.not_nonempty_iff_eq_empty] at hemp
    simp [hst, hemp]

/-- `accept` answers what `wouldAccept` announced. -/
theorem accept_fst (w : ReplayWindow) (s : ℕ) : (w.accept s).1 = w.wouldAccept s := by
  unfold accept
  by_cases hst : w.started = true
  · simp only [hst, Bool.not_true, Bool.false_eq_true, if_false]
    by_cases hgt : s > w.highest
    · simp [wouldAccept, hst, hgt]
    · rw [if_neg hgt]
      cases hw : w.wouldAccept s <;> rfl
  · simp [wouldAccept, hst]

theorem accept_snd_of_refused (h : w.wouldAccept s = false) : (w.accept s).2 = w := by
  unfold accept
  by_cases hst : w.started = true
  · simp only [hst, Bool.not_true, Bool.false_eq_true, if_false]
    by_cases hgt : s > w.highest
    · exact absurd h (by simp [wouldAccept, hst, hgt])
    · rw [if_neg hgt, h]
      rfl
  · exact absurd h (by simp [wouldAccept, hst])

@[simp] theorem accept_width (w : ReplayWindow) (s : ℕ) : (w.accept s).2.width = w.width := by
  unfold accept
  by_cases hst : w.started = true
  · simp only [hst, Bool.not_true, Bool.false_eq_true, if_false]
    by_cases hgt : s > w.highest
    · rw [if_pos hgt]
    · rw [if_neg hgt]
      split <;> rfl
  · simp [hst]

theorem Holds.accept (h : w.Holds S) (ha : w.wouldAccept s = true) :
    (w.accept s).2.Holds (insert s S) := by
  unfold ReplayWindow.accept
  by_cases hst : w.started = true
  · simp only [hst, Bool.not_true, Bool.false_eq_true, if_false]
    by_cases hgt : s > w.highest
    · rw [if_pos hgt]
      exact
        { started_iff := by simp
          highest_mem := fun _ => Set.mem_insert s S
          le_highest := by
            rintro t (rfl | ht)
            · exact le_rfl
            · exact le_trans (h.le_highest t ht) (le_of_lt hgt)
          bits := fun _ => (h.bits hst).advance h.le_highest hgt
          width_le := h.width_le }
    · simp only [if_neg hgt, ha, Bool.not_true, Bool.false_eq_true, if_false]
      have hback : w.highest - (w.highest - s) = s := by omega
      have hmark := (h.bits hst).mark (w.highest - s) (by omega)
      rw [hback] at hmark
      exact
        { started_iff := by simp
          highest_mem := fun _ => Set.mem_insert_of_mem s (h.highest_mem hst)
          le_highest := by
            rintro t (rfl | ht)
            · exact not_lt.mp hgt
            · exact h.le_highest t ht
          bits := fun _ => hmark
          width_le := h.width_le }
  · have hemp : S = ∅ := by
      rw [← Set.not_nonempty_iff_eq_empty]
      exact fun hc => hst (h.started_iff.mpr hc)
    subst hemp
    simp only [hst, Bool.not_false, if_true]
    exact
      { started_iff := by simp
        highest_mem := fun _ => Set.mem_insert s ∅
        le_highest := by simp
        bits := fun _ => by
          rw [show (insert s ∅ : Set ℕ) = {s} from by simp]
          exact tracks_singleton s
        width_le := h.width_le }

theorem Holds.not_wouldAccept (h : w.Holds S) (hs : s ∈ S) : w.wouldAccept s = false := by
  rw [Bool.eq_false_iff]
  intro hc
  rcases (wouldAccept_iff h).mp hc with hlt | ⟨hnot, -⟩
  · exact absurd (hlt s hs) (lt_irrefl s)
  · exact hnot hs

end ReplayWindow

/-- Expands a 32-bit wire sequence into the full 64-bit counter. -/
structure SeqExpander where
  highest : ℕ
  started : Bool
deriving DecidableEq, Repr

namespace SeqExpander

/-- A fresh expander positioned before the first record. -/
def new : SeqExpander := ⟨0, false⟩

/-- The counter with roll-over count `roc` and low half `wire`, in 64 bits. -/
def candidate (wire : UInt32) (roc : ℕ) : ℕ := roc <<< 32 % 2 ^ 64 ||| wire.toNat

/-- Estimate the full sequence for a wire value, closest to the last one seen. -/
def expand (e : SeqExpander) (wire : UInt32) : ℕ :=
  if !e.started then wire.toNat
  else
    let roc := e.highest >>> 32
    let low := e.highest % 2 ^ 32
    let same := candidate wire roc
    let next := candidate wire ((roc + 1) % 2 ^ 64)
    let prev := if roc = 0 then same else candidate wire (roc - 1)
    let dist := fun v => Nat.dist v e.highest
    if low ≥ 0x80000000 ∧ wire.toNat < 0x80000000 ∧ dist next < dist same then next
    else if low < 0x80000000 ∧ wire.toNat ≥ 0x80000000 ∧ dist prev < dist same then prev
    else same

/-- Record an authenticated sequence so future estimates track it. -/
def commit (e : SeqExpander) (full : ℕ) : SeqExpander :=
  if !e.started ∨ full > e.highest then ⟨full, true⟩ else e

theorem candidate_eq (wire : UInt32) {roc : ℕ} (h : roc < 2 ^ 32) :
    candidate wire roc = roc * 2 ^ 32 + wire.toNat := by
  have hw : wire.toNat < 2 ^ 32 := wire.toNat_lt
  rw [candidate, Nat.shiftLeft_eq, Nat.mod_eq_of_lt (by omega), mul_comm,
    Nat.two_pow_add_eq_or_of_lt hw]

theorem toNat_ofNat_low (s : ℕ) : (UInt32.ofNat s).toNat = s % 2 ^ 32 := by
  simp [UInt32.toNat_ofNat']

/-- **Expansion is exact.**  A counter less than `2 ^ 31` away from the newest
authenticated one is recovered from its low half; before the first record every
counter below `2 ^ 32` is. -/
theorem expand_eq {e : SeqExpander} {s : ℕ} (hs : s < 2 ^ 64) (hH : e.highest < 2 ^ 64)
    (hfirst : e.started = false → s < 2 ^ 32)
    (hnear : e.started = true → s < e.highest + 2 ^ 31 ∧ e.highest < s + 2 ^ 31) :
    e.expand (UInt32.ofNat s) = s := by
  unfold expand
  by_cases hst : e.started = true
  · simp only [hst, Bool.not_true, Bool.false_eq_true, if_false]
    obtain ⟨hup, hdown⟩ := hnear hst
    have hwire := toNat_ofNat_low s
    have hroc : e.highest >>> 32 = e.highest / 2 ^ 32 := Nat.shiftRight_eq_div_pow _ _
    have hsplit : e.highest = e.highest / 2 ^ 32 * 2 ^ 32 + e.highest % 2 ^ 32 := by omega
    have hssplit : s = s / 2 ^ 32 * 2 ^ 32 + s % 2 ^ 32 := by omega
    have hrlt : e.highest / 2 ^ 32 < 2 ^ 32 := by omega
    have hsame := candidate_eq (UInt32.ofNat s) hrlt
    rw [hroc, hsame, hwire]
    generalize hR : e.highest / 2 ^ 32 = R at *
    generalize hL : e.highest % 2 ^ 32 = L at *
    generalize hQ : s / 2 ^ 32 = Q at *
    generalize hW : s % 2 ^ 32 = W at *
    have hLlt : L < 2 ^ 32 := by omega
    have hWlt : W < 2 ^ 32 := by omega
    -- The roll-over counts of `s` and of the newest counter differ by at most one.
    by_cases hQR : Q = R
    · have hno1 : ¬ (L ≥ 0x80000000 ∧ W < 0x80000000 ∧
          Nat.dist (candidate (UInt32.ofNat s) ((R + 1) % 2 ^ 64)) e.highest
            < Nat.dist (R * 2 ^ 32 + W) e.highest) := by
        rintro ⟨h1, h2, h3⟩
        by_cases hmax : R + 1 < 2 ^ 32
        · rw [Nat.mod_eq_of_lt (by omega), candidate_eq _ hmax, hwire] at h3
          simp only [Nat.dist] at h3
          omega
        · have hR1 : R + 1 = 2 ^ 32 := by omega
          have hz : candidate (UInt32.ofNat s) ((R + 1) % 2 ^ 64) = W := by
            have h0 : (2 ^ 32 % 2 ^ 64) <<< 32 % 2 ^ 64 = 0 := by decide
            rw [hR1, candidate, hwire, h0, Nat.zero_or]
          rw [hz] at h3
          simp only [Nat.dist] at h3
          omega
      have hno2 : ¬ (L < 0x80000000 ∧ W ≥ 0x80000000 ∧
          Nat.dist (if R = 0 then R * 2 ^ 32 + W else candidate (UInt32.ofNat s) (R - 1)) e.highest
            < Nat.dist (R * 2 ^ 32 + W) e.highest) := by
        rintro ⟨h1, h2, h3⟩
        by_cases hR0 : R = 0
        · rw [if_pos hR0] at h3
          omega
        · rw [if_neg hR0, candidate_eq _ (by omega), hwire] at h3
          simp only [Nat.dist] at h3
          omega
      rw [if_neg hno1, if_neg hno2]
      omega
    · by_cases hQ1 : Q = R + 1
      · have hmax : R + 1 < 2 ^ 32 := by omega
        rw [Nat.mod_eq_of_lt (by omega), candidate_eq _ hmax, hwire]
        rw [if_pos]
        · omega
        · simp only [Nat.dist]
          omega
      · have hQ2 : Q + 1 = R := by omega
        have hno1 : ¬ (L ≥ 0x80000000 ∧ W < 0x80000000 ∧
            Nat.dist (candidate (UInt32.ofNat s) ((R + 1) % 2 ^ 64)) e.highest
              < Nat.dist (R * 2 ^ 32 + W) e.highest) := by
          rintro ⟨h1, h2, -⟩
          omega
        rw [if_neg hno1, if_neg (by omega : ¬ R = 0), candidate_eq _ (by omega), hwire, if_pos]
        · omega
        · simp only [Nat.dist]
          omega
  · have hf : e.started = false := by simpa using hst
    have := hfirst hf
    simp only [hf, Bool.not_false, if_true]
    rw [toNat_ofNat_low, Nat.mod_eq_of_lt this]

/-- The expander has seen exactly the set `S`: it sits at its largest member. -/
structure Holds (e : SeqExpander) (S : Set ℕ) : Prop where
  started_iff : e.started = true ↔ S.Nonempty
  highest_mem : e.started = true → e.highest ∈ S
  le_highest : ∀ s ∈ S, s ≤ e.highest

theorem holds_new : new.Holds ∅ where
  started_iff := by simp [new]
  highest_mem := by simp [new]
  le_highest := by simp

theorem Holds.commit {e : SeqExpander} {S : Set ℕ} (h : e.Holds S) (s : ℕ) :
    (e.commit s).Holds (insert s S) := by
  unfold SeqExpander.commit
  by_cases hc : !e.started ∨ s > e.highest
  · rw [if_pos hc]
    refine ⟨by simp, fun _ => Set.mem_insert s S, ?_⟩
    rintro t (rfl | ht)
    · exact le_rfl
    · rcases hc with hns | hgt
      · exact absurd (h.started_iff.mpr ⟨t, ht⟩) (by simpa using hns)
      · exact le_trans (h.le_highest t ht) (le_of_lt hgt)
  · rw [if_neg hc]
    push Not at hc
    obtain ⟨hst, hle⟩ := hc
    have hst' : e.started = true := by simpa using hst
    refine ⟨by simp [hst'], fun _ => Set.mem_insert_of_mem s (h.highest_mem hst'), ?_⟩
    rintro t (rfl | ht)
    · exact hle
    · exact h.le_highest t ht

end SeqExpander

end NebulaDesk
