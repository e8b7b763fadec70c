/-
Numerals in a base, as they are written and scanned.

`Nat.toDigits` writes a number.  `scan` takes the longest run of digits off the front of a text,
and gives the digits of a written number back (`scan_toDigits`).
-/
import Mathlib

namespace Numeral

/-- The value of a digit in base `b`, a letter standing for ten and above in either case. -/
def toDigit (b : ℕ) (c : Char) : Option ℕ :=
  let d :=
    if c.isDigit then c.toNat - 48
    else if c.isLower then c.toNat - 87
    else if c.isUpper then c.toNat - 55
    else b
  if d < b then some d else none

/-- The digits at the front, and what follows them. -/
def scan (b : ℕ) : List Char → List ℕ × List Char
  | [] => ([], [])
  | c :: s =>
    match toDigit b c with
    | some d => (d :: (scan b s).1, (scan b s).2)
    | none => ([], c :: s)

/-- The text does not go on with a digit. -/
def Stops (b : ℕ) (s : List Char) : Prop := ∀ c ∈ s.head?, toDigit b c = none

theorem stops_nil (b : ℕ) : Stops b [] := by
  intro c hc
  cases hc

theorem stops_cons {b : ℕ} {c : Char} (h : toDigit b c = none) (s : List Char) :
    Stops b (c :: s) := by
  intro c' hc'
  cases hc'
  exact h

theorem scan_of_stops {b : ℕ} {s : List Char} (h : Stops b s) : scan b s = ([], s) := by
  cases s with
  | nil => rfl
  | cons c s => rw [scan, h c rfl]

/-- The digits of a number, the most significant first. -/
def digits (b n : ℕ) : List ℕ := if n = 0 then [0] else (Nat.digits b n).reverse

/-- The number that digits stand for. -/
def value (b : ℕ) (ds : List ℕ) : ℕ := Nat.ofDigits b ds.reverse

variable {b : ℕ}

theorem digits_of_lt {n : ℕ} (h : n < b) : digits b n = [n] := by
  unfold digits
  split
  · next h0 => rw [h0]
  · next h0 => rw [Nat.digits_of_lt b n h0 h]; rfl

theorem digits_of_le (hb : 1 < b) {n : ℕ} (h : b ≤ n) :
    digits b n = digits b (n / b) ++ [n % b] := by
  have hn : n ≠ 0 := by omega
  have hq : n / b ≠ 0 := Nat.div_ne_zero_iff.mpr ⟨by omega, h⟩
  rw [digits, digits, if_neg hn, if_neg hq, Nat.digits_def' hb (by omega), List.reverse_cons]

theorem toDigits_eq_map (hb : 1 < b) (n : ℕ) :
    Nat.toDigits b n = (digits b n).map Nat.digitChar := by
  induction n using Nat.strong_induction_on with
  | _ n ih =>
    rw [Nat.toDigits_eq_if hb]
    split
    · next h => rw [digits_of_lt h]; rfl
    · next h =>
      rw [digits_of_le hb (by omega), List.map_append, ih _ (Nat.div_lt_self (by omega) hb)]
      rfl

theorem value_digits (b n : ℕ) : value b (digits b n) = n := by
  unfold value digits
  split
  · next h => rw [h]; rfl
  · rw [List.reverse_reverse, Nat.ofDigits_digits]

theorem digits_ne_nil (b n : ℕ) : digits b n ≠ [] := by
  unfold digits
  split
  · simp
  · next h => simpa using Nat.digits_ne_nil_iff_ne_zero.mpr h

theorem digits_lt (hb : 1 < b) (n : ℕ) : ∀ d ∈ digits b n, d < b := by
  intro d hd
  unfold digits at hd
  split at hd
  · rw [List.mem_singleton.mp hd]
    omega
  · exact Nat.digits_lt_base hb (List.mem_reverse.mp hd)

theorem digits_of_head_zero {n : ℕ} (h : (digits b n).head? = some 0) : (digits b n).length = 1 := by
  unfold digits at h ⊢
  split at h
  · next h0 => rw [if_pos h0]; rfl
  · next h0 =>
    exfalso
    have hne : Nat.digits b n ≠ [] := Nat.digits_ne_nil_iff_ne_zero.mpr h0
    rw [List.head?_reverse, List.getLast?_eq_some_getLast hne] at h
    exact Nat.getLast_digit_ne_zero b h0 (Option.some.inj h)

theorem length_digits_le (hb : 1 < b) {n e : ℕ} (he : 0 < e) (h : n < b ^ e) :
    (digits b n).length ≤ e := by
  unfold digits
  split
  · exact he
  · rw [List.length_reverse]
    exact (Nat.digits_length_le_iff hb n).mpr h

/-! ### Scanning what was written -/

theorem toDigit_digitChar {d : ℕ} (hb : b ≤ 16) (hd : d < b) : toDigit b d.digitChar = some d := by
  have hd' : d < 16 := by omega
  interval_cases d <;> simp [toDigit, Nat.digitChar, Char.isDigit, Char.isLower] <;> omega

theorem scan_map_digitChar (hb : b ≤ 16) {ds : List ℕ} (hds : ∀ d ∈ ds, d < b) {s : List Char}
    (hs : Stops b s) : scan b (ds.map Nat.digitChar ++ s) = (ds, s) := by
  induction ds with
  | nil => exact scan_of_stops hs
  | cons d ds ih =>
    have htail := ih fun d' hd' => hds d' (List.mem_cons_of_mem _ hd')
    rw [List.map_cons, List.cons_append, scan, toDigit_digitChar hb (hds d List.mem_cons_self),
      htail]

theorem scan_toDigits (hb : 1 < b) (hb' : b ≤ 16) (n : ℕ) {s : List Char} (hs : Stops b s) :
    scan b (Nat.toDigits b n ++ s) = (digits b n, s) := by
  rw [toDigits_eq_map hb]
  exact scan_map_digitChar hb' (digits_lt hb n) hs

end Numeral
