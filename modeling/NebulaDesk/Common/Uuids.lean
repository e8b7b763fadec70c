/-
UUIDs and their texts (the `uuid` package, as the repository uses it).

A UUID is displayed as 32 hexadecimal digits in five groups; what else is read as one is left to
the reader.
-/
import NebulaDesk.Common.Claims
import NebulaDesk.Lib.Numeral

namespace NebulaDesk

abbrev Uuid := Fin (2 ^ 128)

/-- `Uuid::now_v7`: its version is 7. -/
structure UuidV7 where
  id : Uuid
  version : id.val / 16 ^ 19 % 16 = 7

theorem UuidV7.id_ne_zero (u : UuidV7) : u.id ≠ 0 := by
  intro h
  have hversion := u.version
  rw [h] at hversion
  exact absurd hversion (by decide)

/-- `Uuid::parse_str`, which reads the text of every UUID. -/
structure UuidReader where
  parse : Text → Option Uuid
  parse_uuid : ∀ id : Uuid, parse (uuid id.val) = some id

/-! ### A reader -/

/-- The 32 digits of a UUID, with hyphens anywhere between them. -/
def readUuid (text : Text) : Option Uuid := do
  let ds ← (text.filter (· ≠ '-')).mapM (Numeral.toDigit 16)
  if ds.length = 32 then
    if h : Numeral.value 16 ds < 2 ^ 128 then some ⟨Numeral.value 16 ds, h⟩ else none
  else none

theorem value_hexDigits (n id : ℕ) :
    Numeral.value 16 ((List.range n).map fun i => id / 16 ^ (n - 1 - i) % 16) = id % 16 ^ n := by
  induction n generalizing id with
  | zero => simp [Numeral.value, Nat.mod_one]
  | succ n ih =>
    -- the last digit, and the digits of the quotient before it
    have hinit : (List.range n).map (fun i => id / 16 ^ (n + 1 - 1 - i) % 16) =
        (List.range n).map fun i => id / 16 / 16 ^ (n - 1 - i) % 16 := by
      refine List.map_congr_left fun i hi => ?_
      have hi := List.mem_range.mp hi
      rw [Nat.div_div_eq_div_mul, ← Nat.pow_succ']
      congr 3
      omega
    have hlast : Numeral.value 16 ((List.range (n + 1)).map
        fun i => id / 16 ^ (n + 1 - 1 - i) % 16) =
        id % 16 + 16 * Numeral.value 16 ((List.range n).map
          fun i => id / 16 / 16 ^ (n - 1 - i) % 16) := by
      rw [List.range_succ, List.map_append, hinit]
      simp [Numeral.value, Nat.ofDigits_cons]
    rw [hlast, ih, Nat.pow_succ', Nat.mod_mul]

theorem readUuid_uuid (id : Uuid) : readUuid (uuid id.val) = some id := by
  have hhex : ∀ n < 16, Json.hexDigit n ≠ '-' ∧ Numeral.toDigit 16 (Json.hexDigit n) = some n := by
    intro n hn
    interval_cases n <;> decide
  have hdigits : (uuid id.val).filter (· ≠ '-') =
      (List.range 32).map fun i => Json.hexDigit (id.val / 16 ^ (31 - i) % 16) := by
    have hall : ∀ a n : ℕ, ((List.range' a n).map fun i =>
        Json.hexDigit (id.val / 16 ^ (31 - i) % 16)).filter (· ≠ '-') =
          (List.range' a n).map fun i => Json.hexDigit (id.val / 16 ^ (31 - i) % 16) := by
      intro a n
      refine List.filter_eq_self.mpr fun c hc => ?_
      obtain ⟨i, -, rfl⟩ := List.mem_map.mp hc
      exact decide_eq_true (hhex _ (Nat.mod_lt _ (by decide))).1
    simp only [uuid, List.filter_append, List.filter_cons, hall, ne_eq, not_true_eq_false,
      decide_false, Bool.false_eq_true, if_false, List.range_eq_range', ← List.map_append]
    rfl
  have hmap : ∀ l : List ℕ, (l.map fun i => Json.hexDigit (id.val / 16 ^ (31 - i) % 16)).mapM
      (Numeral.toDigit 16) = some (l.map fun i => id.val / 16 ^ (31 - i) % 16) := by
    intro l
    induction l with
    | nil => rfl
    | cons i l ih =>
      rw [List.map_cons, List.mapM_cons, (hhex _ (Nat.mod_lt _ (by decide))).2, ih]
      rfl
  have hvalue : Numeral.value 16 ((List.range 32).map fun i => id.val / 16 ^ (31 - i) % 16) =
      id.val := by
    rw [value_hexDigits 32 id.val]
    exact Nat.mod_eq_of_lt id.isLt
  unfold readUuid
  rw [hdigits, hmap]
  simp [hvalue]

def uuidReader : UuidReader where
  parse := readUuid
  parse_uuid := readUuid_uuid

end NebulaDesk
