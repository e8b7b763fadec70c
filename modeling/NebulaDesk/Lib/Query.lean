/-
Queries that take the first row of an order.

`FirstBy key rows` is what `ORDER BY key LIMIT 1` may answer: rows with equal keys
come in any order.  `firstBy` is one such answer.
-/
import Mathlib

namespace Query

variable {α κ : Type*} [LinearOrder κ] {key : α → κ} {rows : List α} {r : α}

/-- The answers of `ORDER BY key LIMIT 1`. -/
def FirstBy (key : α → κ) (rows : List α) : Option α → Prop
  | none => rows = []
  | some r => r ∈ rows ∧ ∀ s ∈ rows, key r ≤ key s

instance [DecidableEq α] (key : α → κ) (rows : List α) :
    (answer : Option α) → Decidable (FirstBy key rows answer)
  | none => inferInstanceAs (Decidable (rows = []))
  | some r => inferInstanceAs (Decidable (r ∈ rows ∧ ∀ s ∈ rows, key r ≤ key s))

/-- The first row of those with the least key. -/
def firstBy (key : α → κ) : List α → Option α
  | [] => none
  | r :: rows =>
    match firstBy key rows with
    | none => some r
    | some s => if key s < key r then some s else some r

theorem firstBy_spec (key : α → κ) (rows : List α) : FirstBy key rows (firstBy key rows) := by
  induction rows with
  | nil => rfl
  | cons r rows ih =>
    unfold firstBy
    cases hs : firstBy key rows with
    | none =>
      rw [hs] at ih
      obtain rfl : rows = [] := ih
      simp [FirstBy]
    | some s =>
      rw [hs] at ih
      obtain ⟨hmem, hle⟩ := ih
      dsimp only
      split
      · next hlt =>
        refine ⟨List.mem_cons_of_mem r hmem, ?_⟩
        intro t ht
        rcases List.mem_cons.mp ht with rfl | ht
        · exact le_of_lt hlt
        · exact hle t ht
      · next hlt =>
        refine ⟨List.mem_cons_self, ?_⟩
        intro t ht
        rcases List.mem_cons.mp ht with rfl | ht
        · exact le_rfl
        · exact le_trans (not_lt.mp hlt) (hle t ht)

theorem FirstBy.eq_some (hmem : r ∈ rows) (hlt : ∀ s ∈ rows, s ≠ r → key r < key s)
    {answer : Option α} (h : FirstBy key rows answer) : answer = some r := by
  cases answer with
  | none =>
    rw [show rows = [] from h] at hmem
    cases hmem
  | some s =>
    by_contra hne
    have hsr : s ≠ r := fun heq => hne (by rw [heq])
    exact absurd (h.2 r hmem) (not_le.mpr (hlt s h.1 hsr))

theorem FirstBy.mem (h : FirstBy key rows (some r)) : r ∈ rows := h.1

/-! ### Rows by their primary key -/

section Key

variable {β ι : Type*} [DecidableEq ι] {key : α → ι} {rows : List α} {a : α}

theorem find?_of_mem (hkey : (rows.map key).Nodup) (h : a ∈ rows) :
    rows.find? (fun r => key r = key a) = some a := by
  induction rows with
  | nil => cases h
  | cons r rows ih =>
    rw [List.map_cons, List.nodup_cons] at hkey
    rcases List.mem_cons.mp h with rfl | h
    · simp
    · have hne : key r ≠ key a := by
        intro heq
        exact hkey.1 (heq ▸ List.mem_map_of_mem h)
      rw [List.find?_cons_of_neg (by simpa using hne)]
      exact ih hkey.2 h

theorem find?_filterMap {f : α → Option β} {key' : β → ι}
    (hf : ∀ a b, f a = some b → key' b = key a) (hkey : (rows.map key).Nodup) (i : ι) :
    (rows.filterMap f).find? (fun b => key' b = i) = (rows.find? (fun r => key r = i)).bind f := by
  induction rows with
  | nil => rfl
  | cons r rows ih =>
    rw [List.map_cons, List.nodup_cons] at hkey
    by_cases hi : key r = i
    · rw [List.find?_cons_of_pos (by simpa using hi), Option.bind_some]
      cases hfr : f r with
      | some b =>
        rw [List.filterMap_cons_some hfr, List.find?_cons_of_pos (by simp [hf r b hfr, hi])]
      | none =>
        -- No later row has the key.
        rw [List.filterMap_cons_none hfr, ih hkey.2]
        have hnone : rows.find? (fun r => key r = i) = none := by
          rw [List.find?_eq_none]
          intro s hs heq
          exact hkey.1 (hi.trans (of_decide_eq_true heq).symm ▸ List.mem_map_of_mem hs)
        rw [hnone, Option.bind_none]
    · rw [List.find?_cons_of_neg (by simpa using hi), ← ih hkey.2]
      cases hfr : f r with
      | some b =>
        rw [List.filterMap_cons_some hfr, List.find?_cons_of_neg (by simp [hf r b hfr, hi])]
      | none => rw [List.filterMap_cons_none hfr]

end Key

end Query
