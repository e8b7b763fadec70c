/-
Coalescing.

`drops a b` says that `a` goes when `b` comes right after it.  A list is coalesced by putting its
values one after another, each in place of the last one if it drops that (`push`).  What is left are
the `survivors`: the values that are not dropped by the next one.  A machine that forgets what is
dropped sees the same from them as from the whole list (`sightings_survivors`).
-/
import Mathlib

namespace Coalesce

variable {α σ : Type*} {drops : α → α → Bool}

/-- Put a value after the others, in place of the last one if it drops that. -/
def push (drops : α → α → Bool) (out : List α) (e : α) : List α :=
  match out.getLast? with
  | some last => if drops last e then out.dropLast ++ [e] else out ++ [e]
  | none => out ++ [e]

/-- The values that the next one does not drop. -/
def survivors (drops : α → α → Bool) : List α → List α
  | [] => []
  | [a] => [a]
  | a :: b :: l => if drops a b then survivors drops (b :: l) else a :: survivors drops (b :: l)

theorem survivors_drop {a b : α} (h : drops a b = true) (l : List α) :
    survivors drops (a :: b :: l) = survivors drops (b :: l) := by
  rw [survivors, if_pos h]

theorem survivors_keep {a b : α} (h : drops a b = false) (l : List α) :
    survivors drops (a :: b :: l) = a :: survivors drops (b :: l) := by
  rw [survivors, if_neg (by rw [h]; exact Bool.false_ne_true)]

theorem foldl_push_concat (out : List α) (a : α) (l : List α) :
    l.foldl (push drops) (out ++ [a]) = out ++ survivors drops (a :: l) := by
  induction l generalizing out a with
  | nil => rfl
  | cons b l ih =>
    have hpush : push drops (out ++ [a]) b =
        if drops a b then out ++ [b] else out ++ [a] ++ [b] := by
      unfold push
      rw [List.getLast?_concat, List.dropLast_concat]
    rw [List.foldl_cons, hpush, survivors]
    split
    · exact ih out b
    · rw [ih (out ++ [a]) b, List.append_assoc, List.singleton_append]

/-- **Coalescing leaves the survivors.** -/
theorem foldl_push (l : List α) : l.foldl (push drops) [] = survivors drops l := by
  cases l with
  | nil => rfl
  | cons a l => exact foldl_push_concat [] a l

/-! ### What is left -/

theorem survivors_sublist (l : List α) : (survivors drops l).Sublist l := by
  induction l with
  | nil => exact List.Sublist.refl _
  | cons a l ih =>
    cases l with
    | nil => exact List.Sublist.refl _
    | cons b l =>
      rw [survivors]
      split
      · exact ih.cons a
      · exact ih.cons_cons a

theorem filter_survivors {q : α → Bool} (hq : ∀ a b, drops a b = true → q a = false)
    (l : List α) : (survivors drops l).filter q = l.filter q := by
  induction l with
  | nil => rfl
  | cons a l ih =>
    cases l with
    | nil => rfl
    | cons b l =>
      rw [survivors]
      split
      · rename_i hdrop
        have hgone : ¬ q a = true := by
          rw [hq a b hdrop]
          exact Bool.false_ne_true
        rw [ih, List.filter_cons_of_neg hgone]
      · rw [List.filter_cons, ih, ← List.filter_cons]

theorem survivors_cons (htrans : ∀ a b c, drops a b = true → drops b c = true → drops a c = true)
    (b : α) (l : List α) :
    ∃ c rest, survivors drops (b :: l) = c :: rest ∧ (c = b ∨ drops b c = true) := by
  induction l generalizing b with
  | nil => exact ⟨b, [], rfl, .inl rfl⟩
  | cons d l ih =>
    rw [survivors]
    split
    · rename_i hdrop
      obtain ⟨c, rest, hrest, hc⟩ := ih d
      refine ⟨c, rest, hrest, .inr ?_⟩
      rcases hc with rfl | hc
      · exact hdrop
      · exact htrans b d c hdrop hc
    · exact ⟨b, _, rfl, .inl rfl⟩

theorem survivors_of_isChain {l : List α} (h : l.IsChain fun a b => drops a b = false) :
    survivors drops l = l := by
  induction l with
  | nil => rfl
  | cons a l ih =>
    cases l with
    | nil => rfl
    | cons b l =>
      obtain ⟨hab, hrest⟩ := List.isChain_cons_cons.mp h
      rw [survivors_keep hab, ih hrest]

section Like

variable (hsymm : ∀ a b, drops a b = true → drops b a = true)
  (htrans : ∀ a b c, drops a b = true → drops b c = true → drops a c = true)

include hsymm htrans

theorem isChain_survivors (l : List α) :
    (survivors drops l).IsChain fun a b => drops a b = false := by
  induction l with
  | nil => exact .nil
  | cons a l ih =>
    cases l with
    | nil => exact .singleton a
    | cons b l =>
      rw [survivors]
      split
      · exact ih
      · rename_i hkeep
        obtain ⟨c, rest, hrest, hc⟩ := survivors_cons htrans b l
        rw [hrest] at ih ⊢
        refine List.isChain_cons_cons.mpr ⟨?_, ih⟩
        -- Were `c` to drop `a`, so would `b`, which is like `c`.
        by_contra hac
        rw [Bool.not_eq_false] at hac
        refine hkeep ?_
        rcases hc with rfl | hc
        · exact hac
        · exact htrans a c b hac (hsymm b c hc)

/-- **Coalescing twice is coalescing once.** -/
theorem survivors_idem (l : List α) : survivors drops (survivors drops l) = survivors drops l :=
  survivors_of_isChain (isChain_survivors hsymm htrans l)

end Like

/-- **A value that is not dropped divides the list.** -/
theorem survivors_append (before : List α) {last : α} {after : List α}
    (h : ∀ b ∈ after.head?, drops last b = false) :
    survivors drops (before ++ last :: after) =
      survivors drops (before ++ [last]) ++ survivors drops after := by
  induction before with
  | nil =>
    cases after with
    | nil => rfl
    | cons b after => exact survivors_keep (h b rfl) after
  | cons a before ih =>
    cases before with
    | nil =>
      simp only [List.nil_append, List.cons_append] at ih ⊢
      rw [survivors, survivors]
      split
      · rw [ih]
      · rw [ih]
        rfl
    | cons d before =>
      simp only [List.cons_append] at ih ⊢
      rw [survivors, survivors]
      split
      · rw [ih]
      · rw [ih]
        rfl

theorem getLast?_survivors (before : List α) (last : α) :
    (survivors drops (before ++ [last])).getLast? = some last := by
  rw [← foldl_push, List.foldl_append, List.foldl_cons, List.foldl_nil, push]
  split
  · split <;> exact List.getLast?_concat
  · exact List.getLast?_concat

/-! ### What a machine sees -/

/-- The states of a machine after every marked event, and at the end. -/
def sightings (step : σ → α → σ) (mark : α → Bool) : σ → List α → List σ
  | s, [] => [s]
  | s, a :: l => if mark a then step s a :: sightings step mark (step s a) l
    else sightings step mark (step s a) l

variable {step : σ → α → σ} {mark : α → Bool}

theorem sightings_unmarked {a : α} (h : mark a = false) (s : σ) (l : List α) :
    sightings step mark s (a :: l) = sightings step mark (step s a) l := by
  rw [sightings, if_neg (by rw [h]; exact Bool.false_ne_true)]

theorem sightings_ne_nil (s : σ) (l : List α) : sightings step mark s l ≠ [] := by
  induction l generalizing s with
  | nil => exact List.cons_ne_nil _ _
  | cons a l ih =>
    rw [sightings]
    split
    · exact List.cons_ne_nil _ _
    · exact ih _

/-- **What is dropped is not seen.** -/
theorem sightings_survivors (hforget : ∀ s a b, drops a b = true → step (step s a) b = step s b)
    (hmark : ∀ a b, drops a b = true → mark a = false) (s : σ) (l : List α) :
    sightings step mark s (survivors drops l) = sightings step mark s l := by
  induction l generalizing s with
  | nil => rfl
  | cons a l ih =>
    cases l with
    | nil => rfl
    | cons b l =>
      rw [survivors]
      split
      · rename_i hdrop
        rw [ih s, sightings_unmarked (hmark a b hdrop), sightings, sightings, hforget s a b hdrop]
      · rw [sightings, ih, ← sightings]

end Coalesce
