/-
Messages in flight.

A flight is a list of messages under way, in no particular order of arrival:
delivering one takes it out by value, or leaves a copy behind where the network
may deliver it again.  Looking only at the messages of one kind commutes with
delivery (`filterMap_taken`, `filterMap_taken_of_none`).
-/
import Mathlib

namespace Flight

variable {α β : Type}

/-- A message taken out of the flight, or a copy of it. -/
def taken [BEq α] (copy : Bool) (m : α) (flight : List α) : List α :=
  if copy then flight else flight.erase m

theorem mem_taken [BEq α] {copy : Bool} {m x : α} {l : List α} (h : x ∈ taken copy m l) :
    x ∈ l := by
  unfold taken at h
  split at h
  · exact h
  · exact List.mem_of_mem_erase h

theorem taken_false [BEq α] (m : α) (l : List α) : taken false m l = l.erase m := rfl

theorem filterMap_taken [BEq α] [LawfulBEq α] [BEq β] [LawfulBEq β] {f : α → Option β} {m : α}
    {x : β} (hx : f m = some x) (hinj : ∀ a, f a = some x → a = m) (copy : Bool) (l : List α) :
    (taken copy m l).filterMap f = taken copy x (l.filterMap f) := by
  unfold taken
  split
  · rfl
  · induction l with
    | nil => rfl
    | cons a l ih =>
      by_cases ha : a = m
      · subst ha
        rw [List.erase_cons_head, List.filterMap_cons_some hx, List.erase_cons_head]
      · rw [List.erase_cons_tail (by simpa using ha)]
        cases hf : f a with
        | none => rw [List.filterMap_cons_none hf, List.filterMap_cons_none hf, ih]
        | some y =>
          have hne : y ≠ x := by
            rintro rfl
            exact ha (hinj a hf)
          rw [List.filterMap_cons_some hf, List.filterMap_cons_some hf,
            List.erase_cons_tail (by simpa using hne), ih]

theorem filterMap_taken_of_none [BEq α] [LawfulBEq α] {f : α → Option β} {m : α} (hx : f m = none)
    (copy : Bool) (l : List α) : (taken copy m l).filterMap f = l.filterMap f := by
  unfold taken
  split
  · rfl
  · induction l with
    | nil => rfl
    | cons a l ih =>
      by_cases ha : a = m
      · subst ha
        rw [List.erase_cons_head, List.filterMap_cons_none hx]
      · rw [List.erase_cons_tail (by simpa using ha), List.filterMap_cons, List.filterMap_cons, ih]

end Flight
