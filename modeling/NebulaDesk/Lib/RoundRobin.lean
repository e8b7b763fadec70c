/-
A cursor that goes round.

Of `n` places in a circle some are ready.  The first ready one from the cursor on is served, and
the cursor moves to the place after it.  `ahead n i j` is how far before the place `i` the place
`j` lies: while `i` is ready and not served, the places that are served come closer and closer to
it, so that none is served twice (`Overtaken.nodup`).
-/
import Mathlib

namespace RoundRobin

variable {n cursor i j : ℕ} {ready : ℕ → Bool}

/-- The first ready place from the cursor on. -/
def pick (n cursor : ℕ) (ready : ℕ → Bool) : Option ℕ :=
  ((List.range n).map fun offset => (cursor + offset) % n).find? ready

/-- How far the place `j` lies before the place `i`. -/
def ahead (n i j : ℕ) : ℕ := if j ≤ i then i - j else i + n - j

theorem ahead_lt (hi : i < n) (j : ℕ) : ahead n i j < n := by
  unfold ahead
  split <;> omega

theorem ahead_pos (hj : j < n) (hne : j ≠ i) : 0 < ahead n i j := by
  unfold ahead
  split <;> omega

theorem add_mod_ahead (hi : i < n) (hc : cursor < n) : (cursor + ahead n i cursor) % n = i := by
  unfold ahead
  split
  · rw [Nat.add_sub_cancel' ‹_›, Nat.mod_eq_of_lt hi]
  · rw [show cursor + (i + n - cursor) = i + n by omega, Nat.add_mod_right, Nat.mod_eq_of_lt hi]

/-- A place on the way from the cursor to `i` is that much closer to `i`. -/
theorem ahead_add {offset : ℕ} (hi : i < n) (hc : cursor < n) (hle : offset ≤ ahead n i cursor) :
    ahead n i ((cursor + offset) % n) = ahead n i cursor - offset := by
  have hlt := ahead_lt hi cursor
  have hmod : (cursor + offset) % n =
      if cursor + offset < n then cursor + offset else cursor + offset - n := by
    split
    · exact Nat.mod_eq_of_lt ‹_›
    · rw [Nat.mod_eq_sub_mod (by omega), Nat.mod_eq_of_lt (by omega)]
  rw [hmod]
  unfold ahead at *
  split_ifs at * <;> omega

theorem pick_some (h : pick n cursor ready = some j) : ready j = true ∧ j < n := by
  refine ⟨List.find?_some h, ?_⟩
  obtain ⟨offset, hmem, rfl⟩ := List.mem_map.mp (List.mem_of_find?_eq_some h)
  have := List.mem_range.mp hmem
  exact Nat.mod_lt _ (by omega)

theorem pick_isSome (hi : i < n) (hc : cursor < n) (hready : ready i = true) :
    (pick n cursor ready).isSome := by
  rw [pick, List.find?_isSome]
  refine ⟨i, List.mem_map.mpr ⟨ahead n i cursor, ?_, add_mod_ahead hi hc⟩, hready⟩
  exact List.mem_range.mpr (ahead_lt hi cursor)

/-- **Who is served lies between the cursor and a place that is ready.** -/
theorem ahead_pick (hi : i < n) (hc : cursor < n) (hready : ready i = true)
    (h : pick n cursor ready = some j) : ahead n i j ≤ ahead n i cursor := by
  unfold pick at h
  obtain ⟨-, before, after, heq, hnot⟩ := List.find?_eq_some_iff_append.mp h
  -- The places that were passed over are fewer than those up to `i`.
  have hshort : before.length ≤ ahead n i cursor := by
    by_contra hlong
    have hget : ((List.range n).map fun offset => (cursor + offset) % n)[ahead n i cursor]? =
        some i := by
      rw [List.getElem?_map, List.getElem?_range (ahead_lt hi cursor), Option.map_some,
        add_mod_ahead hi hc]
    rw [heq, List.getElem?_append_left (by omega)] at hget
    have := hnot i (List.mem_of_getElem? hget)
    simp [hready] at this
  have hj : j = (cursor + before.length) % n := by
    have hlen := congrArg List.length heq
    rw [List.length_map, List.length_range, List.length_append, List.length_cons] at hlen
    have hget := congrArg (·[before.length]?) heq
    simp only [List.getElem?_map, List.getElem?_append_right le_rfl, Nat.sub_self,
      List.getElem?_cons_zero] at hget
    rw [List.getElem?_range (by omega), Option.map_some] at hget
    exact (Option.some.inj hget).symm
  rw [hj, ahead_add hi hc hshort]
  exact Nat.sub_le _ _

/-- The places served while `i` waits, and the cursor by now. -/
structure Overtaken (n i cursor : ℕ) (served : List ℕ) : Prop where
  closer : served.Pairwise fun j k => ahead n i k < ahead n i j
  beyond : ∀ j ∈ served, ahead n i cursor < ahead n i j

theorem Overtaken.nil : Overtaken n i cursor [] := ⟨List.Pairwise.nil, by simp⟩

/-- **Serving another place.** -/
theorem Overtaken.serve {served : List ℕ} (h : Overtaken n i cursor served) (hi : i < n)
    (hj : j < n) (hne : j ≠ i) (hle : ahead n i j ≤ ahead n i cursor) :
    Overtaken n i ((j + 1) % n) (served ++ [j]) := by
  have hpos := ahead_pos hj hne
  have hnext : ahead n i ((j + 1) % n) = ahead n i j - 1 := ahead_add hi hj hpos
  refine ⟨?_, ?_⟩
  · rw [List.pairwise_append]
    refine ⟨h.closer, List.pairwise_singleton _ _, ?_⟩
    intro k hk k' hk'
    obtain rfl := List.mem_singleton.mp hk'
    exact lt_of_le_of_lt hle (h.beyond k hk)
  · intro k hk
    rcases List.mem_append.mp hk with hk | hk
    · have := h.beyond k hk
      omega
    · obtain rfl := List.mem_singleton.mp hk
      omega

theorem Overtaken.nodup {served : List ℕ} (h : Overtaken n i cursor served) : served.Nodup :=
  h.closer.imp fun hlt heq => absurd hlt (by rw [heq]; exact lt_irrefl _)

end RoundRobin
