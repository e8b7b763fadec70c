/-
The byte ranges a receiver has written (`nebula-agent/src/files.rs`).

`Ranges.add` merges a new range with everything it touches.  A list of ranges is
`Sorted` when its ranges are non-empty, in order and with a gap between any two;
`add` keeps it so (`Sorted.add`) and covers the union (`covers_add`), so that
`contiguous` is the length of the covered prefix (`le_contiguous_iff`).
-/
import Mathlib

namespace NebulaDesk

/-- The set of byte ranges that have arrived, merged and in order. -/
structure Ranges where
  list : List (ℕ × ℕ)
deriving DecidableEq, Repr

namespace Ranges

def empty : Ranges := ⟨[]⟩

/-- One round of the loop of `add`: keep a range apart, or merge it. -/
def absorb : List (ℕ × ℕ) × ℕ × ℕ → ℕ × ℕ → List (ℕ × ℕ) × ℕ × ℕ
  | (merged, start, stop), (s, e) =>
    if e < start ∨ s > stop then (merged ++ [(s, e)], start, stop)
    else (merged, min start s, max stop e)

/-- Put a range before the first one that does not start earlier. -/
def insert (merged : List (ℕ × ℕ)) (start stop : ℕ) : List (ℕ × ℕ) :=
  merged.takeWhile (·.1 < start) ++ (start, stop) :: merged.dropWhile (·.1 < start)

/-- Record `[start, stop)`, merging with anything it touches. -/
def add (r : Ranges) (start stop : ℕ) : Ranges :=
  if start ≥ stop then r
  else
    match r.list.foldl absorb ([], start, stop) with
    | (merged, start, stop) => ⟨insert merged start stop⟩

/-- How many bytes are present contiguously from the start of the file. -/
def contiguous (r : Ranges) : ℕ :=
  match r.list with
  | (0, stop) :: _ => stop
  | _ => 0

/-- Whether every byte up to `size` has arrived. -/
def complete (r : Ranges) (size : ℕ) : Bool := r.contiguous ≥ size

/-- Bytes written so far. -/
def total (r : Ranges) : ℕ := (r.list.map fun (s, e) => e - s).sum

/-- Whether the byte at `x` has arrived. -/
def Covers (r : Ranges) (x : ℕ) : Prop := ∃ a ∈ r.list, a.1 ≤ x ∧ x < a.2

/-- Non-empty ranges, in order, with a gap between any two. -/
def Sorted (l : List (ℕ × ℕ)) : Prop :=
  (∀ a ∈ l, a.1 < a.2) ∧ l.Pairwise fun a b => a.2 < b.1

/-- What the loop of `add` keeps over the ranges `rest` still to come. -/
structure Merging (acc : List (ℕ × ℕ) × ℕ × ℕ) (rest : List (ℕ × ℕ)) : Prop where
  sorted : Sorted (acc.1 ++ rest)
  apart : ∀ a ∈ acc.1, a.2 < acc.2.1 ∨ a.1 > acc.2.2
  nonempty : acc.2.1 < acc.2.2

variable {acc : List (ℕ × ℕ) × ℕ × ℕ} {l : List (ℕ × ℕ)} {r : Ranges} {a : ℕ × ℕ} {start stop : ℕ}

theorem Merging.absorb {rest : List (ℕ × ℕ)}
    (h : Merging acc (a :: rest)) : Merging (absorb acc a) rest := by
  obtain ⟨merged, start, stop⟩ := acc
  obtain ⟨s, e⟩ := a
  obtain ⟨hne, hgap⟩ := h.sorted
  have hse : s < e := hne (s, e) (by simp)
  by_cases hc : e < start ∨ s > stop
  · rw [Ranges.absorb, if_pos hc]
    refine ⟨?_, ?_, h.nonempty⟩
    · simpa using h.sorted
    · intro b hb
      rcases List.mem_append.mp hb with hb | hb
      · exact h.apart b hb
      · obtain rfl := List.mem_singleton.mp hb
        exact hc
  · rw [Ranges.absorb, if_neg hc]
    have happ := List.pairwise_append.mp hgap
    refine ⟨⟨?_, ?_⟩, ?_, ?_⟩
    · intro b hb
      refine hne b ?_
      simp only [List.mem_append, List.mem_cons] at hb ⊢
      tauto
    · exact hgap.sublist (List.Sublist.append_left (List.sublist_cons_self _ _) _)
    · -- What was set apart ends before `s`, so it lies left of the merged range.
      intro b hb
      have hbs : b.2 < s := happ.2.2 b hb (s, e) (by simp)
      have hb12 : b.1 < b.2 := hne b (List.mem_append_left _ hb)
      have := h.apart b hb
      show b.2 < min start s ∨ b.1 > max stop e
      simp only at this
      omega
    · show min start s < max stop e
      have := h.nonempty
      simp only at this
      omega

theorem Merging.foldl (h : Merging acc l) : Merging (l.foldl Ranges.absorb acc) [] := by
  induction l generalizing acc with
  | nil => exact h
  | cons a l ih => exact ih h.absorb

/-- Whether `x` is in one of the ranges of the loop's state. -/
def Within (acc : List (ℕ × ℕ) × ℕ × ℕ) (x : ℕ) : Prop :=
  (∃ a ∈ acc.1, a.1 ≤ x ∧ x < a.2) ∨ (acc.2.1 ≤ x ∧ x < acc.2.2)

theorem within_absorb (ha : a.1 < a.2) (hacc : acc.2.1 < acc.2.2) (x : ℕ) :
    Within (absorb acc a) x ↔ Within acc x ∨ (a.1 ≤ x ∧ x < a.2) := by
  obtain ⟨merged, start, stop⟩ := acc
  obtain ⟨s, e⟩ := a
  by_cases hc : e < start ∨ s > stop
  · rw [absorb, if_pos hc]
    simp only [Within, List.mem_append, List.mem_singleton, or_and_right, exists_or,
      exists_eq_left]
    rw [or_right_comm]
  · rw [absorb, if_neg hc]
    simp only at ha hacc
    simp only [Within, not_or, not_lt, gt_iff_lt] at hc ⊢
    -- The two ranges touch, so their hull is their union.
    have hhull : (min start s ≤ x ∧ x < max stop e) ↔
        (start ≤ x ∧ x < stop) ∨ (s ≤ x ∧ x < e) := by omega
    rw [hhull, or_assoc]

theorem within_foldl (h : Merging acc l)
    (x : ℕ) : Within (l.foldl absorb acc) x ↔ Within acc x ∨ ∃ a ∈ l, a.1 ≤ x ∧ x < a.2 := by
  induction l generalizing acc with
  | nil => simp
  | cons a l ih =>
    rw [List.foldl_cons, ih h.absorb,
      within_absorb (h.sorted.1 a (by simp)) h.nonempty]
    simp only [List.mem_cons, exists_eq_or_imp]
    tauto

theorem merging_start (h : Sorted r.list) (hlt : start < stop) :
    Merging ([], start, stop) r.list := ⟨h, by simp, hlt⟩

theorem sorted_insert {merged : List (ℕ × ℕ)}
    (h : Merging (merged, start, stop) []) : Sorted (insert merged start stop) := by
  obtain ⟨hne, hgap⟩ := h.sorted
  rw [List.append_nil] at hne hgap
  have hlt : start < stop := h.nonempty
  have hsplit := List.takeWhile_append_dropWhile (p := fun a : ℕ × ℕ => decide (a.1 < start))
    (l := merged)
  have hbefore : ∀ a ∈ merged.takeWhile (·.1 < start), a.2 < start := by
    intro a ha
    have hstart : a.1 < start := by simpa using List.mem_takeWhile_imp ha
    have := h.apart a (List.takeWhile_subset _ ha)
    simp only at this
    omega
  have hafter : ∀ a ∈ merged.dropWhile (·.1 < start), stop < a.1 := by
    intro a ha
    have hmem := List.dropWhile_subset _ ha
    -- Whoever follows the first range that starts no earlier starts no earlier.
    have hge : start ≤ a.1 := by
      cases hd : merged.dropWhile (·.1 < start) with
      | nil => simp [hd] at ha
      | cons b rest =>
        have hb : ¬ b.1 < start := by
          have := List.head_dropWhile_not (p := fun a : ℕ × ℕ => decide (a.1 < start))
            (l := merged) (by simp [hd])
          simpa [hd] using this
        rw [hd] at ha
        rcases List.mem_cons.mp ha with rfl | ha
        · omega
        · have hpw : (b :: rest).Pairwise fun a b => a.2 < b.1 := by
            rw [← hd]
            exact hgap.sublist (List.dropWhile_sublist _)
          have := List.rel_of_pairwise_cons hpw ha
          have := hne b (List.dropWhile_subset _ (by rw [hd]; simp))
          omega
    have := h.apart a hmem
    have := hne a hmem
    simp only at *
    omega
  refine ⟨?_, ?_⟩
  · intro a ha
    simp only [insert, List.mem_append, List.mem_cons] at ha
    rcases ha with ha | rfl | ha
    · exact hne a (List.takeWhile_subset _ ha)
    · exact hlt
    · exact hne a (List.dropWhile_subset _ ha)
  · rw [insert, List.pairwise_append, List.pairwise_cons]
    refine ⟨hgap.sublist (List.takeWhile_sublist _), ⟨hafter,
      hgap.sublist (List.dropWhile_sublist _)⟩, ?_⟩
    intro a ha b hb
    have h1 := hbefore a ha
    rcases List.mem_cons.mp hb with rfl | hb
    · exact h1
    · have := hafter b hb
      omega

theorem mem_insert {merged : List (ℕ × ℕ)} :
    a ∈ insert merged start stop ↔ a = (start, stop) ∨ a ∈ merged := by
  conv_rhs => rw [← List.takeWhile_append_dropWhile (p := fun a : ℕ × ℕ => decide (a.1 < start))
    (l := merged)]
  simp only [insert, List.mem_append, List.mem_cons]
  tauto

/-- **Adding a range keeps the list sorted, apart and without empty ranges.** -/
theorem Sorted.add (h : Sorted r.list) (start stop : ℕ) : Sorted (r.add start stop).list := by
  unfold Ranges.add
  split
  · exact h
  · rename_i hlt
    exact sorted_insert (merging_start h (by omega)).foldl

/-- **Adding a range covers the union.** -/
theorem covers_add (h : Sorted r.list) (start stop x : ℕ) :
    (r.add start stop).Covers x ↔ r.Covers x ∨ (start ≤ x ∧ x < stop) := by
  unfold Ranges.add
  split
  · have : ¬ (start ≤ x ∧ x < stop) := by omega
    tauto
  · rename_i hlt
    have hw := within_foldl (merging_start h (Nat.lt_of_not_le hlt)) x
    split
    rename_i merged start' stop' hfold
    rw [hfold] at hw
    simp only [Within, Covers, List.not_mem_nil, false_and, exists_false, false_or,
      mem_insert, exists_eq_or_imp] at hw ⊢
    rw [or_comm, hw, or_comm]

/-- Every byte before `contiguous` has arrived. -/
theorem covers_of_lt_contiguous {x : ℕ} (hx : x < r.contiguous) : r.Covers x := by
  unfold contiguous at hx
  split at hx
  · rename_i stop rest heq
    exact ⟨(0, stop), by rw [heq]; simp, Nat.zero_le x, hx⟩
  · omega

/-- The byte at `contiguous` has not arrived. -/
theorem not_covers_contiguous (h : Sorted r.list) : ¬ r.Covers r.contiguous := by
  obtain ⟨hne, hgap⟩ := h
  unfold Covers contiguous
  split <;> rintro ⟨a, ha, hle, hlt⟩
  · rename_i stop rest heq
    rw [heq] at ha hgap
    rcases List.mem_cons.mp ha with rfl | ha
    · simp only at hlt
      omega
    · have := List.rel_of_pairwise_cons hgap ha
      simp only at this
      omega
  · rename_i hhead
    -- Byte 0 would have to be in the first range.
    cases hl : r.list with
    | nil => simp [hl] at ha
    | cons b rest =>
      rw [hl] at ha hgap
      have hb : b.1 ≠ 0 := by
        intro h0
        exact hhead b.2 rest (by rw [hl, ← h0])
      rcases List.mem_cons.mp ha with rfl | ha
      · omega
      · have := List.rel_of_pairwise_cons hgap ha
        omega

/-- **`contiguous` is the length of the covered prefix.** -/
theorem le_contiguous_iff (h : Sorted r.list) (n : ℕ) : n ≤ r.contiguous ↔ ∀ x < n, r.Covers x := by
  refine ⟨fun hn x hx => covers_of_lt_contiguous (by omega), fun hall => ?_⟩
  by_contra hlt
  exact not_covers_contiguous h (hall _ (by omega))

theorem contiguous_mono {r r' : Ranges} (h' : Sorted r'.list)
    (hsub : ∀ x, r.Covers x → r'.Covers x) : r.contiguous ≤ r'.contiguous := by
  rw [le_contiguous_iff h']
  exact fun x hx => hsub x (covers_of_lt_contiguous hx)

def bytes : List (ℕ × ℕ) → Finset ℕ
  | [] => ∅
  | a :: l => Finset.Ico a.1 a.2 ∪ bytes l

theorem mem_bytes {x : ℕ} : x ∈ bytes l ↔ ∃ a ∈ l, a.1 ≤ x ∧ x < a.2 := by
  induction l with
  | nil => simp [bytes]
  | cons a l ih => simp [bytes, ih]

/-- `total` counts the covered bytes. -/
theorem card_bytes (h : Sorted l) :
    (bytes l).card = (l.map fun (s, e) => e - s).sum := by
  induction l with
  | nil => rfl
  | cons a l ih =>
    obtain ⟨hne, hgap⟩ := h
    have hdisjoint : Disjoint (Finset.Ico a.1 a.2) (bytes l) := by
      rw [Finset.disjoint_left]
      intro x hx hmem
      obtain ⟨b, hb, hle, -⟩ := mem_bytes.mp hmem
      have hab := List.rel_of_pairwise_cons hgap hb
      have hxa := (Finset.mem_Ico.mp hx).2
      omega
    have hl := ih ⟨fun b hb => hne b (List.mem_cons_of_mem a hb), (List.pairwise_cons.mp hgap).2⟩
    rw [bytes, Finset.card_union_of_disjoint hdisjoint, Nat.card_Ico, hl, List.map_cons,
      List.sum_cons]

theorem covers_iff {x : ℕ} : r.Covers x ↔ x ∈ bytes r.list := mem_bytes.symm

theorem total_le_add (h : Sorted r.list) (start stop : ℕ) : r.total ≤ (r.add start stop).total := by
  rw [total, total, ← card_bytes h, ← card_bytes (h.add start stop)]
  refine Finset.card_le_card fun x hx => ?_
  exact mem_bytes.mpr ((covers_add h start stop x).mpr (.inl (mem_bytes.mp hx)))

theorem sorted_empty : Sorted empty.list := ⟨by simp [empty], List.Pairwise.nil⟩

theorem not_covers_empty (x : ℕ) : ¬ empty.Covers x := by
  rintro ⟨a, ha, -⟩
  simp [empty] at ha

/-! ### Any ranges, in any order -/

/-- The ranges added one after another. -/
def addAll (added : List (ℕ × ℕ)) : Ranges := added.foldl (fun r a => r.add a.1 a.2) empty

theorem addAll_concat (added : List (ℕ × ℕ)) (a : ℕ × ℕ) :
    addAll (added ++ [a]) = (addAll added).add a.1 a.2 := by
  simp only [addAll, List.foldl_append, List.foldl_cons, List.foldl_nil]

theorem sorted_addAll (added : List (ℕ × ℕ)) : Sorted (addAll added).list := by
  induction added using List.reverseRecOn with
  | nil => exact sorted_empty
  | append_singleton added a ih =>
    rw [addAll_concat]
    exact ih.add a.1 a.2

theorem bytes_addAll (added : List (ℕ × ℕ)) : bytes (addAll added).list = bytes added := by
  induction added using List.reverseRecOn with
  | nil => rfl
  | append_singleton added a ih =>
    ext x
    have hx : x ∈ bytes (addAll added).list ↔ x ∈ bytes added := by rw [ih]
    rw [addAll_concat, ← covers_iff, covers_add (sorted_addAll added), covers_iff, hx, mem_bytes,
      mem_bytes]
    simp only [List.mem_append, or_and_right, exists_or, List.mem_singleton, exists_eq_left]

/-- `contiguous` is the length of the longest prefix that has arrived. -/
theorem contiguous_isGreatest (h : Sorted r.list) :
    IsGreatest {n | Finset.range n ⊆ bytes r.list} r.contiguous := by
  have hle : ∀ n, n ≤ r.contiguous ↔ Finset.range n ⊆ bytes r.list := by
    intro n
    rw [le_contiguous_iff h]
    simp only [covers_iff, Finset.subset_iff, Finset.mem_range]
  exact ⟨(hle _).mp le_rfl, fun n hn => (hle n).mpr hn⟩

theorem complete_iff (h : Sorted r.list) (size : ℕ) :
    r.complete size = true ↔ Finset.range size ⊆ bytes r.list := by
  obtain ⟨hall, hmax⟩ := contiguous_isGreatest h
  rw [complete, decide_eq_true_iff]
  refine ⟨fun hle => ?_, fun hsub => hmax hsub⟩
  exact (Finset.range_subset_range.mpr hle).trans hall

/-- **The list of ranges is the set of bytes that have arrived.**  Whatever ranges are added, in
whatever order: the list stays in order, apart and without empty ranges, its bytes are those of the
ranges added, and what is read off it is the longest prefix, the number of bytes, and whether
everything up to a size is there. -/
theorem ranges_algebra (added : List (ℕ × ℕ)) :
    Sorted (addAll added).list ∧
    bytes (addAll added).list = bytes added ∧
    IsGreatest {n | Finset.range n ⊆ bytes added} (addAll added).contiguous ∧
    (addAll added).total = (bytes added).card ∧
    ∀ size, ((addAll added).complete size = true ↔ Finset.range size ⊆ bytes added) ∧
      -- Where no range ends after the size, nothing else is there.
      ((∀ a ∈ added, a.2 ≤ size) →
        ((addAll added).complete size = true ↔ bytes added = Finset.range size)) := by
  have hsorted := sorted_addAll added
  have hbytes := bytes_addAll added
  have hcomplete : ∀ size,
      ((addAll added).complete size = true ↔ Finset.range size ⊆ bytes added) := by
    intro size
    rw [complete_iff hsorted, hbytes]
  refine ⟨hsorted, hbytes, ?_, ?_, fun size => ⟨hcomplete size, fun hends => ?_⟩⟩
  · rw [← hbytes]
    exact contiguous_isGreatest hsorted
  · rw [← hbytes, card_bytes hsorted]
    rfl
  · rw [hcomplete size]
    refine ⟨fun hsub => Finset.Subset.antisymm ?_ hsub, fun heq => heq.ge⟩
    intro x hx
    obtain ⟨a, ha, -, hlt⟩ := mem_bytes.mp hx
    exact Finset.mem_range.mpr (lt_of_lt_of_le hlt (hends a ha))

/-- A range that ends after the size completes it, although other bytes are there too. -/
theorem complete_beyond : ¬ ∀ added size,
    (addAll added).complete size = true ↔ bytes added = Finset.range size := by
  intro hall
  have hten := (hall [(0, 10)] 5).mp (by decide)
  have hcard := congrArg Finset.card hten
  revert hcard
  decide

end Ranges

end NebulaDesk
