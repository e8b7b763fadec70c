/-
One lane of a connection, with its opener.

`Lane.Tidy` says which counters of a lane have been opened: every counter that is
no longer under way is at or below one that was opened.  With it, a copy that at
most 63 newer ones have been sealed after is opened whenever it arrives
(`Tidy.take_ok`), in whatever order the streams deliver.
-/
import NebulaDesk.Multipath.Native

namespace NebulaDesk

namespace Lane

open ChannelState

variable {α : Type} {c : Channel} {streams n : ℕ} {lane : Lane α} {S : Set ℕ}

/-- `S` is what the lane's opener has opened. -/
structure Tidy (c : Channel) (streams : ℕ) (lane : Lane α) (S : Set ℕ) : Prop where
  holds : lane.opener.Holds (widthOf c) S
  opened : ∀ n ∈ S, n < lane.log.length ∧ n ∉ lane.flight
  sorted : lane.flight.Pairwise (· < ·)
  bound : ∀ n ∈ lane.flight, n < lane.log.length
  taken : ∀ n < lane.log.length, n ∉ lane.flight → ∃ t ∈ S, n ≤ t
  room : c.isStreamPerMessage = true → lane.flight.length ≤ streams
  ordered : c.isStreamPerMessage = false → ∀ n ∈ lane.flight, ∀ t ∈ S, t < n

theorem tidy_new (c : Channel) (streams : ℕ) : (new c : Lane α).Tidy c streams ∅ where
  holds := holds_new c
  opened := fun n hn => hn.elim
  sorted := List.Pairwise.nil
  bound := fun n hn => by cases hn
  taken := fun n hn => by simp [new] at hn
  room := fun _ => Nat.zero_le _
  ordered := fun _ n hn => by cases hn

theorem Tidy.push (h : lane.Tidy c streams S) (x : α)
    (hroom : c.isStreamPerMessage = true → lane.flight.length < streams) :
    (lane.push x).Tidy c streams S where
  holds := h.holds
  opened := fun n hn => by
    obtain ⟨hlt, hout⟩ := h.opened n hn
    refine ⟨?_, ?_⟩
    · show n < (lane.log ++ [x]).length
      rw [List.length_append]
      omega
    · show n ∉ lane.flight ++ [lane.log.length]
      rw [List.mem_append, List.mem_singleton]
      rintro (hin | rfl)
      · exact hout hin
      · exact absurd hlt (lt_irrefl _)
  sorted := by
    show (lane.flight ++ [lane.log.length]).Pairwise (· < ·)
    rw [List.pairwise_append]
    refine ⟨h.sorted, List.pairwise_singleton _ _, fun a ha b hb => ?_⟩
    obtain rfl := List.mem_singleton.mp hb
    exact h.bound a ha
  bound := fun n hn => by
    show n < (lane.log ++ [x]).length
    rw [List.length_append, List.length_singleton]
    rcases List.mem_append.mp hn with hn | hn
    · exact Nat.lt_succ_of_lt (h.bound n hn)
    · obtain rfl := List.mem_singleton.mp hn
      exact Nat.lt_succ_self _
  taken := fun n hlt hout => by
    have hlt : n < (lane.log ++ [x]).length := hlt
    have hout : n ∉ lane.flight ++ [lane.log.length] := hout
    rw [List.length_append, List.length_singleton] at hlt
    rw [List.mem_append, List.mem_singleton, not_or] at hout
    exact h.taken n (by omega) hout.1
  room := fun hc => by
    have := hroom hc
    show (lane.flight ++ [lane.log.length]).length ≤ streams
    rw [List.length_append, List.length_singleton]
    omega
  ordered := fun hc n hn t ht => by
    rcases List.mem_append.mp hn with hn | hn
    · exact h.ordered hc n hn t ht
    · obtain rfl := List.mem_singleton.mp hn
      exact (h.opened t ht).1

theorem mem_flight_of_arrives (h : lane.arrives c n = true) : n ∈ lane.flight := by
  unfold arrives at h
  split at h
  · simpa using h
  · exact List.mem_of_head? (by simpa using h)

theorem Tidy.head_le (h : lane.Tidy c streams S) (hc : c.isStreamPerMessage = false)
    (harrives : lane.arrives c n = true) : ∀ m ∈ lane.flight, n ≤ m := by
  unfold arrives at harrives
  rw [if_neg (by simp [hc])] at harrives
  have hhead : lane.flight.head? = some n := by simpa using harrives
  intro m hm
  have hsorted := h.sorted
  cases hflight : lane.flight with
  | nil =>
    rw [hflight] at hm
    cases hm
  | cons a rest =>
    rw [hflight] at hhead hm hsorted
    cases hhead
    rcases List.mem_cons.mp hm with rfl | hm
    · exact le_rfl
    · exact le_of_lt ((List.pairwise_cons.mp hsorted).1 m hm)

/-- As many are under way as there are counters between the opened ones and a
later one. -/
theorem Tidy.gap_le (h : lane.Tidy c streams S) (hc : c.isStreamPerMessage = true) {a b : ℕ}
    (hb : b ≤ lane.log.length) (hS : ∀ t ∈ S, t < a) : b - a ≤ streams := by
  have hsub : List.range' a (b - a) ⊆ lane.flight := by
    intro m hm
    rw [List.mem_range'_1] at hm
    by_contra hout
    obtain ⟨t, ht, hle⟩ := h.taken m (by omega) hout
    have := hS t ht
    omega
  have hlen := (List.subperm_of_subset (List.nodup_range' ..) hsub).length_le
  rw [List.length_range'] at hlen
  exact hlen.trans (h.room hc)

section Opening

variable (h : lane.Tidy c streams S) (hlen : lane.log.length ≤ 2 ^ 64) (hstreams : streams < 2 ^ 31)
  (harrives : lane.arrives c n = true)
include h hlen hstreams harrives

theorem Tidy.openAt_ok (x : α)
    (hnear : c.isStreamPerMessage = true → (∀ t ∈ S, t < n) ∨ ∀ t ∈ S, t < n + 64)
    (hwidth : c.isStreamPerMessage = true → widthOf c = 64) :
    ∃ st, lane.openAt c n x = (.ok x, st) ∧ st.Holds (widthOf c) (insert n S) := by
  have hin := mem_flight_of_arrives harrives
  have hlt := h.bound n hin
  have hmod : n % 2 ^ 64 = n := Nat.mod_eq_of_lt (by omega)
  unfold openAt
  rw [hmod]
  refine openWith_eq_ok c _ h.holds (fun t ht => ?_) (by omega) ?_ ?_ ?_ ?_ (if_pos rfl)
  · have := (h.opened t ht).1
    omega
  · -- Nothing was opened: what was sealed before is all under way.
    rintro rfl
    cases hc : c.isStreamPerMessage with
    | true =>
      have := h.gap_le hc hlt.le (a := 0) fun t ht => ht.elim
      omega
    | false =>
      by_contra hbig
      obtain ⟨t, ht, -⟩ := h.taken (n - 1) (by omega) fun hmem => by
        have := h.head_le hc harrives _ hmem
        omega
      exact ht.elim
  · rintro ⟨t₀, ht₀⟩
    by_contra hfar
    simp only [not_exists, not_and, Nat.not_lt] at hfar
    cases hc : c.isStreamPerMessage with
    | true =>
      have h0 := hfar t₀ ht₀
      have := h.gap_le hc hlt (a := n - 2 ^ 31 + 1) fun t ht => by
        have := hfar t ht
        omega
      omega
    | false =>
      have h0 := hfar t₀ ht₀
      obtain ⟨t, ht, hle⟩ := h.taken (n - 1) (by omega) fun hmem => by
        have := h.head_le hc harrives _ hmem
        omega
      have := hfar t ht
      omega
  · intro t ht
    cases hc : c.isStreamPerMessage with
    | true =>
      rcases hnear hc with hall | hall
      · have := hall t ht
        omega
      · have := hall t ht
        omega
    | false =>
      have := h.ordered hc n hin t ht
      omega
  · cases hc : c.isStreamPerMessage with
    | true =>
      rcases hnear hc with hall | hall
      · exact .inl hall
      · refine .inr ⟨fun hmem => (h.opened n hmem).2 hin, fun t ht => ?_⟩
        have := hall t ht
        rw [hwidth hc]
        omega
    | false => exact .inl (h.ordered hc n hin)

theorem Tidy.take (x : α) (hwidth : c.isStreamPerMessage = true → widthOf c = 64) :
    ∃ S', (lane.take c n x).2.Tidy c streams S' := by
  have hin := mem_flight_of_arrives harrives
  have hlt := h.bound n hin
  have hnodup : lane.flight.Nodup := h.sorted.imp Nat.ne_of_lt
  have herase : ∀ m, m ∈ lane.flight.erase n ↔ m ≠ n ∧ m ∈ lane.flight := fun m =>
    hnodup.mem_erase_iff
  have hsub : (lane.flight.erase n).Sublist lane.flight := List.erase_sublist
  -- What the rest of the lane needs of the counters opened now.
  have hrest : ∀ S' : Set ℕ, (lane.openAt c n x).2.Holds (widthOf c) S' → S' ⊆ insert n S →
      S ⊆ S' → (∃ t ∈ S', n ≤ t) → (lane.take c n x).2.Tidy c streams S' := by
    intro S' hholds hup hdown hn
    refine ⟨hholds, fun m hm => ?_, h.sorted.sublist hsub, fun m hm => h.bound m (hsub.subset hm),
      fun m hm hout => ?_, fun hc => hsub.length_le.trans (h.room hc), fun hc m hm t ht => ?_⟩
    · have hm' : m ∉ lane.flight.erase n := by
        rw [herase]
        rintro ⟨hne, hmem⟩
        rcases hup hm with rfl | hm
        · exact hne rfl
        · exact (h.opened m hm).2 hmem
      rcases hup hm with rfl | hmS
      · exact ⟨hlt, hm'⟩
      · exact ⟨(h.opened m hmS).1, hm'⟩
    · have hout : m ∉ lane.flight.erase n := hout
      rw [herase, not_and] at hout
      by_cases hmn : m = n
      · subst hmn
        exact hn
      · obtain ⟨t, ht, hle⟩ := h.taken m hm (hout hmn)
        exact ⟨t, hdown ht, hle⟩
    · obtain ⟨hne, hmem⟩ := (herase m).mp hm
      rcases hup ht with rfl | ht
      · have := h.head_le hc harrives m hmem
        omega
      · exact h.ordered hc m hmem t ht
  by_cases hnew : ∀ t ∈ S, t < n
  · obtain ⟨st, hopen, hholds⟩ := h.openAt_ok hlen hstreams harrives x (fun _ => .inl hnew) hwidth
    refine ⟨insert n S, hrest _ ?_ subset_rfl (Set.subset_insert _ _) ⟨n, Set.mem_insert _ _, le_rfl⟩⟩
    rwa [hopen]
  · simp only [not_forall, Nat.not_lt] at hnew
    obtain ⟨t, ht, hle⟩ := hnew
    cases hres : (lane.openAt c n x).1 with
    | error error =>
      have hsame : (lane.openAt c n x).2 = lane.opener := openWith_error (Prod.ext hres rfl)
      refine ⟨S, hrest _ ?_ (Set.subset_insert _ _) subset_rfl ⟨t, ht, hle⟩⟩
      rw [hsame]
      exact h.holds
    | ok y =>
      obtain ⟨hdecrypt, -, hholds⟩ := openWith_ok h.holds (Prod.ext hres rfl)
      have hseq : lane.opener.expander.expand (UInt32.ofNat (n % 2 ^ 64)) = n % 2 ^ 64 := by
        by_contra hne
        rw [if_neg hne] at hdecrypt
        cases hdecrypt
      have hself : insert (n % 2 ^ 64) S = insert n S := by rw [Nat.mod_eq_of_lt (by omega)]
      rw [hseq, hself] at hholds
      exact ⟨insert n S, hrest _ hholds subset_rfl (Set.subset_insert _ _)
        ⟨t, Set.mem_insert_of_mem _ ht, hle⟩⟩

/-- **A copy that few newer ones were sealed after is opened.** -/
theorem Tidy.take_ok (x : α) (hwidth : c.isStreamPerMessage = true → widthOf c = 64)
    (hnear : lane.log.length ≤ n + 64) : (lane.take c n x).1 = .ok x := by
  obtain ⟨st, hopen, -⟩ := h.openAt_ok hlen hstreams harrives x (fun _ => .inr fun t ht => by
    have := (h.opened t ht).1
    omega) hwidth
  show (lane.openAt c n x).1 = .ok x
  rw [hopen]

end Opening

end Lane

end NebulaDesk
