/-
Whole histories of replay windows and expanders (`ndp-crypto/src/replay.rs`).

* **`window_exact`** — after any calls, a window accepts what is newer than all it has accepted, or
  new and less than its width behind the newest.
* **`expansion_exact`** — after any commits, the low half of a counter near the highest one expands
  to that counter.
-/
import NebulaDesk.Crypto.Replay
import NebulaDesk.Lib.Runs

namespace NebulaDesk

open Runs

namespace ReplayWindow

/-- A window and the counters it has accepted. -/
structure History where
  window : ReplayWindow
  accepted : List ℕ
deriving DecidableEq

namespace History

def start (width : ℕ) : History := ⟨withWidth width, []⟩

/-- One call of `accept`. -/
def step (h : History) (seq : ℕ) : History :=
  match h.window.accept seq with
  | (true, window) => ⟨window, h.accepted ++ [seq]⟩
  | (false, window) => ⟨window, h.accepted⟩

/-- The window and what it has accepted, after some calls. -/
def after (width : ℕ) (calls : List ℕ) : History :=
  run step (start width) calls

/-- The window represents the counters it has accepted. -/
structure Inv (width : ℕ) (h : History) : Prop where
  holds : h.window.Holds {s | s ∈ h.accepted}
  width_eq : h.window.width = width

theorem inv_start {width : ℕ} (hw : width ≤ 64) : (start width).Inv width where
  holds := by
    have hempty : {s | s ∈ (start width).accepted} = (∅ : Set ℕ) := by simp [start]
    rw [hempty]
    exact holds_withWidth width
  width_eq := min_eq_left hw

theorem Inv.step {width : ℕ} {h : History} (hinv : h.Inv width) (seq : ℕ) :
    (h.step seq).Inv width := by
  have hfst := accept_fst h.window seq
  have hwidth := accept_width h.window seq
  have haccept := hinv.holds.accept (s := seq)
  have hsame := accept_snd_of_refused (w := h.window) (s := seq)
  unfold History.step
  rcases hcall : h.window.accept seq with ⟨accepted, window⟩
  rw [hcall] at hfst hwidth haccept hsame
  cases accepted with
  | true =>
    refine ⟨?_, hwidth.trans hinv.width_eq⟩
    have hset : {s | s ∈ h.accepted ++ [seq]} = insert seq {s | s ∈ h.accepted} := by
      ext s
      simp [or_comm]
    show window.Holds {s | s ∈ h.accepted ++ [seq]}
    rw [hset]
    exact haccept hfst.symm
  | false =>
    obtain rfl : window = h.window := hsame hfst.symm
    exact ⟨hinv.holds, hinv.width_eq⟩

theorem inv_after {width : ℕ} (hw : width ≤ 64) (calls : List ℕ) : (after width calls).Inv width :=
  run_invariant (fun _ seq hinv => hinv.step seq) (inv_start hw) calls

end History

theorem admits_iff {width s : ℕ} {accepted : List ℕ} :
    Admits width {t | t ∈ accepted} s ↔
      accepted = [] ∨ (∀ t ∈ accepted, t < s) ∨
        ∃ highest ∈ accepted, (∀ t ∈ accepted, t ≤ highest) ∧
          highest - s < max width 1 ∧ s ∉ accepted := by
  constructor
  · rintro (hnewer | ⟨hnew, hnear⟩)
    · exact .inr (.inl hnewer)
    · by_cases hnil : accepted = []
      · exact .inl hnil
      · -- the largest of the list
        have hne : accepted.toFinset.Nonempty := by
          rwa [List.toFinset_nonempty_iff]
        refine .inr (.inr ⟨accepted.toFinset.max' hne, ?_, ?_, ?_, hnew⟩)
        · exact List.mem_toFinset.mp (Finset.max'_mem _ hne)
        · exact fun t ht => Finset.le_max' _ t (List.mem_toFinset.mpr ht)
        · exact hnear _ (List.mem_toFinset.mp (Finset.max'_mem _ hne))
  · rintro (rfl | hnewer | ⟨highest, -, hmax, hnear, hnew⟩)
    · exact .inl (by simp)
    · exact .inl hnewer
    · refine .inr ⟨hnew, fun t ht => ?_⟩
      have := hmax t ht
      omega

/-- After any calls, `accept` says yes to a counter exactly if nothing was accepted before, or it is
newer than all that was, or it was not and is less than the width behind the newest; a call that
says no changes nothing, and `would_accept` says what `accept` would. -/
theorem window_exact {width : ℕ} (hw : width ≤ 64) (calls : List ℕ) (s : ℕ) :
    (((History.after width calls).window.accept s).1 = true ↔
      (History.after width calls).accepted = [] ∨
        (∀ t ∈ (History.after width calls).accepted, t < s) ∨
          ∃ highest ∈ (History.after width calls).accepted,
            (∀ t ∈ (History.after width calls).accepted, t ≤ highest) ∧
              highest - s < max width 1 ∧ s ∉ (History.after width calls).accepted) ∧
    (((History.after width calls).window.accept s).1 = false →
      ((History.after width calls).window.accept s).2 = (History.after width calls).window) ∧
    (History.after width calls).window.wouldAccept s =
      ((History.after width calls).window.accept s).1 := by
  have hinv := History.inv_after hw calls
  have hfst := accept_fst (History.after width calls).window s
  refine ⟨?_, fun hno => accept_snd_of_refused (hfst.symm.trans hno), hfst.symm⟩
  rw [hfst, wouldAccept_iff hinv.holds, hinv.width_eq]
  exact admits_iff

/-- Far ahead, back by less than the width, and the same again. -/
theorem window_exact_reordered :
    (History.after 64 [5, 2 ^ 64 - 1, 2 ^ 64 - 30, 2 ^ 64 - 30]).accepted =
        [5, 2 ^ 64 - 1, 2 ^ 64 - 30] ∧
      (History.after 64 [5, 2 ^ 64 - 1, 2 ^ 64 - 30, 2 ^ 64 - 30]).window.wouldAccept
        (2 ^ 64 - 64) = true ∧
      (History.after 64 [5, 2 ^ 64 - 1, 2 ^ 64 - 30, 2 ^ 64 - 30]).window.wouldAccept
        (2 ^ 64 - 65) = false := by
  have hexact := window_exact (le_refl 64) [5, 2 ^ 64 - 1, 2 ^ 64 - 30, 2 ^ 64 - 30]
  refine ⟨by decide, ?_, by decide⟩
  rw [(hexact (2 ^ 64 - 64)).2.2]
  refine (hexact (2 ^ 64 - 64)).1.mpr (.inr (.inr ⟨2 ^ 64 - 1, by decide, by decide, by decide,
    by decide⟩))

end ReplayWindow

namespace SeqExpander

/-- The expander after some authenticated counters. -/
def after (commits : List UInt64) : SeqExpander :=
  run (fun e (full : UInt64) => e.commit full.toNat) new commits

theorem holds_after (commits : List UInt64) :
    (after commits).Holds {s | ∃ full ∈ commits, full.toNat = s} := by
  induction commits using List.reverseRecOn with
  | nil => simpa [after] using holds_new
  | append_singleton commits full ih =>
    have hset : {s | ∃ f ∈ commits ++ [full], f.toNat = s} =
        insert full.toNat {s | ∃ f ∈ commits, f.toNat = s} := by
      ext s
      simp only [List.mem_append, List.mem_singleton, or_and_right, exists_or, Set.mem_ofPred_eq,
        Set.mem_insert_iff, exists_eq_left]
      rw [or_comm, eq_comm]
    rw [hset, after, run_append]
    exact ih.commit full.toNat

theorem highest_commit {e : SeqExpander} (hstarted : e.started = true) (s : ℕ) :
    (e.commit s).highest = max e.highest s := by
  unfold commit
  by_cases h : s > e.highest
  · rw [if_pos (.inr h), max_eq_right h.le]
  · rw [if_neg (by simp [hstarted, h]), max_eq_left (not_lt.mp h)]

/-- After any commits the highest counter is the largest of them; a counter of 64 bits less than
`2 ^ 31` away from it, or one of 32 bits before any commit, is what its low half expands to, and
committing it leaves the larger of the two. -/
theorem expansion_exact (commits : List UInt64) (s : UInt64) :
    (commits = [] → s.toNat < 2 ^ 32 →
      (after commits).expand (UInt32.ofNat s.toNat) = s.toNat ∧
        ((after commits).commit s.toNat).highest = s.toNat) ∧
    (commits ≠ [] →
      (∃ full ∈ commits, full.toNat = (after commits).highest) ∧
      (∀ full ∈ commits, full.toNat ≤ (after commits).highest) ∧
      (s.toNat < (after commits).highest + 2 ^ 31 → (after commits).highest < s.toNat + 2 ^ 31 →
        (after commits).expand (UInt32.ofNat s.toNat) = s.toNat ∧
          ((after commits).commit s.toNat).highest = max (after commits).highest s.toNat)) := by
  have hs : s.toNat < 2 ^ 64 := s.toNat_lt
  have hholds := holds_after commits
  constructor
  · rintro rfl hfirst
    refine ⟨expand_eq hs (by decide) (fun _ => hfirst) fun h => (nomatch h), rfl⟩
  · intro hne
    obtain ⟨full, hfull⟩ := List.exists_mem_of_ne_nil commits hne
    have hstarted : (after commits).started = true :=
      hholds.started_iff.mpr ⟨full.toNat, full, hfull, rfl⟩
    obtain ⟨top, htop, heq⟩ := hholds.highest_mem hstarted
    have hhighest : (after commits).highest < 2 ^ 64 := by
      rw [show (after commits).highest = top.toNat from heq.symm]
      exact top.toNat_lt
    refine ⟨⟨top, htop, heq⟩, fun f hf => hholds.le_highest _ ⟨f, hf, rfl⟩, fun hup hdown => ?_⟩
    refine ⟨expand_eq hs hhighest (fun h => ?_) fun _ => ⟨hup, hdown⟩,
      highest_commit hstarted s.toNat⟩
    rw [hstarted] at h
    cases h

/-- At the half-range boundary, over the end of an epoch and back. -/
theorem expansion_exact_rollover :
    (after [0xffffffff]).expand (UInt32.ofNat 0x17ffffffe) = 0x17ffffffe ∧
      (after [0x180000000]).expand (UInt32.ofNat 0x100000001) = 0x100000001 ∧
      ((after [0xffffffff]).commit 0x17ffffffe).highest = 0x17ffffffe := by
  have hnext := (expansion_exact [0xffffffff] 0x17ffffffe).2 (by decide)
  have hback := (expansion_exact [0x180000000] 0x100000001).2 (by decide)
  exact ⟨(hnext.2.2 (by decide) (by decide)).1, (hback.2.2 (by decide) (by decide)).1,
    (hnext.2.2 (by decide) (by decide)).2⟩

end SeqExpander

end NebulaDesk
