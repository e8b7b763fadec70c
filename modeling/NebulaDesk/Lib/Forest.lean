/-
Forests given by parent pointers.

A parent map `up : κ → Option κ` is a forest when climbing from any node ends,
that is when `Parent up` is well founded.  Pointing one node at a new parent
keeps a forest if the climb from that parent never meets the node
(`wellFounded_update`), and a climb visits each node at most once, so it is no
longer than the number of nodes (`climb_length_le`).  Every nonempty finite set of
nodes has a root and a leaf (`exists_root`, `exists_leaf`), and finitely many links
without a cycle are a forest (`wellFounded_of_finite`).
-/
import Mathlib

namespace Forest

variable {κ : Type*} {up : κ → Option κ}

/-- `p` is the parent of `c`. -/
def Parent (up : κ → Option κ) (p c : κ) : Prop := up c = some p

/-- No node is its own proper ancestor. -/
def Acyclic (up : κ → Option κ) : Prop := ∀ a, ¬ Relation.TransGen (Parent up) a a

theorem acyclic_of_wellFounded (h : WellFounded (Parent up)) : Acyclic up := by
  intro a ha
  have : IsWellFounded κ (Relation.TransGen (Parent up)) := ⟨h.transGen⟩
  exact irrefl_of (Relation.TransGen (Parent up)) a ha

theorem acyclic_of_lt {up : ℕ → Option ℕ} (h : ∀ c p, up c = some p → p < c) : Acyclic up := by
  have hlt : ∀ a b, Relation.TransGen (Parent up) a b → a < b := by
    intro a b hab
    induction hab with
    | single hp => exact h _ _ hp
    | tail _ hp ih => exact ih.trans (h _ _ hp)
  intro a ha
  exact lt_irrefl a (hlt a a ha)

/-- The climb from `a` ends at a root without meeting `x`. -/
inductive Avoids (up : κ → Option κ) (x : κ) : κ → Prop
  | root {a : κ} : a ≠ x → up a = none → Avoids up x a
  | step {a b : κ} : a ≠ x → up a = some b → Avoids up x b → Avoids up x a

theorem Avoids.ne {x a : κ} (h : Avoids up x a) : a ≠ x := by
  cases h with
  | root hne _ => exact hne
  | step hne _ _ => exact hne

theorem wellFounded_cut [DecidableEq κ] (h : WellFounded (Parent up)) (x : κ) :
    WellFounded (Parent (Function.update up x none)) := by
  refine Subrelation.wf ?_ h
  intro p c hpc
  unfold Parent at *
  rw [Function.update_apply] at hpc
  split at hpc
  · cases hpc
  · exact hpc

variable {a : κ}

theorem acc_of_avoids [DecidableEq κ] {x : κ} {v : Option κ} (h : Avoids up x a) :
    Acc (Parent (Function.update up x v)) a := by
  induction h with
  | root hne hup =>
    refine ⟨_, fun p hp => ?_⟩
    rw [Parent, Function.update_of_ne hne, hup] at hp
    cases hp
  | step hne hup _ ih =>
    refine ⟨_, fun p hp => ?_⟩
    rw [Parent, Function.update_of_ne hne, hup] at hp
    cases hp
    exact ih

/-- **Re-parenting.**  Pointing `x` at `p` keeps a forest when the climb from
`p` avoids `x`. -/
theorem wellFounded_update [DecidableEq κ] (h : WellFounded (Parent up)) {x p : κ} (hp : Avoids up x p) :
    WellFounded (Parent (Function.update up x (some p))) := by
  have hx : Acc (Parent (Function.update up x (some p))) x := by
    refine ⟨_, fun q hq => ?_⟩
    rw [Parent, Function.update_self] at hq
    cases hq
    exact acc_of_avoids hp
  refine ⟨fun a => ?_⟩
  induction a using h.induction with
  | _ a ih =>
    by_cases hax : a = x
    · subst hax
      exact hx
    · refine ⟨_, fun q hq => ?_⟩
      rw [Parent, Function.update_of_ne hax] at hq
      exact ih q hq

/-- The nodes met by climbing `n` times from `a`, if there are that many. -/
def climb (up : κ → Option κ) : ℕ → κ → Option (List κ)
  | 0, a => some [a]
  | n + 1, a =>
    match up a with
    | none => none
    | some b => (climb up n b).map (a :: ·)

variable {l : List κ}

theorem climb_length {n : ℕ} (h : climb up n a = some l) : l.length = n + 1 := by
  induction n generalizing a l with
  | zero =>
    cases h
    rfl
  | succ n ih =>
    unfold climb at h
    split at h
    · cases h
    · obtain ⟨l', hl', rfl⟩ := Option.map_eq_some_iff.mp h
      simp [ih hl']

theorem climb_ancestor {n : ℕ} (h : climb up n a = some l) :
    ∃ t, l = a :: t ∧ ∀ b ∈ t, Relation.TransGen (Parent up) b a := by
  induction n generalizing a l with
  | zero =>
    cases h
    exact ⟨[], rfl, by simp⟩
  | succ n ih =>
    unfold climb at h
    split at h
    · cases h
    · rename_i b hb
      obtain ⟨l', hl', rfl⟩ := Option.map_eq_some_iff.mp h
      obtain ⟨t, rfl, ht⟩ := ih hl'
      refine ⟨b :: t, rfl, fun c hc => ?_⟩
      rcases List.mem_cons.mp hc with rfl | hc
      · exact Relation.TransGen.single hb
      · exact (ht c hc).tail hb

theorem climb_nodup (hac : Acyclic up) {n : ℕ} (h : climb up n a = some l) : l.Nodup := by
  induction n generalizing a l with
  | zero =>
    cases h
    simp
  | succ n ih =>
    obtain ⟨t, hl, ht⟩ := climb_ancestor h
    unfold climb at h
    split at h
    · cases h
    · obtain ⟨l', hl', rfl⟩ := Option.map_eq_some_iff.mp h
      obtain rfl := (List.cons.inj hl).2
      exact List.nodup_cons.mpr ⟨fun ha => hac a (ht a ha), ih hl'⟩

theorem climb_length_le [DecidableEq κ] (hac : Acyclic up) {s : Finset κ} {n : ℕ}
    (h : climb up n a = some l) (hs : ∀ b ∈ l, b ∈ s) : n + 1 ≤ s.card := by
  have hcard : l.toFinset.card = n + 1 := by
    rw [List.toFinset_card_of_nodup (climb_nodup hac h), climb_length h]
  rw [← hcard]
  exact Finset.card_le_card fun b hb => hs b (List.mem_toFinset.mp hb)

/-- A climb that never meets `x`: nothing from `x` down leads to `a`. -/
theorem avoids_of_not_ancestor (h : WellFounded (Parent up)) {x a : κ}
    (hno : ¬ Relation.ReflTransGen (Parent up) x a) : Avoids up x a := by
  induction a using h.induction with
  | _ a ih =>
    have hne : a ≠ x := by
      rintro rfl
      exact hno .refl
    cases hup : up a with
    | none => exact .root hne hup
    | some b =>
      refine .step hne hup (ih b hup ?_)
      intro hxb
      exact hno (hxb.tail hup)

/-! ### Roots and leaves of a finite set of nodes -/

/-- Descent inside a set of nodes. -/
def Below (up : κ → Option κ) (s : Finset κ) (a b : {x // x ∈ s}) : Prop :=
  Relation.TransGen (Parent up) a.1 b.1

instance (up : κ → Option κ) (s : Finset κ) : IsTrans {x // x ∈ s} (Below up s) :=
  ⟨fun _ _ _ hab hbc => hab.trans hbc⟩

/-- A nonempty finite set of nodes without cycles has one whose parent is not in
the set. -/
theorem exists_root (hac : Acyclic up) {s : Finset κ} (hne : s.Nonempty) :
    ∃ a ∈ s, ∀ p ∈ s, up a ≠ some p := by
  have : Std.Irrefl (Below up s) := ⟨fun a => hac a.1⟩
  have hwf := Finite.wellFounded_of_trans_of_irrefl (Below up s)
  obtain ⟨x, hx⟩ := hne
  obtain ⟨a, -, hmin⟩ := hwf.has_min Set.univ ⟨⟨x, hx⟩, trivial⟩
  refine ⟨a.1, a.2, ?_⟩
  intro p hp hup
  exact hmin ⟨p, hp⟩ trivial (.single hup)

theorem exists_leaf (hac : Acyclic up) {s : Finset κ} (hne : s.Nonempty) :
    ∃ a ∈ s, ∀ c ∈ s, up c ≠ some a := by
  have : Std.Irrefl (Function.swap (Below up s)) := ⟨fun a => hac a.1⟩
  have hwf := Finite.wellFounded_of_trans_of_irrefl (Function.swap (Below up s))
  obtain ⟨x, hx⟩ := hne
  obtain ⟨a, -, hmin⟩ := hwf.has_min Set.univ ⟨⟨x, hx⟩, trivial⟩
  refine ⟨a.1, a.2, ?_⟩
  intro c hc hup
  exact hmin ⟨c, hc⟩ trivial (.single hup)

theorem wellFounded_of_finite (hac : Acyclic up) (s : Finset κ) (hs : ∀ c, up c ≠ none → c ∈ s) :
    WellFounded (Parent up) := by
  have hroot : ∀ a, a ∉ s → Acc (Parent up) a := by
    intro a ha
    refine ⟨_, fun p hp => ?_⟩
    refine absurd (hs a ?_) ha
    rw [show up a = some p from hp]
    simp
  have : Std.Irrefl (Below up s) := ⟨fun a => hac a.1⟩
  have hwf := Finite.wellFounded_of_trans_of_irrefl (Below up s)
  have hmem : ∀ a : {x // x ∈ s}, Acc (Parent up) a.1 := by
    intro a
    induction a using hwf.induction with
    | _ a ih =>
      refine ⟨_, fun p hp => ?_⟩
      by_cases hps : p ∈ s
      · exact ih ⟨p, hps⟩ (.single hp)
      · exact hroot p hps
  refine ⟨fun a => ?_⟩
  by_cases ha : a ∈ s
  · exact hmem ⟨a, ha⟩
  · exact hroot a ha

end Forest
