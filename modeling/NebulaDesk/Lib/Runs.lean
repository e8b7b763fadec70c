/-
Runs of state machines.

A machine is a total step function `step : σ → α → σ` whose runs are folds over
lists of events, or a guarded one `step : σ → α → Option σ` whose runs are the
states `Reach`able from an initial one.  Each invariant rule asks for the
initial state and one step, and gives every state of every run.
-/
import Mathlib

namespace Runs

variable {σ α : Type*}

/-- The state after a list of events. -/
def run (step : σ → α → σ) (s : σ) (events : List α) : σ := events.foldl step s

@[simp] theorem run_nil (step : σ → α → σ) (s : σ) : run step s [] = s := rfl

@[simp] theorem run_cons (step : σ → α → σ) (s : σ) (e : α) (es : List α) :
    run step s (e :: es) = run step (step s e) es := rfl

theorem run_append (step : σ → α → σ) (s : σ) (es fs : List α) :
    run step s (es ++ fs) = run step (run step s es) fs := List.foldl_append

/-- **Invariant rule** for total machines. -/
theorem run_invariant {step : σ → α → σ} {P : σ → Prop} (hstep : ∀ s e, P s → P (step s e)) {s : σ}
    (h : P s) (events : List α) : P (run step s events) := by
  induction events generalizing s with
  | nil => exact h
  | cons e es ih => exact ih (hstep s e h)

/-- The states of the runs of a guarded machine. -/
inductive Reach (step : σ → α → Option σ) (init : σ) : σ → Prop
  | init : Reach step init init
  | step {s s' : σ} (a : α) : Reach step init s → step s a = some s' → Reach step init s'

theorem some_of_guard {p : Prop} [Decidable p] {a b : α}
    (h : (if p then some a else none) = some b) : p ∧ a = b := by
  obtain ⟨hp, h⟩ := Option.ite_none_right_eq_some.mp h
  exact ⟨hp, Option.some.inj h⟩

theorem some_of_unless {p : Prop} [Decidable p] {a b : α}
    (h : (if p then none else some a) = some b) : ¬ p ∧ a = b := by
  obtain ⟨hp, h⟩ := Option.ite_none_left_eq_some.mp h
  exact ⟨hp, Option.some.inj h⟩

variable {step : σ → α → Option σ}

/-- **Invariant rule** for guarded machines. -/
theorem Reach.invariant {init s : σ} {P : σ → Prop} (hr : Reach step init s) (hinit : P init)
    (hstep : ∀ s s' a, P s → step s a = some s' → P s') : P s := by
  induction hr with
  | init => exact hinit
  | step a _ hs ih => exact hstep _ _ a ih hs

theorem Reach.invariant_with {init s : σ} {P Q : σ → Prop}
    (hr : Reach step init s) (hQ : ∀ s, Reach step init s → Q s) (hinit : P init)
    (hstep : ∀ s s' a, Q s → P s → step s a = some s' → P s') : P s := by
  induction hr with
  | init => exact hinit
  | step a hs' hs ih => exact hstep _ _ a (hQ _ hs') ih hs

/-- The state after a list of events, if each of them was enabled. -/
def tryRun (step : σ → α → Option σ) (s : σ) (events : List α) : Option σ :=
  events.foldlM step s

theorem reach_of_tryRun {init s s' : σ} (hr : Reach step init s)
    {events : List α} (h : tryRun step s events = some s') : Reach step init s' := by
  induction events generalizing s with
  | nil =>
    cases h
    exact hr
  | cons e es ih =>
    unfold tryRun at h
    rw [List.foldlM_cons] at h
    obtain ⟨t, ht, hrest⟩ := Option.bind_eq_some_iff.mp h
    exact ih (hr.step e ht) hrest

/-- The states of the runs of a guarded machine, with what is observed of their
steps. -/
inductive Observed {β : Type*} (step : σ → α → Option σ) (observe : σ → α → σ → Option β)
    (init : σ) : σ → List β → Prop
  | init : Observed step observe init init []
  | step {s s' : σ} {history : List β} (a : α) : Observed step observe init s history →
      step s a = some s' → Observed step observe init s' (history ++ (observe s a s').toList)

theorem Observed.invariant {β : Type*} {observe : σ → α → σ → Option β}
    {init s : σ} {history : List β} {P : σ → List β → Prop}
    (hr : Observed step observe init s history) (hinit : P init [])
    (hstep : ∀ s s' history a, P s history → step s a = some s' →
      P s' (history ++ (observe s a s').toList)) : P s history := by
  induction hr with
  | init => exact hinit
  | step a _ hs ih => exact hstep _ _ _ a ih hs

/-- The state after a list of events and what was observed on the way. -/
def tryObserve {β : Type*} (step : σ → α → Option σ) (observe : σ → α → σ → Option β) :
    σ → List α → Option (σ × List β)
  | s, [] => some (s, [])
  | s, a :: as =>
    (step s a).bind fun s' =>
      (tryObserve step observe s' as).map fun r => (r.1, (observe s a s').toList ++ r.2)

theorem observed_of_tryObserve {β : Type*} {observe : σ → α → σ → Option β} {init s t : σ}
    {before after : List β} (hr : Observed step observe init s before) {events : List α}
    (h : tryObserve step observe s events = some (t, after)) :
    Observed step observe init t (before ++ after) := by
  induction events generalizing s before after with
  | nil =>
    cases h
    rwa [List.append_nil]
  | cons a as ih =>
    obtain ⟨s', hs, hrest⟩ := Option.bind_eq_some_iff.mp h
    obtain ⟨⟨t', rest⟩, htry, heq⟩ := Option.map_eq_some_iff.mp hrest
    cases heq
    rw [← List.append_assoc]
    exact ih (hr.step a hs) htry

theorem Observed.mono {β : Type*} {few : σ → α → Option σ} {observe : σ → α → σ → Option β}
    {init s : σ} {history : List β} (hr : Observed few observe init s history)
    (h : ∀ s a s', few s a = some s' → step s a = some s') :
    Observed step observe init s history := by
  induction hr with
  | init => exact .init
  | step a _ hs ih => exact ih.step a (h _ _ _ hs)

theorem Observed.trans {β : Type*} {observe : σ → α → σ → Option β}
    {init s t : σ} {before later : List β} (hr : Observed step observe init s before)
    (hs : Observed step observe s t later) : Observed step observe init t (before ++ later) := by
  induction hs with
  | init => rwa [List.append_nil]
  | step a _ hstep ih =>
    rw [← List.append_assoc]
    exact ih.step a hstep

/-! ### Potentials

A number that pays for every observation bounds how much can be observed. -/

section Potential

variable {β : Type*} {step : σ → α → Option σ} {observe : σ → α → σ → Option β} {φ : σ → ℕ}

/-- Every observation costs at least one unit of `φ`. -/
def Pays (step : σ → α → Option σ) (observe : σ → α → σ → Option β) (φ : σ → ℕ) : Prop :=
  ∀ s a s', step s a = some s' → (observe s a s').toList.length + φ s' ≤ φ s

theorem Pays.length_add_le (h : Pays step observe φ) {init s : σ} {history : List β}
    (hr : Observed step observe init s history) : history.length + φ s ≤ φ init := by
  induction hr with
  | init => simp
  | step a _ hs ih =>
    have := h _ a _ hs
    rw [List.length_append]
    omega

theorem Pays.exists_silent (h : Pays step observe φ) (s : σ) :
    ∃ t history, Observed step observe s t history ∧
      ∀ u rest, Observed step observe t u rest → rest = [] := by
  induction hn : φ s using Nat.strong_induction_on generalizing s with
  | _ n ih =>
    by_cases hquiet : ∀ u rest, Observed step observe s u rest → rest = []
    · exact ⟨s, [], .init, hquiet⟩
    · push Not at hquiet
      obtain ⟨u, rest, hr, hne⟩ := hquiet
      have hle := h.length_add_le hr
      have hpos := List.length_pos_iff.mpr hne
      obtain ⟨t, history, ht, hsilent⟩ := ih (φ u) (by omega) u rfl
      exact ⟨t, rest ++ history, hr.trans ht, hsilent⟩

theorem Pays.eventually_silent (h : Pays step observe φ) {states : ℕ → σ} {acts : ℕ → α}
    (hrun : ∀ n, step (states n) (acts n) = some (states (n + 1))) :
    ∃ n, ∀ m, n ≤ m → observe (states m) (acts m) (states (m + 1)) = none := by
  have hanti : Antitone (φ ∘ states) := by
    refine antitone_nat_of_succ_le ?_
    intro n
    have := h _ _ _ (hrun n)
    simp only [Function.comp_apply]
    omega
  obtain ⟨n, hmin⟩ : ∃ n, ∀ m, (φ ∘ states) n ≤ (φ ∘ states) m := by
    obtain ⟨x, ⟨n, rfl⟩, hx⟩ := Nat.lt_wfRel.wf.has_min (Set.range (φ ∘ states)) ⟨_, 0, rfl⟩
    exact ⟨n, fun m => Nat.le_of_not_lt (hx _ ⟨m, rfl⟩)⟩
  refine ⟨n, ?_⟩
  intro m hm
  have hpay := h _ _ _ (hrun m)
  have hlow := hmin (m + 1)
  have hhigh := hanti hm
  simp only [Function.comp_apply] at hlow hhigh
  cases hobs : observe (states m) (acts m) (states (m + 1)) with
  | none => rfl
  | some b =>
    rw [hobs, Option.toList_some, List.length_singleton] at hpay
    omega

end Potential

/-! ### Histories -/

/-- Every entry of a history satisfies `P` together with what came before it. -/
def Each (P : List α → α → Prop) (history : List α) : Prop :=
  ∀ before e after, history = before ++ e :: after → P before e

theorem each_nil (P : List α → α → Prop) : Each P [] := by
  intro before e after h
  simp at h

theorem Each.snoc {P : List α → α → Prop} {history : List α} {e : α} (h : Each P history)
    (he : P history e) : Each P (history ++ [e]) := by
  intro before e' after heq
  rcases List.eq_nil_or_concat after with rfl | ⟨after', last, rfl⟩
  · obtain ⟨rfl, hlast⟩ := List.append_inj' heq rfl
    obtain rfl := List.singleton_inj.mp hlast
    exact he
  · have heq' : history ++ [e] = (before ++ e' :: after') ++ [last] := by simp [heq]
    obtain ⟨rfl, -⟩ := List.append_inj' heq' rfl
    exact h before e' after' rfl

theorem each_concat_iff {P : List α → α → Prop} {history : List α} {e : α} :
    Each P (history ++ [e]) ↔ Each P history ∧ P history e := by
  refine ⟨fun h => ⟨fun before e' after heq => ?_, h history e [] rfl⟩, fun h => h.1.snoc h.2⟩
  exact h before e' (after ++ [e]) (by simp [heq])

end Runs
