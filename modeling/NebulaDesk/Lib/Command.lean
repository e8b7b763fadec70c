/-
Commands over a state that may fail.

A command `Cmd σ ε α` returns a value or an error, and in either case the state
it leaves: an error does not undo what was done before it.  `Triple P m Q E`
says that from every state in `P` the command ends in `Q` with its value or in
`E` with its error; there is one rule for each way to build a command.
-/
import Mathlib

/-- A command: a value or an error, and the state it leaves. -/
def Cmd (σ ε α : Type) : Type := σ → Except ε α × σ

namespace Cmd

variable {σ ε α β : Type}

def pure (a : α) : Cmd σ ε α := fun s => (.ok a, s)

def throw (e : ε) : Cmd σ ε α := fun s => (.error e, s)

def bind (m : Cmd σ ε α) (f : α → Cmd σ ε β) : Cmd σ ε β := fun s =>
  match m s with
  | (.ok a, s') => f a s'
  | (.error e, s') => (.error e, s')

instance : Monad (Cmd σ ε) where
  pure := pure
  bind := bind

/-- Run a command and hand its error over as a value. -/
def attempt (m : Cmd σ ε α) : Cmd σ ε (Except ε α) := fun s => (.ok (m s).1, (m s).2)

/-- A result computed without touching the state. -/
def ofExcept (r : Except ε α) : Cmd σ ε α := fun s => (r, s)

/-- A result computed from the state, which stays. -/
def get (f : σ → Except ε α) : Cmd σ ε α := fun s => (f s, s)

/-- Change the state. -/
def modify (f : σ → σ) : Cmd σ ε Unit := fun s => (.ok (), f s)

/-- From `P`, the command ends in `Q` with its value or in `E` with its error. -/
def Triple (P : σ → Prop) (m : Cmd σ ε α) (Q : α → σ → Prop) (E : ε → σ → Prop) : Prop :=
  ∀ s, P s → (∀ a, (m s).1 = .ok a → Q a (m s).2) ∧ (∀ e, (m s).1 = .error e → E e (m s).2)

variable {P P' : σ → Prop} {Q Q' : α → σ → Prop} {E E' : ε → σ → Prop} {m : Cmd σ ε α}

theorem Triple.pure {a : α} (h : ∀ s, P s → Q a s) : Triple P (Pure.pure a : Cmd σ ε α) Q E := by
  intro s hs
  refine ⟨fun b hb => ?_, fun e he => ?_⟩
  · cases hb
    exact h s hs
  · cases he

theorem Triple.throw {e : ε} (h : ∀ s, P s → E e s) : Triple P (throw e : Cmd σ ε α) Q E := by
  intro s hs
  refine ⟨fun b hb => ?_, fun e' he => ?_⟩
  · cases hb
  · cases he
    exact h s hs

theorem Triple.ofExcept {r : Except ε α} (hok : ∀ a s, r = .ok a → P s → Q a s)
    (herr : ∀ e s, r = .error e → P s → E e s) : Triple P (ofExcept r) Q E :=
  fun s hs => ⟨fun a ha => hok a s ha hs, fun e he => herr e s he hs⟩

theorem Triple.get {f : σ → Except ε α} (hok : ∀ s a, P s → f s = .ok a → Q a s)
    (herr : ∀ s e, P s → f s = .error e → E e s) : Triple P (get f) Q E :=
  fun s hs => ⟨fun a ha => hok s a hs ha, fun e he => herr s e hs he⟩

theorem Triple.modify {f : σ → σ} {Q : Unit → σ → Prop} (h : ∀ s, P s → Q () (f s)) :
    Triple P (modify f) Q E :=
  fun s hs => ⟨fun _ _ => h s hs, fun _ he => nomatch he⟩

variable {f : α → Cmd σ ε β}

theorem bind_ok {s s' : σ} {a : α} (h : m s = (.ok a, s')) : (m >>= f) s = f a s' := by
  show Cmd.bind m f s = _
  rw [Cmd.bind, h]

theorem bind_error {s s' : σ} {e : ε} (h : m s = (.error e, s')) :
    (m >>= f) s = (.error e, s') := by
  show Cmd.bind m f s = _
  rw [Cmd.bind, h]

/-- **Sequencing**: the second command takes over where the first ended. -/
theorem Triple.bind {R : β → σ → Prop} (hm : Triple P m Q E)
    (hf : ∀ a, Triple (Q a) (f a) R E) : Triple P (m >>= f) R E := by
  intro s hs
  obtain ⟨hok, herr⟩ := hm s hs
  cases hr : m s with
  | mk result s' =>
    rw [hr] at hok herr
    cases result with
    | ok a =>
      rw [bind_ok hr]
      exact hf a s' (hok a rfl)
    | error e =>
      rw [bind_error hr]
      refine ⟨fun b hb => ?_, fun e' he => ?_⟩
      · cases hb
      · cases he
        exact herr e rfl

theorem Triple.attempt {R : Except ε α → σ → Prop}
    (h : Triple P m (fun a => R (.ok a)) (fun e => R (.error e))) : Triple P m.attempt R E := by
  intro s hs
  obtain ⟨hok, herr⟩ := h s hs
  refine ⟨fun r hr => ?_, fun e he => ?_⟩
  · cases hr
    show R (m s).1 (m s).2
    cases hres : (m s).1 with
    | ok a => exact hok a hres
    | error e => exact herr e hres
  · cases he

theorem Triple.consequence (h : Triple P m Q E) (hP : ∀ s, P' s → P s)
    (hQ : ∀ a s, Q a s → Q' a s) (hE : ∀ e s, E e s → E' e s) : Triple P' m Q' E' := by
  intro s hs
  obtain ⟨hok, herr⟩ := h s (hP s hs)
  exact ⟨fun a ha => hQ a _ (hok a ha), fun e he => hE e _ (herr e he)⟩

theorem Triple.ite {c : Prop} [Decidable c] {n : Cmd σ ε α} (hpos : c → Triple P m Q E)
    (hneg : ¬ c → Triple P n Q E) : Triple P (if c then m else n) Q E := by
  split
  · rename_i h
    exact hpos h
  · rename_i h
    exact hneg h

theorem Triple.of_ok (h : ∀ s, P s → ∃ a s', m s = (.ok a, s') ∧ Q a s') : Triple P m Q E := by
  intro s hs
  obtain ⟨a, s', hm, hq⟩ := h s hs
  rw [hm]
  refine ⟨fun b hb => ?_, fun e he => ?_⟩
  · cases hb
    exact hq
  · cases he

theorem Triple.forM {γ : Type} {f : γ → Cmd σ ε Unit} {I : List γ → σ → Prop}
    (h : ∀ c rest, Triple (I (c :: rest)) (f c) (fun _ => I rest) E) (l : List γ) :
    Triple (I l) (l.forM f) (fun _ => I []) E := by
  induction l with
  | nil => exact Triple.pure fun _ hs => hs
  | cons c rest ih => exact Triple.bind (h c rest) fun _ => ih

theorem Triple.of_pure {φ : Prop} (h : φ → Triple P m Q E) :
    Triple (fun s => φ ∧ P s) m Q E := fun s hs => h hs.1 s hs.2

end Cmd
