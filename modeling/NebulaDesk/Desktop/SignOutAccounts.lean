/-
The generations of the accounts, and who may use their credentials.

The numbers of the accounts that anybody uses are at most that of the last invalidation that has
returned.  Nobody has heard of the account of a sign-in, and nobody uses credentials that another
task has locked.
-/
import NebulaDesk.Desktop.SignOutMoves

namespace NebulaDesk

namespace SignOut

variable {s s' t : SignOut} {c d a g token : ℕ}

/-! ### The generations -/

/-- The generation of the last invalidation that has returned. -/
def top (s : SignOut) : ℕ := if s.authLock = none then s.generation else s.generation - 1

/-- No account that is installed, now or later, is of an earlier generation. -/
def Past (s : SignOut) (n : ℕ) : Prop := n ≤ s.top ∧ ∀ a, s.installed = some a → n ≤ a

/-- Task `c` may have the role. -/
def Allowed (s : SignOut) (c : ℕ) : DesktopTask.Role → Prop
  | .none => True
  | .invalidating => s.authLock = some c
  | .signing g => g ≤ s.top ∧ ∀ a, s.installed = some a → g < a
  | .serving a n => a ≤ s.top ∧ ∀ m ∈ n, s.Past m

structure Epochs (s : SignOut) : Prop where
  positive : s.authLock ≠ none → 0 < s.generation
  installed : ∀ a, s.installed = some a → a ≤ s.top
  allowed : ∀ c, s.Allowed c (s.tasks c).role
  /-- Nobody has heard of the account of a sign-in. -/
  apart : ∀ c d g, c ≠ d → (s.tasks c).role = .signing g → (s.tasks d).role.account ≠ some g
  completed : ∀ n ∈ s.completed, s.Past n

theorem epochs_start : start.Epochs where
  positive h := absurd rfl h
  installed _ h := nomatch h
  allowed _ := trivial
  apart _ _ _ _ h := nomatch h
  completed _ h := nomatch h

theorem Past.mono {n : ℕ} (h : s.Past n) (htop : s.top ≤ t.top)
    (hinstalled : ∀ a, t.installed = some a → s.installed = some a) : t.Past n :=
  ⟨h.1.trans htop, fun a ha => h.2 a (hinstalled a ha)⟩

theorem Allowed.mono {r : DesktopTask.Role} (h : s.Allowed c r) (htop : s.top ≤ t.top)
    (hinstalled : ∀ a, t.installed = some a → s.installed = some a)
    (hauth : r = .invalidating → t.authLock = some c) : t.Allowed c r := by
  cases r with
  | none => trivial
  | invalidating => exact hauth rfl
  | signing g => exact ⟨h.1.trans htop, fun a ha => h.2 a (hinstalled a ha)⟩
  | serving a n => exact ⟨h.1.trans htop, fun m hm => (h.2 m hm).mono htop hinstalled⟩

variable {task : DesktopTask}

@[simp] theorem setTask_same : (s.setTask c task).tasks c = task := by
  simp [setTask]

theorem setTask_ne (h : d ≠ c) : (s.setTask c task).tasks d = s.tasks d := by
  simp [setTask, h]

theorem allowed_setTask {r : DesktopTask.Role} :
    (s.setTask c task).Allowed d r ↔ s.Allowed d r := by
  cases r <;> rfl

theorem Epochs.setTask (h : s.Epochs) (htasks : t.tasks = s.tasks)
    (htop : s.top ≤ t.top) (hinstalled : ∀ a, t.installed = some a → s.installed = some a)
    (hpositive : t.authLock ≠ none → 0 < t.generation)
    (hauth : ∀ d, d ≠ c → (s.tasks d).role = .invalidating → t.authLock = some d)
    (hcompleted : ∀ n ∈ t.completed, n ∈ s.completed ∨ t.Past n)
    (hrole : t.Allowed c task.role)
    (hsigning : ∀ g, task.role = .signing g → ∀ d, d ≠ c → (s.tasks d).role.account ≠ some g)
    (haccount : ∀ d, d ≠ c → ∀ g, (s.tasks d).role = .signing g → task.role.account ≠ some g) :
    (t.setTask c task).Epochs where
  positive := hpositive
  installed := fun a ha => (h.installed a (hinstalled a ha)).trans htop
  allowed := by
    intro d
    by_cases hd : d = c
    · subst hd
      rw [setTask_same, allowed_setTask]
      exact hrole
    · rw [setTask_ne hd, htasks, allowed_setTask]
      exact (h.allowed d).mono htop hinstalled (hauth d hd)
  apart := by
    intro d d' g hne hd
    by_cases hdc : d = c
    · subst hdc
      rw [setTask_same] at hd
      rw [setTask_ne hne.symm, htasks]
      exact hsigning g hd d' hne.symm
    · rw [setTask_ne hdc, htasks] at hd
      by_cases hdc' : d' = c
      · subst hdc'
        rw [setTask_same]
        exact haccount d hdc g hd
      · rw [setTask_ne hdc', htasks]
        exact h.apart d d' g hne hd
  completed := by
    intro n hn
    rcases hcompleted n hn with hold | hnew
    · exact (h.completed n hold).mono htop hinstalled
    · exact hnew

theorem Epochs.keep (h : s.Epochs) (htasks : t.tasks = s.tasks)
    (hinstalled : t.installed = s.installed) (hauth : t.authLock = s.authLock)
    (hgeneration : t.generation = s.generation) (hcompleted : t.completed = s.completed)
    (hrole : task.role = (s.tasks c).role ∨ task.role = .none) : (t.setTask c task).Epochs := by
  have htop : s.top = t.top := by rw [top, top, hauth, hgeneration]
  refine h.setTask htasks htop.le (fun a ha => hinstalled ▸ ha) ?_ ?_ ?_ ?_ ?_ ?_
  · rw [hauth, hgeneration]
    exact h.positive
  · intro d _ hd
    have := h.allowed d
    rw [hd] at this
    rw [hauth]
    exact this
  · intro n hn
    exact .inl (hcompleted ▸ hn)
  · rcases hrole with hsame | hnone
    · rw [hsame]
      refine (h.allowed c).mono htop.le (fun a ha => hinstalled ▸ ha) ?_
      intro hc
      have := h.allowed c
      rw [hc] at this
      rw [hauth]
      exact this
    · rw [hnone]
      trivial
  · intro g hg d hd
    rcases hrole with hsame | hnone
    · exact h.apart c d g hd.symm (hsame ▸ hg)
    · rw [hnone] at hg
      cases hg
  · intro d hd g hg
    rcases hrole with hsame | hnone
    · rw [hsame]
      exact h.apart d c g hd hg
    · rw [hnone]
      nofun

theorem setTask_setTask (task task' : DesktopTask) :
    (s.setTask c task).setTask c task' = s.setTask c task' := by
  simp [setTask]

/-- Task `c` works for an account that is known. -/
theorem Epochs.serve (h : s.Epochs) {n : Option ℕ} (htask : task.role = .serving a n)
    (ha : a ≤ s.top) (hn : ∀ m ∈ n, s.Past m)
    (hsigning : ∀ d, d ≠ c → (s.tasks d).role ≠ .signing a) : (s.setTask c task).Epochs := by
  refine h.setTask rfl le_rfl (fun _ h => h) h.positive ?_ (fun _ h => .inl h) ?_ ?_ ?_
  · intro d _ hd
    have := h.allowed d
    rw [hd] at this
    exact this
  · rw [htask]
    exact ⟨ha, hn⟩
  · intro g hg
    rw [htask] at hg
    cases hg
  · intro d hd g hg
    rw [htask]
    rintro heq
    cases heq
    exact hsigning d hd hg

theorem Epochs.not_signing_installed (h : s.Epochs) (ha : s.installed = some a) (d : ℕ) :
    (s.tasks d).role ≠ .signing a := by
  intro hd
  have := h.allowed d
  rw [hd] at this
  exact lt_irrefl a (this.2 a ha)

theorem Epochs.holds_of_carries (h : s.Epochs) (hd : (s.tasks d).carries = some (token, a))
    (hc : (s.tasks c).holds = some a) : (s.tasks d).holds = some a := by
  rcases DesktopTask.account_of_carries hd with hholds | hsigning
  · exact hholds
  · have hne : d ≠ c := by
      rintro rfl
      exact DesktopTask.not_signing_of_holds hc a hsigning
    exact absurd (DesktopTask.account_of_holds hc) (h.apart d c a hne hsigning)

theorem Epochs.release (h : s.Epochs) (hc : (s.tasks c).role = .invalidating)
    (ht : t = { s with authLock := none } ∨ t = { s with authLock := none, installed := none })
    (htask : task.role = .none ∨ t.installed = none ∧ task.role = .signing s.generation) :
    (t.setTask c task).Epochs := by
  have hauth : s.authLock = some c := by
    have := h.allowed c
    rw [hc] at this
    exact this
  have hpos := h.positive (by rw [hauth]; nofun)
  have htop : s.top + 1 = t.top := by
    have : t.top = s.generation := by
      rcases ht with rfl | rfl <;> rfl
    rw [this, top, if_neg (by rw [hauth]; nofun)]
    omega
  have hgen : t.top = s.generation := by
    rcases ht with rfl | rfl <;> rfl
  have htasks : t.tasks = s.tasks := by
    rcases ht with rfl | rfl <;> rfl
  -- The accounts that are known are older than the invalidation.
  have hknown : ∀ d, d ≠ c → (s.tasks d).role.account ≠ some s.generation := by
    intro d hd hacc
    have hall := h.allowed d
    cases hr : (s.tasks d).role with
    | none | invalidating => rw [hr] at hacc; cases hacc
    | signing g | serving g n =>
      rw [hr] at hacc hall
      cases hacc
      have := hall.1
      omega
  refine h.setTask htasks (by omega) ?_ ?_ ?_ ?_ ?_ ?_ ?_
  · rcases ht with rfl | rfl
    · exact fun _ h => h
    · nofun
  · rcases ht with rfl | rfl <;> exact fun h => absurd rfl h
  · intro d hd hrole
    have := h.allowed d
    rw [hrole] at this
    exact absurd (Option.some.inj (this.symm.trans hauth)) hd
  · rcases ht with rfl | rfl <;> exact fun _ h => .inl h
  · rcases htask with hnone | ⟨hnone, hsign⟩
    · rw [hnone]
      trivial
    · rw [hsign]
      refine ⟨hgen.ge, ?_⟩
      rw [hnone]
      nofun
  · intro g hg d hd
    rcases htask with hnone | ⟨-, hsign⟩
    · rw [hnone] at hg
      cases hg
    · rw [hsign] at hg
      cases hg
      exact hknown d hd
  · intro d hd g hg
    rcases htask with hnone | ⟨-, hsign⟩
    · rw [hnone]
      nofun
    · rw [hsign]
      rintro heq
      cases heq
      exact hknown d hd (by rw [hg]; rfl)

theorem Epochs.complete (h : s.Epochs) {k : LogoutKind} (hk : ∀ n ∈ k.number, s.Past n) :
    (s.complete k).Epochs where
  __ := h
  allowed := fun d => (h.allowed d).mono le_rfl (fun _ h => h) fun hd => by
    have := h.allowed d
    rw [hd] at this
    exact this
  completed := by
    intro n hn
    rcases List.mem_append.mp hn with hnew | hold
    · exact hk n (Option.mem_toList.mp hnew)
    · exact h.completed n hold

theorem Epochs.install (h : s.Epochs) {phase : SignInPhase}
    (hc : s.tasks c = .signIn s.generation phase) (hauth : s.authLock = none) :
    ({ s with installed := some s.generation }.setTask c .done).Epochs := by
  have htop : s.top = s.generation := if_pos hauth
  have hle : ∀ n, s.Past n → n ≤ s.generation := fun n hn => htop ▸ hn.1
  have hpast : ∀ n, s.Past n → ({ s with installed := some s.generation } : SignOut).Past n := by
    rintro n hn
    refine ⟨hn.1, fun a ha => ?_⟩
    cases ha
    exact hle n hn
  refine ⟨h.positive, ?_, ?_, ?_, fun n hn => hpast n (h.completed n hn)⟩
  · intro a ha
    cases ha
    exact htop.ge
  · intro d
    by_cases hd : d = c
    · subst hd
      rw [setTask_same]
      trivial
    · rw [setTask_ne hd, allowed_setTask]
      have hall := h.allowed d
      show SignOut.Allowed _ d (s.tasks d).role
      cases hr : (s.tasks d).role with
      | none => trivial
      | invalidating =>
        rw [hr] at hall
        exact hall
      | signing g =>
        rw [hr] at hall
        refine ⟨hall.1, fun a ha => ?_⟩
        cases ha
        have hne := h.apart d c g hd hr
        rw [hc] at hne
        have hle := hall.1
        have : g ≠ s.generation := fun heq => hne (congrArg some heq.symm)
        omega
      | serving a n =>
        rw [hr] at hall
        exact ⟨hall.1, fun m hm => hpast m (hall.2 m hm)⟩
  · intro d d' g hne hd
    by_cases hdc : d = c
    · subst hdc
      rw [setTask_same] at hd
      cases hd
    · rw [setTask_ne hdc] at hd
      by_cases hdc' : d' = c
      · subst hdc'
        rw [setTask_same]
        nofun
      · rw [setTask_ne hdc']
        exact h.apart d d' g hne hd

theorem Epochs.lt_generation (h : s.Epochs) (hc : (s.tasks c).role = .invalidating)
    (ha : s.installed = some a) : a < s.generation := by
  have hauth := h.allowed c
  rw [hc] at hauth
  have hne : s.authLock ≠ none := by
    rw [show s.authLock = some c from hauth]
    nofun
  have hpos := h.positive hne
  have hle := h.installed a ha
  rw [top, if_neg hne] at hle
  omega

theorem Epochs.step (h : s.Epochs) (hm : Move s s') : s'.Epochs := by
  cases hm with
  | quit _ _ ht =>
    obtain rfl | ⟨a, rfl⟩ := ht
    · exact h.keep (by rfl) (by rfl) (by rfl) (by rfl) (by rfl) (.inr (by rfl))
    · exact h.keep (by rfl) (by rfl) (by rfl) (by rfl) (by rfl) (.inr (by rfl))
  | lock hc | refresh hc | rotate hc | refuse hc | store hc | answer hc | issue hc | deny hc
  | resolve hc | reject hc | drop hc | keep hc | lockLogout hc | revoke hc =>
    refine h.keep (by rfl) (by rfl) (by rfl) (by rfl) (by rfl) (.inl ?_)
    rw [hc]
    rfl
  | request hc ha _ =>
    exact h.serve (by rfl) (h.installed _ ha) (by nofun) fun d _ => h.not_signing_installed ha d
  | @close c d a g hc hd hne =>
    have hall := h.allowed c
    rw [hc] at hall
    have hdone : (s.setTask c .done).Epochs :=
      h.keep (by rfl) (by rfl) (by rfl) (by rfl) (by rfl) (.inr (by rfl))
    refine hdone.serve (by rfl) hall.1 (by nofun) ?_
    intro d' _ hd'
    by_cases hdc : d' = c
    · subst hdc
      rw [setTask_same] at hd'
      cases hd'
    · rw [setTask_ne hdc] at hd'
      exact h.apart d' c a hdc hd' (by rw [hc]; rfl)
  | @overtake c g hc =>
    have hall := h.allowed c
    rw [hc] at hall
    refine h.serve (by rfl) hall.1 (by nofun) ?_
    intro d hd hrole
    exact h.apart d c g hd hrole (by rw [hc]; rfl)
  | @logout c a k p hc =>
    have hall := h.allowed c
    rw [hc] at hall
    have hcomplete := h.complete hall.2
    exact hcomplete.keep (by rfl) (by rfl) (by rfl) (by rfl) (by rfl) (.inr (by rfl))
  | @install c g hc hauth hg =>
    subst hg
    exact h.install hc hauth
  | @invalidate c purpose hc hauth =>
    have htop : s.top = s.generation := if_pos hauth
    refine h.setTask (by rfl) (by rw [htop]; rfl) (fun _ h => h) (fun _ => Nat.succ_pos _) ?_
      (fun _ h => .inl h) (by rfl) (by nofun) (by nofun)
    intro d _ hd
    have hlock := h.allowed d
    rw [hd] at hlock
    exact absurd (hlock.symm.trans hauth) (by nofun)
  | give hc => exact h.release (by rw [hc]; rfl) (.inl rfl) (.inl (by rfl))
  | @signedOut c hc hi =>
    have hback : ({ s with authLock := none }.setTask c .done).Epochs :=
      h.release (by rw [hc]; rfl) (.inl rfl) (.inl rfl)
    have hpast : ({ s with authLock := none }.setTask c .done).Past s.generation :=
      ⟨le_rfl, fun a ha => absurd (hi.symm.trans ha) (by nofun)⟩
    exact hback.complete (k := .requested s.generation) (by rintro n hn; cases hn; exact hpast)
  | @signOut c a hc hi =>
    have hrole : (s.tasks c).role = .invalidating := by rw [hc]; rfl
    have hback : ({ s with installed := none, authLock := none }.setTask c .done).Epochs :=
      h.release hrole (.inr rfl) (.inl rfl)
    rw [← setTask_setTask .done]
    refine hback.serve (by rfl) (h.lt_generation hrole hi).le ?_ ?_
    · intro n hn
      cases hn
      exact ⟨le_rfl, by nofun⟩
    · intro d hd
      rw [setTask_ne hd]
      exact h.not_signing_installed hi d
  | @signIn c hc hi => 
    exact h.release (by rw [hc]; rfl) (.inl rfl) (.inr ⟨hi, by rfl⟩)
  | @supersede c d a hc hi hd =>
    have hrole : (s.tasks c).role = .invalidating := by rw [hc]; rfl
    have hlt := h.lt_generation hrole hi
    have hback : ({ s with installed := none, authLock := none }.setTask c
        (.signIn s.generation (.issuing .sent))).Epochs :=
      h.release hrole (.inr rfl) (.inr ⟨rfl, rfl⟩)
    refine hback.serve (by rfl) hlt.le ?_ ?_
    · intro n hn
      cases hn
      exact ⟨le_rfl, by nofun⟩
    · intro d' _ hd'
      by_cases hdc : d' = c
      · subst hdc
        rw [setTask_same] at hd'
        cases hd'
        exact lt_irrefl _ hlt
      · rw [setTask_ne hdc] at hd'
        exact h.not_signing_installed hi d' hd'

/-! ### The credentials -/

/-- The locks on the credentials are held by one task each, and what such a task has sent is still
stored. -/
structure Locks (s : SignOut) : Prop where
  holder : ∀ c a, (s.tasks c).holds = some a → s.credLock a = some c
  presented : ∀ c a p, (s.tasks c).presents = some (a, p) → p = s.stored a

theorem Locks.setTask (h : s.Locks) (htasks : t.tasks = s.tasks)
    (hlock : ∀ d a, d ≠ c → s.credLock a = some d → t.credLock a = some d)
    (hstored : ∀ d a p, d ≠ c → (s.tasks d).presents = some (a, p) → t.stored a = s.stored a)
    (hholds : ∀ a, task.holds = some a → t.credLock a = some c)
    (hpresents : ∀ a p, task.presents = some (a, p) → p = t.stored a) :
    (t.setTask c task).Locks where
  holder := by
    intro d a hd
    by_cases hdc : d = c
    · subst hdc
      rw [setTask_same] at hd
      exact hholds a hd
    · rw [setTask_ne hdc, htasks] at hd
      exact hlock d a hdc (h.holder d a hd)
  presented := by
    intro d a p hd
    by_cases hdc : d = c
    · subst hdc
      rw [setTask_same] at hd
      exact hpresents a p hd
    · rw [setTask_ne hdc, htasks] at hd
      exact (h.presented d a p hd).trans (hstored d a p hdc hd).symm

theorem Locks.unique (h : s.Locks) (hc : (s.tasks c).holds = some a)
    (hd : (s.tasks d).holds = some a) : c = d :=
  Option.some.inj ((h.holder c a hc).symm.trans (h.holder d a hd))

theorem Locks.ne_of_presents (h : s.Locks) (hc : (s.tasks c).holds = some a) {b : ℕ} {p : Option ℕ}
    (hd : d ≠ c) (hp : (s.tasks d).presents = some (b, p)) : b ≠ a := by
  rintro rfl
  have h1 := h.holder d b (DesktopTask.holds_of_presents hp)
  rw [h.holder c b hc] at h1
  exact hd (Option.some.inj h1).symm

theorem credLock_releaseCredentials (hd : d ≠ c) {b : ℕ} (h : s.credLock b = some d) :
    (s.releaseCredentials a c).credLock b = some d := by
  show (if b = a ∧ s.credLock b = some c then none else s.credLock b) = some d
  rw [if_neg]
  · exact h
  · rintro ⟨-, hc⟩
    rw [h] at hc
    exact hd (Option.some.inj hc)

theorem Locks.keep (h : s.Locks) (htasks : t.tasks = s.tasks) (hlock : t.credLock = s.credLock)
    (hstored : t.stored = s.stored) (hholds : ∀ a, task.holds = some a → (s.tasks c).holds = some a)
    (hpresents : ∀ a p, task.presents = some (a, p) → p = s.stored a) :
    (t.setTask c task).Locks := by
  refine h.setTask htasks (fun d a _ hd => hlock ▸ hd) (fun d a p _ _ => by rw [hstored]) ?_ ?_
  · intro a ha
    rw [hlock]
    exact h.holder c a (hholds a ha)
  · intro a p hp
    rw [hstored]
    exact hpresents a p hp

theorem credLock_takeCredentials (ha : s.credLock a = none) {b : ℕ} (h : s.credLock b = some d) :
    (s.takeCredentials a c).credLock b = some d := by
  show Function.update s.credLock a (some c) b = some d
  rw [Function.update_of_ne]
  · exact h
  · rintro rfl
    rw [ha] at h
    cases h

theorem Locks.step (h : s.Locks) (he : s.Epochs) (hm : Move s s') : s'.Locks := by
  cases hm with
  | quit _ _ ht =>
    obtain rfl | ⟨a, rfl⟩ := ht
    · exact h.keep rfl rfl rfl (by nofun) (by nofun)
    · exact h.setTask rfl (fun d b hd => credLock_releaseCredentials hd) (fun _ _ _ _ _ => rfl)
        (by nofun) (by nofun)
  | request | signedOut | signOut | signIn | give | install | overtake | invalidate | deny | issue
  | drop | resolve | reject =>
    exact h.keep rfl rfl rfl (by nofun) (by nofun)
  | @close c =>
    have hdone : (s.setTask c .done).Locks := h.keep rfl rfl rfl (by nofun) (by nofun)
    exact hdone.keep rfl rfl rfl (by nofun) (by nofun)
  | @supersede c =>
    have hback : ({ s with installed := none, authLock := none }.setTask c
        (.signIn s.generation (.issuing .sent))).Locks :=
      h.keep rfl rfl rfl (by nofun) (by nofun)
    exact hback.keep rfl rfl rfl (by nofun) (by nofun)
  | @lock c a g hc ha =>
    refine h.setTask rfl (fun d b _ => credLock_takeCredentials ha) (fun _ _ _ _ _ => rfl) ?_
      (by nofun)
    intro b hb
    cases hb
    exact Function.update_self ..
  | @lockLogout c a k hc ha =>
    refine h.setTask rfl (fun d b _ => credLock_takeCredentials ha) (fun _ _ _ _ _ => rfl) ?_ ?_
    · intro b hb
      cases hb
      exact Function.update_self ..
    · intro b p hp
      cases hp
      rfl
  | refresh hc =>
    refine h.keep rfl rfl rfl ?_ ?_
    · rw [hc]
      exact fun b hb => hb
    · intro b p hp
      cases hp
      rfl
  | rotate hc | refuse hc | revoke hc =>
    refine h.keep rfl rfl rfl ?_ (by nofun)
    rw [hc]
    exact fun b hb => hb
  | answer hc =>
    exact h.setTask rfl (fun d b hd => credLock_releaseCredentials hd) (fun _ _ _ _ _ => rfl)
      (by nofun) (by nofun)
  | store hc =>
    have hholds := congrArg DesktopTask.holds hc
    refine h.setTask rfl (fun _ _ _ hb => hb) ?_ ?_ (by nofun)
    · intro d b p hd hp
      exact Function.update_of_ne (h.ne_of_presents hholds hd hp) ..
    · intro b hb
      cases hb
      exact h.holder _ _ hholds
  | @keep c g token hc =>
    refine h.setTask rfl (fun _ _ _ hb => hb) ?_ (by nofun) (by nofun)
    intro d b p hd hp
    refine Function.update_of_ne ?_ ..
    rintro rfl
    exact he.apart c d b hd.symm (by rw [hc]; rfl)
      (DesktopTask.account_of_holds (DesktopTask.holds_of_presents hp))
  | logout hc =>
    have hholds := congrArg DesktopTask.holds hc
    refine h.setTask rfl (fun d b hd => credLock_releaseCredentials hd) ?_ (by nofun) (by nofun)
    intro d b p hd hp
    exact Function.update_of_ne (h.ne_of_presents hholds hd hp) ..

end SignOut

end NebulaDesk
