/-
What the desktop still knows of the tokens it was given.

While no future is dropped that alone knows of a token, a token that is not revoked is
either the one its account stores, and the account is installed or on its way to be logged
out, or it is in the hands of one task.
-/
import NebulaDesk.Desktop.SignOutAccounts

namespace NebulaDesk

namespace SignOut

variable {s s' t : SignOut} {e : Event} {c d a g token : ℕ}

/-! ### The tokens -/

/-- The account is installed, or a task is about to install it or to log it out. -/
def Kept (s : SignOut) (a : ℕ) : Prop := s.installed = some a ∨ ∃ c, (s.tasks c).keeps = some a

/-- The desktop has the token, as one of account `a`. -/
def Knows (s : SignOut) (token a : ℕ) : Prop :=
  s.stored a = some token ∨ ∃ c, (s.tasks c).carries = some (token, a)

/-- The token will be revoked by who signs out of account `a`. -/
def Held (s : SignOut) (token a : ℕ) : Prop :=
  (s.stored a = some token ∧ s.Kept a ∧ ∀ c, (s.tasks c).spends ≠ some a) ∨
    ∃ c, (s.tasks c).carries = some (token, a) ∧ ((s.tasks c).holds = some a → s.Kept a)

structure Tokens (s : SignOut) : Prop where
  fresh : ∀ token, s.next ≤ token → s.live token = none
  own : ∀ token a, s.Knows token a → token < s.next ∧ ∀ login, s.live token = some login → login = a
  held : ∀ token a, s.live token = some a → s.Held token a

theorem tokens_start : start.Tokens where
  fresh _ _ := rfl
  own _ _ h := by
    rcases h with h | ⟨c, h⟩
    · cases h
    · cases h
  held _ _ h := nomatch h

variable {task : DesktopTask}

theorem Kept.setTask (h : s.Kept a) (htasks : t.tasks = s.tasks)
    (hinstalled : s.installed = some a → t.installed = some a ∨ task.keeps = some a)
    (hkeeps : (s.tasks c).keeps = some a → task.keeps = some a ∨ t.installed = some a) :
    (t.setTask c task).Kept a := by
  have hnew : task.keeps = some a → (t.setTask c task).Kept a := fun hk =>
    .inr ⟨c, by rwa [setTask_same]⟩
  rcases h with hi | ⟨d, hd⟩
  · exact (hinstalled hi).elim .inl hnew
  · by_cases hdc : d = c
    · subst hdc
      exact (hkeeps hd).elim hnew .inl
    · exact .inr ⟨d, by rwa [setTask_ne hdc, htasks]⟩

theorem Held.setTask (h : s.Held token a) (htasks : t.tasks = s.tasks)
    (hstored : (∀ d, (s.tasks d).spends ≠ some a) → s.stored a = some token →
      t.stored a = some token)
    (hkept : s.Kept a → (t.setTask c task).Kept a)
    (hspends : s.stored a = some token → task.spends = some a → (s.tasks c).spends = some a)
    (hcarries : (s.tasks c).carries = some (token, a) → task.carries = some (token, a) ∧
      (task.holds = some a → (s.tasks c).holds = some a)) : (t.setTask c task).Held token a := by
  rcases h with ⟨hs, hk, hsp⟩ | ⟨d, hd, hk⟩
  · refine .inl ⟨hstored hsp hs, hkept hk, ?_⟩
    intro d hd
    by_cases hdc : d = c
    · subst hdc
      rw [setTask_same] at hd
      exact hsp d (hspends hs hd)
    · rw [setTask_ne hdc, htasks] at hd
      exact hsp d hd
  · refine .inr ⟨d, ?_⟩
    by_cases hdc : d = c
    · subst hdc
      rw [setTask_same]
      exact ⟨(hcarries hd).1, fun hh => hkept (hk ((hcarries hd).2 hh))⟩
    · rw [setTask_ne hdc, htasks]
      exact ⟨hd, fun hh => hkept (hk hh)⟩

theorem Knows.of_setTask (h : (t.setTask c task).Knows token a)
    (htasks : t.tasks = s.tasks) (hstored : t.stored a = some token → s.Knows token a)
    (hcarries : task.carries = some (token, a) → s.Knows token a) : s.Knows token a := by
  rcases h with hs | ⟨d, hd⟩
  · exact hstored hs
  · by_cases hdc : d = c
    · subst hdc
      rw [setTask_same] at hd
      exact hcarries hd
    · rw [setTask_ne hdc, htasks] at hd
      exact .inr ⟨d, hd⟩

theorem Tokens.kept (h : s.Tokens) (he : s.Epochs) (hholds : (s.tasks c).holds = some a)
    (hlive : s.live token = some a) : s.Kept a := by
  rcases h.held token a hlive with ⟨-, hk, -⟩ | ⟨d, hd, hk⟩
  · exact hk
  · exact hk (he.holds_of_carries hd hholds)

theorem Tokens.of_live (h : s.Tokens) (hnext : t.next = s.next)
    (hlive : ∀ token login, t.live token = some login → s.live token = some login)
    (hknows : ∀ token a, t.Knows token a → s.Knows token a)
    (hheld : ∀ token a, t.live token = some a → s.Held token a → t.Held token a) : t.Tokens where
  fresh := by
    intro token hle
    cases hl : t.live token with
    | none => rfl
    | some login =>
      have := h.fresh token (hnext ▸ hle)
      rw [hlive token login hl] at this
      cases this
  own := by
    intro token a hk
    obtain ⟨hlt, hown⟩ := h.own token a (hknows token a hk)
    exact ⟨hnext ▸ hlt, fun login hl => hown login (hlive token login hl)⟩
  held := fun token a hl => hheld token a hl (h.held token a (hlive token a hl))

theorem Tokens.keep (h : s.Tokens) (htasks : t.tasks = s.tasks)
    (hnext : t.next = s.next) (hlive : t.live = s.live) (hstored : t.stored = s.stored)
    (hkept : ∀ a, s.Kept a → (t.setTask c task).Kept a)
    (hspends : ∀ a, task.spends = some a → (s.tasks c).spends = some a)
    (hcarries : task.carries = (s.tasks c).carries)
    (hholds : task.carries ≠ none → task.holds = (s.tasks c).holds) :
    (t.setTask c task).Tokens := by
  refine h.of_live hnext (fun token login hl => hlive ▸ hl) ?_ ?_
  · intro token a hk
    refine hk.of_setTask htasks (fun hs => .inl (hstored ▸ hs)) ?_
    intro hc
    exact .inr ⟨c, hcarries ▸ hc⟩
  · intro token a _ hheld
    refine hheld.setTask htasks (fun _ hs => hstored ▸ hs) (hkept a) (fun _ => hspends a) ?_
    intro hc
    rw [← hcarries] at hc
    refine ⟨hc, fun hh => ?_⟩
    rwa [← hholds (by rw [hc]; nofun)]

theorem Tokens.next (h : s.Tokens) (htasks : t.tasks = s.tasks)
    (hnext : t.next = s.next) (hlive : t.live = s.live) (hstored : t.stored = s.stored)
    (hinstalled : t.installed = s.installed) (hkeeps : (s.tasks c).keeps = none)
    (hcarries : (s.tasks c).carries = none) (hspends : task.spends = none)
    (hnone : task.carries = none) : (t.setTask c task).Tokens := by
  refine h.keep htasks hnext hlive hstored ?_ ?_ (hnone.trans hcarries.symm) ?_
  · intro a hk
    refine hk.setTask htasks (fun hi => .inl (hinstalled ▸ hi)) ?_
    rw [hkeeps]
    nofun
  · rw [hspends]
    nofun
  · rw [hnone]
    exact fun hne => absurd rfl hne

variable {p : Option ℕ}

theorem setStored_self : (s.setStored a p).stored a = p := Function.update_self ..

theorem setStored_ne (h : g ≠ a) : (s.setStored a p).stored g = s.stored g :=
  Function.update_of_ne h ..

theorem issue_self : (s.issue a).live s.next = some a := Function.update_self ..

theorem issue_ne (h : token ≠ s.next) : (s.issue a).live token = s.live token :=
  Function.update_of_ne h ..

/-- The token of task `c` becomes the one its account stores. -/
theorem Tokens.store (h : s.Tokens) (hcarries : (s.tasks c).carries = some (token, a))
    (hkeeps : (s.tasks c).keeps = none) (hnone : task.carries = none) (hspends : task.spends = none)
    (hlost : s.Kept a → ∃ d, (s.tasks d).spends = some a)
    (hkept : s.live token = some a → ((s.setStored a (some token)).setTask c task).Kept a)
    (hone : ∀ d, d ≠ c → (s.tasks d).spends ≠ some a) :
    ((s.setStored a (some token)).setTask c task).Tokens := by
  refine h.of_live rfl (fun _ _ hl => hl) ?_ ?_
  · intro tok b hk
    refine hk.of_setTask rfl ?_ (by rw [hnone]; nofun)
    intro hs
    by_cases hb : b = a
    · subst hb
      obtain rfl := Option.some.inj (setStored_self.symm.trans hs)
      exact .inr ⟨c, hcarries⟩
    · exact .inl ((setStored_ne hb).symm.trans hs)
  · intro tok b hl hheld
    by_cases hb : b = a
    · subst hb
      rcases hheld with ⟨-, hk, hsp⟩ | ⟨d, hd, hk⟩
      · obtain ⟨d, hd⟩ := hlost hk
        exact absurd hd (hsp d)
      · by_cases hdc : d = c
        · subst hdc
          obtain ⟨rfl, -⟩ := Prod.mk.inj (Option.some.inj (hcarries.symm.trans hd))
          refine .inl ⟨setStored_self, hkept hl, ?_⟩
          intro d'
          by_cases hd' : d' = d
          · subst hd'
            rw [setTask_same, hspends]
            nofun
          · rw [setTask_ne hd']
            exact hone d' hd'
        · refine .inr ⟨d, ?_, fun hh => ?_⟩
          · rw [setTask_ne hdc]
            exact hd
          · rw [setTask_ne hdc] at hh
            exact (hk hh).setTask rfl .inl (by rw [hkeeps]; nofun)
    · refine hheld.setTask rfl (fun _ hs => (setStored_ne hb).trans hs) ?_ ?_ ?_
      · exact fun hk => hk.setTask rfl .inl (by rw [hkeeps]; nofun)
      · rw [hspends]
        nofun
      · intro hc
        rw [hcarries] at hc
        exact absurd (Prod.mk.inj (Option.some.inj hc)).2.symm hb

/-- Task `c` is given a new token of account `a`. -/
theorem Tokens.issue (h : s.Tokens) (hcarries : (s.tasks c).carries = none)
    (hkeeps : (s.tasks c).keeps = none) (htask : task.carries = some (s.next, a))
    (hholds : task.holds = some a → s.Kept a)
    (hspends : ∀ b, task.spends = some b → ∀ tok, s.live tok = some b → s.stored b ≠ some tok) :
    ((s.issue a).setTask c task).Tokens where
  fresh := by
    intro tok hle
    have hle : s.next + 1 ≤ tok := hle
    exact (issue_ne (by omega)).trans (h.fresh tok (by omega))
  own := by
    intro tok b hk
    by_cases htok : tok = s.next
    · refine ⟨htok ▸ Nat.lt_succ_self _, ?_⟩
      subst htok
      intro login hlogin
      obtain rfl := Option.some.inj (issue_self.symm.trans hlogin)
      -- Nobody else has a token that was not there.
      rcases hk with hs | ⟨d, hd⟩
      · exact absurd (h.own _ b (.inl hs)).1 (lt_irrefl _)
      · by_cases hdc : d = c
        · subst hdc
          rw [setTask_same, htask] at hd
          exact (Prod.mk.inj (Option.some.inj hd)).2
        · rw [setTask_ne hdc] at hd
          exact absurd (h.own _ b (.inr ⟨d, hd⟩)).1 (lt_irrefl _)
    · have hold : s.Knows tok b := hk.of_setTask rfl .inl fun hc => by
        rw [htask] at hc
        exact absurd (Prod.mk.inj (Option.some.inj hc)).1.symm htok
      obtain ⟨hlt, hown⟩ := h.own tok b hold
      refine ⟨Nat.lt_succ_of_lt hlt, fun login hl => hown login ?_⟩
      exact (issue_ne htok).symm.trans hl
  held := by
    intro tok b hl
    by_cases htok : tok = s.next
    · subst htok
      obtain rfl := Option.some.inj (issue_self.symm.trans hl)
      refine .inr ⟨c, ?_⟩
      rw [setTask_same]
      exact ⟨htask, fun hh => (hholds hh).setTask rfl .inl (by rw [hkeeps]; nofun)⟩
    · have hold : s.live tok = some b := (issue_ne htok).symm.trans hl
      refine (h.held tok b hold).setTask rfl (fun _ hs => hs) ?_ ?_ ?_
      · exact fun hk => hk.setTask rfl .inl (by rw [hkeeps]; nofun)
      · exact fun hs hsp => absurd hs (hspends b hsp tok hold)
      · rw [hcarries]
        nofun

theorem live_of_revoke {login : ℕ} (h : (s.revoke p).live token = some login) :
    p ≠ some token ∧ s.live token = some login := by
  have h : (if p = some token then none else s.live token) = some login := h
  split at h
  · cases h
  · next hne => exact ⟨hne, h⟩

theorem Tokens.revoke (h : s.Tokens) (p : Option ℕ) : (s.revoke p).Tokens :=
  h.of_live rfl (fun _ _ hl => (live_of_revoke hl).2) (fun _ _ hk => hk) fun _ _ _ hheld => hheld

theorem Epochs.not_kept (h : s.Epochs) (hc : (s.tasks c).role = .signing g)
    (hkeeps : (s.tasks c).keeps = none) : ¬ s.Kept g := by
  rintro (hi | ⟨d, hd⟩)
  · exact h.not_signing_installed hi c hc
  · by_cases hdc : d = c
    · subst hdc
      rw [hkeeps] at hd
      cases hd
    · exact h.apart c d g (fun heq => hdc heq.symm) hc (DesktopTask.account_of_keeps hd)

theorem Tokens.step (h : s.Tokens) (he : s.Epochs) (hl : s.Locks) (hm : Move s s') : s'.Tokens := by
  cases hm with
  | request hc | lock hc | refresh hc | deny hc | invalidate hc | signedOut hc | signIn hc
  | give hc =>
    exact h.next rfl rfl rfl rfl rfl (by rw [hc]; rfl) (by rw [hc]; rfl) rfl rfl
  | answer hc hcarries =>
    exact h.next rfl rfl rfl rfl rfl (by rw [hc]; rfl) hcarries rfl rfl
  | quit hquit _ ht =>
    obtain ⟨hcarries, hkeeps⟩ := DesktopTask.carries_of_expendable hquit
    obtain rfl | ⟨a, rfl⟩ := ht
    · exact h.next rfl rfl rfl rfl rfl hkeeps hcarries rfl rfl
    · exact h.next rfl rfl rfl rfl rfl hkeeps hcarries rfl rfl
  | resolve hc | reject hc => 
    refine h.keep rfl rfl rfl rfl ?_ (by rintro _ ⟨⟩) (by rw [hc]; rfl) (by rw [hc]; exact fun _ => rfl)
    exact fun a hk => hk.setTask rfl .inl (by rw [hc]; rintro ⟨⟩)
  | lockLogout hc | overtake hc =>
    refine h.keep rfl rfl rfl rfl ?_ (by rintro _ ⟨⟩) (by rw [hc]; rfl) (absurd rfl)
    exact fun a hk => hk.setTask rfl .inl (by rw [hc]; exact .inl)
  | @close c d a g hc hd hne =>
    have hdone : (s.setTask c .done).Tokens :=
      h.next rfl rfl rfl rfl rfl (by rw [hc]; rfl) (by rw [hc]; rfl) rfl rfl
    have hidle : (s.setTask c .done).tasks d = .idle := (setTask_ne hne.symm).trans hd
    exact hdone.next rfl rfl rfl rfl rfl (by rw [hidle]; rfl) (by rw [hidle]; rfl) rfl rfl
  | signOut hc hi =>
    refine h.keep rfl rfl rfl rfl ?_ (by rintro _ ⟨⟩) (by rw [hc]; rfl) (absurd rfl)
    refine fun a hk => hk.setTask rfl (fun ha => .inr ?_) (by rw [hc]; rintro ⟨⟩)
    rw [hi] at ha
    exact ha
  | @install c g hc hauth hg =>
    refine h.keep rfl rfl rfl rfl ?_ (by rintro _ ⟨⟩) (by rw [hc]; rfl) (absurd rfl)
    refine fun a hk => hk.setTask rfl (fun hi => ?_) (by rw [hc]; exact .inr)
    -- No account is installed yet: it would be younger than the last invalidation.
    have hlow := he.allowed c
    rw [hc] at hlow
    have hlow := hlow.2 a hi
    have hhigh := he.installed a hi
    rw [top, if_pos hauth] at hhigh
    omega
  | @store c a g p token hc =>
    have hholds := congrArg DesktopTask.holds hc
    refine h.store (by rw [hc]; rfl) (by rw [hc]; rfl) rfl rfl ?_ ?_ ?_
    · exact fun _ => ⟨c, by rw [hc]; rfl⟩
    · exact fun hlive => (h.kept he hholds hlive).setTask rfl .inl (by rw [hc]; rintro ⟨⟩)
    · intro d hd hsp
      exact hd (hl.unique (DesktopTask.holds_of_spends hsp) hholds)
  | @keep c g token hc =>
    have hsigning := congrArg DesktopTask.role hc
    refine h.store (by rw [hc]; rfl) (by rw [hc]; rfl) rfl rfl ?_ ?_ ?_
    · intro hk
      exact absurd hk (he.not_kept hsigning (by rw [hc]; rfl))
    · exact fun _ => .inr ⟨c, by rw [setTask_same]; rfl⟩
    · intro d hd hsp
      exact he.apart c d g hd.symm hsigning
        (DesktopTask.account_of_holds (DesktopTask.holds_of_spends hsp))
  | @issue c g hc =>
    exact h.issue (by rw [hc]; rfl) (by rw [hc]; rfl) rfl (by rintro ⟨⟩) (by rintro _ ⟨⟩)
  | @rotate c a g p login hc hp =>
    have hholds := congrArg DesktopTask.holds hc
    obtain ⟨token, rfl, hlive⟩ := Option.bind_eq_some_iff.mp hp
    have hstored := hl.presented c a _ (by rw [hc]; rfl)
    obtain rfl := (h.own token a (.inl hstored.symm)).2 login hlive
    refine (h.revoke (some token)).issue (congrArg DesktopTask.carries hc)
      (congrArg DesktopTask.keeps hc) rfl ?_ ?_
    · exact fun _ => h.kept he hholds hlive
    · intro b hb tok htok hs
      cases hb
      exact (live_of_revoke htok).1 (hstored.trans hs)
  | @refuse c a g p t hc ht =>
    have hnext := h.revoke t
    refine hnext.next rfl rfl rfl rfl rfl ?_ ?_ rfl rfl
    · exact congrArg DesktopTask.keeps hc
    · exact congrArg DesktopTask.carries hc
  | @drop c g token hc =>
    refine h.of_live rfl (fun _ _ hl => (live_of_revoke hl).2) ?_ ?_
    · intro tok b hk
      exact hk.of_setTask rfl .inl (by rintro ⟨⟩)
    · intro tok b htok hheld
      refine hheld.setTask rfl (fun _ hs => hs) ?_ (by rintro _ ⟨⟩) ?_
      · exact fun hk => hk.setTask rfl .inl (by rw [hc]; rintro ⟨⟩)
      · intro hcarries
        rw [hc] at hcarries
        cases hcarries
        exact absurd rfl (live_of_revoke htok).1
  | @revoke c a k p hc => 
    have hholds := congrArg DesktopTask.holds hc
    have hstored := hl.presented c a _ (by rw [hc]; rfl)
    refine h.of_live rfl (fun _ _ hl => (live_of_revoke hl).2) ?_ ?_
    · intro tok b hk
      exact hk.of_setTask rfl .inl (by rintro ⟨⟩)
    · intro tok b htok hheld
      by_cases hb : b = a
      · subst hb
        -- The token that is stored is gone, and nobody has another one.
        exfalso
        rcases hheld with ⟨hs, -, -⟩ | ⟨d, hd, -⟩
        · exact (live_of_revoke htok).1 (hstored.trans hs)
        · obtain rfl := hl.unique (he.holds_of_carries hd hholds) hholds
          rw [hc] at hd
          cases hd
      · refine hheld.setTask rfl (fun _ hs => hs) ?_ ?_ (by rw [hc]; rintro ⟨⟩)
        · refine fun hk => hk.setTask rfl .inl ?_
          intro hkeeps
          rw [hc] at hkeeps
          exact absurd (Option.some.inj hkeeps).symm hb
        · intro _ hsp
          exact absurd (Option.some.inj hsp).symm hb
  | @logout c a k p hc =>
    refine h.of_live rfl (fun _ _ hl => hl) ?_ ?_
    · intro tok b hk
      refine hk.of_setTask rfl ?_ (by rintro ⟨⟩)
      intro hs
      by_cases hb : b = a
      · subst hb
        cases setStored_self.symm.trans hs
      · exact .inl ((setStored_ne hb).symm.trans hs)
    · intro tok b _ hheld
      refine hheld.setTask rfl ?_ ?_ (by rintro _ ⟨⟩) (by rw [hc]; rintro ⟨⟩)
      · intro hsp hs
        refine (setStored_ne ?_).trans hs
        rintro rfl
        exact hsp c (by rw [hc]; rfl)
      · exact fun hk => hk.setTask rfl .inl (by rw [hc]; rintro ⟨⟩)
  | @supersede c d a hc hi hd => 
    have hne : c ≠ d := by
      rintro rfl
      rw [hc] at hd
      cases hd
    have hgo : (s.setTask d (.logout a (.superseded s.generation) .locking)).Tokens :=
      h.next rfl rfl rfl rfl rfl (by rw [hd]; rfl) (by rw [hd]; rfl) rfl rfl
    have htask : (s.setTask d (.logout a (.superseded s.generation) .locking)).tasks c =
        .invalidating .signIn := (setTask_ne hne).trans hc
    -- The logout is there before the account is taken.
    have hboth : (({ s.setTask d (.logout a (.superseded s.generation) .locking) with
        installed := none, authLock := none } : SignOut).setTask c
          (.signIn s.generation (.issuing .sent))).Tokens := by
      refine hgo.keep rfl rfl rfl rfl ?_ (by rintro _ ⟨⟩) (by rw [htask]; rfl) (absurd rfl)
      rintro b (hb | ⟨d', hd'⟩)
      · obtain rfl := Option.some.inj (hi.symm.trans hb)
        refine .inr ⟨d, ?_⟩
        rw [setTask_ne hne.symm]
        exact congrArg DesktopTask.keeps setTask_same
      · refine .inr ⟨d', ?_⟩
        rw [setTask_ne]
        · exact hd'
        · rintro rfl
          rw [htask] at hd'
          cases hd'
    have hcomm := Function.update_comm hne.symm
      (DesktopTask.logout a (.superseded s.generation) .locking)
      (DesktopTask.signIn s.generation (.issuing .sent)) s.tasks
    simp only [setTask, hcomm] at hboth
    exact hboth

/-! ### Whole runs -/

/-- What holds of every state of a run in which no future is dropped that alone knows of a
token. -/
structure Inv (s : SignOut) : Prop where
  orphans : s.orphans = []
  epochs : s.Epochs
  locks : s.Locks
  tokens : s.Tokens

theorem Inv.step (h : s.Inv) (hs : stepSteady s e = some s') : s'.Inv := by
  have hm := step_cases hs h.orphans
  exact ⟨hm.orphans.trans h.orphans, h.epochs.step hm, h.locks.step h.epochs hm,
    h.tokens.step h.epochs h.locks hm⟩

theorem inv_start : start.Inv := ⟨rfl, epochs_start, ⟨by nofun, by nofun⟩, tokens_start⟩

theorem inv_of_reach (hr : Runs.Reach stepSteady start s) : s.Inv :=
  hr.invariant inv_start fun _ _ _ h hs => h.step hs

theorem Inv.signedOut (h : s.Inv) : s.SignedOut := by
  rintro ⟨hidle, -⟩ g hg token login hlive
  have hkept : s.Kept login := by
    rcases h.tokens.held token login hlive with ⟨-, hk, -⟩ | ⟨c, hc, -⟩
    · exact hk
    · rcases hidle c with hidle | hdone
      · rw [hidle] at hc
        cases hc
      · rw [hdone] at hc
        cases hc
  rcases hkept with hi | ⟨c, hc⟩
  · exact (h.epochs.completed g hg).2 login hi
  · rcases hidle c with hidle | hdone
    · rw [hidle] at hc
      cases hc
    · rw [hdone] at hc
      cases hc

/-- In every run in which no future is dropped, by an invalidation or by whoever waits for it,
that alone knows of a token: when a logout has returned and nothing is in flight, no token of an
earlier login is left. -/
theorem signed_out (hr : Runs.Reach stepSteady start s) : s.SignedOut := (inv_of_reach hr).signedOut

/-! ### A logout during a refresh -/

def Event.tasks : Event → List ℕ
  | .api c | .lock c | .unauthorized c | .manager c _ | .receive c _ | .finish c | .invalidate c _
  | .install c | .cancel c => [c]
  | .close c d | .invalidated c d => [c, d]
  | .orphan .. | .lose _ => []

theorem step_frame (h : s.step e = some s') (hd : d ∉ e.tasks) : s'.tasks d = s.tasks d := by
  cases e <;>
    simp only [step, process, receive, invalidated, cancel, adopt, refresh, login, setTask,
      releaseCredentials, takeCredentials, setStored, revoke, issue, complete, Event.tasks,
      List.mem_cons, List.not_mem_nil, or_false, not_or] at h hd <;>
    (repeat' split at h) <;> cases h <;> simp [*]

theorem run_frame {events : List Event} (hr : Runs.tryRun step s events = some s')
    (hd : ∀ e ∈ events, d ∉ e.tasks) : s'.tasks d = s.tasks d := by
  induction events generalizing s with
  | nil =>
    cases hr
    rfl
  | cons e es ih =>
    unfold Runs.tryRun at hr
    rw [List.foldlM_cons] at hr
    obtain ⟨t, ht, hrest⟩ := Option.bind_eq_some_iff.mp hr
    rw [ih hrest fun e' he' => hd e' (List.mem_cons_of_mem _ he')]
    exact step_frame ht (hd e List.mem_cons_self)

def DesktopTask.resting (task : DesktopTask) : Bool := task = .idle || task = .done

/-- Quiescence of a run of tasks below `n`. -/
theorem quiet_of_tryRun {events : List Event} {n : ℕ} (hr : Runs.tryRun step start events = some s)
    (hn : ∀ e ∈ events, ∀ d ∈ e.tasks, d < n)
    (hs : (List.range n).all (fun c => (s.tasks c).resting) && s.orphans.isEmpty) : s.Quiet := by
  simp only [Bool.and_eq_true, List.all_eq_true, List.mem_range, List.isEmpty_iff] at hs
  refine ⟨fun c => ?_, hs.2⟩
  by_cases hc : c < n
  · simpa [DesktopTask.resting] using hs.1 c hc
  · exact .inl (run_frame hr fun e he hmem => hc (hn e he c hmem))

/-- The first sign-in, as task `0`. -/
def sampleSignIn : List Event :=
  [.invalidate 0 .signIn, .invalidated 0 3, .manager 0 .grant, .receive 0 true, .receive 0 true,
    .install 0]

/-- The request of task `1` has its token rotated while task `2` logs out. -/
def sampleCancelled : List Event :=
  sampleSignIn ++ ([.api 1, .lock 1, .unauthorized 1, .manager 1 .grant, .invalidate 2 .signOut,
    .cancel 1, .invalidated 2 3, .lock 2, .manager 2 .grant, .receive 2 true] : List Event)

/-- The same two tasks, one after the other. -/
def sampleSteady : List Event :=
  sampleSignIn ++ ([.api 1, .lock 1, .unauthorized 1, .manager 1 .grant, .receive 1 true, .finish 1,
    .finish 1, .invalidate 2 .signOut, .invalidated 2 3, .lock 2, .manager 2 .grant,
    .receive 2 true] : List Event)

/-- A refresh that was cancelled leaves a token that the logout does not know. -/
theorem signed_out_rotated : ∃ s, Runs.Reach step start s ∧ ¬ s.SignedOut := by
  have hrun : (Runs.tryRun step start sampleCancelled).map (fun s =>
      ((List.range 4).all (fun c => (s.tasks c).resting) && s.orphans.isEmpty) &&
        (decide (2 ∈ s.completed) && decide (s.live 1 = some 1))) = some true := by
    decide +kernel
  obtain ⟨s, htry, hs⟩ := Option.map_eq_some_iff.mp hrun
  obtain ⟨hquiet, hs⟩ := Bool.and_eq_true_iff.mp hs
  obtain ⟨hcompleted, hlive⟩ := Bool.and_eq_true_iff.mp hs
  refine ⟨s, Runs.reach_of_tryRun .init htry, ?_⟩
  intro hsigned
  have hold := hsigned (quiet_of_tryRun htry (by decide) hquiet) 2 (of_decide_eq_true hcompleted)
    1 1 (of_decide_eq_true hlive)
  omega

/-- After the steady run the token of the refresh is revoked too. -/
theorem signed_out_steady : ∃ s, Runs.Reach stepSteady start s ∧ s.SignedOut ∧ 2 ∈ s.completed ∧
    s.live 0 = none ∧ s.live 1 = none := by
  have hrun : (Runs.tryRun stepSteady start sampleSteady).map (fun s =>
      decide (2 ∈ s.completed) && (decide (s.live 0 = none) && decide (s.live 1 = none))) =
        some true := by
    decide +kernel
  obtain ⟨s, htry, hs⟩ := Option.map_eq_some_iff.mp hrun
  obtain ⟨hcompleted, hs⟩ := Bool.and_eq_true_iff.mp hs
  obtain ⟨hzero, hone⟩ := Bool.and_eq_true_iff.mp hs
  have hr := Runs.reach_of_tryRun .init htry
  exact ⟨s, hr, signed_out hr, of_decide_eq_true hcompleted, of_decide_eq_true hzero,
    of_decide_eq_true hone⟩

end SignOut

end NebulaDesk
