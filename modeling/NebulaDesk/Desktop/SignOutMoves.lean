/-
The steps of the desktop while no future is dropped that alone knows of a token.

`Move` has one constructor for each thing a task does; `step_cases` is the only place where
`step` is taken apart.
-/
import NebulaDesk.Desktop.SignOut

namespace NebulaDesk

namespace SignOut

namespace DesktopTask

/-- The account whose credentials the task has locked. -/
def holds : DesktopTask → Option ℕ
  | .api _ _ .locking | .api _ _ .returned => none
  | .api a _ _ => some a
  | .logout a _ (.revoking _ _) => some a
  | _ => none

/-- The token that only the task knows, with the login it is of. -/
def carries : DesktopTask → Option (ℕ × ℕ)
  | .api a _ (.refreshing _ (.answered (some token))) => some (token, a)
  | .signIn g (.issuing (.answered (some token))) => some (token, g)
  | .signIn g (.resolving token) | .signIn g (.dropping token false) => some (token, g)
  | _ => none

/-- The account that the task installs or logs out. -/
def keeps : DesktopTask → Option ℕ
  | .signIn g .installing => some g
  | .logout a _ .locking | .logout a _ (.revoking _ false) => some a
  | _ => none

/-- The account whose stored token has been taken from it at the manager. -/
def spends : DesktopTask → Option ℕ
  | .api a _ (.refreshing _ (.answered (some _))) => some a
  | .logout a _ (.revoking _ true) => some a
  | _ => none

/-- What the task has sent in place of the stored token of its account. -/
def presents : DesktopTask → Option (ℕ × Option ℕ)
  | .api a _ (.refreshing p .sent) | .logout a _ (.revoking p false) => some (a, p)
  | _ => none

/-- What a task is to the accounts and their generations. -/
inductive Role
  | none
  | invalidating
  | signing (generation : ℕ)
  /-- The generation is what `completed` gets when the task returns. -/
  | serving (account : ℕ) (number : Option ℕ)

def role : DesktopTask → Role
  | .api a _ _ => .serving a none
  | .logout a kind _ => .serving a kind.number
  | .signIn g _ => .signing g
  | .invalidating _ => .invalidating
  | .idle | .done => .none

def Role.account : Role → Option ℕ
  | .signing g => some g
  | .serving a _ => some a
  | _ => Option.none

variable {a token : ℕ} {task : DesktopTask} {p : Option ℕ}

theorem holds_of_presents (h : task.presents = some (a, p)) : task.holds = some a := by
  unfold presents at h
  split at h
  · cases h
    rfl
  · cases h
    rfl
  · cases h

theorem account_of_holds (h : task.holds = some a) : task.role.account = some a := by
  unfold holds at h
  split at h
  · cases h
  · cases h
  · exact h
  · exact h
  · cases h

theorem not_signing_of_holds (h : task.holds = some a) (g : ℕ) : task.role ≠ .signing g := by
  rintro hrole
  cases task <;> simp_all [holds, role]

theorem account_of_carries (h : task.carries = some (token, a)) :
    task.holds = some a ∨ task.role = .signing a := by
  unfold carries at h
  split at h <;> simp_all [holds, role]

theorem holds_of_spends (h : task.spends = some a) : task.holds = some a := by
  unfold spends at h
  split at h <;> simp_all [holds]

theorem account_of_keeps (h : task.keeps = some a) : task.role.account = some a := by
  unfold keeps at h
  split at h <;> simp_all [role, Role.account]

theorem carries_of_expendable (h : task.expendable) : task.carries = none ∧ task.keeps = none := by
  unfold expendable at h
  split at h <;> simp_all [carries, keeps]

end DesktopTask

/-! ### One step -/

/-- What a step does while no request is without its future. -/
inductive Move (s : SignOut) : SignOut → Prop
  | request {c a} : s.tasks c = .idle → s.installed = some a → s.authLock = none →
      Move s (s.setTask c (.api a (some s.generation) .locking))
  | close {c d a g} : s.tasks c = .api a (some g) .returned → s.tasks d = .idle → c ≠ d →
      Move s ((s.setTask c .done).setTask d (.api a none .locking))
  | lock {c a g} : s.tasks c = .api a g .locking → s.credLock a = none →
      Move s ((s.takeCredentials a c).setTask c (.api a g .first))
  | refresh {c a g} : s.tasks c = .api a g .first →
      Move s (s.setTask c (.api a g (.refreshing (s.stored a) .sent)))
  | rotate {c a g p login} :
      s.tasks c = .api a g (.refreshing p .sent) → p.bind s.live = some login →
      Move s (((s.revoke p).issue login).setTask c
        (.api a g (.refreshing p (.answered (some s.next)))))
  | refuse {c a g p t} : s.tasks c = .api a g (.refreshing p .sent) → t = none ∨ t = p →
      Move s ((s.revoke t).setTask c (.api a g (.refreshing p (.answered none))))
  | store {c a g p token} : s.tasks c = .api a g (.refreshing p (.answered (some token))) →
      Move s ((s.setStored a (some token)).setTask c (.api a g .second))
  | answer {c a g phase} : s.tasks c = .api a g phase → (s.tasks c).carries = none →
      Move s ((s.releaseCredentials a c).setTask c (.api a g .returned))
  | issue {c g} : s.tasks c = .signIn g (.issuing .sent) →
      Move s ((s.issue g).setTask c (.signIn g (.issuing (.answered (some s.next)))))
  | deny {c g} : s.tasks c = .signIn g (.issuing .sent) →
      Move s (s.setTask c (.signIn g (.issuing (.answered none))))
  | resolve {c g token} : s.tasks c = .signIn g (.issuing (.answered (some token))) →
      Move s (s.setTask c (.signIn g (.resolving token)))
  | reject {c g token} : s.tasks c = .signIn g (.resolving token) →
      Move s (s.setTask c (.signIn g (.dropping token false)))
  | drop {c g token} : s.tasks c = .signIn g (.dropping token false) →
      Move s ((s.revoke (some token)).setTask c (.signIn g (.dropping token true)))
  | keep {c g token} : s.tasks c = .signIn g (.resolving token) →
      Move s ((s.setStored g (some token)).setTask c (.signIn g .installing))
  | install {c g} : s.tasks c = .signIn g .installing → s.authLock = none → s.generation = g →
      Move s ({ s with installed := some g }.setTask c .done)
  | overtake {c g} : s.tasks c = .signIn g .installing →
      Move s (s.setTask c (.logout g .stale .locking))
  | lockLogout {c a k} : s.tasks c = .logout a k .locking → s.credLock a = none →
      Move s ((s.takeCredentials a c).setTask c (.logout a k (.revoking (s.stored a) false)))
  | revoke {c a k p} : s.tasks c = .logout a k (.revoking p false) →
      Move s ((s.revoke p).setTask c (.logout a k (.revoking p true)))
  | logout {c a k p} : s.tasks c = .logout a k (.revoking p true) →
      Move s ((((s.setStored a none).releaseCredentials a c).complete k).setTask c .done)
  | invalidate {c purpose} : s.tasks c = .idle → s.authLock = none →
      Move s ({ s with generation := s.generation + 1, authLock := some c }.setTask c
        (.invalidating purpose))
  | signedOut {c} : s.tasks c = .invalidating .signOut → s.installed = none →
      Move s ({ s with authLock := none, completed := s.generation :: s.completed }.setTask c .done)
  | signOut {c a} : s.tasks c = .invalidating .signOut → s.installed = some a →
      Move s ({ s with installed := none, authLock := none }.setTask c
        (.logout a (.requested s.generation) .locking))
  | signIn {c} : s.tasks c = .invalidating .signIn → s.installed = none →
      Move s ({ s with authLock := none }.setTask c (.signIn s.generation (.issuing .sent)))
  | supersede {c d a} : s.tasks c = .invalidating .signIn → s.installed = some a →
      s.tasks d = .idle →
      Move s (({ s with installed := none, authLock := none }.setTask c
        (.signIn s.generation (.issuing .sent))).setTask d
          (.logout a (.superseded s.generation) .locking))
  /-- The future of an invalidation is dropped. -/
  | give {c purpose} : s.tasks c = .invalidating purpose →
      Move s ({ s with authLock := none }.setTask c .done)
  /-- The task ends, or its future is dropped. -/
  | quit {c t} : (s.tasks c).expendable → (s.tasks c).role ≠ .invalidating →
      t = s ∨ (∃ a, t = s.releaseCredentials a c) → Move s (t.setTask c .done)

variable {s s' : SignOut} {e : Event} {c d a : ℕ}

/-- No step of a `Move` leaves a request behind. -/
theorem Move.orphans (h : Move s s') : s'.orphans = s.orphans := by
  cases h with
  | quit _ _ ht => obtain rfl | ⟨a, rfl⟩ := ht <;> rfl
  | _ => rfl

theorem refresh_cases {p : Option ℕ} {v : Verdict} :
    (∃ login, p.bind s.live = some login ∧
      s.refresh p v = ((s.revoke p).issue login, some s.next)) ∨
    ∃ t, (t = none ∨ t = p) ∧ s.refresh p v = (s.revoke t, none) := by
  unfold SignOut.refresh
  cases hlogin : p.bind s.live with
  | none => exact .inr ⟨none, .inl rfl, rfl⟩
  | some login =>
    cases v with
    | grant => exact .inl ⟨login, rfl, rfl⟩
    | refuse => exact .inr ⟨none, .inl rfl, rfl⟩
    | revoke => exact .inr ⟨p, .inr rfl, rfl⟩

theorem process_cases {v : Verdict} (h : s.process c v = some s') : Move s s' := by
  unfold process at h
  split at h
  · next a g p hc =>
    obtain ⟨login, hlogin, heq⟩ | ⟨t, ht, heq⟩ := s.refresh_cases
    · rw [heq] at h
      cases h
      exact .rotate hc hlogin
    · rw [heq] at h
      cases h
      exact .refuse hc ht
  · next g hc =>
    cases h
    cases v with
    | grant => exact .issue hc
    | refuse | revoke => exact .deny hc
  · next g token hc =>
    cases h
    exact .drop hc
  · next a k p hc =>
    cases h
    exact .revoke hc
  · cases h

theorem receive_cases {ok : Bool} (h : s.receive c ok = some s') : Move s s' := by
  unfold receive at h
  split at h
  · next a g p reply hc =>
    split at h
    · cases reply with
      | some token =>
        cases h
        exact .store hc
      | none =>
        cases h
        exact .answer hc (by rw [hc]; rfl)
    · cases h
  · next g reply hc =>
    split at h
    · cases reply with
      | some token =>
        cases h
        exact .resolve hc
      | none =>
        cases h
        exact .quit (by rw [hc]; rfl) (by rw [hc]; nofun) (.inl rfl)
    · cases h
  · next g token hc =>
    split at h
    · split at h
      · cases h
        exact .keep hc
      · cases h
        exact .reject hc
    · cases h
  · next g token hc =>
    obtain ⟨-, rfl⟩ := Runs.some_of_guard h
    exact .quit (by rw [hc]; rfl) (by rw [hc]; nofun) (.inl rfl)
  · next a k p hc =>
    cases h
    exact .logout hc
  · cases h

theorem invalidated_cases {purpose : Purpose} (hc : s.tasks c = .invalidating purpose)
    (h : s.invalidated c d purpose = some s') : Move s s' := by
  unfold invalidated at h
  cases purpose with
  | signOut =>
    cases hi : s.installed with
    | none =>
      simp only [hi] at h
      cases h
      have hmove := Move.signedOut hc hi
      cases s
      subst hi
      exact hmove
    | some a =>
      simp only [hi] at h
      cases h
      exact .signOut hc hi
  | signIn =>
    cases hi : s.installed with
    | none =>
      simp only [hi] at h
      cases h
      have hmove := Move.signIn hc hi
      cases s
      subst hi
      exact hmove
    | some a =>
      simp only [hi] at h
      obtain ⟨hd, rfl⟩ := Runs.some_of_guard h
      exact .supersede hc hi hd

theorem DesktopTask.leaves_of_expendable {task : DesktopTask} (h : task.expendable) :
    task.leaves = [] := by
  unfold DesktopTask.expendable at h
  unfold DesktopTask.leaves
  split <;> simp_all

theorem cancel_cases (h : s.cancel c = some s') (hc : (s.tasks c).expendable) : Move s s' := by
  unfold cancel at h
  simp only [DesktopTask.leaves_of_expendable hc, List.append_nil] at h
  split at h
  · next a g phase htask =>
    cases h
    exact .quit hc (by rw [htask]; nofun) (.inr ⟨a, rfl⟩)
  · next a g phase htask =>
    cases h
    exact .quit hc (by rw [htask]; nofun) (.inr ⟨a, rfl⟩)
  · next a phase htask =>
    cases h
    exact .quit hc (by rw [htask]; nofun) (.inr ⟨a, rfl⟩)
  · next g phase htask =>
    cases h
    exact .quit hc (by rw [htask]; nofun) (.inl rfl)
  · next purpose htask =>
    cases h
    exact .give htask
  · cases h

theorem step_cases (h : stepSteady s e = some s') (ho : s.orphans = []) : Move s s' := by
  unfold stepSteady at h
  split at h
  swap
  · cases h
  next hsteady =>
  cases e with
  | api c =>
    simp only [step] at h
    split at h
    · next hc =>
      split at h
      · cases h
        exact .quit (by rw [hc.1]; rfl) (by rw [hc.1]; nofun) (.inl rfl)
      · next a ha =>
        cases h
        exact .request hc.1 ha hc.2
    · cases h
  | lock c =>
    simp only [step] at h
    split at h
    · next a g hc =>
      obtain ⟨hfree, rfl⟩ := Runs.some_of_guard h
      exact .lock hc hfree.1
    · next a k hc =>
      obtain ⟨hfree, rfl⟩ := Runs.some_of_guard h
      exact .lockLogout hc hfree
    · cases h
  | unauthorized c =>
    simp only [step] at h
    split at h
    · next a g hc =>
      obtain ⟨-, rfl⟩ := Runs.some_of_guard h
      exact .refresh hc
    · cases h
  | manager c v => exact process_cases h
  | receive c ok => exact receive_cases h
  | finish c =>
    simp only [step] at h
    split at h
    · next a g hc =>
      obtain ⟨-, rfl⟩ := Runs.some_of_guard h
      exact .answer hc (by rw [hc]; rfl)
    · next a g hc =>
      obtain ⟨-, rfl⟩ := Runs.some_of_guard h
      exact .answer hc (by rw [hc]; rfl)
    · next a g hc =>
      cases h
      exact .quit (by rw [hc]; rfl) (by rw [hc]; nofun) (.inl rfl)
    · cases h
  | close c d =>
    simp only [step] at h
    split at h
    · next a g hc =>
      obtain ⟨hd, rfl⟩ := Runs.some_of_guard h
      refine .close hc hd ?_
      rintro rfl
      rw [hc] at hd
      cases hd
    · cases h
  | invalidate c purpose =>
    obtain ⟨hc, rfl⟩ := Runs.some_of_guard h
    exact .invalidate hc.1 hc.2
  | invalidated c d =>
    simp only [step] at h
    split at h
    · next purpose hc => exact invalidated_cases hc h
    · cases h
  | install c =>
    simp only [step] at h
    split at h
    · next g hc =>
      split at h
      · next hfree =>
        split at h
        · next hg =>
          cases h
          exact .install hc hfree hg
        · cases h
          exact .overtake hc
      · cases h
    · cases h
  | cancel c => exact cancel_cases h hsteady
  | orphan i v => simp [step, ho] at h
  | lose i => simp [step, ho] at h

end SignOut

end NebulaDesk
