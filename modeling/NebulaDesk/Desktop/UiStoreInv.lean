/-
The invariant of the desktop interface's store (`apps/desktop-ui/src/state/store.ts`).

A task of an older epoch changes nothing any more, and `Fits` says what holds of one of the current
epoch: nothing is shown and no read is pending while somebody signs in, and what is read is read
for the account that is shown, unless a logout is pending.

* **`Core`** — that, and that what is shown has come in under the account that is shown;
* `authenticate_cases`, `logout_cases`, `refresh_cases`, `poll_cases`, `action_cases` — what each
  call does;
* `Core.opened`, `Core.called` — a call that begins a new epoch, and one that does not.
-/
import NebulaDesk.Desktop.UiStore

namespace NebulaDesk

/-- The request was for the account; refreshes called in a logout are left out. -/
def Issue.Under {T : ApiTypes} (account : Option T.Account) (issue : Issue T) : Prop :=
  issue.account = account ∨ (issue.op = .refresh ∧ issue.inLogout = true)

namespace UiSnapshot

variable {T : ApiTypes}

/-- It is blank, or came in for the account. -/
def Traced {α : Type} (account : Option T.Account) (blank : α) (field : Brought T α) : Prop :=
  match field.source with
  | none => field.value = blank
  | some issue => issue.Under account

/-- The same of an error, which may also tell, while nobody is signed in, that a logout has failed. -/
def ErrorTraced (account : Option T.Account) (error : Brought T (Option String)) : Prop :=
  (account = none ∧ ∃ issue, error.source = some issue ∧ issue.op = .logout) ∨
    Traced account none error

structure Own (state : UiSnapshot T) : Prop where
  error : ErrorTraced state.account state.error
  resources : Traced state.account [] state.resources
  machines : Traced state.account [] state.machines
  host : Traced state.account none state.host
  sessions : Traced state.account [] state.sessions
  transfers : Traced state.account [] state.transfers

/-- Nothing is shown. -/
structure Blank (state : UiSnapshot T) : Prop where
  error : state.error = .blank none
  resources : state.resources = .blank []
  machines : state.machines = .blank []
  host : state.host = .blank none
  sessions : state.sessions = .blank []
  transfers : state.transfers = .blank []

theorem traced_blank {α : Type} (account : Option T.Account) (blank : α) :
    Traced account blank (.blank blank) := rfl

theorem Blank.own {state : UiSnapshot T} (h : state.Blank) : state.Own where
  error := .inr (h.error ▸ traced_blank _ _)
  resources := h.resources ▸ traced_blank _ _
  machines := h.machines ▸ traced_blank _ _
  host := h.host ▸ traced_blank _ _
  sessions := h.sessions ▸ traced_blank _ _
  transfers := h.transfers ▸ traced_blank _ _

/-- All but `ready`, `busy` and `loading` is the same. -/
structure SameData (a b : UiSnapshot T) : Prop where
  account : b.account = a.account
  error : b.error = a.error
  resources : b.resources = a.resources
  machines : b.machines = a.machines
  host : b.host = a.host
  sessions : b.sessions = a.sessions
  transfers : b.transfers = a.transfers

theorem SameData.own {a b : UiSnapshot T} (h : SameData a b) (ha : a.Own) : b.Own where
  error := by
    rw [h.account, h.error]
    exact ha.error
  resources := by
    rw [h.account, h.resources]
    exact ha.resources
  machines := by
    rw [h.account, h.machines]
    exact ha.machines
  host := by
    rw [h.account, h.host]
    exact ha.host
  sessions := by
    rw [h.account, h.sessions]
    exact ha.sessions
  transfers := by
    rw [h.account, h.transfers]
    exact ha.transfers

theorem SameData.blank {a b : UiSnapshot T} (h : SameData a b) (ha : a.Blank) : b.Blank where
  error := h.error.trans ha.error
  resources := h.resources.trans ha.resources
  machines := h.machines.trans ha.machines
  host := h.host.trans ha.host
  sessions := h.sessions.trans ha.sessions
  transfers := h.transfers.trans ha.transfers

theorem Own.withError {state : UiSnapshot T} (h : state.Own) {error : Brought T (Option String)}
    (herror : ErrorTraced state.account error) {ready busy loading : Bool} :
    Own { state with error := error, ready := ready, busy := busy, loading := loading } :=
  ⟨herror, h.resources, h.machines, h.host, h.sessions, h.transfers⟩

theorem errorTraced_blank (account : Option T.Account) : ErrorTraced account (.blank none) :=
  .inr (traced_blank account none)

end UiSnapshot

namespace DesktopStore

open UiSnapshot

variable {T : ApiTypes} {s s' : DesktopStore T}

/-! ### What holds of a task -/

/-- Nobody is signed in, nothing is shown, and no read of the current epoch is pending. -/
structure SignedOut (s : DesktopStore T) : Prop where
  account : s.state.account = none
  blank : s.state.Blank
  reads : ∀ (id epoch read : ℕ) (issue : Issue T),
    s.tasks id = some (.refresh epoch read issue) ∨ s.tasks id = some (.poll epoch read issue) →
      epoch ≠ s.epoch

/-- A logout is pending. -/
def LoggingOut (s : DesktopStore T) : Prop := ∃ id task, s.tasks id = some task ∧ task.isLogout

/-- What holds of the task `id`. -/
def Fits (s : DesktopStore T) (id : ℕ) : StoreTask T → Prop
  | .start epoch issue => (id = 0 ∧ epoch = 1 ∧ 1 ≤ s.epoch) ∧
      (issue.op = .account ∧ issue.account = none) ∧ (epoch = s.epoch → s.SignedOut)
  | .authenticate epoch issue => (s.mutationPending = true ∧ epoch = s.epoch ∧ 2 ≤ epoch) ∧
      (issue.op = .authenticate ∧ issue.account = none) ∧ s.SignedOut
  | .authenticateRefresh epoch _ => s.mutationPending = true ∧ epoch = s.epoch ∧ 2 ≤ epoch
  | .logout epoch issue =>
      (s.mutationPending = true ∧ epoch = s.epoch ∧ 2 ≤ epoch) ∧ issue.op = .logout
  | .refresh epoch read issue => (issue.op = .refresh ∧ epoch ≤ s.epoch ∧ read ≤ s.reads) ∧
      (epoch = s.epoch → issue.inLogout = true ∨
        (issue.account = s.state.account ∧ s.state.account.isSome ∧ ¬ s.LoggingOut))
  | .poll epoch read issue => (issue.op = .poll ∧ epoch ≤ s.epoch ∧ read ≤ s.reads) ∧
      (epoch = s.epoch → (issue.account = s.state.account ∧ s.state.account.isSome ∧
        ¬ s.LoggingOut) ∧ (read = s.reads → issue.begun = s.begun))
  | .action epoch _ issue => (s.mutationPending = true ∧ epoch = s.epoch) ∧
      issue.op = .work ∧ issue.account = s.state.account ∧ s.state.account.isSome
  | .actionRefresh epoch _ =>
      s.mutationPending = true ∧ epoch = s.epoch ∧ s.state.account.isSome

/-- The store, apart from its flags. -/
structure Core (s : DesktopStore T) : Prop where
  started : 1 ≤ s.epoch
  fresh : ∀ id, s.next ≤ id → s.tasks id = none
  fits : ∀ id task, s.tasks id = some task → s.Fits id task
  single : ∀ i j t u, s.tasks i = some t → s.tasks j = some u → t.mutates = true →
    u.mutates = true → i = j
  own : s.state.Own

/-- No authentication, logout or action is pending. -/
def Quiet (s : DesktopStore T) : Prop := ∀ id task, s.tasks id = some task → task.mutates = false

variable {task : StoreTask T} {id : ℕ} {f : UiSnapshot T → UiSnapshot T}

theorem Fits.pending (h : s.Fits id task)
    (hmutates : task.mutates = true) : s.mutationPending = true := by
  cases task with
  | start => cases hmutates
  | refresh => cases hmutates
  | poll => cases hmutates
  | authenticate => exact h.1.1
  | authenticateRefresh => exact h.1
  | logout => exact h.1.1
  | action => exact h.1.1
  | actionRefresh => exact h.1

theorem Core.quiet (h : s.Core) (hpending : s.mutationPending = false) : s.Quiet := by
  intro id task htask
  by_contra hmutates
  rw [Bool.not_eq_false] at hmutates
  rw [(h.fits id task htask).pending hmutates] at hpending
  cases hpending

theorem Quiet.not_loggingOut (h : s.Quiet) : ¬ s.LoggingOut := by
  rintro ⟨id, task, htask, hlogout⟩
  have hmutates := h id task htask
  cases task with
  | logout => cases hmutates
  | _ => cases hlogout

theorem Core.inLogout_eq_false (h : s.Core) : s.inLogout = false ↔ ¬ s.LoggingOut := by
  unfold inLogout LoggingOut
  rw [List.any_eq_false]
  constructor
  · rintro hany ⟨id, task, htask, hlogout⟩
    have hid : id < s.next := by
      by_contra hge
      rw [h.fresh id (not_lt.mp hge)] at htask
      cases htask
    have hfalse := hany id (List.mem_range.mpr hid)
    rw [htask] at hfalse
    exact hfalse hlogout
  · intro hnone id _ hany
    obtain ⟨task, htask, hlogout⟩ := (Option.any_eq_true ..).mp hany
    exact hnone ⟨id, task, htask, hlogout⟩

/-- What the tasks look at is still so. -/
structure Within (s s' : DesktopStore T) : Prop where
  epoch : s'.epoch = s.epoch
  reads : s.reads ≤ s'.reads
  begun : s'.reads = s.reads → s'.begun = s.begun
  account : s'.state.account = s.state.account
  signedOut : s.SignedOut → s'.SignedOut
  loggingOut : s'.LoggingOut → s.LoggingOut

theorem Fits.within (h : s.Fits id task) (hw : Within s s')
    (hpending : task.mutates = true → s'.mutationPending = true) : s'.Fits id task := by
  have hreads := hw.reads
  cases task with
  | start epoch issue =>
    obtain ⟨hid, hissue, hout⟩ := h
    exact ⟨hw.epoch.symm ▸ hid, hissue, fun he => hw.signedOut (hout (he.trans hw.epoch))⟩
  | authenticate epoch issue =>
    obtain ⟨⟨-, hepoch⟩, hissue, hout⟩ := h
    exact ⟨⟨hpending rfl, hw.epoch.symm ▸ hepoch⟩, hissue, hw.signedOut hout⟩
  | authenticateRefresh epoch refresh => exact ⟨hpending rfl, hw.epoch.symm ▸ h.2⟩
  | logout epoch issue => exact ⟨⟨hpending rfl, hw.epoch.symm ▸ h.1.2⟩, h.2⟩
  | refresh epoch read issue =>
    obtain ⟨⟨hop, hepoch, hread⟩, hcurrent⟩ := h
    refine ⟨⟨hop, hw.epoch.symm ▸ hepoch, by omega⟩, fun he => ?_⟩
    rw [hw.account]
    exact (hcurrent (he.trans hw.epoch)).imp_right
      fun hown => ⟨hown.1, hown.2.1, fun hl => hown.2.2 (hw.loggingOut hl)⟩
  | poll epoch read issue =>
    obtain ⟨⟨hop, hepoch, hread⟩, hcurrent⟩ := h
    refine ⟨⟨hop, hw.epoch.symm ▸ hepoch, by omega⟩, fun he => ?_⟩
    obtain ⟨hown, hbegun⟩ := hcurrent (he.trans hw.epoch)
    rw [hw.account]
    refine ⟨⟨hown.1, hown.2.1, fun hl => hown.2.2 (hw.loggingOut hl)⟩, fun hr => ?_⟩
    -- the count of reads has not gone on, or the poll is behind it
    rw [hw.begun (by omega)]
    exact hbegun (by omega)
  | action epoch refreshes issue =>
    exact ⟨⟨hpending rfl, hw.epoch.symm ▸ h.1.2⟩, hw.account.symm ▸ h.2⟩
  | actionRefresh epoch refresh =>
    exact ⟨hpending rfl, hw.epoch.symm ▸ h.2.1, hw.account.symm ▸ h.2.2⟩

/-- A task that does not look at what is shown. -/
def Past (s : DesktopStore T) : StoreTask T → Prop
  | .start epoch _ => epoch ≠ s.epoch
  | .refresh epoch _ issue => epoch = s.epoch → issue.inLogout = true
  | .poll epoch _ _ => epoch ≠ s.epoch
  | _ => False

theorem Fits.past (h : s.Fits id task) (hpast : s'.Past task)
    (hepoch : s.epoch ≤ s'.epoch) (hreads : s.reads ≤ s'.reads) : s'.Fits id task := by
  cases task with
  | start epoch issue =>
    exact ⟨⟨h.1.1, h.1.2.1, h.1.2.2.trans hepoch⟩, h.2.1, fun he => absurd he hpast⟩
  | refresh epoch read issue =>
    exact ⟨⟨h.1.1, h.1.2.1.trans hepoch, h.1.2.2.trans hreads⟩, fun he => .inl (hpast he)⟩
  | poll epoch read issue =>
    exact ⟨⟨h.1.1, h.1.2.1.trans hepoch, h.1.2.2.trans hreads⟩, fun he => absurd he hpast⟩
  | authenticate => exact hpast.elim
  | authenticateRefresh => exact hpast.elim
  | logout => exact hpast.elim
  | action => exact hpast.elim
  | actionRefresh => exact hpast.elim

/-! ### Tasks that come and go -/

theorem tasks_goOn {id j : ℕ} {task : Option (StoreTask T)} {u : StoreTask T}
    (h : (s.goOn id task).tasks j = some u) :
    (j = id ∧ task = some u) ∨ (j ≠ id ∧ s.tasks j = some u) := by
  change Function.update s.tasks id task j = some u at h
  by_cases hj : j = id
  · subst hj
    exact .inl ⟨rfl, by rwa [Function.update_self] at h⟩
  · exact .inr ⟨hj, by rwa [Function.update_of_ne hj] at h⟩

theorem tasks_removed {id j : ℕ} {u : StoreTask T} (h : (s.goOn id none).tasks j = some u) :
    j ≠ id ∧ s.tasks j = some u := by
  rcases tasks_goOn h with ⟨-, hnone⟩ | hold
  · cases hnone
  · exact hold

theorem tasks_spawn {j : ℕ} {task u : StoreTask T} (h : (s.spawn task).tasks j = some u) :
    (j = s.next ∧ task = u) ∨ (j ≠ s.next ∧ s.tasks j = some u) := by
  change Function.update s.tasks s.next (some task) j = some u at h
  by_cases hj : j = s.next
  · subst hj
    exact .inl ⟨rfl, by rwa [Function.update_self, Option.some_inj] at h⟩
  · exact .inr ⟨hj, by rwa [Function.update_of_ne hj] at h⟩

theorem Core.lt_next (h : s.Core) (htask : s.tasks id = some task) : id < s.next := by
  by_contra hge
  rw [h.fresh id (not_lt.mp hge)] at htask
  cases htask

theorem Core.kept (h : s.Core) (hnext : s'.next = s.next) (hepoch : s'.epoch = s.epoch)
    (htasks : ∀ id task, s'.tasks id = some task → s.tasks id = some task)
    (hfits : ∀ id task, s'.tasks id = some task → s'.Fits id task) (hown : s'.state.Own) :
    s'.Core where
  started := hepoch.symm ▸ h.started
  fresh := by
    intro id hid
    by_contra hsome
    obtain ⟨task, htask⟩ := Option.ne_none_iff_exists'.mp hsome
    have hlt := h.lt_next (htasks id task htask)
    omega
  fits := hfits
  single := fun i j t u ht hu => h.single i j t u (htasks i t ht) (htasks j u hu)
  own := hown

theorem Core.added (h : s.Core) (hnext : s.next ≤ s'.next)
    (hid : id < s'.next) (hepoch : s.epoch ≤ s'.epoch)
    (htasks : ∀ j u, s'.tasks j = some u → (j = id ∧ task = u) ∨ (j ≠ id ∧ s.tasks j = some u))
    (hfits : ∀ j u, s.tasks j = some u → s'.Fits j u) (hnew : s'.Fits id task)
    (hsingle : task.mutates = true → s.Quiet) (hown : s'.state.Own) : s'.Core where
  started := h.started.trans hepoch
  fresh := by
    intro j hj
    by_contra hsome
    obtain ⟨u, hu⟩ := Option.ne_none_iff_exists'.mp hsome
    rcases htasks j u hu with ⟨rfl, -⟩ | ⟨-, hold⟩
    · omega
    · have hlt := h.lt_next hold
      omega
  fits := by
    intro j u hu
    rcases htasks j u hu with ⟨rfl, rfl⟩ | ⟨-, hold⟩
    · exact hnew
    · exact hfits j u hold
  single := by
    intro i j t u ht hu hti huj
    rcases htasks i t ht with ⟨rfl, rfl⟩ | ⟨-, hold⟩ <;>
      rcases htasks j u hu with ⟨rfl, rfl⟩ | ⟨-, hold'⟩
    · rfl
    · rw [hsingle hti j u hold'] at huj
      cases huj
    · rw [hsingle huj i t hold] at hti
      cases hti
    · exact h.single i j t u hold hold' hti huj
  own := hown

theorem SignedOut.kept (h : s.SignedOut) (haccount : s'.state.account = s.state.account)
    (hblank : s'.state.Blank) (hepoch : s'.epoch = s.epoch)
    (htasks : ∀ (id epoch read : ℕ) (issue : Issue T),
      s'.tasks id = some (.refresh epoch read issue) ∨ s'.tasks id = some (.poll epoch read issue) →
      s.tasks id = some (.refresh epoch read issue) ∨ s.tasks id = some (.poll epoch read issue)) :
    s'.SignedOut where
  account := haccount.trans h.account
  blank := hblank
  reads := fun id epoch read issue hread => hepoch ▸ h.reads id epoch read issue
    (htasks id epoch read issue hread)

theorem within_removed (s : DesktopStore T) (id : ℕ) : Within s (s.goOn id none) where
  epoch := rfl
  reads := le_rfl
  begun := fun _ => rfl
  account := rfl
  signedOut := fun h => h.kept rfl h.blank rfl fun _ _ _ _ =>
    Or.imp (fun ht => (tasks_removed ht).2) fun ht => (tasks_removed ht).2
  loggingOut := fun ⟨j, task, htask, hlogout⟩ => ⟨j, task, (tasks_removed htask).2, hlogout⟩

theorem Core.removed (h : s.Core) (id : ℕ) : (s.goOn id none).Core :=
  h.kept rfl rfl (fun _ _ ht => (tasks_removed ht).2)
    (fun j task ht =>
      have hfits := h.fits j task (tasks_removed ht).2
      hfits.within (within_removed s id) hfits.pending) h.own

theorem Core.quiet_removed (h : s.Core) (htask : s.tasks id = some task)
    (hmutates : task.mutates = true) : (s.goOn id none).Quiet := by
  intro j u hu
  obtain ⟨hj, hold⟩ := tasks_removed hu
  by_contra hmut
  rw [Bool.not_eq_false] at hmut
  exact hj (h.single j id u task hold htask hmut hmutates)

theorem Core.set (h : s.Core) (haccount : (f s.state).account = s.state.account)
    (hblank : s.SignedOut → (f s.state).Blank) (hown : (f s.state).Own) : (s.set f).Core :=
  have hwithin : Within s (s.set f) :=
    { epoch := rfl
      reads := le_rfl
      begun := fun _ => rfl
      account := haccount
      signedOut := fun hout => hout.kept haccount (hblank hout) rfl fun _ _ _ _ ht => ht
      loggingOut := fun hl => hl }
  h.kept rfl rfl (fun _ _ ht => ht)
    (fun id task ht =>
      have hfits := h.fits id task ht
      hfits.within hwithin hfits.pending) hown

theorem Core.setFlags (h : s.Core) (hf : SameData s.state (f s.state)) : (s.set f).Core :=
  h.set hf.account (fun hout => hf.blank hout.blank) (hf.own h.own)

theorem Core.setPast (h : s.Core) (hpast : ∀ id task, s.tasks id = some task → s.Past task)
    (hown : (f s.state).Own) : (s.set f).Core :=
  h.kept rfl rfl (fun _ _ ht => ht)
    (fun id task ht =>
      have hpast' : (s.set f).Past task := by
        have hp := hpast id task ht
        cases task <;> exact hp
      (h.fits id task ht).past hpast' le_rfl le_rfl) hown

/-- `mutationPending` is reset. -/
theorem Core.settled (h : s.Core) (hquiet : s.Quiet) :
    Core { s with mutationPending := false } :=
  have hwithin : Within s { s with mutationPending := false } :=
    { epoch := rfl
      reads := le_rfl
      begun := fun _ => rfl
      account := rfl
      signedOut := fun hout => hout.kept rfl hout.blank rfl fun _ _ _ _ ht => ht
      loggingOut := fun hl => hl }
  h.kept rfl rfl (fun _ _ ht => ht)
    (fun id task ht => (h.fits id task ht).within hwithin fun hmutates => by
      rw [hquiet id task ht] at hmutates
      cases hmutates) h.own

theorem Core.pollSettled (h : s.Core) (pollPending : Bool) :
    Core { s with pollPending := pollPending } :=
  have hwithin : Within s { s with pollPending := pollPending } :=
    { epoch := rfl
      reads := le_rfl
      begun := fun _ => rfl
      account := rfl
      signedOut := fun hout => hout.kept rfl hout.blank rfl fun _ _ _ _ ht => ht
      loggingOut := fun hl => hl }
  h.kept rfl rfl (fun _ _ ht => ht)
    (fun id task ht =>
      have hfits := h.fits id task ht
      hfits.within hwithin hfits.pending) h.own

theorem Core.finished (h : s.Core) (hquiet : s.Quiet) (hf : SameData s.state (f s.state)) :
    Core { s with mutationPending := false, state := f s.state } :=
  (h.settled hquiet).setFlags hf

/-! ### The calls -/

theorem authenticate_cases (s : DesktopStore T) :
    s.authenticate = s ∨ s.mutationPending = false ∧ s.authenticate = { s with
      state := { UiSnapshot.empty T with ready := true, busy := true }
      epoch := s.epoch + 1
      mutationPending := true
      tasks := Function.update s.tasks s.next
        (some (.authenticate (s.epoch + 1) ⟨.authenticate, none, s.begun + 1, s.inLogout⟩))
      next := s.next + 1
      begun := s.begun + 1 } := by
  unfold authenticate
  by_cases hpending : s.mutationPending = true
  · exact .inl (if_pos hpending)
  · exact .inr ⟨Bool.not_eq_true _ ▸ hpending, if_neg hpending⟩

theorem logout_cases (s : DesktopStore T) :
    s.logout = s ∨ s.mutationPending = false ∧ s.logout = { s with
      state := { s.state with busy := true, error := .blank none }
      epoch := s.epoch + 1
      mutationPending := true
      tasks := Function.update s.tasks s.next
        (some (.logout (s.epoch + 1) ⟨.logout, s.state.account, s.begun + 1, s.inLogout⟩))
      next := s.next + 1
      begun := s.begun + 1 } := by
  unfold logout
  by_cases hpending : s.mutationPending = true
  · exact .inl (if_pos hpending)
  · exact .inr ⟨Bool.not_eq_true _ ▸ hpending, if_neg hpending⟩

theorem refresh_cases (s : DesktopStore T) :
    s.refresh = (s, none) ∨ s.state.account.isSome ∧ s.refresh = ({ s with
      state := { s.state with loading := true, error := .blank none }
      reads := s.reads + 1
      tasks := Function.update s.tasks s.next (some (.refresh s.epoch (s.reads + 1)
        ⟨.refresh, s.state.account, s.begun, s.inLogout⟩))
      next := s.next + 1 }, some s.next) := by
  unfold refresh
  by_cases hnone : s.state.account.isNone = true
  · exact .inl (if_pos hnone)
  · have hsigned : s.state.account.isSome :=
      Option.isSome_iff_ne_none.mpr fun hn => hnone (Option.isNone_iff_eq_none.mpr hn)
    exact .inr ⟨hsigned, if_neg hnone⟩

theorem poll_cases (s : DesktopStore T) :
    s.poll = s ∨ (s.state.account.isSome ∧ s.mutationPending = false) ∧ s.poll = { s with
      pollPending := true
      tasks := Function.update s.tasks s.next (some (.poll s.epoch s.reads
        ⟨.poll, s.state.account, s.begun, s.inLogout⟩))
      next := s.next + 1 } := by
  unfold poll
  cases haccount : s.state.account with
  | none => exact .inl rfl
  | some account =>
    by_cases hpending : (s.pollPending || s.mutationPending) = true
    · exact .inl (if_pos (by simpa using hpending))
    · rw [Bool.not_eq_true, Bool.or_eq_false_iff] at hpending
      refine .inr ⟨⟨rfl, hpending.2⟩, ?_⟩
      rw [if_neg (by simp [hpending.1, hpending.2]), ← haccount]
      rfl

theorem action_cases (refresh : Bool) (s : DesktopStore T) :
    s.action refresh = s ∨ (s.mutationPending = false ∧ s.state.account.isSome) ∧
      s.action refresh = { s with
        state := { s.state with busy := true, loading := false, error := .blank none }
        reads := s.reads + 1
        mutationPending := true
        tasks := Function.update s.tasks s.next
          (some (.action s.epoch refresh ⟨.work, s.state.account, s.begun + 1, s.inLogout⟩))
        next := s.next + 1
        begun := s.begun + 1 } := by
  unfold action
  by_cases hpending : s.mutationPending = true
  · exact .inl (if_pos (by rw [hpending]; rfl))
  · rw [Bool.not_eq_true] at hpending
    cases haccount : s.state.account with
    | none => exact .inl (if_pos (by rw [hpending]; rfl))
    | some account =>
      refine .inr ⟨⟨hpending, rfl⟩, ?_⟩
      rw [if_neg (by rw [hpending]; exact Bool.false_ne_true), ← haccount]
      rfl

theorem Core.clearError (h : s.Core) : s.clearError.Core :=
  h.set rfl
    (fun hout => ⟨rfl, hout.blank.resources, hout.blank.machines, hout.blank.host,
      hout.blank.sessions, hout.blank.transfers⟩)
    (h.own.withError (errorTraced_blank _))

theorem tasks_update {j : ℕ} {task u : StoreTask T}
    (h : Function.update s.tasks s.next (some task) j = some u) :
    (j = s.next ∧ task = u) ∨ (j ≠ s.next ∧ s.tasks j = some u) :=
  tasks_spawn (show (s.spawn task).tasks j = some u from h)

theorem Core.opened (h : s.Core) (hquiet : s.Quiet)
    (hnext : s'.next = s.next + 1) (hepoch : s'.epoch = s.epoch + 1) (hreads : s'.reads = s.reads)
    (htasks : s'.tasks = Function.update s.tasks s.next (some task))
    (hnew : s'.Fits s.next task) (hown : s'.state.Own) : s'.Core := by
  refine h.added (by omega) (by omega) (by omega) (fun j u hu => tasks_update (htasks ▸ hu))
    (fun j u hu => ?_) hnew (fun _ => hquiet) hown
  have hfits := h.fits j u hu
  refine hfits.past ?_ (by omega) (by omega)
  have hmutates := hquiet j u hu
  cases u with
  | start epoch issue =>
    obtain ⟨-, he, hle⟩ := hfits.1
    show epoch ≠ s'.epoch
    omega
  | refresh epoch read issue =>
    obtain ⟨-, hle, -⟩ := hfits.1
    intro he
    omega
  | poll epoch read issue =>
    obtain ⟨-, hle, -⟩ := hfits.1
    show epoch ≠ s'.epoch
    omega
  | authenticate => cases hmutates
  | authenticateRefresh => cases hmutates
  | logout => cases hmutates
  | action => cases hmutates
  | actionRefresh => cases hmutates

theorem Core.read_le (h : s.Core) {id epoch read : ℕ} {issue : Issue T}
    (htask : s.tasks id = some (.refresh epoch read issue) ∨
      s.tasks id = some (.poll epoch read issue)) : epoch ≤ s.epoch := by
  rcases htask with htask | htask
  · exact (h.fits id _ htask).1.2.1
  · exact (h.fits id _ htask).1.2.1

theorem Core.authenticate (h : s.Core) : s.authenticate.Core := by
  rcases s.authenticate_cases with hsame | ⟨hpending, hnew⟩
  · rwa [hsame]
  have hblank : Blank { UiSnapshot.empty T with ready := true, busy := true } :=
    ⟨rfl, rfl, rfl, rfl, rfl, rfl⟩
  rw [hnew]
  refine h.opened (h.quiet hpending) rfl rfl rfl rfl
    ⟨⟨rfl, rfl, Nat.succ_le_succ h.started⟩, ⟨rfl, rfl⟩, rfl, hblank, ?_⟩ hblank.own
  -- what is read was called before this
  intro id epoch read issue hread
  have hold : s.tasks id = some (.refresh epoch read issue) ∨
      s.tasks id = some (.poll epoch read issue) := by
    refine hread.imp (fun ht => ?_) fun ht => ?_ <;> rcases tasks_update ht with ⟨-, hne⟩ | hold
    · cases hne
    · exact hold.2
    · cases hne
    · exact hold.2
  have hle := h.read_le hold
  show epoch ≠ s.epoch + 1
  omega

theorem Core.logout (h : s.Core) : s.logout.Core := by
  rcases s.logout_cases with hsame | ⟨hpending, hnew⟩
  · rwa [hsame]
  rw [hnew]
  exact h.opened (h.quiet hpending) rfl rfl rfl rfl ⟨⟨rfl, rfl, Nat.succ_le_succ h.started⟩, rfl⟩
    (h.own.withError (errorTraced_blank _))

theorem Core.called (h : s.Core) (hlogout : task.isLogout = false)
    (hsingle : task.mutates = true → s.Quiet) (hsigned : s.state.account.isSome)
    (hnext : s'.next = s.next + 1) (hepoch : s'.epoch = s.epoch) (hreads : s.reads ≤ s'.reads)
    (hbegun : s'.reads = s.reads → s'.begun = s.begun)
    (haccount : s'.state.account = s.state.account)
    (htasks : s'.tasks = Function.update s.tasks s.next (some task))
    (hpending : s.mutationPending = true → s'.mutationPending = true)
    (hnew : (s'.LoggingOut → s.LoggingOut) → s'.Fits s.next task) (hown : s'.state.Own) :
    s'.Core := by
  have hloggingOut : s'.LoggingOut → s.LoggingOut := by
    rintro ⟨j, u, hu, hl⟩
    rcases tasks_update (htasks ▸ hu) with ⟨-, rfl⟩ | ⟨-, hold⟩
    · rw [hlogout] at hl
      cases hl
    · exact ⟨j, u, hold, hl⟩
  have hwithin : Within s s' :=
    { epoch := hepoch
      reads := hreads
      begun := hbegun
      account := haccount
      signedOut := fun hout => by
        rw [hout.account] at hsigned
        cases hsigned
      loggingOut := hloggingOut }
  refine h.added (by omega) (by omega) (by omega) (fun j u hu => tasks_update (htasks ▸ hu))
    (fun j u hu => ?_) (hnew hloggingOut) hsingle hown
  have hfits := h.fits j u hu
  exact hfits.within hwithin fun hmutates => hpending (hfits.pending hmutates)

theorem Core.refresh (h : s.Core) : s.refresh.1.Core := by
  rcases s.refresh_cases with hsame | ⟨hsigned, hnew⟩
  · rwa [hsame]
  rw [hnew]
  refine h.called rfl (fun hmutates => by cases hmutates) hsigned rfl rfl (Nat.le_succ _)
    (fun _ => rfl) rfl rfl id (fun hloggingOut => ?_) (h.own.withError (errorTraced_blank _))
  refine ⟨⟨rfl, le_rfl, le_rfl⟩, fun _ => ?_⟩
  by_cases hlogout : s.inLogout = true
  · exact .inl hlogout
  · rw [Bool.not_eq_true] at hlogout
    exact .inr ⟨rfl, hsigned, fun hl => h.inLogout_eq_false.mp hlogout (hloggingOut hl)⟩

theorem Core.poll (h : s.Core) : s.poll.Core := by
  rcases s.poll_cases with hsame | ⟨⟨hsigned, hpending⟩, hnew⟩
  · rwa [hsame]
  rw [hnew]
  refine h.called rfl (fun hmutates => by cases hmutates) hsigned rfl rfl le_rfl
    (fun _ => rfl) rfl rfl id (fun hloggingOut => ?_) h.own
  exact ⟨⟨rfl, le_rfl, le_rfl⟩, fun _ => ⟨⟨rfl, hsigned, fun hl =>
    (h.quiet hpending).not_loggingOut (hloggingOut hl)⟩, fun _ => rfl⟩⟩

theorem Core.action (h : s.Core) (refresh : Bool) : (s.action refresh).Core := by
  rcases s.action_cases refresh with hsame | ⟨⟨hpending, hsigned⟩, hnew⟩
  · rwa [hsame]
  rw [hnew]
  exact h.called rfl (fun _ => h.quiet hpending) hsigned rfl rfl (Nat.le_succ _)
    (fun hreads => absurd hreads (Nat.succ_ne_self _)) rfl rfl (fun _ => rfl)
    (fun _ => ⟨⟨rfl, rfl⟩, rfl, rfl, hsigned⟩) (h.own.withError (errorTraced_blank _))

end DesktopStore

end NebulaDesk
