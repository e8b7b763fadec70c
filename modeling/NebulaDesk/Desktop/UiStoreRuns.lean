/-
What the store of the desktop interface shows (`apps/desktop-ui/src/state/store.ts`).

* `Flags` — a pending mutation is there as a task, and is what `busy` stands for; `loading` stands
  for a refresh of the current epoch, or is left over in a logout;
* `Timely` — what a step puts into the sessions and transfers was asked for after the last
  mutation had begun;
* **`store_never_stale`** — both, and that what is shown came in for the account that is shown, in
  every state.
-/
import NebulaDesk.Desktop.UiStoreReplies

namespace NebulaDesk

open Runs

namespace DesktopStore

open UiSnapshot

variable {T : ApiTypes} {s s' : DesktopStore T}

/-! ### The flags -/

def Mutating (s : DesktopStore T) : Prop := ∃ id task, s.tasks id = some task ∧ task.mutates = true

/-- A refresh of the current epoch is pending, or a logout is. -/
def Loads (s : DesktopStore T) : Prop :=
  (∃ id issue, s.tasks id = some (.refresh s.epoch s.reads issue)) ∨ s.LoggingOut

structure Flags (s : DesktopStore T) : Prop where
  mutation : s.mutationPending = true → s.Mutating
  busy : s.state.busy = true → s.mutationPending = true
  loading : s.state.loading = true → s.Loads

/-- No task goes. -/
def Keeps (s s' : DesktopStore T) : Prop :=
  ∀ id task, s.tasks id = some task → s'.tasks id = some task

theorem Mutating.mono (h : s.Mutating) (hkeeps : Keeps s s') : s'.Mutating := by
  obtain ⟨id, task, htask, hmutates⟩ := h
  exact ⟨id, task, hkeeps id task htask, hmutates⟩

theorem Loads.mono (h : s.Loads) (hkeeps : Keeps s s') (hepoch : s'.epoch = s.epoch)
    (hreads : s'.reads = s.reads) : s'.Loads := by
  rcases h with ⟨id, issue, htask⟩ | ⟨id, task, htask, hlogout⟩
  · refine .inl ⟨id, issue, ?_⟩
    rw [hepoch, hreads]
    exact hkeeps id _ htask
  · exact .inr ⟨id, task, hkeeps id task htask, hlogout⟩

/-- The name of the next task is free. -/
def Free (s : DesktopStore T) : Prop := s.tasks s.next = none

theorem Core.free (h : s.Core) (id : ℕ) : (s.goOn id none).Free :=
  (h.removed id).fresh s.next le_rfl

variable {task : StoreTask T} {id : ℕ}

theorem keeps_update (hfree : s.Free)
    (htasks : s'.tasks = Function.update s.tasks s.next (some task)) : Keeps s s' := by
  intro id u hu
  have hid : id ≠ s.next := by
    rintro rfl
    rw [hfree] at hu
    cases hu
  rw [htasks, Function.update_of_ne hid]
  exact hu

theorem loads_removed (h : s.Loads)
    (htask : s.tasks id = some task) (hlogout : task.isLogout = false)
    (hread : ∀ issue, task ≠ .refresh s.epoch s.reads issue) : (s.goOn id none).Loads := by
  have hkept : ∀ j u, s.tasks j = some u → u ≠ task → (s.goOn id none).tasks j = some u := by
    intro j u hu hne
    have hj : j ≠ id := by
      rintro rfl
      exact hne (Option.some.inj (hu.symm.trans htask))
    show Function.update s.tasks id none j = some u
    rwa [Function.update_of_ne hj]
  rcases h with ⟨j, issue, hj⟩ | ⟨j, u, hj, hl⟩
  · exact .inl ⟨j, issue, hkept j _ hj (hread issue).symm⟩
  · refine .inr ⟨j, u, hkept j u hj ?_, hl⟩
    rintro rfl
    rw [hlogout] at hl
    cases hl

theorem mutating_removed (h : s.Mutating) (htask : s.tasks id = some task)
    (hmutates : task.mutates = false) : (s.goOn id none).Mutating := by
  obtain ⟨j, u, hu, hm⟩ := h
  refine ⟨j, u, ?_, hm⟩
  have hj : j ≠ id := by
    rintro rfl
    rw [Option.some.inj (hu.symm.trans htask), hmutates] at hm
    cases hm
  show Function.update s.tasks id none j = some u
  rwa [Function.update_of_ne hj]

theorem Flags.removed (h : s.Flags)
    (htask : s.tasks id = some task) (hmutates : task.mutates = false)
    (hread : ∀ issue, task ≠ .refresh s.epoch s.reads issue) : (s.goOn id none).Flags where
  mutation := fun hpending => mutating_removed (h.mutation hpending) htask hmutates
  busy := h.busy
  loading := fun hloading => by
    refine loads_removed (h.loading hloading) htask ?_ hread
    cases task with
    | logout => cases hmutates
    | _ => rfl

theorem refresh_keeps (hfree : s.Free) : Keeps s s.refresh.1 := by
  rcases s.refresh_cases with hsame | ⟨-, hnew⟩
  · rw [hsame]
    exact fun _ _ ht => ht
  · rw [hnew]
    exact keeps_update hfree rfl

theorem refresh_loading (h : s.state.loading = true → s.Loads) :
    s.refresh.1.state.loading = true → s.refresh.1.Loads := by
  rcases s.refresh_cases with hsame | ⟨-, hnew⟩
  · rwa [hsame]
  · rw [hnew]
    exact fun _ => .inl ⟨s.next, _, Function.update_self ..⟩

theorem refresh_busy (s : DesktopStore T) : s.refresh.1.state.busy = s.state.busy := by
  rcases s.refresh_cases with hsame | ⟨-, hnew⟩
  · rw [hsame]
  · rw [hnew]

theorem Flags.refresh (h : s.Flags) (hfree : s.Free) : s.refresh.1.Flags where
  mutation := fun hpending =>
    (h.mutation (s.refresh_mutationPending ▸ hpending)).mono (refresh_keeps hfree)
  busy := fun hbusy => s.refresh_mutationPending ▸ h.busy (s.refresh_busy ▸ hbusy)
  loading := refresh_loading h.loading

theorem Flags.poll (h : s.Flags) (hfree : s.Free) : s.poll.Flags := by
  rcases s.poll_cases with hsame | ⟨-, hnew⟩
  · rwa [hsame]
  rw [hnew]
  exact
    { mutation := fun hpending => (h.mutation hpending).mono (keeps_update hfree rfl)
      busy := h.busy
      loading := fun hloading => (h.loading hloading).mono (keeps_update hfree rfl) rfl rfl }

theorem Flags.wentOn (hnone : s.tasks id = none)
    (hmutates : task.mutates = true) (hpending : s.mutationPending = true)
    (hloading : s.state.loading = true → s.Loads) : (s.goOn id (some task)).Flags where
  mutation := fun _ => ⟨id, task, Function.update_self .., hmutates⟩
  busy := fun _ => hpending
  loading := fun hl => by
    refine (hloading hl).mono (fun j u hu => ?_) rfl rfl
    have hj : j ≠ id := by
      rintro rfl
      rw [hnone] at hu
      cases hu
    show Function.update s.tasks id (some task) j = some u
    rwa [Function.update_of_ne hj]

theorem Flags.authenticate (h : s.Flags) : s.authenticate.Flags := by
  rcases s.authenticate_cases with hsame | ⟨-, hnew⟩
  · rwa [hsame]
  · rw [hnew]
    exact ⟨fun _ => ⟨s.next, _, Function.update_self .., rfl⟩, fun _ => rfl, fun hl => by cases hl⟩

theorem Flags.logout (h : s.Flags) : s.logout.Flags := by
  rcases s.logout_cases with hsame | ⟨-, hnew⟩
  · rwa [hsame]
  · rw [hnew]
    exact ⟨fun _ => ⟨s.next, _, Function.update_self .., rfl⟩, fun _ => rfl,
      fun _ => .inr ⟨s.next, _, Function.update_self .., rfl⟩⟩

theorem Flags.action (h : s.Flags) (refresh : Bool) : (s.action refresh).Flags := by
  rcases s.action_cases refresh with hsame | ⟨-, hnew⟩
  · rwa [hsame]
  · rw [hnew]
    exact ⟨fun _ => ⟨s.next, _, Function.update_self .., rfl⟩, fun _ => rfl, fun hl => by cases hl⟩

theorem Flags.startReply (h : s.Flags) (hcore : s.Core) {id epoch : ℕ} {issue : Issue T}
    (htask : s.tasks id = some (.start epoch issue)) (reply : ApiReply (Option T.Account)) :
    ((s.goOn id none).startReply epoch issue reply).Flags := by
  have hrest := h.removed htask rfl nofun
  rcases startReply_cases epoch issue reply (s.goOn id none) with
    ⟨-, hsame⟩ | ⟨hepoch, ⟨account, hnew⟩ | ⟨message, hnew⟩⟩
  · rwa [hsame]
  · rw [hnew]
    have hset : ((s.goOn id none).set fun state =>
        { state with account := account, ready := true }).Flags :=
      { hrest with }
    exact hset.refresh (hcore.free id)
  · rw [hnew]
    exact { hrest with }

/-- A mutation that has ended, with what `finally` resets. -/
theorem flags_finished (hpending : s.mutationPending = false) (hbusy : s.state.busy = false)
    (hloading : s.state.loading = true → s.Loads) : s.Flags where
  mutation := fun hp => by
    rw [hpending] at hp
    cases hp
  busy := fun hb => by
    rw [hbusy] at hb
    cases hb
  loading := hloading

theorem refresh_tasks (hid : id < s.next) : s.refresh.1.tasks id = s.tasks id := by
  rcases s.refresh_cases with hsame | ⟨-, hnew⟩
  · rw [hsame]
  · rw [hnew]
    exact Function.update_of_ne hid.ne _ _

theorem Flags.resolve (h : s.Flags) (hcore : s.Core) {outcome : Outcome T}
    (hs : s.resolve id outcome = some s') : s'.Flags := by
  unfold DesktopStore.resolve at hs
  split at hs
  case h_1 epoch issue reply htask =>
    cases hs
    exact h.startReply hcore htask reply
  case h_2 epoch issue reply htask =>
    cases hs
    obtain ⟨⟨hpending, hepoch, -⟩, -⟩ := hcore.fits id _ htask
    have hloading := fun hl => loads_removed (h.loading hl) htask rfl nofun
    rcases authenticateReply_cases (s := s.goOn id none) id hepoch issue reply with
      ⟨account, refresh, hnew⟩ | ⟨message, hnew⟩
    · rw [hnew]
      refine Flags.wentOn ?_ rfl ((refresh_mutationPending _).trans hpending)
        (refresh_loading hloading)
      rw [refresh_tasks (s := (s.goOn id none).set _) (hcore.lt_next htask)]
      exact Function.update_self ..
    · rw [hnew]
      exact flags_finished rfl rfl hloading
  case h_3 epoch issue reply htask =>
    cases hs
    obtain ⟨⟨-, hepoch, -⟩, -⟩ := hcore.fits id _ htask
    obtain ⟨error, -, hnew⟩ := logoutReply_cases (s := s.goOn id none) hepoch issue reply
    rw [hnew]
    exact flags_finished rfl rfl fun hl => by cases hl
  case h_4 epoch read issue resources machines host htask =>
    cases hs
    rcases refreshReply_cases epoch read issue resources machines host (s.goOn id none) with
      ⟨hold, hsame⟩ | ⟨-, resources', machines', host', error', -, hnew⟩
    · rw [hsame]
      refine h.removed htask rfl fun issue' heq => hold ?_
      injection heq with hepoch hread
      exact ⟨hepoch, hread⟩
    · rw [hnew]
      exact ⟨fun hp => mutating_removed (h.mutation hp) htask rfl, h.busy, fun hl => by cases hl⟩
  case h_5 epoch read issue reply htask =>
    cases hs
    have hrest := h.removed htask rfl nofun
    rcases pollReply_cases epoch read issue reply (s.goOn id none) with
      hsame | ⟨-, sessions, transfers, error, -, -, hnew⟩
    · rw [hsame]
      exact { hrest with }
    · rw [hnew]
      exact { hrest with }
  case h_6 epoch refreshes issue reply htask =>
    cases hs
    obtain ⟨⟨hpending, hepoch⟩, -⟩ := hcore.fits id _ htask
    have hloading := fun hl => loads_removed (h.loading hl) htask rfl nofun
    rcases actionReply_cases (s := s.goOn id none) id hepoch refreshes issue reply with
      ⟨refresh, hnew⟩ | ⟨error, -, hnew⟩
    · rw [hnew]
      refine Flags.wentOn ?_ rfl ((refresh_mutationPending _).trans hpending)
        (refresh_loading hloading)
      rw [refresh_tasks (s := s.goOn id none) (hcore.lt_next htask)]
      exact Function.update_self ..
    · rw [hnew]
      exact Flags.poll (flags_finished rfl rfl hloading) (hcore.free id)
  case h_7 epoch refresh htask =>
    obtain ⟨-, hs⟩ := Option.ite_none_left_eq_some.mp hs
    cases hs
    obtain ⟨-, hepoch, -⟩ := hcore.fits id _ htask
    rw [finish_eq (s := s.goOn id none) hepoch]
    exact flags_finished rfl rfl fun hl => loads_removed (h.loading hl) htask rfl nofun
  case h_8 epoch refresh htask =>
    obtain ⟨-, hs⟩ := Option.ite_none_left_eq_some.mp hs
    cases hs
    obtain ⟨-, hepoch, -⟩ := hcore.fits id _ htask
    rw [finishAction_eq (s := s.goOn id none) hepoch]
    exact Flags.poll (flags_finished rfl rfl fun hl =>
      loads_removed (h.loading hl) htask rfl nofun) (hcore.free id)
  case h_9 => cases hs

theorem flags_step (h : s.Flags) (hcore : s.Core) (e : StoreEvent T)
    (hs : s.step e = some s') : s'.Flags := by
  cases e with
  | clearError =>
    cases hs
    exact { h with }
  | authenticate =>
    cases hs
    exact h.authenticate
  | logout =>
    cases hs
    exact h.logout
  | refresh =>
    cases hs
    exact h.refresh (hcore.fresh _ le_rfl)
  | poll =>
    cases hs
    exact h.poll (hcore.fresh _ le_rfl)
  | action refresh =>
    cases hs
    exact h.action refresh
  | resolve id outcome => exact h.resolve hcore hs

/-! ### What a step shows -/

/-- What the step puts into the sessions and transfers was read after the last mutation had begun,
and so was an error that a poll brings. -/
structure Timely (s s' : DesktopStore T) : Prop where
  reads : (s'.state.sessions = s.state.sessions ∧ s'.state.transfers = s.state.transfers) ∨
    (s'.state.sessions = .blank [] ∧ s'.state.transfers = .blank []) ∨
    ∃ issue, (s'.state.sessions.source = some issue ∧ s'.state.transfers.source = some issue) ∧
      issue.begun = s'.begun
  error : s'.state.error = s.state.error ∨ ∀ issue, s'.state.error.source = some issue →
    issue.op = .poll → issue.begun = s'.begun

theorem timely_same (h : s'.state = s.state) : Timely s s' := by
  refine ⟨.inl ⟨?_, ?_⟩, .inl ?_⟩ <;> rw [h]

theorem timely_cleared (hsessions : s'.state.sessions = s.state.sessions)
    (htransfers : s'.state.transfers = s.state.transfers) (herror : s'.state.error = .blank none) :
    Timely s s' :=
  ⟨.inl ⟨hsessions, htransfers⟩, .inr fun issue hsource => by
    rw [herror] at hsource
    cases hsource⟩

theorem timely_error (hsessions : s'.state.sessions = s.state.sessions)
    (htransfers : s'.state.transfers = s.state.transfers) (issue : Issue T)
    (herror : s'.state.error = s.state.error ∨ s'.state.error.source = some issue)
    (hop : issue.op ≠ .poll) : Timely s s' :=
  ⟨.inl ⟨hsessions, htransfers⟩, herror.imp_right fun hsource _ hsource' hop' =>
    absurd (Option.some.inj (hsource.symm.trans hsource') ▸ hop') hop⟩

theorem Timely.refresh (h : Timely s s') : Timely s s'.refresh.1 := by
  rcases s'.refresh_cases with hsame | ⟨-, hnew⟩
  · rwa [hsame]
  · rw [hnew]
    exact ⟨h.reads, .inr fun issue hsource => by cases hsource⟩

theorem Timely.poll (h : Timely s s') : Timely s s'.poll := by
  rcases s'.poll_cases with hsame | ⟨-, hnew⟩
  · rwa [hsame]
  · rw [hnew]
    exact ⟨h.reads, h.error⟩

theorem timely_resolve (h : s.Core) {outcome : Outcome T}
    (hs : s.resolve id outcome = some s') : Timely s s' := by
  unfold DesktopStore.resolve at hs
  split at hs
  case h_1 epoch issue reply htask =>
    cases hs
    obtain ⟨-, ⟨hop, -⟩, -⟩ := h.fits id _ htask
    rcases startReply_cases epoch issue reply (s.goOn id none) with
      ⟨-, hsame⟩ | ⟨-, ⟨account, hnew⟩ | ⟨message, hnew⟩⟩
    · rw [hsame]
      exact timely_same rfl
    · rw [hnew]
      exact Timely.refresh ⟨.inl ⟨rfl, rfl⟩, .inl rfl⟩
    · rw [hnew]
      refine timely_error rfl rfl issue (.inr rfl) ?_
      rw [hop]
      exact nofun
  case h_2 epoch issue reply htask =>
    cases hs
    obtain ⟨⟨-, hepoch, -⟩, ⟨hop, -⟩, -⟩ := h.fits id _ htask
    rcases authenticateReply_cases (s := s.goOn id none) id hepoch issue reply with
      ⟨account, refresh, hnew⟩ | ⟨message, hnew⟩
    · rw [hnew]
      have hrefresh : Timely s ((s.goOn id none).set fun state =>
          { state with account := some account, ready := true }).refresh.1 :=
        Timely.refresh ⟨.inl ⟨rfl, rfl⟩, .inl rfl⟩
      exact ⟨hrefresh.reads, hrefresh.error⟩
    · rw [hnew]
      refine timely_error rfl rfl issue (.inr rfl) ?_
      rw [hop]
      exact nofun
  case h_3 epoch issue reply htask =>
    cases hs
    obtain ⟨⟨-, hepoch, -⟩, hop⟩ := h.fits id _ htask
    obtain ⟨error, herror, hnew⟩ := logoutReply_cases (s := s.goOn id none) hepoch issue reply
    rw [hnew]
    refine ⟨.inr (.inl ⟨rfl, rfl⟩), .inr fun issue' hsource hop' => ?_⟩
    rcases herror with rfl | herror
    · cases hsource
    · obtain rfl := Option.some.inj (herror.symm.trans hsource)
      rw [hop] at hop'
      cases hop'
  case h_4 epoch read issue resources machines host htask =>
    cases hs
    obtain ⟨⟨hop, -, -⟩, -⟩ := h.fits id _ htask
    rcases refreshReply_cases epoch read issue resources machines host (s.goOn id none) with
      ⟨-, hsame⟩ | ⟨-, resources', machines', host', error', ⟨-, -, -, hblank | hsource⟩, hnew⟩
    · rw [hsame]
      exact timely_same rfl
    · rw [hnew]
      exact timely_cleared rfl rfl hblank
    · rw [hnew]
      refine timely_error rfl rfl issue (.inr hsource) ?_
      rw [hop]
      exact nofun
  case h_5 epoch read issue reply htask =>
    cases hs
    obtain ⟨-, hcurrent⟩ := h.fits id _ htask
    rcases pollReply_cases epoch read issue reply (s.goOn id none) with
      hsame | ⟨⟨hepoch, hread⟩, sessions, transfers, error, hfrom, herror, hnew⟩
    · rw [hsame]
      exact timely_same rfl
    · rw [hnew]
      -- epoch and count of reads are those it was sent with, so no mutation has begun since
      have hbegun : issue.begun = s.begun := (hcurrent hepoch).2 hread
      refine ⟨hfrom.imp_right fun hboth => .inr ⟨issue, hboth, hbegun⟩,
        herror.imp_right fun hsource issue' hsource' _ => ?_⟩
      obtain rfl := Option.some.inj (hsource.symm.trans hsource')
      exact hbegun
  case h_6 epoch refreshes issue reply htask =>
    cases hs
    obtain ⟨⟨-, hepoch⟩, hop, -⟩ := h.fits id _ htask
    rcases actionReply_cases (s := s.goOn id none) id hepoch refreshes issue reply with
      ⟨refresh, hnew⟩ | ⟨error, herror, hnew⟩
    · rw [hnew]
      have hrefresh : Timely s (s.goOn id none).refresh.1 := Timely.refresh (timely_same rfl)
      exact ⟨hrefresh.reads, hrefresh.error⟩
    · rw [hnew]
      refine Timely.poll (timely_error rfl rfl issue herror ?_)
      rw [hop]
      exact nofun
  case h_7 epoch refresh htask =>
    obtain ⟨-, hs⟩ := Option.ite_none_left_eq_some.mp hs
    cases hs
    obtain ⟨-, hepoch, -⟩ := h.fits id _ htask
    rw [finish_eq (s := s.goOn id none) hepoch]
    exact ⟨.inl ⟨rfl, rfl⟩, .inl rfl⟩
  case h_8 epoch refresh htask =>
    obtain ⟨-, hs⟩ := Option.ite_none_left_eq_some.mp hs
    cases hs
    obtain ⟨-, hepoch, -⟩ := h.fits id _ htask
    rw [finishAction_eq (s := s.goOn id none) hepoch]
    exact Timely.poll ⟨.inl ⟨rfl, rfl⟩, .inl rfl⟩
  case h_9 => cases hs

theorem timely_step (h : s.Core) (e : StoreEvent T) (hs : s.step e = some s') : Timely s s' := by
  cases e with
  | clearError =>
    cases hs
    exact timely_cleared rfl rfl rfl
  | authenticate =>
    cases hs
    rcases s.authenticate_cases with hsame | ⟨-, hnew⟩
    · rw [hsame]
      exact timely_same rfl
    · rw [hnew]
      exact ⟨.inr (.inl ⟨rfl, rfl⟩), .inr fun issue hsource => by cases hsource⟩
  | logout =>
    cases hs
    rcases s.logout_cases with hsame | ⟨-, hnew⟩
    · rw [hsame]
      exact timely_same rfl
    · rw [hnew]
      exact timely_cleared rfl rfl rfl
  | refresh =>
    cases hs
    exact (timely_same rfl).refresh
  | poll =>
    cases hs
    exact (timely_same rfl).poll
  | action refresh =>
    cases hs
    rcases s.action_cases refresh with hsame | ⟨-, hnew⟩
    · rw [hsame]
      exact timely_same rfl
    · rw [hnew]
      exact timely_cleared rfl rfl rfl
  | resolve id outcome => exact timely_resolve h hs

/-! ### The store over all runs -/

theorem core_of_reach (hr : Reach step (start T) s) : s.Core :=
  hr.invariant (core_start T) fun _ _ e h hs => core_step h e hs

theorem flags_of_reach (hr : Reach step (start T) s) : s.Flags :=
  hr.invariant_with (fun _ => core_of_reach) (flags_finished rfl rfl fun hl => by cases hl)
    fun _ _ e hcore h hs => flags_step h hcore e hs

/-- What is shown is blank or came in for the account that is shown, but for a logout's failure and
for what is called in a logout; one mutation at most is pending, and `busy` while it is; `loading`
stands for a refresh of the current epoch, or is left over in a logout; and no step shows the reply
to a poll that was sent before the last mutation had begun. -/
theorem store_never_stale (hr : Reach step (start T) s) :
    s.state.Own ∧
    (∀ i j t u, s.tasks i = some t → s.tasks j = some u → t.mutates = true → u.mutates = true →
      i = j) ∧
    (s.Quiet → s.state.busy = false) ∧
    (s.state.loading = true →
      (∃ id read issue, s.tasks id = some (.refresh s.epoch read issue)) ∨ s.LoggingOut) ∧
    ∀ e s', s.step e = some s' → Timely s s' := by
  have hcore := core_of_reach hr
  have hflags := flags_of_reach hr
  refine ⟨hcore.own, hcore.single, fun hquiet => ?_, fun hloading => ?_,
    fun e s' hs => timely_step hcore e hs⟩
  · rw [← Bool.not_eq_true]
    intro hbusy
    obtain ⟨id, task, htask, hmutates⟩ := hflags.mutation (hflags.busy hbusy)
    rw [hquiet id task htask] at hmutates
    cases hmutates
  · rcases hflags.loading hloading with ⟨id, issue, htask⟩ | hlogout
    · exact .inl ⟨id, s.reads, issue, htask⟩
    · exact .inr hlogout

/-- The types of a small interface, for the runs below. -/
def textTypes : ApiTypes := ⟨String, String, String, String, String⟩

/-- A sign-in and its refresh, a poll that is answered, and an action that is pending. -/
theorem store_never_stale_action : ∃ s : DesktopStore textTypes,
    (s.state.account = some "alice" ∧ s.state.busy = true ∧ s.state.sessions.value.length = 1) ∧
    s.state.Own ∧
    (∀ i j t u, s.tasks i = some t → s.tasks j = some u → t.mutates = true → u.mutates = true →
      i = j) ∧
    (s.Quiet → s.state.busy = false) ∧
    (s.state.loading = true →
      (∃ id read issue, s.tasks id = some (.refresh s.epoch read issue)) ∨ s.LoggingOut) ∧
    ∀ e s', s.step e = some s' → Timely s s' := by
  have hstart : Reach step (start textTypes) (start textTypes) := Reach.init
  have hsignedIn := hstart.step (.resolve 0 (.account (.fulfilled (some "alice")))) rfl
  have hrefreshed := hsignedIn.step
    (.resolve 1 (.refreshed (.fulfilled ["files"]) (.fulfilled []) (.rejected "asleep"))) rfl
  have hpolled := (hrefreshed.step .poll rfl).step
    (.resolve 2 (.polled (.fulfilled ([⟨"1", "files", .connected, none⟩], [])))) rfl
  have hr := hpolled.step (.action true) rfl
  exact ⟨_, ⟨rfl, rfl, rfl⟩, store_never_stale hr⟩

/-- A sign-in and its refresh, and a logout that fails: its error is shown to nobody's account. -/
theorem failed_logout_shown : ∃ s : DesktopStore textTypes, Reach step (start textTypes) s ∧
    (∀ id epoch issue, s.tasks id ≠ some (.start epoch issue)) ∧ s.state.account = none ∧
    ∃ message issue, s.state.error = ⟨some message, some issue⟩ ∧
      issue.account = some "alice" := by
  have hstart : Reach step (start textTypes) (start textTypes) := Reach.init
  have hsignedIn := hstart.step (.resolve 0 (.account (.fulfilled (some "alice")))) rfl
  have hrefreshed := hsignedIn.step
    (.resolve 1 (.refreshed (.fulfilled ["files"]) (.fulfilled []) (.rejected "asleep"))) rfl
  have hr := (hrefreshed.step .logout rfl).step (.resolve 2 (.unit (.rejected "timeout"))) rfl
  refine ⟨_, hr, fun id epoch issue htask => ?_, rfl, _, _, rfl, rfl⟩
  -- a start is the first task, and that has gone
  obtain rfl := ((core_of_reach hr).fits id _ htask).1.1
  cases htask

end DesktopStore

end NebulaDesk
