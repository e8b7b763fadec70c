/-
The replies to the desktop interface's store (`apps/desktop-ui/src/state/store.ts`).

Each reply method has a lemma that says all it can do (`startReply_cases` and the ones after it);
from it follows that the reply keeps the invariant, and **`core_step`** puts calls and replies
together.
-/
import NebulaDesk.Desktop.UiStoreInv

namespace NebulaDesk

namespace DesktopStore

open UiSnapshot

variable {T : ApiTypes} {s s' : DesktopStore T}

/-! ### The replies -/

theorem refresh_epoch (s : DesktopStore T) : s.refresh.1.epoch = s.epoch := by
  rcases s.refresh_cases with hsame | ⟨-, hnew⟩
  · rw [hsame]
  · rw [hnew]

theorem refresh_account (s : DesktopStore T) : s.refresh.1.state.account = s.state.account := by
  rcases s.refresh_cases with hsame | ⟨-, hnew⟩
  · rw [hsame]
  · rw [hnew]

theorem refresh_mutationPending (s : DesktopStore T) :
    s.refresh.1.mutationPending = s.mutationPending := by
  rcases s.refresh_cases with hsame | ⟨-, hnew⟩
  · rw [hsame]
  · rw [hnew]

theorem lt_refresh_next {id : ℕ} (h : id < s.next) : id < s.refresh.1.next := by
  rcases s.refresh_cases with hsame | ⟨-, hnew⟩
  · rwa [hsame]
  · rw [hnew]
    exact Nat.lt_succ_of_lt h

theorem Quiet.refresh (h : s.Quiet) : s.refresh.1.Quiet := by
  rcases s.refresh_cases with hsame | ⟨-, hnew⟩
  · rwa [hsame]
  · rw [hnew]
    intro j u hu
    rcases tasks_update hu with ⟨-, rfl⟩ | ⟨-, hold⟩
    · rfl
    · exact h j u hold

theorem Core.wentOn (h : s.Core) (hquiet : s.Quiet) {id : ℕ} {task : StoreTask T}
    (hid : id < s.next) (hlogout : task.isLogout = false)
    (hread : ∀ epoch read issue, task ≠ .refresh epoch read issue ∧ task ≠ .poll epoch read issue)
    (hnew : (s.goOn id (some task)).Fits id task) : (s.goOn id (some task)).Core := by
  have htasks : ∀ j u, (s.goOn id (some task)).tasks j = some u →
      (j = id ∧ task = u) ∨ (j ≠ id ∧ s.tasks j = some u) := fun j u hu =>
    (tasks_goOn hu).imp_left fun hj => ⟨hj.1, Option.some.inj hj.2⟩
  have hwithin : Within s (s.goOn id (some task)) :=
    { epoch := rfl
      reads := le_rfl
      begun := fun _ => rfl
      account := rfl
      signedOut := fun hout => hout.kept rfl hout.blank rfl fun j epoch read issue hu => by
        refine hu.imp (fun hu => ?_) fun hu => ?_ <;> rcases htasks _ _ hu with ⟨-, hnew⟩ | hold
        · exact absurd hnew (hread epoch read issue).1
        · exact hold.2
        · exact absurd hnew (hread epoch read issue).2
        · exact hold.2
      loggingOut := by
        rintro ⟨j, u, hu, hl⟩
        rcases htasks j u hu with ⟨-, rfl⟩ | ⟨-, hold⟩
        · rw [hlogout] at hl
          cases hl
        · exact ⟨j, u, hold, hl⟩ }
  refine h.added le_rfl hid le_rfl htasks (fun j u hu => ?_) hnew (fun _ => hquiet) h.own
  have hfits := h.fits j u hu
  exact hfits.within hwithin hfits.pending

theorem past_of_signedOut (hquiet : s.Quiet) (hout : s.SignedOut)
    (hstart : ∀ id epoch issue, s.tasks id = some (.start epoch issue) → epoch ≠ s.epoch) (id : ℕ)
    (task : StoreTask T) (htask : s.tasks id = some task) : s.Past task := by
  have hmutates := hquiet id task htask
  cases task with
  | start epoch issue => exact hstart id epoch issue htask
  | refresh epoch read issue =>
    exact fun he => absurd he (hout.reads id epoch read issue (.inl htask))
  | poll epoch read issue => exact hout.reads id epoch read issue (.inr htask)
  | authenticate => cases hmutates
  | authenticateRefresh => cases hmutates
  | logout => cases hmutates
  | action => cases hmutates
  | actionRefresh => cases hmutates

theorem Core.quiet_of_first (h : s.Core) (hepoch : s.epoch = 1) (hout : s.SignedOut) : s.Quiet := by
  intro id task htask
  have hfits := h.fits id task htask
  have haccount := hout.account
  cases task with
  | start => rfl
  | refresh => rfl
  | poll => rfl
  | authenticate epoch issue =>
    obtain ⟨-, he, hle⟩ := hfits.1
    omega
  | authenticateRefresh epoch refresh =>
    obtain ⟨-, he, hle⟩ := hfits
    omega
  | logout epoch issue =>
    obtain ⟨-, he, hle⟩ := hfits.1
    omega
  | action epoch refreshes issue =>
    have hsigned := hfits.2.2.2
    rw [haccount] at hsigned
    cases hsigned
  | actionRefresh epoch refresh =>
    have hsigned := hfits.2.2
    rw [haccount] at hsigned
    cases hsigned

theorem startReply_cases (epoch : ℕ) (issue : Issue T) (reply : ApiReply (Option T.Account))
    (s : DesktopStore T) :
    (epoch ≠ s.epoch ∧ s.startReply epoch issue reply = s) ∨ epoch = s.epoch ∧
      ((∃ account, s.startReply epoch issue reply =
        (s.set fun state => { state with account := account, ready := true }).refresh.1) ∨
      ∃ message, s.startReply epoch issue reply = s.set fun state =>
        { state with ready := true, error := ⟨some message, some issue⟩ }) := by
  unfold startReply
  by_cases hepoch : epoch = s.epoch
  · refine .inr ⟨hepoch, ?_⟩
    rw [if_neg (not_not.mpr hepoch)]
    cases reply with
    | fulfilled account =>
      refine .inl ⟨account, ?_⟩
      cases account with
      | none => rfl
      | some account => rfl
    | rejected message => exact .inr ⟨message, rfl⟩
  · exact .inl ⟨hepoch, if_pos hepoch⟩

variable {epoch : ℕ} {issue : Issue T}

theorem finish_eq (hepoch : epoch = s.epoch) (f : UiSnapshot T → UiSnapshot T) :
    s.finish epoch f = { s with mutationPending := false, state := f s.state } := if_pos hepoch

theorem authenticateReply_cases (id : ℕ) (hepoch : epoch = s.epoch) (issue : Issue T)
    (reply : ApiReply T.Account) :
    (∃ account refresh, s.authenticateReply id epoch issue reply =
      (s.set fun state => { state with account := some account, ready := true }).refresh.1.goOn id
        (some (.authenticateRefresh epoch refresh))) ∨
    ∃ message, s.authenticateReply id epoch issue reply = { s with
      mutationPending := false
      state := { s.state with error := ⟨some message, some issue⟩, busy := false } } := by
  unfold authenticateReply
  cases reply with
  | fulfilled account => exact .inl ⟨account, _, if_neg (not_not.mpr hepoch)⟩
  | rejected message =>
    refine .inr ⟨message, ?_⟩
    show (s.fail epoch message issue).finish epoch notBusy = _
    rw [fail, if_pos hepoch]
    exact finish_eq (s := s.set _) hepoch _

theorem logoutReply_cases (hepoch : epoch = s.epoch) (issue : Issue T) (reply : ApiReply Unit) :
    ∃ error : Brought T (Option String), (error = .blank none ∨ error.source = some issue) ∧
      s.logoutReply epoch issue reply = { s with
        mutationPending := false
        state := { UiSnapshot.empty T with ready := true, error := error } } := by
  unfold logoutReply
  rw [if_neg (not_not.mpr hepoch)]
  cases reply with
  | fulfilled value => exact ⟨_, .inl rfl, finish_eq (s := s.set _) hepoch _⟩
  | rejected message => exact ⟨_, .inr rfl, finish_eq (s := s.set _) hepoch _⟩

/-- It is blank, or came with the reply to the request. -/
def From {α : Type} (issue : Issue T) (blank : α) (field : Brought T α) : Prop :=
  field = .blank blank ∨ field.source = some issue

theorem from_orBlank {α : Type} (issue : Issue T) (blank : α) (reply : ApiReply α) :
    From issue blank (orBlank issue blank reply) := by
  cases reply with
  | fulfilled value => exact .inr rfl
  | rejected message => exact .inl rfl

theorem from_rejections (issue : Issue T) (messages : List (Option String)) :
    From issue none (rejections issue messages) := by
  show From issue none (if _ then _ else _)
  split
  · exact .inl rfl
  · exact .inr rfl

theorem refreshReply_cases (epoch read : ℕ) (issue : Issue T)
    (resources : ApiReply (List T.Resource)) (machines : ApiReply (List T.Machine))
    (host : ApiReply T.LocalHost) (s : DesktopStore T) :
    (¬ (epoch = s.epoch ∧ read = s.reads) ∧
      s.refreshReply epoch read issue resources machines host = s) ∨
    (epoch = s.epoch ∧ read = s.reads) ∧ ∃ resources' machines' host' error',
      (From issue [] resources' ∧ From issue [] machines' ∧ From issue none host' ∧
        From issue none error') ∧
      s.refreshReply epoch read issue resources machines host = s.set fun state => { state with
        loading := false
        resources := resources'
        machines := machines'
        host := host'
        error := error' } := by
  unfold refreshReply
  by_cases hcurrent : epoch = s.epoch ∧ read = s.reads
  · refine .inr ⟨hcurrent, _, _, _, _, ⟨from_orBlank issue [] resources,
      from_orBlank issue [] machines, ?_, from_rejections issue _⟩, if_neg (by simp [hcurrent])⟩
    cases host with
    | fulfilled host => exact .inr rfl
    | rejected message => exact .inl rfl
  · exact .inl ⟨hcurrent, if_pos (by simpa [imp_iff_not_or] using hcurrent)⟩

theorem pollReply_cases (epoch read : ℕ) (issue : Issue T)
    (reply : ApiReply (List UiSession × List T.Transfer)) (s : DesktopStore T) :
    (s.pollReply epoch read issue reply = { s with pollPending := false }) ∨
    (epoch = s.epoch ∧ read = s.reads) ∧ ∃ sessions transfers error,
      ((sessions = s.state.sessions ∧ transfers = s.state.transfers) ∨
        (sessions.source = some issue ∧ transfers.source = some issue)) ∧
      (error = s.state.error ∨ error.source = some issue) ∧
      s.pollReply epoch read issue reply = { s with
        pollPending := false
        state := { s.state with
          sessions := sessions
          transfers := transfers
          error := error } } := by
  unfold pollReply
  by_cases hcurrent : epoch = s.epoch ∧ read = s.reads
  · rw [if_neg (by simp [hcurrent])]
    refine .inr ⟨hcurrent, ?_⟩
    cases reply with
    | fulfilled value =>
      refine ⟨⟨value.1, some issue⟩, ⟨value.2, some issue⟩, _, .inr ⟨rfl, rfl⟩, ?_, rfl⟩
      split
      · exact .inl rfl
      · exact .inr rfl
    | rejected message => exact ⟨_, _, _, .inl ⟨rfl, rfl⟩, .inr rfl, rfl⟩
  · rw [if_pos (by simpa [imp_iff_not_or] using hcurrent)]
    exact .inl rfl

theorem finishAction_eq (hepoch : epoch = s.epoch) :
    s.finishAction epoch =
      DesktopStore.poll { s with mutationPending := false, state := notBusy s.state } := by
  unfold finishAction
  rw [finish_eq hepoch]
  exact if_pos hepoch

theorem actionReply_cases (id : ℕ) (hepoch : epoch = s.epoch) (refreshes : Bool)
    (issue : Issue T) (reply : ApiReply Unit) :
    (∃ refresh, s.actionReply id epoch refreshes issue reply =
      s.refresh.1.goOn id (some (.actionRefresh epoch refresh))) ∨
    ∃ error : Brought T (Option String),
      (error = s.state.error ∨ error.source = some issue) ∧
      s.actionReply id epoch refreshes issue reply = DesktopStore.poll { s with
        mutationPending := false
        state := { s.state with error := error, busy := false } } := by
  unfold actionReply
  cases reply with
  | fulfilled value =>
    show (∃ refresh, (if epoch ≠ s.epoch then _ else _) = _) ∨
      ∃ error, _ ∧ (if epoch ≠ s.epoch then _ else _) = _
    rw [if_neg (not_not.mpr hepoch)]
    cases refreshes with
    | true => exact .inl ⟨_, rfl⟩
    | false => exact .inr ⟨_, .inl rfl, finishAction_eq hepoch⟩
  | rejected message =>
    refine .inr ⟨⟨some message, some issue⟩, .inr rfl, ?_⟩
    show (s.fail epoch message issue).finishAction epoch = _
    rw [fail, if_pos hepoch]
    exact finishAction_eq hepoch

/-! ### Every step keeps it -/

theorem From.traced {α : Type} {blank : α} {field : Brought T α} (h : From issue blank field)
    {account : Option T.Account} (hissue : issue.Under account) : Traced account blank field := by
  rcases h with rfl | hsource
  · exact traced_blank account blank
  · unfold Traced
    rw [hsource]
    exact hissue

theorem errorTraced_of {account : Option T.Account} {old error : Brought T (Option String)}
    (hold : ErrorTraced account old) (h : error = old ∨ error.source = some issue)
    (hissue : issue.Under account) : ErrorTraced account error := by
  rcases h with rfl | hsource
  · exact hold
  · exact .inr (From.traced (.inr hsource) hissue)

variable {id epoch : ℕ}

theorem Core.startReply (h : s.Core)
    (htask : s.tasks id = some (.start epoch issue)) (reply : ApiReply (Option T.Account)) :
    ((s.goOn id none).startReply epoch issue reply).Core := by
  obtain ⟨⟨hid, hone, -⟩, ⟨-, hissue⟩, hcurrent⟩ := h.fits id _ htask
  have hrest := h.removed id
  rcases startReply_cases epoch issue reply (s.goOn id none) with ⟨-, hsame⟩ | ⟨hepoch, hnew⟩
  · rwa [hsame]
  have hout : (s.goOn id none).SignedOut := (within_removed s id).signedOut (hcurrent hepoch)
  have hpast := past_of_signedOut (hrest.quiet_of_first (hepoch.symm.trans hone) hout) hout
    fun j epoch' issue' hj => by
      -- the only start is the one that has been answered
      obtain ⟨hne, hold⟩ := tasks_removed hj
      exact absurd ((h.fits j _ hold).1.1.trans hid.symm) hne
  rcases hnew with ⟨account, hnew⟩ | ⟨message, hnew⟩
  · rw [hnew]
    have hblank := hout.blank
    exact Core.refresh (hrest.setPast hpast (Blank.own { hblank with }))
  · rw [hnew]
    exact hrest.setPast hpast (hrest.own.withError (errorTraced_of hrest.own.error (.inr rfl)
      (.inl (hissue.trans hout.account.symm))))

theorem Core.authenticateReply (h : s.Core)
    (htask : s.tasks id = some (.authenticate epoch issue)) (reply : ApiReply T.Account) :
    ((s.goOn id none).authenticateReply id epoch issue reply).Core := by
  obtain ⟨⟨hpending, hepoch, hle⟩, ⟨-, hissue⟩, hcurrent⟩ := h.fits id _ htask
  have hrest := h.removed id
  have hquiet := h.quiet_removed htask rfl
  have hout : (s.goOn id none).SignedOut := (within_removed s id).signedOut hcurrent
  have hpast := past_of_signedOut hquiet hout fun j epoch' issue' hj => by
    obtain ⟨-, hone, -⟩ := (hrest.fits j _ hj).1
    show epoch' ≠ s.epoch
    omega
  rcases authenticateReply_cases (s := s.goOn id none) id hepoch issue reply with
    ⟨account, refresh, hnew⟩ | ⟨message, hnew⟩
  · rw [hnew]
    have hblank := hout.blank
    have hset : ((s.goOn id none).set fun state =>
        { state with account := some account, ready := true }).Core :=
      hrest.setPast hpast (Blank.own { hblank with })
    have hid : id < ((s.goOn id none).set fun state =>
        { state with account := some account, ready := true }).refresh.1.next :=
      lt_refresh_next (h.lt_next htask)
    refine hset.refresh.wentOn (Quiet.refresh hquiet) hid
      rfl (fun _ _ _ => ⟨nofun, nofun⟩) ⟨?_, ?_, hle⟩
    · exact (refresh_mutationPending _).trans hpending
    · show epoch = (DesktopStore.refresh ((s.goOn id none).set _)).1.epoch
      rw [refresh_epoch]
      exact hepoch
  · rw [hnew]
    have herror : ((s.goOn id none).set fun state =>
        { state with error := ⟨some message, some issue⟩, busy := false }).Core :=
      hrest.setPast hpast
        (hrest.own.withError (errorTraced_of hrest.own.error (.inr rfl)
          (.inl (hissue.trans hout.account.symm))))
    exact herror.settled hquiet

theorem Core.logoutReply (h : s.Core) (htask : s.tasks id = some (.logout epoch issue))
    (reply : ApiReply Unit) : ((s.goOn id none).logoutReply epoch issue reply).Core := by
  obtain ⟨⟨hpending, hepoch, hle⟩, hop⟩ := h.fits id _ htask
  have hrest := h.removed id
  have hquiet := h.quiet_removed htask rfl
  have hloggingOut : s.LoggingOut := ⟨id, _, htask, rfl⟩
  -- what is read for the account was called in this logout
  have hpast : ∀ j u, (s.goOn id none).tasks j = some u → (s.goOn id none).Past u := by
    intro j u hu
    have hmutates := hquiet j u hu
    have hfits := h.fits j u (tasks_removed hu).2
    cases u with
    | start epoch' issue' =>
      obtain ⟨-, hone, -⟩ := hfits.1
      show epoch' ≠ s.epoch
      omega
    | refresh epoch' read issue' =>
      intro he
      rcases hfits.2 he with hin | ⟨-, -, hnot⟩
      · exact hin
      · exact absurd hloggingOut hnot
    | poll epoch' read issue' => exact fun he => (hfits.2 he).1.2.2 hloggingOut
    | authenticate => cases hmutates
    | authenticateRefresh => cases hmutates
    | logout => cases hmutates
    | action => cases hmutates
    | actionRefresh => cases hmutates
  obtain ⟨error, herror, hnew⟩ := logoutReply_cases (s := s.goOn id none) hepoch issue reply
  rw [hnew]
  have hset : ((s.goOn id none).set fun _ =>
      { UiSnapshot.empty T with ready := true, error := error }).Core := by
    refine hrest.setPast hpast ⟨?_, rfl, rfl, rfl, rfl, rfl⟩
    rcases herror with rfl | hsource
    · exact errorTraced_blank _
    · exact .inl ⟨rfl, issue, hsource, hop⟩
  exact hset.settled hquiet

theorem Core.refreshReply (h : s.Core) {id epoch read : ℕ}
    (htask : s.tasks id = some (.refresh epoch read issue)) (resources : ApiReply (List T.Resource))
    (machines : ApiReply (List T.Machine)) (host : ApiReply T.LocalHost) :
    ((s.goOn id none).refreshReply epoch read issue resources machines host).Core := by
  obtain ⟨⟨hop, -, -⟩, hcurrent⟩ := h.fits id _ htask
  rcases refreshReply_cases epoch read issue resources machines host (s.goOn id none) with
    ⟨-, hsame⟩ | ⟨⟨hepoch, -⟩, resources', machines', host', error', hfrom, hnew⟩
  · rw [hsame]
    exact h.removed id
  have hunder : issue.Under s.state.account := by
    rcases hcurrent hepoch with hin | ⟨haccount, -⟩
    · exact .inr ⟨hop, hin⟩
    · exact .inl haccount
  rw [hnew]
  obtain ⟨hresources, hmachines, hhost, herror⟩ := hfrom
  have hset : (s.set fun state => { state with
      loading := false
      resources := resources'
      machines := machines'
      host := host'
      error := error' }).Core :=
    -- nobody waits to be signed in while a read of this epoch is pending
    h.set rfl (fun hout => absurd hepoch (hout.reads id epoch read issue (.inl htask)))
      ⟨.inr (herror.traced hunder), hresources.traced hunder, hmachines.traced hunder,
        hhost.traced hunder, h.own.sessions, h.own.transfers⟩
  exact hset.removed id

theorem Core.pollReply (h : s.Core) {id epoch read : ℕ}
    (htask : s.tasks id = some (.poll epoch read issue))
    (reply : ApiReply (List UiSession × List T.Transfer)) :
    ((s.goOn id none).pollReply epoch read issue reply).Core := by
  obtain ⟨-, hcurrent⟩ := h.fits id _ htask
  rcases pollReply_cases epoch read issue reply (s.goOn id none) with
    hsame | ⟨⟨hepoch, -⟩, sessions, transfers, error, hfrom, herror, hnew⟩
  · rw [hsame]
    exact (h.removed id).pollSettled false
  have hunder : issue.Under s.state.account := .inl (hcurrent hepoch).1.1
  rw [hnew]
  have hset : (s.set fun state =>
      { state with sessions := sessions, transfers := transfers, error := error }).Core := by
    refine h.set rfl (fun hout => absurd hepoch (hout.reads id epoch read issue (.inr htask)))
      ⟨errorTraced_of h.own.error herror hunder, h.own.resources, h.own.machines, h.own.host,
        ?_, ?_⟩
    · rcases hfrom with ⟨hsessions, -⟩ | ⟨hsessions, -⟩
      · show Traced s.state.account [] sessions
        rw [hsessions]
        exact h.own.sessions
      · exact From.traced (.inr hsessions) hunder
    · rcases hfrom with ⟨-, htransfers⟩ | ⟨-, htransfers⟩
      · show Traced s.state.account [] transfers
        rw [htransfers]
        exact h.own.transfers
      · exact From.traced (.inr htransfers) hunder
  exact (hset.removed id).pollSettled false

theorem Core.actionReply (h : s.Core) {refreshes : Bool}
    (htask : s.tasks id = some (.action epoch refreshes issue)) (reply : ApiReply Unit) :
    ((s.goOn id none).actionReply id epoch refreshes issue reply).Core := by
  obtain ⟨⟨hpending, hepoch⟩, -, hissue, hsigned⟩ := h.fits id _ htask
  have hrest := h.removed id
  have hquiet := h.quiet_removed htask rfl
  rcases actionReply_cases (s := s.goOn id none) id hepoch refreshes issue reply with
    ⟨refresh, hnew⟩ | ⟨error, herror, hnew⟩
  · rw [hnew]
    have hid : id < (s.goOn id none).refresh.1.next :=
      lt_refresh_next (h.lt_next htask)
    refine hrest.refresh.wentOn hquiet.refresh hid rfl (fun _ _ _ => ⟨nofun, nofun⟩) ⟨?_, ?_, ?_⟩
    · exact (refresh_mutationPending _).trans hpending
    · show epoch = (s.goOn id none).refresh.1.epoch
      rw [refresh_epoch]
      exact hepoch
    · show ((s.goOn id none).refresh.1.state.account).isSome
      rw [refresh_account]
      exact hsigned
  · rw [hnew]
    have hset : ((s.goOn id none).set fun state =>
        { state with error := error, busy := false }).Core := by
      refine hrest.set rfl (fun hout => ?_)
        (hrest.own.withError (errorTraced_of h.own.error herror (.inl hissue)))
      have hnone : s.state.account = none := hout.account
      rw [hnone] at hsigned
      cases hsigned
    exact (hset.settled hquiet).poll

theorem Core.resolve (h : s.Core) {id : ℕ} {outcome : Outcome T}
    (hs : s.resolve id outcome = some s') : s'.Core := by
  unfold DesktopStore.resolve at hs
  split at hs
  case h_1 epoch issue reply htask =>
    cases hs
    exact h.startReply htask reply
  case h_2 epoch issue reply htask =>
    cases hs
    exact h.authenticateReply htask reply
  case h_3 epoch issue reply htask =>
    cases hs
    exact h.logoutReply htask reply
  case h_4 epoch read issue resources machines host htask =>
    cases hs
    exact h.refreshReply htask resources machines host
  case h_5 epoch read issue reply htask =>
    cases hs
    exact h.pollReply htask reply
  case h_6 epoch refreshes issue reply htask =>
    cases hs
    exact h.actionReply htask reply
  case h_7 epoch refresh htask =>
    obtain ⟨-, hs⟩ := Option.ite_none_left_eq_some.mp hs
    cases hs
    obtain ⟨-, hepoch, -⟩ := h.fits id _ htask
    rw [finish_eq (s := s.goOn id none) hepoch]
    exact (h.removed id).finished (h.quiet_removed htask rfl) ⟨rfl, rfl, rfl, rfl, rfl, rfl, rfl⟩
  case h_8 epoch refresh htask =>
    obtain ⟨-, hs⟩ := Option.ite_none_left_eq_some.mp hs
    cases hs
    obtain ⟨-, hepoch, -⟩ := h.fits id _ htask
    rw [finishAction_eq (s := s.goOn id none) hepoch]
    exact Core.poll ((h.removed id).finished (h.quiet_removed htask rfl)
      ⟨rfl, rfl, rfl, rfl, rfl, rfl, rfl⟩)
  case h_9 => cases hs

theorem core_step (h : s.Core) (e : StoreEvent T) (hs : s.step e = some s') : s'.Core := by
  cases e with
  | clearError =>
    cases hs
    exact h.clearError
  | authenticate =>
    cases hs
    exact h.authenticate
  | logout =>
    cases hs
    exact h.logout
  | refresh =>
    cases hs
    exact h.refresh
  | poll =>
    cases hs
    exact h.poll
  | action refresh =>
    cases hs
    exact h.action refresh
  | resolve id outcome => exact h.resolve hs

theorem core_start (T : ApiTypes) : (start T).Core := by
  have htasks : ∀ id task, (start T).tasks id = some task →
      id = 0 ∧ task = .start 1 ⟨.account, none, 0, false⟩ := by
    intro id task htask
    rcases tasks_spawn htask with ⟨hid, rfl⟩ | ⟨-, hnone⟩
    · exact ⟨hid, rfl⟩
    · cases hnone
  have hblank : (start T).state.Blank := ⟨rfl, rfl, rfl, rfl, rfl, rfl⟩
  refine ⟨le_rfl, fun id hid => ?_, fun id task htask => ?_, ?_, hblank.own⟩
  · by_contra hsome
    obtain ⟨task, htask⟩ := Option.ne_none_iff_exists'.mp hsome
    have hzero := (htasks id task htask).1
    have hone : 1 ≤ id := hid
    omega
  · obtain ⟨rfl, rfl⟩ := htasks id task htask
    refine ⟨⟨rfl, rfl, le_rfl⟩, ⟨rfl, rfl⟩, fun _ => ⟨rfl, hblank, ?_⟩⟩
    rintro id epoch read issue (hread | hread) <;> cases (htasks _ _ hread).2
  · intro i j t u ht hu htm _
    obtain ⟨rfl, rfl⟩ := htasks i t ht
    cases htm

end DesktopStore

end NebulaDesk
