/-
What a request with a one-time secret has checked.

A request that has claimed its secret holds the row until it ends, so what it has
checked stays true (`TaskInv.carry`).  The commits are the whole history of the tables
(`Inv`), and each finds its secret unspent and leaves it spent (`Proper`).
-/
import NebulaDesk.Manager.Secrets

namespace NebulaDesk

open Transactions

/-! ### What a history says -/

def Deed.spends : Deed → Option Address
  | enrolled hash .. => some (.enrollment hash)
  | rotated hash .. => some (.refresh hash)
  | accepted hash .. => some (.invitation hash)
  | other => none

/-- What the tables said of the secret when it was spent. -/
def Deed.Sound (db : ManagerDb) : Deed → Prop
  | enrolled hash _ machine claimed => ∃ token : EnrollmentToken,
    db (.enrollment hash) = .row token ∧ token.usedAt = none ∧ claimed < token.expiresAt ∧
      machine.tenantId = token.tenantId ∧ ∀ name, token.machineName = some name → machine.name = name
  | rotated hash successor claimed => ∃ token : RefreshToken,
    db (.refresh hash) = .row token ∧ token.revokedAt = none ∧ claimed < token.expiresAt ∧
      successor.userId = token.userId
  | accepted hash _ account claimed => ∃ invitation : Invitation,
    db (.invitation hash) = .row invitation ∧ invitation.revokedAt = none ∧
      invitation.acceptedAt = none ∧ claimed < invitation.expiresAt ∧
      account.email = invitation.email ∧ account.tenantId = invitation.tenantId ∧
      Secrets.isOrganizationAdmin db invitation.tenantId invitation.issuerId = true
  | other => True

/-- A secret in this slot cannot be spent any more. -/
def Address.isSpent : (k : Address) → Slot k.Row → Bool
  | .enrollment _, .row (token : EnrollmentToken) => token.usedAt.isSome
  | .refresh _, .row (token : RefreshToken) => token.revokedAt.isSome
  | .invitation _, .row (inv : Invitation) => inv.acceptedAt.isSome
  | .enrollment _, .gone | .refresh _, .gone | .invitation _, .gone => true
  | _, _ => false

def Spent (k : Address) (db : ManagerDb) : Prop := k.isSpent (db k) = true

/-- A commit that keeps spent what is spent, spends what is not, and is sound. -/
structure Proper (db : ManagerDb) (e : Commit Address.Row Deed) : Prop where
  keeps : ∀ w ∈ e.writes, w.1.isSpent (db w.1) = true → w.1.isSpent w.2 = true
  fresh : ∀ k, e.what.spends = some k → ¬ Spent k db
  spends : ∀ k, e.what.spends = some k → Spent k (db.writeAll e.writes)
  sound : e.what.Sound db

variable {db db' : ManagerDb} {locks locks' : Locks Address} {c : ℕ}

/-- The claimed token is held, unused and was not expired. -/
def EnrollHeld (db : ManagerDb) (locks : Locks Address) (c hash : ℕ) (claim : EnrollClaim) :
    Prop :=
  locks.Holds c (.enrollment hash) ∧ db (.enrollment hash) = .row claim.token ∧
    claim.token.usedAt = none ∧ claim.claimed < claim.token.expiresAt

def RefreshHeld (db : ManagerDb) (locks : Locks Address) (c hash : ℕ) (claim : RefreshClaim) :
    Prop :=
  locks.Holds c (.refresh hash) ∧ db (.refresh hash) = .row claim.token ∧
    claim.token.revokedAt = none ∧ claim.claimed < claim.token.expiresAt

def InvitationHeld (db : ManagerDb) (locks : Locks Address) (c hash : ℕ)
    (invitation : Invitation) : Prop :=
  locks.Holds c (.invitation hash) ∧ db (.invitation hash) = .row invitation ∧
    invitation.revokedAt = none ∧ invitation.acceptedAt = none

/-- The issuer's row and the tenant's are shared, so they stay as they were checked. -/
def IssuerHeld (db : ManagerDb) (locks : Locks Address) (c : ℕ) (invitation : Invitation) : Prop :=
  locks.Shares c (.user invitation.issuerId) ∧ locks.Shares c (.tenant invitation.tenantId) ∧
    Secrets.isOrganizationAdmin db invitation.tenantId invitation.issuerId = true

def Invited (invitation : Invitation) (account : Account) : Prop :=
  account.email = invitation.email ∧ account.tenantId = invitation.tenantId

/-- A request that is about to commit holds all it will write. -/
def HoldsAll (locks : Locks Address) (c : ℕ) (writes : List (Write Address.Row)) : Prop :=
  ∀ w ∈ writes, locks.Holds c w.1

/-- Everything the redemption will write is held, and its token is new. -/
def JoiningHeld (db : ManagerDb) (locks : Locks Address) (c hash : ℕ) (j : Joining) : Prop :=
  InvitationHeld db locks c hash j.invitation ∧ IssuerHeld db locks c j.invitation ∧
    Invited j.invitation j.account ∧ db (.refresh j.tokenHash) = .absent ∧
    ∀ claimed, HoldsAll locks c (Secrets.acceptWrites hash claimed j)

/-- What is true of a request in each of its phases. -/
def TaskInv (db : ManagerDb) (locks : Locks Address) (c : ℕ) : SecretTask → Prop
  | .enroll req (.claimed claim) => EnrollHeld db locks c req.tokenHash claim
  | .enroll req (.inserted claim id machine) | .enroll req (.linked claim id machine) =>
    EnrollHeld db locks c req.tokenHash claim ∧ machine.tenantId = claim.token.tenantId ∧
      (∀ name, claim.token.machineName = some name → machine.name = name) ∧
      HoldsAll locks c (Secrets.enrollWrites req.tokenHash claim id machine)
  | .refresh hash (.claimed claim) | .refresh hash (.admitted claim)
  | .refresh hash (.refused claim) => RefreshHeld db locks c hash claim
  | .refresh hash (.inserted claim fresh successor) =>
    RefreshHeld db locks c hash claim ∧ locks.Holds c (.refresh fresh) ∧
      db (.refresh fresh) = .absent ∧ fresh ≠ hash ∧ successor.userId = claim.token.userId
  | .accept req (.locked _ invitation) => InvitationHeld db locks c req.tokenHash invitation
  | .accept req (.admitted _ invitation) =>
    InvitationHeld db locks c req.tokenHash invitation ∧ IssuerHeld db locks c invitation
  | .accept req (.inserted invitation id account) =>
    InvitationHeld db locks c req.tokenHash invitation ∧ IssuerHeld db locks c invitation ∧
      Invited invitation account ∧ locks.Holds c (.user id) ∧
      locks.Holds c (.email account.tenantId account.email)
  | .accept req (.issued j) | .accept req (.viewed j) => JoiningHeld db locks c req.tokenHash j
  | .accept req (.consumed claimed j) =>
    JoiningHeld db locks c req.tokenHash j ∧ claimed < j.invitation.expiresAt
  | _ => True

/-- From a store and locks to others that keep the request's locks and the rows under
them. -/
structure Carries (db db' : ManagerDb) (locks locks' : Locks Address) (c : ℕ) : Prop where
  holds : ∀ k, locks.Holds c k → locks'.Holds c k
  shares : ∀ k, locks.Shares c k → locks'.Shares c k
  rows : ∀ k, locks.Holds c k ∨ locks.Shares c k → db' k = db k

section Carries

variable (h : Carries db db' locks locks' c)
include h

variable {hash : ℕ}

theorem Carries.enrollHeld {claim : EnrollClaim}
    (hc : EnrollHeld db locks c hash claim) : EnrollHeld db' locks' c hash claim :=
  ⟨h.holds _ hc.1, (h.rows _ (.inl hc.1)).trans hc.2.1, hc.2.2⟩

theorem Carries.refreshHeld {claim : RefreshClaim}
    (hc : RefreshHeld db locks c hash claim) : RefreshHeld db' locks' c hash claim :=
  ⟨h.holds _ hc.1, (h.rows _ (.inl hc.1)).trans hc.2.1, hc.2.2⟩

theorem Carries.invitationHeld {invitation : Invitation}
    (hc : InvitationHeld db locks c hash invitation) :
    InvitationHeld db' locks' c hash invitation :=
  ⟨h.holds _ hc.1, (h.rows _ (.inl hc.1)).trans hc.2.1, hc.2.2⟩

theorem Carries.issuerHeld {invitation : Invitation} (hc : IssuerHeld db locks c invitation) :
    IssuerHeld db' locks' c invitation := by
  obtain ⟨huser, htenant, hadmin⟩ := hc
  refine ⟨h.shares _ huser, h.shares _ htenant, ?_⟩
  unfold Secrets.isOrganizationAdmin at hadmin ⊢
  rwa [h.rows _ (.inr huser), h.rows _ (.inr htenant)]

theorem Carries.holdsAll {writes : List (Write Address.Row)} (hc : HoldsAll locks c writes) :
    HoldsAll locks' c writes :=
  fun w hw => h.holds _ (hc w hw)

theorem Carries.absent (hlock : locks.Holds c (.refresh hash))
    (hc : db (.refresh hash) = .absent) : db' (.refresh hash) = .absent :=
  (h.rows _ (.inl hlock)).trans hc

theorem Carries.joiningHeld {j : Joining} (hc : JoiningHeld db locks c hash j) :
    JoiningHeld db' locks' c hash j := by
  obtain ⟨hinv, hiss, hwho, habsent, hall⟩ := hc
  have htoken : locks.Holds c (.refresh j.tokenHash) :=
    hall 0 ⟨.refresh j.tokenHash, .row j.token⟩ (by simp [Secrets.acceptWrites])
  exact ⟨h.invitationHeld hinv, h.issuerHeld hiss, hwho, h.absent htoken habsent,
    fun claimed => h.holdsAll (hall claimed)⟩

theorem TaskInv.carry {task : SecretTask} (ht : TaskInv db locks c task) :
    TaskInv db' locks' c task := by
  cases task with
  | idle => trivial
  | enroll req phase =>
    cases phase with
    | claimed claim => exact h.enrollHeld ht
    | inserted claim id machine | linked claim id machine =>
      exact ⟨h.enrollHeld ht.1, ht.2.1, ht.2.2.1, h.holdsAll ht.2.2.2⟩
    | begun _ => trivial
    | committed _ _ => trivial
    | returned _ => trivial
  | refresh hash phase =>
    cases phase with
    | claimed claim => exact h.refreshHeld ht
    | admitted claim => exact h.refreshHeld ht
    | refused claim => exact h.refreshHeld ht
    | inserted claim fresh successor =>
      obtain ⟨hheld, hlock, habsent, hrest⟩ := ht
      exact ⟨h.refreshHeld hheld, h.holds _ hlock, h.absent hlock habsent, hrest⟩
    | begun _ => trivial
    | returned _ => trivial
  | accept req phase =>
    cases phase with
    | locked _ invitation => exact h.invitationHeld ht
    | admitted _ invitation => exact ⟨h.invitationHeld ht.1, h.issuerHeld ht.2⟩
    | inserted invitation id account =>
      obtain ⟨hinv, hiss, hwho, huser, hemail⟩ := ht
      exact ⟨h.invitationHeld hinv, h.issuerHeld hiss, hwho, h.holds _ huser, h.holds _ hemail⟩
    | issued j => exact h.joiningHeld ht
    | viewed j => exact h.joiningHeld ht
    | consumed claimed j => exact ⟨h.joiningHeld ht.1, ht.2⟩
    | begun _ _ => trivial
    | returned _ => trivial

end Carries

/-! ### The invariant -/

/-- Requests that have changed nothing: those on their way, and the enrolments and
redemptions that have returned an error. -/
def SecretTask.Uncommitted : SecretTask → Prop
  | .enroll _ (.committed ..) | .enroll _ (.returned (.ok _)) | .accept _ (.returned (.ok _))
  | .refresh _ (.returned _) => False
  | _ => True

def SecretTask.succeeded : SecretTask → Option Address
  | .enroll req (.committed ..) | .enroll req (.returned (.ok _)) => some (.enrollment req.tokenHash)
  | .refresh hash (.returned (.ok _)) => some (.refresh hash)
  | .accept req (.returned (.ok _)) => some (.invitation req.tokenHash)
  | _ => none

/-- A request that has succeeded has spent its secret. -/
def Backed (history : List (Commit Address.Row Deed)) (c : ℕ) (task : SecretTask) : Prop :=
  ∀ k, task.succeeded = some k → ∃ e ∈ history, e.task = some c ∧ e.what.spends = some k

theorem Backed.append {history : List (Commit Address.Row Deed)} {task : SecretTask}
    (h : Backed history c task) (e : Commit Address.Row Deed) : Backed (history ++ [e]) c task := by
  intro k hk
  obtain ⟨e', hmem, htask⟩ := h k hk
  exact ⟨e', List.mem_append_left _ hmem, htask⟩

theorem backed_of_none {history : List (Commit Address.Row Deed)} {task : SecretTask}
    (h : task.succeeded = none) : Backed history c task := by
  intro k hk
  rw [h] at hk
  cases hk

namespace Secrets

structure Inv (init : ManagerDb) (s : Secrets) : Prop where
  valid : s.locks.Valid
  tasks : ∀ c, TaskInv s.db s.locks c (s.tasks c)
  replayed : s.db = replay init s.history
  proper : Runs.Each (fun before e => Proper (replay init before) e) s.history
  uncommitted : ∀ c, (s.tasks c).Uncommitted → ∀ e ∈ s.history, e.task ≠ some c
  linked : ∀ c, Backed s.history c (s.tasks c)

variable {init : ManagerDb} {s : Secrets} {task : SecretTask} {k : Address}

theorem inv_start (clock : ℤ) : Inv init (start init clock) := by
  refine ⟨Locks.valid_none, fun _ => trivial, rfl, Runs.each_nil _, ?_, fun _ => backed_of_none rfl⟩
  intro c _ e he
  cases he

theorem Inv.setTask (h : Inv init s) (ht : TaskInv s.db s.locks c task)
    (hun : task.Uncommitted → (s.tasks c).Uncommitted) (hl : Backed s.history c task) :
    Inv init (s.setTask c task) := by
  refine ⟨h.valid, ?_, h.replayed, h.proper, ?_, ?_⟩
  · intro d
    by_cases hd : d = c
    · subst hd
      simpa [Secrets.setTask] using ht
    · simpa [Secrets.setTask, hd] using h.tasks d
  · intro d hd
    by_cases hdc : d = c
    · subst hdc
      exact h.uncommitted d (hun (by simpa [Secrets.setTask] using hd))
    · exact h.uncommitted d (by simpa [Secrets.setTask, hdc] using hd)
  · intro d
    by_cases hd : d = c
    · subst hd
      simpa [Secrets.setTask] using hl
    · simpa [Secrets.setTask, hd] using h.linked d

theorem Inv.takeLock (h : Inv init s) (hmay : s.locks.mayTake c k = true) :
    Inv init (s.takeLock c k) := by
  refine ⟨h.valid.take hmay, ?_, h.replayed, h.proper, h.uncommitted, h.linked⟩
  intro d
  exact (h.tasks d).carry ⟨fun _ hj => hj.take hmay, fun _ hj => hj.take, fun _ _ => rfl⟩

theorem Inv.shareLock (h : Inv init s) (hmay : s.locks.mayShare c k = true) :
    Inv init (s.shareLock c k) := by
  refine ⟨h.valid.share hmay, ?_, h.replayed, h.proper, h.uncommitted, h.linked⟩
  intro d
  exact (h.tasks d).carry ⟨fun _ hj => hj.share, fun _ hj => hj.share, fun _ _ => rfl⟩

/-- A request that does not have a transaction any more. -/
def Settled (task : SecretTask) : Prop := ∀ db locks c, TaskInv db locks c task

theorem Inv.finish (h : Inv init s) (hset : Settled task)
    (hun : task.Uncommitted → (s.tasks c).Uncommitted) (hl : Backed s.history c task) :
    Inv init (s.finish c task) := by
  refine ⟨h.valid.release c, ?_, h.replayed, h.proper, ?_, ?_⟩
  · intro d
    by_cases hd : d = c
    · subst hd
      simpa [Secrets.finish] using hset _ _ d
    · simp only [Secrets.finish, Function.update_of_ne hd]
      exact (h.tasks d).carry ⟨fun _ hj => hj.release hd, fun _ hj => hj.release hd, fun _ _ => rfl⟩
  · intro d hd
    by_cases hdc : d = c
    · subst hdc
      exact h.uncommitted d (hun (by simpa [Secrets.finish] using hd))
    · exact h.uncommitted d (by simpa [Secrets.finish, hdc] using hd)
  · intro d
    by_cases hd : d = c
    · subst hd
      simpa [Secrets.finish] using hl
    · simpa [Secrets.finish, hd] using h.linked d

theorem Inv.proper_append (h : Inv init s) {e : Commit Address.Row Deed} (hp : Proper s.db e) :
    Runs.Each (fun before e => Proper (replay init before) e) (s.history ++ [e]) := by
  refine h.proper.snoc ?_
  rw [← h.replayed]
  exact hp

theorem Inv.commit (h : Inv init s) {writes : List (Write Address.Row)} {what : Deed}
    (hw : HoldsAll s.locks c writes) (hp : Proper s.db ⟨some c, writes, what⟩)
    (hset : Settled task) (hnot : ¬ task.Uncommitted)
    (hl : Backed (s.history ++ [⟨some c, writes, what⟩]) c task) :
    Inv init ((s.record (some c) writes what).finish c task) := by
  -- The rows of other requests are not among those written.
  have hrows : ∀ {d}, d ≠ c → ∀ k, s.locks.Holds d k ∨ s.locks.Shares d k →
      s.db.writeAll writes k = s.db k := by
    intro d hd k hk
    refine s.db.writeAll_frame ?_
    rintro w hmem rfl
    rcases hk with hk | hk
    · exact hd (hk.unique (hw w hmem))
    · exact hd (h.valid _ _ _ (hw w hmem) hk)
  refine ⟨h.valid.release c, ?_, ?_, h.proper_append hp, ?_, ?_⟩
  · intro d
    by_cases hd : d = c
    · subst hd
      simpa [Secrets.finish] using hset _ _ d
    · simp only [Secrets.finish, Function.update_of_ne hd]
      exact (h.tasks d).carry ⟨fun _ hj => hj.release hd, fun _ hj => hj.release hd, hrows hd⟩
  · show s.db.writeAll writes = replay init (s.history ++ [_])
    rw [replay_concat, ← h.replayed]
  · intro d hd e he
    by_cases hdc : d = c
    · subst hdc
      exact absurd (by simpa [Secrets.finish] using hd) hnot
    · rcases List.mem_append.mp he with he | he
      · exact h.uncommitted d (by simpa [Secrets.finish, Secrets.record, hdc] using hd) e he
      · rw [List.mem_singleton.mp he]
        intro heq
        exact hdc (Option.some.inj heq).symm
  · intro d
    by_cases hd : d = c
    · subst hd
      simpa [Secrets.finish, Secrets.record] using hl
    · simp only [Secrets.finish, Function.update_of_ne hd]
      exact (h.linked d).append _

theorem Inv.other (h : Inv init s) {w : Write Address.Row} (hfree : s.locks.isFree w.1 = true)
    (hp : Proper s.db ⟨none, [w], .other⟩) : Inv init (s.record none [w] .other) := by
  refine ⟨h.valid, ?_, ?_, h.proper_append hp, ?_, ?_⟩
  · intro d
    refine (h.tasks d).carry ⟨fun _ hj => hj, fun _ hj => hj, ?_⟩
    intro k hk
    refine s.db.writeAll_frame ?_
    intro w' hmem heq
    obtain rfl := List.mem_singleton.mp hmem
    subst heq
    rcases hk with hk | hk
    · rw [Locks.not_free_of_holds hk] at hfree
      cases hfree
    · rw [Locks.not_free_of_shares hk] at hfree
      cases hfree
  · show s.db.writeAll [w] = replay init (s.history ++ [_])
    rw [replay_concat, ← h.replayed]
  · intro d hd e he
    rcases List.mem_append.mp he with he | he
    · exact h.uncommitted d hd e he
    · rw [List.mem_singleton.mp he]
      intro heq
      cases heq
  · intro d
    exact (h.linked d).append _

/-! ### The commits are proper -/

theorem proper_enroll {hash id : ℕ} {claim : EnrollClaim} {machine : EnrolledMachine}
    (h : EnrollHeld db locks c hash claim) (htenant : machine.tenantId = claim.token.tenantId)
    (hname : ∀ name, claim.token.machineName = some name → machine.name = name) :
    Proper db ⟨some c, enrollWrites hash claim id machine,
      .enrolled hash id machine claim.claimed⟩ := by
  obtain ⟨-, hrow, hunused, htime⟩ := h
  refine ⟨?_, ?_, ?_, claim.token, hrow, hunused, htime, htenant, hname⟩
  · intro w hw hspent
    simp only [enrollWrites, List.mem_cons, List.not_mem_nil, or_false] at hw
    rcases hw with rfl | rfl | rfl | rfl
    · rfl
    all_goals cases hspent
  · intro k hk hspent
    cases hk
    unfold Spent at hspent
    rw [hrow] at hspent
    simp [Address.isSpent, hunused] at hspent
  · intro k hk
    cases hk
    unfold Spent enrollWrites
    rw [Store.writeAll_head _ _ (by simp)]
    rfl

theorem proper_refuse {hash : ℕ} {claim : RefreshClaim} :
    Proper db ⟨some c, [⟨.refresh hash, .row (revoked claim)⟩], .other⟩ := by
  refine ⟨?_, by simp [Deed.spends], by simp [Deed.spends], trivial⟩
  intro w hw _
  obtain rfl := List.mem_singleton.mp hw
  rfl

theorem proper_rotate {hash fresh : ℕ} {claim : RefreshClaim} {successor : RefreshToken}
    (h : RefreshHeld db locks c hash claim) (habsent : db (.refresh fresh) = .absent)
    (hne : fresh ≠ hash) (huser : successor.userId = claim.token.userId) :
    Proper db ⟨some c, [⟨.refresh hash, .row (revoked claim)⟩, ⟨.refresh fresh, .row successor⟩],
      .rotated hash successor claim.claimed⟩ := by
  obtain ⟨-, hrow, hlive, htime⟩ := h
  refine ⟨?_, ?_, ?_, claim.token, hrow, hlive, htime, huser⟩
  · intro w hw hspent
    simp only [List.mem_cons, List.not_mem_nil, or_false] at hw
    rcases hw with rfl | rfl
    · rfl
    · rw [habsent] at hspent
      cases hspent
  · intro k hk hspent
    cases hk
    unfold Spent at hspent
    rw [hrow] at hspent
    simp [Address.isSpent, hlive] at hspent
  · intro k hk
    cases hk
    unfold Spent
    rw [Store.writeAll_head _ _ (by simpa using Ne.symm hne)]
    rfl

theorem proper_accept {hash : ℕ} {claimed : ℤ} {j : Joining} (h : JoiningHeld db locks c hash j)
    (htime : claimed < j.invitation.expiresAt) :
    Proper db ⟨some c, acceptWrites hash claimed j, .accepted hash j.id j.account claimed⟩ := by
  obtain ⟨⟨-, hrow, hrevoked, haccepted⟩, ⟨-, -, hadmin⟩, ⟨hemail, htenant⟩, habsent, -⟩ := h
  refine ⟨?_, ?_, ?_, j.invitation, hrow, hrevoked, haccepted, htime, hemail, htenant, hadmin⟩
  · intro w hw hspent
    simp only [acceptWrites, List.mem_cons, List.not_mem_nil, or_false] at hw
    rcases hw with rfl | rfl | rfl | rfl
    · rfl
    · cases hspent
    · cases hspent
    · rw [habsent] at hspent
      cases hspent
  · intro k hk hspent
    cases hk
    unfold Spent at hspent
    rw [hrow] at hspent
    simp [Address.isSpent, haccepted] at hspent
  · intro k hk
    cases hk
    unfold Spent acceptWrites
    rw [Store.writeAll_head _ _ (by simp)]
    rfl

/-- A revocation leaves `accepted_at` alone. -/
theorem acceptedAt_of_revocation (old new : Invitation)
    (h : (new = { old with revokedAt := new.revokedAt } && new.revokedAt.isSome : Bool) = true) :
    new.acceptedAt = old.acceptedAt := by
  obtain ⟨hsame, -⟩ := Bool.and_eq_true_iff.mp h
  rw [of_decide_eq_true hsame]

theorem usedAt_of_unlink (old new : EnrollmentToken)
    (h : decide (new = { old with usedBy := none }) = true) : new.usedAt = old.usedAt := by
  rw [of_decide_eq_true h]

theorem isSpent_of_mayOverwrite : ∀ (k : Address) (old new : Slot k.Row),
    mayOverwrite k old new = true → k.isSpent old = true → k.isSpent new = true := by
  intro k old new hmay hspent
  cases k with
  | enrollment _ =>
    cases old with
    | absent => cases hspent
    | gone => cases hmay
    | row token =>
      cases new with
      | absent => cases hmay
      | row token' =>
        show (EnrollmentToken.usedAt token').isSome = true
        rw [usedAt_of_unlink token token' hmay]
        exact hspent
      | gone => rfl
  | refresh _ =>
    cases old with
    | absent => cases hspent
    | gone => cases hmay
    | row token =>
      cases new with
      | absent => cases hmay
      | row _ => exact (Bool.and_eq_true_iff.mp hmay).2
      | gone => rfl
  | invitation _ =>
    cases old with
    | absent => cases hspent
    | gone => cases hmay
    | row inv =>
      cases new with
      | absent => cases hmay
      | row inv' =>
        show (Invitation.acceptedAt inv').isSome = true
        rw [acceptedAt_of_revocation inv inv' hmay]
        exact hspent
      | gone => rfl
  | user _ => cases hspent
  | tenant _ => cases hspent
  | machine _ => cases hspent
  | machineName _ _ => cases hspent
  | noiseKey _ => cases hspent
  | email _ _ => cases hspent

theorem proper_other {w : Write Address.Row} (h : mayOverwrite w.1 (db w.1) w.2 = true) :
    Proper db ⟨none, [w], .other⟩ := by
  refine ⟨?_, by simp [Deed.spends], by simp [Deed.spends], trivial⟩
  intro w' hw' hspent
  obtain rfl := List.mem_singleton.mp hw'
  exact isSpent_of_mayOverwrite _ _ _ h hspent

end Secrets

end NebulaDesk
