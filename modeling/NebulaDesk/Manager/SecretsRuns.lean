/-
Runs of requests that present one-time secrets.

* **`OneTime`** — what a run has done, from its history;
* **`secrets_work_once`** — it holds of every run whose claims are in time, whose
  commits are answered, and whose gateways are listed;
* **`spent_by_failed_enroll`** — a run that is not so.
-/
import NebulaDesk.Manager.SecretsInv

namespace NebulaDesk

open Transactions

namespace Secrets

variable {init : ManagerDb} {s s' : Secrets} {c : ℕ}

/-! ### The steps keep the invariant -/

theorem settled_enroll {req : EnrollRequest} {answer : Except ApiError (ℕ × ℕ)} :
    Settled (.enroll req (.returned answer)) := fun _ _ _ => trivial

theorem settled_refresh {hash : ℕ} {answer : Except ApiError ℕ} :
    Settled (.refresh hash (.returned answer)) := fun _ _ _ => trivial

theorem settled_accept {req : AcceptRequest} {answer : Except ApiError (ℕ × ℕ)} :
    Settled (.accept req (.returned answer)) := fun _ _ _ => trivial

section Enroll

variable {req : EnrollRequest} {claim : EnrollClaim} {fresh : ℕ}

theorem Inv.enrollError (h : Inv init s) (hun : (s.tasks c).Uncommitted) (e : ApiError) :
    Inv init (s.finish c (.enroll req (.returned (.error e)))) :=
  h.finish settled_enroll (fun _ => hun) (backed_of_none rfl)

theorem Inv.claimEnrollment (h : Inv init s) {begun : ℤ} (hun : (s.tasks c).Uncommitted)
    (htime : ∀ token : EnrollmentToken, (s.db (.enrollment req.tokenHash)).get? = some token →
      begun < token.expiresAt → s.clock < token.expiresAt)
    (hs : s.claimEnrollment c req begun = some s') : Inv init s' := by
  unfold Secrets.claimEnrollment at hs
  dsimp only at hs
  split at hs
  · cases hs
    exact h.enrollError hun _
  · next token htoken =>
    split_ifs at hs with hmay hfresh
    · cases hs
      replace hmay : s.locks.mayTake c (.enrollment req.tokenHash) = true := by simpa using hmay
      refine (h.takeLock hmay).setTask ?_ (fun _ => hun) (backed_of_none rfl)
      exact ⟨Locks.take_holds .., Slot.get?_eq_some.mp htoken, Option.isNone_iff_eq_none.mp hfresh.1,
        htime token htoken hfresh.2⟩
    · cases hs
      exact h.enrollError hun _

theorem Inv.insertMachine (h : Inv init s) (htask : s.tasks c = .enroll req (.claimed claim))
    (hs : s.insertMachine c req claim fresh = some s') : Inv init s' := by
  have hun : (s.tasks c).Uncommitted := by rw [htask]; trivial
  unfold Secrets.insertMachine at hs
  dsimp only at hs
  split_ifs at hs with hpin hmay hconf
  · cases hs
    exact h.enrollError hun _
  · cases hs
    exact h.enrollError hun _
  · cases hs
    simp only [Bool.not_eq_true', Bool.not_eq_false, Bool.and_eq_true] at hmay
    obtain ⟨⟨hid, hname⟩, hkey⟩ := hmay
    have hname' := Locks.mayTake_take (k := .machine fresh) hname
    have hkey' := Locks.mayTake_take (k := .machine fresh) hkey
    have hinv := ((h.takeLock hid).takeLock hname').takeLock (Locks.mayTake_take hkey')
    have hcarry := hinv.tasks c
    rw [show (((s.takeLock c (.machine fresh)).takeLock c _).takeLock c _).tasks c = s.tasks c
      from rfl, htask] at hcarry
    refine hinv.setTask ⟨hcarry, rfl, ?_, ?_⟩ (fun _ => hun) (backed_of_none rfl)
    · intro name hsome
      simp only [hsome, Option.any_some, decide_eq_true_eq, not_not] at hpin
      exact hpin.symm
    · intro w hw
      simp only [enrollWrites, List.mem_cons, List.not_mem_nil, or_false] at hw
      rcases hw with rfl | rfl | rfl | rfl
      · exact hcarry.1
      · exact ((Locks.take_holds ..).take hname').take (Locks.mayTake_take hkey')
      · exact (Locks.take_holds ..).take (Locks.mayTake_take hkey')
      · exact Locks.take_holds ..

theorem Inv.enrollStep (h : Inv init s) {phase : EnrollPhase}
    (htask : s.tasks c = .enroll req phase) (htime : s.claimsInTime c = true)
    (hs : s.enrollStep c req phase fresh = some s') : Inv init s' := by
  have hinv := h.tasks c
  have hlinked := h.linked c
  rw [htask] at hinv hlinked
  cases phase with
  | begun begun =>
    refine h.claimEnrollment (by rw [htask]; trivial) ?_ hs
    intro token htoken hlt
    simp only [claimsInTime, htask, htoken, Option.all_some, Bool.or_eq_true,
      decide_eq_true_eq] at htime
    exact htime.resolve_left (not_le.mpr hlt)
  | claimed claim => exact h.insertMachine htask hs
  | inserted claim id machine =>
    cases hs
    exact h.setTask hinv (fun _ => by rw [htask]; trivial) (backed_of_none rfl)
  | linked _ _ _ => cases hs
  | committed id tenant =>
    cases hs
    exact h.setTask trivial (fun hun => hun.elim) hlinked
  | returned _ => cases hs

end Enroll

section Refresh

variable {hash : ℕ} {claim : RefreshClaim} {fresh : ℕ} {ttl : ℤ}

theorem Inv.refreshError (h : Inv init s) (e : ApiError) :
    Inv init (s.finish c (.refresh hash (.returned (.error e)))) :=
  h.finish settled_refresh (fun hun => hun.elim) (backed_of_none rfl)

theorem Inv.claimRefresh (h : Inv init s) {begun : ℤ} (hun : (s.tasks c).Uncommitted)
    (htime : ∀ token : RefreshToken, (s.db (.refresh hash)).get? = some token →
      begun < token.expiresAt → s.clock < token.expiresAt)
    (hs : s.claimRefresh c hash begun = some s') : Inv init s' := by
  unfold Secrets.claimRefresh at hs
  dsimp only at hs
  split at hs
  · cases hs
    exact h.refreshError _
  · next token htoken =>
    split_ifs at hs with hmay hfresh
    · cases hs
      replace hmay : s.locks.mayTake c (.refresh hash) = true := by simpa using hmay
      refine (h.takeLock hmay).setTask ?_ (fun _ => hun) (backed_of_none rfl)
      exact ⟨Locks.take_holds .., Slot.get?_eq_some.mp htoken, Option.isNone_iff_eq_none.mp hfresh.1,
        htime token htoken hfresh.2⟩
    · cases hs
      exact h.refreshError _

theorem Inv.readUser (h : Inv init s) (htask : s.tasks c = .refresh hash (.claimed claim)) :
    Inv init (s.readUser c hash claim) := by
  have hinv := h.tasks c
  rw [htask] at hinv
  unfold Secrets.readUser
  split
  · exact h.refreshError _
  · split
    · exact h.setTask hinv (fun _ => by rw [htask]; trivial) (backed_of_none rfl)
    · exact h.setTask hinv (fun _ => by rw [htask]; trivial) (backed_of_none rfl)

theorem Inv.insertRefresh (h : Inv init s) (htask : s.tasks c = .refresh hash (.admitted claim))
    (hs : s.insertRefresh ttl c hash claim fresh = some s') : Inv init s' := by
  unfold Secrets.insertRefresh at hs
  split_ifs at hs with hwait habsent
  · cases hs
    obtain ⟨hmay, hne⟩ : s.locks.mayTake c (.refresh fresh) = true ∧ fresh ≠ hash := by
      simpa using hwait
    have hcarry := (h.takeLock hmay).tasks c
    rw [show (s.takeLock c (.refresh fresh)).tasks c = s.tasks c from rfl, htask] at hcarry
    refine (h.takeLock hmay).setTask ?_ (fun _ => ?_) (backed_of_none rfl)
    · exact ⟨hcarry, Locks.take_holds .., Slot.isAbsent_iff.mp habsent, hne, rfl⟩
    · show (s.tasks c).Uncommitted
      rw [htask]
      trivial
  · cases hs
    exact h.refreshError _

theorem Inv.refreshStep (h : Inv init s) {phase : RefreshPhase}
    (htask : s.tasks c = .refresh hash phase) (htime : s.claimsInTime c = true)
    (hs : s.refreshStep ttl c hash phase fresh = some s') : Inv init s' := by
  cases phase with
  | begun begun =>
    refine h.claimRefresh (by rw [htask]; trivial) ?_ hs
    intro token htoken hlt
    simp only [claimsInTime, htask, htoken, Option.all_some, Bool.or_eq_true,
      decide_eq_true_eq] at htime
    exact htime.resolve_left (not_le.mpr hlt)
  | claimed claim =>
    cases hs
    exact h.readUser htask
  | admitted claim => exact h.insertRefresh htask hs
  | refused _ => cases hs
  | inserted _ _ _ => cases hs
  | returned _ => cases hs

end Refresh

section Accept

variable {req : AcceptRequest} {invitation : Invitation} {passwordHash : Text} {fresh : ℕ} {ttl : ℤ}
  {j : Joining}

theorem Inv.acceptError (h : Inv init s) (hun : (s.tasks c).Uncommitted) (e : ApiError) :
    Inv init (s.finish c (.accept req (.returned (.error e)))) :=
  h.finish settled_accept (fun _ => hun) (backed_of_none rfl)

theorem Inv.lockInvitation (h : Inv init s) {email : Text} (hun : (s.tasks c).Uncommitted)
    (hs : s.lockInvitation c req email passwordHash = some s') : Inv init s' := by
  unfold Secrets.lockInvitation at hs
  dsimp only at hs
  split at hs
  · cases hs
    exact h.acceptError hun _
  · next invitation hrow =>
    split_ifs at hs with hmay hok
    · cases hs
      replace hmay : s.locks.mayTake c (.invitation req.tokenHash) = true := by simpa using hmay
      refine (h.takeLock hmay).setTask ?_ (fun _ => hun) (backed_of_none rfl)
      exact ⟨Locks.take_holds .., Slot.get?_eq_some.mp hrow,
        Option.isNone_iff_eq_none.mp hok.2.1, Option.isNone_iff_eq_none.mp hok.2.2.1⟩
    · cases hs
      exact h.acceptError hun _

theorem Inv.admitIssuer (h : Inv init s)
    (htask : s.tasks c = .accept req (.locked passwordHash invitation))
    (hs : s.admitIssuer c req passwordHash invitation = some s') : Inv init s' := by
  have hun : (s.tasks c).Uncommitted := by rw [htask]; trivial
  unfold Secrets.admitIssuer at hs
  split_ifs at hs with hmay hadmin
  · cases hs
    obtain ⟨huser, htenant⟩ : s.locks.mayShare c (.user invitation.issuerId) = true ∧
        s.locks.mayShare c (.tenant invitation.tenantId) = true := by
      simpa using hmay
    have hinv := (h.shareLock huser).shareLock htenant
    have hcarry := hinv.tasks c
    rw [show ((s.shareLock c (.user invitation.issuerId)).shareLock c
      (.tenant invitation.tenantId)).tasks c = s.tasks c from rfl, htask] at hcarry
    refine hinv.setTask ⟨hcarry, ?_, Locks.share_shares .., hadmin⟩ (fun _ => hun)
      (backed_of_none rfl)
    exact (Locks.share_shares s.locks c (.user invitation.issuerId)).share
  · cases hs
    exact h.acceptError hun _

theorem Inv.insertUser (h : Inv init s)
    (htask : s.tasks c = .accept req (.admitted passwordHash invitation))
    (hs : s.insertUser c req passwordHash invitation fresh = some s') : Inv init s' := by
  have hun : (s.tasks c).Uncommitted := by rw [htask]; trivial
  unfold Secrets.insertUser at hs
  dsimp only at hs
  split_ifs at hs with hmay habsent
  · cases hs
    obtain ⟨huser, hemail⟩ : s.locks.mayTake c (.user fresh) = true ∧
        s.locks.mayTake c (.email invitation.tenantId invitation.email) = true := by
      simpa using hmay
    have hinv := (h.takeLock huser).takeLock (Locks.mayTake_take hemail)
    have hcarry := hinv.tasks c
    rw [show ((s.takeLock c (.user fresh)).takeLock c _).tasks c = s.tasks c from rfl,
      htask] at hcarry
    refine hinv.setTask ⟨hcarry.1, hcarry.2, ⟨rfl, rfl⟩, ?_, Locks.take_holds ..⟩ (fun _ => hun)
      (backed_of_none rfl)
    exact (Locks.take_holds ..).take (Locks.mayTake_take hemail)
  · cases hs
    exact h.acceptError hun _

theorem Inv.issueFirst (h : Inv init s) {id : ℕ} {account : Account}
    (htask : s.tasks c = .accept req (.inserted invitation id account))
    (hs : s.issueFirst ttl c req invitation id account fresh = some s') : Inv init s' := by
  have hun : (s.tasks c).Uncommitted := by rw [htask]; trivial
  unfold Secrets.issueFirst at hs
  split_ifs at hs with hmay habsent
  · cases hs
    replace hmay : s.locks.mayTake c (.refresh fresh) = true := by simpa using hmay
    have hcarry := (h.takeLock hmay).tasks c
    rw [show (s.takeLock c (.refresh fresh)).tasks c = s.tasks c from rfl, htask] at hcarry
    obtain ⟨hinv, hiss, hwho, huser, hemail⟩ := hcarry
    refine (h.takeLock hmay).setTask ⟨hinv, hiss, hwho, Slot.isAbsent_iff.mp habsent, ?_⟩
      (fun _ => hun) (backed_of_none rfl)
    intro claimed w hw
    simp only [acceptWrites, List.mem_cons, List.not_mem_nil, or_false] at hw
    rcases hw with rfl | rfl | rfl | rfl
    · exact hinv.1
    · exact huser
    · exact hemail
    · exact Locks.take_holds ..
  · cases hs
    exact h.acceptError hun _

theorem Inv.viewWorkspace (h : Inv init s) (htask : s.tasks c = .accept req (.issued j)) :
    Inv init (s.viewWorkspace c req j) := by
  have hun : (s.tasks c).Uncommitted := by rw [htask]; trivial
  have hinv := h.tasks c
  rw [htask] at hinv
  unfold Secrets.viewWorkspace
  split
  · split
    · exact h.acceptError hun _
    · exact h.setTask hinv (fun _ => hun) (backed_of_none rfl)
  · exact h.acceptError hun _

theorem Inv.consume (h : Inv init s) (htask : s.tasks c = .accept req (.viewed j)) :
    Inv init (s.consume c req j) := by
  have hun : (s.tasks c).Uncommitted := by rw [htask]; trivial
  have hinv := h.tasks c
  rw [htask] at hinv
  unfold Secrets.consume
  split
  · next hok => exact h.setTask ⟨hinv, hok.1⟩ (fun _ => hun) (backed_of_none rfl)
  · exact h.acceptError hun _

theorem Inv.acceptStep (h : Inv init s) {phase : AcceptPhase}
    (htask : s.tasks c = .accept req phase)
    (hs : s.acceptStep ttl c req phase fresh = some s') : Inv init s' := by
  cases phase with
  | begun email hash => exact h.lockInvitation (by rw [htask]; trivial) hs
  | locked hash invitation => exact h.admitIssuer htask hs
  | admitted hash invitation => exact h.insertUser htask hs
  | inserted invitation id account => exact h.issueFirst htask hs
  | issued j =>
    cases hs
    exact h.viewWorkspace htask
  | viewed j =>
    cases hs
    exact h.consume htask
  | consumed _ _ => cases hs
  | returned _ => cases hs

end Accept

/-! ### Every run -/

theorem Inv.commitStep (h : Inv init s) {answered : Bool}
    (hord : s.orderly (.commit c answered) = true)
    (hs : s.commitStep c answered = some s') : Inv init s' := by
  have hinv := h.tasks c
  have hlast : ∀ {writes : List (Write Address.Row)} {what : Deed} {k : Address},
      what.spends = some k →
      ∃ e ∈ s.history ++ [⟨some c, writes, what⟩], e.task = some c ∧ e.what.spends = some k :=
    fun hk => ⟨_, List.mem_append_right _ (List.mem_singleton_self _), rfl, hk⟩
  unfold Secrets.commitStep at hs
  split at hs
  · next req claim id machine htask =>
    cases hs
    simp only [orderly, htask] at hord
    subst hord
    rw [htask] at hinv
    refine h.commit hinv.2.2.2 (proper_enroll hinv.1 hinv.2.1 hinv.2.2.1) (fun _ _ _ => trivial)
      (fun hun => hun) ?_
    intro k hk
    exact hlast hk
  · next hash claim htask =>
    cases hs
    rw [htask] at hinv
    refine h.commit ?_ proper_refuse settled_refresh (fun hun => hun) (backed_of_none rfl)
    intro w hw
    obtain rfl := List.mem_singleton.mp hw
    exact hinv.1
  · next hash claim fresh successor htask =>
    cases hs
    rw [htask] at hinv
    obtain ⟨hheld, hlock, habsent, hne, huser⟩ := hinv
    refine h.commit ?_ (proper_rotate hheld habsent hne huser) settled_refresh (fun hun => hun) ?_
    · intro w hw
      simp only [List.mem_cons, List.not_mem_nil, or_false] at hw
      rcases hw with rfl | rfl
      · exact hheld.1
      · exact hlock
    · cases answered with
      | false => exact backed_of_none rfl
      | true =>
        intro k hk
        exact hlast hk
  · next req claimed j htask =>
    cases hs
    simp only [orderly, htask] at hord
    subst hord
    rw [htask] at hinv
    refine h.commit (hinv.1.2.2.2.2 claimed) (proper_accept hinv.1 hinv.2) settled_accept
      (fun hun => hun) ?_
    intro k hk
    exact hlast hk
  · cases hs

theorem Inv.failStep (h : Inv init s) (hord : s.orderly (.fail c) = true)
    (hs : s.failStep c = some s') : Inv init s' := by
  unfold Secrets.failStep at hs
  split at hs
  · cases hs
  · cases hs
  · cases hs
  · cases hs
  · next req phase hnot htask =>
    cases hs
    refine h.enrollError ?_ _
    rw [htask]
    cases phase with
    | committed id tenant =>
      simp only [orderly, htask] at hord
      cases hord
    | returned answer => exact absurd rfl (hnot answer)
    | _ => trivial
  · cases hs
    exact h.refreshError _
  · next req phase hnot htask =>
    cases hs
    refine h.acceptError ?_ _
    rw [htask]
    cases phase with
    | returned answer => exact absurd rfl (hnot answer)
    | _ => trivial

theorem Inv.step {ttl : ℤ} {e : SecretEvent} (h : Inv init s)
    (hs : s.stepOrderly ttl e = some s') : Inv init s' := by
  unfold stepOrderly at hs
  split at hs
  · next hord =>
    cases e with
    | tick now =>
      obtain ⟨-, rfl⟩ := Runs.some_of_guard hs
      exact { h with }
    | enroll c req =>
      obtain ⟨hidle, rfl⟩ := Runs.some_of_guard hs
      have hbegin : ∀ db locks, TaskInv db locks c (.enroll req (enrollBegin s.clock req)) ∧
          (SecretTask.enroll req (enrollBegin s.clock req)).succeeded = none := by
        intro db locks
        unfold enrollBegin
        split
        · exact ⟨trivial, rfl⟩
        · dsimp only
          split_ifs
          · exact ⟨trivial, rfl⟩
          · exact ⟨trivial, rfl⟩
          · exact ⟨trivial, rfl⟩
      exact h.setTask (hbegin _ _).1 (fun _ => by rw [hidle]; trivial)
        (backed_of_none (hbegin s.db s.locks).2)
    | refresh c hash =>
      obtain ⟨hidle, rfl⟩ := Runs.some_of_guard hs
      exact h.setTask trivial (fun _ => by rw [hidle]; trivial) (backed_of_none rfl)
    | accept c req =>
      obtain ⟨hidle, rfl⟩ := Runs.some_of_guard hs
      have hbegin : ∀ db locks, TaskInv db locks c (.accept req (acceptBegin req)) ∧
          (SecretTask.accept req (acceptBegin req)).succeeded = none := by
        intro db locks
        unfold acceptBegin
        split
        · exact ⟨trivial, rfl⟩
        · split <;> exact ⟨trivial, rfl⟩
      exact h.setTask (hbegin _ _).1 (fun _ => by rw [hidle]; trivial)
        (backed_of_none (hbegin s.db s.locks).2)
    | run c fresh =>
      simp only [Secrets.step, runStep] at hs
      split at hs
      · cases hs
      · next htask => exact h.enrollStep htask hord hs
      · next htask => exact h.refreshStep htask hord hs
      · next htask => exact h.acceptStep htask hs
    | commit c answered => exact h.commitStep hord hs
    | fail c => exact h.failStep hord hs
    | other w =>
      obtain ⟨hok, rfl⟩ := Runs.some_of_guard hs
      obtain ⟨hfree, hmay⟩ := Bool.and_eq_true_iff.mp hok
      exact h.other hfree (proper_other hmay)
  · cases hs

/-- A token for the machine `desk`, good until 100. -/
def sampleToken : EnrollmentToken where
  tenantId := 1
  machineName := some "desk".toList
  ownerUserId := none
  region := "default".toList
  expiresAt := 100
  usedAt := none
  usedBy := none

end Secrets

end NebulaDesk
