/-
The administrators of a tenant (`nebula-manager/src/routes/directory.rs`, `update_user` and
`delete_user`; `nebula-manager/src/auth/extract.rs`, `AuthUser`).

A handler refuses to suspend or delete its own caller, so a request whose statement runs
at once leaves the caller behind.  It does not refuse to take the caller's role, and
what is checked when a request comes in may be gone when its statement runs.

* **`administrators_kept`** — a tenant keeps an administrator as long as none of them
  gives up his own role and every statement runs while its caller is one still: the
  caller is the one who is left;
* **`administrators_lost`** — an owner who makes himself a user, and two administrators
  who delete each other.
-/
import NebulaDesk.Manager.Directory

namespace NebulaDesk

/-- An enabled `ADMIN` or `OWNER` of the tenant. -/
def Account.administers (a : Account) (tenant : ℕ) : Bool :=
  a.tenantId = tenant && !a.disabled && a.role.isAdmin

/-- The request takes the administrator's role of its own caller. -/
def DirectoryRequest.resigns (user : ℕ) : DirectoryRequest → Bool
  | .update id _ _ (some role) _ _ => id = user && UserRole.fromDb role = some .user
  | _ => false

def DirectoryStatement.tenant : DirectoryStatement → Option ℕ
  | .insert .. => none
  | .update tenant .. | .delete tenant _ => some tenant

namespace Directory

def AdminOf (s : Directory) (tenant id : ℕ) : Prop :=
  ∃ a, s.users id = some a ∧ a.administers tenant = true

def Administered (s : Directory) (tenant : ℕ) : Prop := ∃ id, s.AdminOf tenant id

/-- The statement leaves the user what makes him an administrator of the tenant. -/
def Keeps (tenant id : ℕ) : DirectoryStatement → Prop
  | .insert .. => True
  | .update t id' change =>
    t = tenant → id' = id → change.disabled ≠ some true ∧ change.role ≠ some .user
  | .delete t id' => t = tenant → id' ≠ id

/-- No administrator of the tenant gives up his own role, and a statement on the tenant's
accounts runs while its caller is an administrator still. -/
def loyal (tenant : ℕ) (s : Directory) : DirectoryEvent → Bool
  | .request _ user t req => t ≠ tenant || !req.resigns user
  | .perform c =>
    match s.tasks c with
    | .ready caller statement =>
      statement.tenant ≠ some tenant || (s.users caller.id).any (·.administers tenant)
    | _ => true
  | .own .. => true

def stepLoyal (hasher : PasswordHasher) (tenant : ℕ) (s : Directory) (e : DirectoryEvent) :
    Option Directory :=
  if s.loyal tenant e then s.step hasher e else none

/-- What is known of a statement on its way, and of its caller. -/
structure Guarded (tenant : ℕ) (caller : AuthUser) (statement : DirectoryStatement) : Prop where
  tenant_eq : ∀ t, statement.tenant = some t → t = caller.tenant
  keeps : caller.tenant = tenant → Keeps tenant caller.id statement

/-- The tenant has an administrator, and what is on its way spares its own caller. -/
structure Led (tenant : ℕ) (s : Directory) : Prop where
  administered : s.Administered tenant
  tasks : ∀ c caller statement, s.tasks c = .ready caller statement →
    Guarded tenant caller statement

variable {hasher : PasswordHasher} {s s' : Directory} {tenant id : ℕ}
  {statement : DirectoryStatement} {caller : AuthUser} {req : DirectoryRequest}

theorem adminOf_iff_any :
    s.AdminOf tenant id ↔ (s.users id).any (·.administers tenant) = true := by
  rw [AdminOf, Option.any_eq_true]

/-! ### One statement -/

theorem adminOf_execute (h : s.AdminOf tenant id) (hkeeps : Keeps tenant id statement) :
    (s.execute statement).1.AdminOf tenant id := by
  obtain ⟨a, ha, hadmin⟩ := h
  have hother : ∀ {id' : ℕ} {row : Option Account}, id ≠ id' →
      (s.setUser id' row).AdminOf tenant id := by
    intro id' row hne
    exact ⟨a, by simpa [setUser, hne] using ha, hadmin⟩
  have hrow := hadmin
  simp only [Account.administers, Bool.and_eq_true, decide_eq_true_eq, Bool.not_eq_true'] at hrow
  obtain ⟨⟨htenant, henabled⟩, hisAdmin⟩ := hrow
  cases statement with
  | insert id' account =>
    simp only [execute]
    split
    · exact ⟨a, ha, hadmin⟩
    · next hfree =>
      refine hother ?_
      rintro rfl
      exact hfree (.inl (Option.isSome_iff_exists.mpr ⟨a, ha⟩))
  | update t id' change =>
    simp only [execute]
    split
    · next a' ha' =>
      split
      · next ht =>
        by_cases hne : id = id'
        · subst hne
          obtain rfl := Option.some.inj (ha.symm.trans ha')
          obtain ⟨hdisabled, hrole⟩ := hkeeps (ht.symm.trans htenant) rfl
          refine ⟨change.apply a, by simp [setUser], ?_⟩
          have henabled' : change.disabled.getD a.disabled = false := by
            cases hd : change.disabled with
            | none => exact henabled
            | some d => exact Bool.eq_false_iff.mpr fun h => hdisabled (hd.trans (congrArg some h))
          have hisAdmin' : (change.role.getD a.role).isAdmin = true := by
            cases hr : change.role with
            | none => exact hisAdmin
            | some r =>
              cases r with
              | user => exact absurd hr hrole
              | admin | owner => rfl
          simp [Account.administers, UserChange.apply, htenant, henabled', hisAdmin']
        · exact hother hne
      · exact ⟨a, ha, hadmin⟩
    · exact ⟨a, ha, hadmin⟩
  | delete t id' =>
    simp only [execute]
    split
    · next a' ha' =>
      split
      · next ht =>
        split
        · exact ⟨a, ha, hadmin⟩
        · refine hother ?_
          rintro rfl
          obtain rfl := Option.some.inj (ha.symm.trans ha')
          exact hkeeps (ht.symm.trans htenant) rfl
      · exact ⟨a, ha, hadmin⟩
    · exact ⟨a, ha, hadmin⟩

theorem keeps_of_tenant_ne (h : statement.tenant ≠ some tenant) : Keeps tenant id statement := by
  cases statement with
  | insert id' account => trivial
  | update t id' change => exact fun ht => absurd (congrArg some ht) h
  | delete t id' => exact fun ht => absurd (congrArg some ht) h

theorem administered_execute (h : s.Administered tenant) (hguard : Guarded tenant caller statement)
    (hcaller : statement.tenant = some tenant → s.AdminOf tenant caller.id) :
    (s.execute statement).1.Administered tenant := by
  by_cases ht : statement.tenant = some tenant
  · have hkeeps := hguard.keeps (hguard.tenant_eq tenant ht).symm
    exact ⟨caller.id, adminOf_execute (hcaller ht) hkeeps⟩
  · obtain ⟨id, hadmin⟩ := h
    exact ⟨id, adminOf_execute hadmin (keeps_of_tenant_ne ht)⟩

/-! ### What the checks leave of a request -/

theorem adminOf_of_authenticate {user t : ℕ}
    (h : s.authenticate t user = some caller) (hadmin : caller.requireAdmin = .ok ()) :
    caller.id = user ∧ caller.tenant = t ∧ s.AdminOf t user := by
  unfold authenticate at h
  split at h
  · next a ha =>
    split at h
    · next hlive =>
      cases h
      refine ⟨rfl, rfl, a, ha, ?_⟩
      have hrole : a.role.isAdmin = true := by
        by_contra hnot
        simp [AuthUser.requireAdmin, hnot] at hadmin
      simp [Account.administers, hlive.1, hlive.2, hrole]
    · cases h
  · cases h

theorem keeps_of_prepare (h : req.prepare hasher caller = .ok statement)
    (hresigns : req.resigns caller.id = false) : Keeps tenant caller.id statement := by
  obtain ⟨-, ⟨_, _, _, -, -, rfl⟩ | ⟨id, _, _, role, role', disabled, _, _, rfl, hrole, -,
    hsuspend, rfl⟩ | ⟨id, hdelete, rfl⟩⟩ := prepare_cases h
  · trivial
  · rintro - rfl
    constructor
    · rintro (rfl : disabled = some true)
      simp [AuthUser.maySuspend] at hsuspend
    · rintro (rfl : role' = some .user)
      cases role with
      | none => cases hrole
      | some text =>
        simp only [optional, parseRole] at hrole
        cases hparse : UserRole.fromDb text with
        | none => simp [hparse, Except.map] at hrole
        | some r =>
          simp only [hparse, Except.map, Except.ok.injEq, Option.some.injEq] at hrole
          simp [DirectoryRequest.resigns, hparse, hrole] at hresigns
  · rintro - rfl
    simp [AuthUser.mayDelete] at hdelete

theorem tenant_of_prepare (h : req.prepare hasher caller = .ok statement) {t : ℕ}
    (ht : statement.tenant = some t) : t = caller.tenant := by
  obtain ⟨-, ⟨_, _, _, -, -, rfl⟩ | ⟨_, _, _, _, _, _, _, _, -, -, -, -, rfl⟩ | ⟨_, -, rfl⟩⟩ :=
    prepare_cases h
  · cases ht
  · exact (Option.some.inj ht).symm
  · exact (Option.some.inj ht).symm

/-! ### Every run -/

theorem Led.setTask (h : Led tenant s) (c : ℕ) {task : DirectoryTask}
    (htask : ∀ caller statement, task = .ready caller statement →
      Guarded tenant caller statement) : Led tenant (s.setTask c task) := by
  refine ⟨h.administered, ?_⟩
  intro d caller statement hd
  by_cases hdc : d = c
  · subst hdc
    exact htask caller statement (by simpa [Directory.setTask] using hd)
  · exact h.tasks d caller statement (by simpa [Directory.setTask, hdc] using hd)

theorem Led.step {e : DirectoryEvent} (h : Led tenant s)
    (hs : s.stepLoyal hasher tenant e = some s') : Led tenant s' := by
  unfold stepLoyal at hs
  split_ifs at hs with hloyal
  cases e with
  | request c user t req =>
    simp only [Directory.step] at hs
    split at hs
    · split at hs
      · cases hs
        exact h.setTask c (by simp)
      · next caller hcaller =>
        split at hs
        · next statement hprepare =>
          cases hs
          refine h.setTask c ?_
          intro _ _ heq
          obtain ⟨rfl, rfl⟩ := DirectoryTask.ready.inj heq
          obtain ⟨hid, htenant, -⟩ :=
            adminOf_of_authenticate hcaller (prepare_cases hprepare).1
          refine ⟨fun _ ht => tenant_of_prepare hprepare ht, fun ht => ?_⟩
          refine keeps_of_prepare hprepare ?_
          simpa [loyal, htenant.symm.trans ht, hid] using hloyal
        · cases hs
          exact h.setTask c (by simp)
    · cases hs
  | perform c =>
    simp only [Directory.step] at hs
    split at hs
    · next caller statement hready =>
      cases hs
      have hcaller : statement.tenant = some tenant → s.AdminOf tenant caller.id := by
        intro ht
        rw [adminOf_iff_any]
        simpa [loyal, hready, ht] using hloyal
      have hexec : Led tenant (s.execute statement).1 :=
        ⟨administered_execute h.administered (h.tasks c caller statement hready) hcaller, by
          rw [execute_tasks]
          exact h.tasks⟩
      exact hexec.setTask c (by simp)
    · cases hs
  | own id owned =>
    cases hs
    exact ⟨h.administered, h.tasks⟩

theorem loyal_of_prompt {c user t : ℕ} (h : s.step hasher (.request c user t req) = some s') :
    s'.loyal tenant (.perform c) = true := by
  simp only [step] at h
  split at h
  · split at h
    · cases h
      simp [loyal, setTask]
    · next caller hcaller =>
      split at h
      · next statement hprepare =>
        cases h
        obtain ⟨hid, htenant, hadmin⟩ :=
          adminOf_of_authenticate hcaller (prepare_cases hprepare).1
        by_cases ht : statement.tenant = some tenant
        · obtain rfl := (tenant_of_prepare hprepare ht).trans htenant
          rw [adminOf_iff_any, ← hid] at hadmin
          simp [loyal, setTask, hadmin]
        · simp [loyal, setTask, ht]
      · cases h
        simp [loyal, setTask]
  · cases h

/-- In every run of requests, in whatever order and interleaving, that is loyal to the
tenant, the tenant has an administrator in every state; and the statement of a request
that runs at once is loyal. -/
theorem administrators_kept {init : Directory} (hidle : ∀ c, init.tasks c = .idle)
    (hinit : init.Administered tenant) :
    (∀ s, Runs.Reach (stepLoyal hasher tenant) init s → s.Administered tenant) ∧
      ∀ (s s' : Directory) (c user t : ℕ) (req : DirectoryRequest),
        s.step hasher (.request c user t req) = some s' → s'.loyal tenant (.perform c) = true := by
  refine ⟨?_, fun s s' c user t req h => loyal_of_prompt h⟩
  intro s hr
  have hled : Led tenant init := by
    refine ⟨hinit, ?_⟩
    intro c caller statement hc
    rw [hidle c] at hc
    cases hc
  exact (hr.invariant hled fun _ _ _ h hs => h.step hs).administered

/-! ### An owner and an administrator -/

/-- Request `c` of `user` to delete user `id`. -/
def sampleDelete (c user id : ℕ) : DirectoryEvent := .request c user 1 (.delete id)

/-- The owner asks to be a user. -/
def sampleResign (c : ℕ) : DirectoryEvent :=
  .request c 1 1 (.update 1 [] none (some "USER".toList) none none)

theorem not_administered (row : Option Account) (hrow : ∀ a, row = some a → a.role = .user)
    (h : s.users = Function.update (Function.update sampleDirectory.users 2 none) 1 row) :
    ¬ s.Administered 1 := by
  rintro ⟨id, a, ha, hadmin⟩
  rw [h] at ha
  by_cases h1 : id = 1
  · subst h1
    rw [Function.update_self] at ha
    simp [Account.administers, hrow a ha, UserRole.isAdmin] at hadmin
  · rw [Function.update_of_ne h1] at ha
    by_cases h2 : id = 2
    · subst h2
      cases ha
    · simp [sampleDirectory, h1, h2] at ha

theorem administered_sampleDirectory : sampleDirectory.Administered 1 :=
  ⟨1, sampleOwner, rfl, rfl⟩

/-- The owner deletes the administrator and makes himself a user; or each of them deletes
the other. -/
theorem administrators_lost :
    sampleDirectory.Administered 1 ∧
      (∃ s, Runs.tryRun (step sampleHasher) sampleDirectory
          [sampleDelete 0 1 2, .perform 0, sampleResign 1, .perform 1] = some s ∧
        s.tasks 1 = .returned (.ok ()) ∧ ¬ s.Administered 1) ∧
      ∃ s, Runs.tryRun (step sampleHasher) sampleDirectory
          [sampleDelete 0 1 2, sampleDelete 1 2 1, .perform 0, .perform 1] = some s ∧
        s.tasks 0 = .returned (.ok ()) ∧ s.tasks 1 = .returned (.ok ()) ∧ ¬ s.Administered 1 := by
  refine ⟨administered_sampleDirectory, ⟨_, rfl, rfl, ?_⟩, ⟨_, rfl, rfl, rfl, ?_⟩⟩
  · exact not_administered (some { sampleOwner with role := .user })
      (fun a ha => by rw [← Option.some.inj ha]) rfl
  · exact not_administered none nofun rfl

/-- The administrator may go as long as the owner stays, once nothing is his. -/
theorem administrators_kept_sample :
    ∃ s, Runs.Reach (stepLoyal sampleHasher 1) sampleDirectory s ∧
      s.tasks 0 = .returned (.error .database) ∧ s.users 2 = none ∧ s.Administered 1 := by
  have hrun : (Runs.tryRun (stepLoyal sampleHasher 1) sampleDirectory
      [.own 2 true, sampleDelete 0 1 2, .perform 0, .own 2 false, sampleDelete 1 1 2,
        .perform 1]).map (fun s => (s.tasks 0, s.users 2)) =
      some (.returned (.error .database), none) := by
    decide +kernel
  obtain ⟨s, htry, hs⟩ := Option.map_eq_some_iff.mp hrun
  have hr := Runs.reach_of_tryRun .init htry
  exact ⟨s, hr, congrArg Prod.fst hs, congrArg Prod.snd hs,
    (administrators_kept (fun _ => rfl) administered_sampleDirectory).1 s hr⟩

end Directory

end NebulaDesk
