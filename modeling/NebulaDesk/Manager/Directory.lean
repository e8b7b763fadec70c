/-
The user directory (`nebula-manager/src/routes/directory.rs`, `create_user`,
`update_user` and `delete_user`; `nebula-manager/src/auth/password.rs`).

A request reads the caller's live row, checks what it is asked for, and runs its
statement later, with others in between.  What is checked is the role a request asks
for; the row it is about is not looked at.

* **`owners_kept`** — as long as no administrator's request is about an owner, the
  owners are who they were and log in with what they did;
* **`owner_taken_over`** — an administrator sets the owner's password.
-/
import NebulaDesk.Lib.Layout
import NebulaDesk.Manager.Secrets

namespace NebulaDesk

structure PasswordHasher where
  hash : (salt : Text) → (password : Text) → Text
  verify : (password : Text) → (stored : Text) → Bool
  verify_hash : ∀ salt password, verify password (hash salt password) = true

/-- `password::hash`: length is the only property worth enforcing. -/
def hashPassword (hasher : PasswordHasher) (salt password : Text) : Except ApiError Text :=
  if password.length < 12 then .error (.badRequest "password must be at least 12 characters")
  else if 1024 < password.len then .error (.badRequest "password is too long")
  else .ok (hasher.hash salt password)

/-- `UserRole::from_db`. -/
def UserRole.fromDb (s : Text) : Option UserRole :=
  if s = "USER".toList then some .user
  else if s = "ADMIN".toList then some .admin
  else if s = "OWNER".toList then some .owner
  else none

/-- `parse_role`. -/
def parseRole (s : Text) : Except ApiError UserRole :=
  match UserRole.fromDb s with
  | some role => .ok role
  | none => .error (.badRequest ("unknown role " ++ String.ofList s))

namespace AuthUser

def requireAdmin (caller : AuthUser) : Except ApiError Unit :=
  if caller.role.isAdmin then .ok ()
  else .error (.forbidden "this action requires an administrator")

def requireOwner (caller : AuthUser) : Except ApiError Unit :=
  if caller.role = .owner then .ok () else .error (.forbidden "this action requires the tenant owner")

end AuthUser

/-- The requests of the directory; `id` and `salt` are what the handler generates. -/
inductive DirectoryRequest
  | create (id : ℕ) (salt email password displayName : Text) (role : Option Text)
  | update (id : ℕ) (salt : Text) (displayName role : Option Text) (disabled : Option Bool)
      (password : Option Text)
  | delete (id : ℕ)
deriving DecidableEq

/-- Fields of an `UPDATE users`, `none` for those it leaves. -/
structure UserChange where
  displayName : Option Text
  role : Option UserRole
  disabled : Option Bool
  passwordHash : Option Text
deriving DecidableEq

/-- `COALESCE` of the change with the row. -/
def UserChange.apply (change : UserChange) (a : Account) : Account :=
  { a with
    displayName := change.displayName.getD a.displayName
    role := change.role.getD a.role
    disabled := change.disabled.getD a.disabled
    passwordHash := change.passwordHash.getD a.passwordHash }

inductive DirectoryStatement
  | insert (id : ℕ) (account : Account)
  | update (tenant id : ℕ) (change : UserChange)
  | delete (tenant id : ℕ)
deriving DecidableEq

/-- Only an owner may mint another owner; otherwise an admin could promote themselves
sideways into full control of the tenant. -/
def AuthUser.mayAssign (caller : AuthUser) (role : Option UserRole) : Except ApiError Unit :=
  if role = some .owner then caller.requireOwner else .ok ()

/-- Locking yourself out is a support ticket, not a feature. -/
def AuthUser.maySuspend (caller : AuthUser) (id : ℕ) (disabled : Option Bool) :
    Except ApiError Unit :=
  if id = caller.id ∧ disabled = some true then
    .error (.badRequest "you cannot disable your own account")
  else .ok ()

def AuthUser.mayDelete (caller : AuthUser) (id : ℕ) : Except ApiError Unit :=
  if id = caller.id then .error (.badRequest "you cannot delete your own account") else .ok ()

/-- A field of a request, if it is there. -/
def optional {α β : Type} (f : α → Except ApiError β) : Option α → Except ApiError (Option β)
  | none => .ok none
  | some a => (f a).map some

/-- The checks of a handler, up to its statement. -/
def DirectoryRequest.prepare (hasher : PasswordHasher) (caller : AuthUser) :
    DirectoryRequest → Except ApiError DirectoryStatement
  | create id salt email password displayName role => do
    caller.requireAdmin
    let role ← optional parseRole role
    caller.mayAssign role
    let passwordHash ← hashPassword hasher salt password
    return .insert id { tenantId := caller.tenant, email, passwordHash, displayName,
                        role := role.getD .user, disabled := false }
  | update id salt displayName role disabled password => do
    caller.requireAdmin
    let role ← optional parseRole role
    caller.mayAssign role
    caller.maySuspend id disabled
    let passwordHash ← optional (hashPassword hasher salt) password
    return .update caller.tenant id { displayName, role, disabled, passwordHash }
  | delete id => do
    caller.requireAdmin
    caller.mayDelete id
    return .delete caller.tenant id

/-- The key of the unique index: `lower(btrim(email))`. -/
def emailKey (email : Text) : Text :=
  (((email.dropWhile (· = ' ')).reverse.dropWhile (· = ' ')).reverse).map Char.toLower

inductive DirectoryTask
  | idle
  | ready (caller : AuthUser) (statement : DirectoryStatement)
  | returned (answer : Except ApiError Unit)
deriving DecidableEq

structure Directory where
  users : ℕ → Option Account
  /-- The unique index on the addresses of a tenant. -/
  emails : ℕ × Text → Option ℕ
  /-- The user is the owner of a machine or of an enrolment token. -/
  owned : ℕ → Bool
  tasks : ℕ → DirectoryTask

inductive DirectoryEvent
  /-- Request `c` of a user comes in and is checked. -/
  | request (c user : ℕ) (tenant : ℕ) (req : DirectoryRequest)
  /-- The statement of request `c` runs. -/
  | perform (c : ℕ)
  /-- Other endpoints give a user his first machine or token, or take the last one. -/
  | own (id : ℕ) (owned : Bool)
deriving DecidableEq

namespace Directory

/-- `AuthUser`: the live row is authoritative. -/
def authenticate (s : Directory) (tenant user : ℕ) : Option AuthUser :=
  match s.users user with
  | some a => if a.tenantId = tenant ∧ a.disabled = false then some ⟨user, tenant, a.role⟩ else none
  | none => none

def setTask (s : Directory) (c : ℕ) (task : DirectoryTask) : Directory :=
  { s with tasks := Function.update s.tasks c task }

def setUser (s : Directory) (id : ℕ) (row : Option Account) : Directory :=
  { s with users := Function.update s.users id row }

def setEmail (s : Directory) (tenant : ℕ) (email : Text) (row : Option ℕ) : Directory :=
  { s with emails := Function.update s.emails (tenant, emailKey email) row }

/-- A statement, and what its handler answers. -/
def execute (s : Directory) : DirectoryStatement → Directory × Except ApiError Unit
  | .insert id account =>
    if (s.users id).isSome ∨ (s.emails (account.tenantId, emailKey account.email)).isSome then
      (s, .error (.conflict "a user with that email already exists"))
    else ((s.setUser id account).setEmail account.tenantId account.email (some id), .ok ())
  | .update tenant id change =>
    match s.users id with
    | some a =>
      if a.tenantId = tenant then (s.setUser id (change.apply a), .ok ())
      else (s, .error (.notFound "user"))
    | none => (s, .error (.notFound "user"))
  | .delete tenant id =>
    match s.users id with
    | some a =>
      if a.tenantId = tenant then
        -- `ON DELETE SET NULL` would clear the tenant of what the user owns.
        if s.owned id then (s, .error .database)
        else ((s.setUser id none).setEmail a.tenantId a.email none, .ok ())
      else (s, .error (.notFound "user"))
    | none => (s, .error (.notFound "user"))

def step (hasher : PasswordHasher) (s : Directory) : DirectoryEvent → Option Directory
  | .request c user tenant req =>
    if s.tasks c = .idle then
      match s.authenticate tenant user with
      | none => some (s.setTask c (.returned (.error .unauthorized)))
      | some caller =>
        match req.prepare hasher caller with
        | .ok statement => some (s.setTask c (.ready caller statement))
        | .error e => some (s.setTask c (.returned (.error e)))
    else none
  | .perform c =>
    match s.tasks c with
    | .ready _ statement =>
      let (s', answer) := s.execute statement
      some (s'.setTask c (.returned answer))
    | _ => none
  | .own id owned => some { s with owned := Function.update s.owned id owned }

/-- No caller's live role is `OWNER`. -/
def byAdmin (s : Directory) : DirectoryEvent → Bool
  | .request _ user _ _ => (s.users user).all (·.role ≠ .owner)
  | .perform _ | .own .. => true

def stepByAdmin (hasher : PasswordHasher) (s : Directory) (e : DirectoryEvent) : Option Directory :=
  if s.byAdmin e then s.step hasher e else none

/-- The statement leaves an owner's role, password and suspension, or is not about an
owner. -/
def sparesStatement (s : Directory) : DirectoryStatement → Bool
  | .insert .. => true
  | .update _ id change => (s.users id).all fun a => a.role ≠ .owner ||
      (change.role.isNone && change.passwordHash.isNone && change.disabled.all (· = a.disabled))
  | .delete _ id => (s.users id).all (·.role ≠ .owner)

def spares (s : Directory) : DirectoryEvent → Bool
  | .request .. | .own .. => true
  | .perform c =>
    match s.tasks c with
    | .ready _ statement => s.sparesStatement statement
    | _ => true

/-- The runs of administrators that spare the owners. -/
def stepSparing (hasher : PasswordHasher) (s : Directory) (e : DirectoryEvent) : Option Directory :=
  if s.spares e then s.stepByAdmin hasher e else none

/-- A login as `user`: the address and the password are those of his row. -/
def LogsIn (hasher : PasswordHasher) (s : Directory) (tenant : ℕ) (email password : Text)
    (user : ℕ) : Prop :=
  ∃ a, s.users user = some a ∧ a.tenantId = tenant ∧
    a.email.map Char.toLower = email.map Char.toLower ∧
    hasher.verify password a.passwordHash = true ∧ a.disabled = false

/-- What an administrator must leave of an owner. -/
def Account.SameOwner (a b : Account) : Prop :=
  a.role = .owner ∧ b.role = .owner ∧ b.passwordHash = a.passwordHash ∧ b.disabled = a.disabled ∧
    b.email = a.email ∧ b.tenantId = a.tenantId

/-- The owners are who they were: nobody has become one, none has lost his role,
password or suspension, and every login as one was possible before. -/
structure OwnersKept (hasher : PasswordHasher) (init s : Directory) : Prop where
  acquired : ∀ id b, s.users id = some b → b.role = .owner →
    ∃ a, init.users id = some a ∧ Account.SameOwner a b
  kept : ∀ id a, init.users id = some a → a.role = .owner →
    ∃ b, s.users id = some b ∧ Account.SameOwner a b
  tokens : ∀ tenant email password user b, s.users user = some b → b.role = .owner →
    LogsIn hasher s tenant email password user → LogsIn hasher init tenant email password user

/-! ### What the checks leave of a request -/

/-- The statement makes nobody an owner. -/
def Modest : DirectoryStatement → Prop
  | .insert _ account => account.role ≠ .owner
  | .update _ _ change => change.role ≠ some .owner
  | .delete .. => True

variable {hasher : PasswordHasher} {caller : AuthUser}

theorem ne_owner_of_mayAssign {role : Option UserRole} (hcaller : caller.role ≠ .owner)
    (h : caller.mayAssign role = .ok ()) : role ≠ some .owner := by
  rintro rfl
  simp [AuthUser.mayAssign, AuthUser.requireOwner, hcaller] at h

/-- **What a request leaves to be run.** -/
theorem prepare_cases {req : DirectoryRequest} {statement : DirectoryStatement}
    (h : req.prepare hasher caller = .ok statement) :
    caller.requireAdmin = .ok () ∧
      ((∃ id role account, caller.mayAssign role = .ok () ∧ account.role = role.getD .user ∧
          statement = .insert id account) ∨
        (∃ id salt displayName text role disabled password passwordHash,
          req = .update id salt displayName text disabled password ∧
            optional parseRole text = .ok role ∧ caller.mayAssign role = .ok () ∧
            caller.maySuspend id disabled = .ok () ∧
            statement = .update caller.tenant id ⟨displayName, role, disabled, passwordHash⟩) ∨
        ∃ id, caller.mayDelete id = .ok () ∧ statement = .delete caller.tenant id) := by
  cases req with
  | create id salt email password displayName role =>
    simp only [DirectoryRequest.prepare, Layout.bind_eq_ok] at h
    obtain ⟨_, hadmin, role, -, _, hassign, hash, -, h⟩ := h
    cases h
    exact ⟨hadmin, .inl ⟨id, role, _, hassign, rfl, rfl⟩⟩
  | update id salt displayName text disabled password =>
    simp only [DirectoryRequest.prepare, Layout.bind_eq_ok] at h
    obtain ⟨_, hadmin, role, hrole, _, hassign, _, hsuspend, hash, -, h⟩ := h
    cases h
    exact ⟨hadmin, .inr (.inl ⟨id, salt, displayName, text, role, disabled, password, hash, rfl,
      hrole, hassign, hsuspend, rfl⟩)⟩
  | delete id =>
    simp only [DirectoryRequest.prepare, Layout.bind_eq_ok] at h
    obtain ⟨_, hadmin, _, hdelete, h⟩ := h
    cases h
    exact ⟨hadmin, .inr (.inr ⟨id, hdelete, rfl⟩)⟩

theorem modest_of_prepare {req : DirectoryRequest} {statement : DirectoryStatement}
    (hcaller : caller.role ≠ .owner) (h : req.prepare hasher caller = .ok statement) :
    Modest statement := by
  obtain ⟨-, ⟨id, role, account, hassign, haccount, rfl⟩ |
    ⟨_, _, _, _, _, _, _, _, -, -, hassign, -, rfl⟩ | ⟨id, -, rfl⟩⟩ := prepare_cases h
  · have hrole := ne_owner_of_mayAssign hcaller hassign
    intro howner
    rw [haccount] at howner
    cases role with
    | none => cases howner
    | some r => exact hrole (congrArg some howner)
  · exact ne_owner_of_mayAssign hcaller hassign
  · trivial

/-! ### Statements that spare the owners -/

/-- The owners of `after` are those of `before`. -/
structure SameOwners (before after : ℕ → Option Account) : Prop where
  acquired : ∀ id b, after id = some b → b.role = .owner →
    ∃ a, before id = some a ∧ Account.SameOwner a b
  kept : ∀ id a, before id = some a → a.role = .owner →
    ∃ b, after id = some b ∧ Account.SameOwner a b

variable {before after : ℕ → Option Account} {id : ℕ} {a b : Account}

theorem SameOwners.refl (users : ℕ → Option Account) : SameOwners users users :=
  ⟨fun _ b hb hrole => ⟨b, hb, hrole, hrole, rfl, rfl, rfl, rfl⟩,
    fun _ a ha hrole => ⟨a, ha, hrole, hrole, rfl, rfl, rfl, rfl⟩⟩

theorem SameOwners.update (h : SameOwners before after) {row : Option Account}
    (hold : ∀ a, after id = some a → a.role ≠ .owner) (hnew : ∀ b, row = some b → b.role ≠ .owner) :
    SameOwners before (Function.update after id row) := by
  constructor
  · intro id' b hb hrole
    by_cases hid : id' = id
    · subst hid
      rw [Function.update_self] at hb
      exact absurd hrole (hnew b hb)
    · rw [Function.update_of_ne hid] at hb
      exact h.acquired id' b hb hrole
  · intro id' a ha hrole
    obtain ⟨b, hb, hsame⟩ := h.kept id' a ha hrole
    by_cases hid : id' = id
    · subst hid
      exact absurd hsame.2.1 (hold b hb)
    · exact ⟨b, by rwa [Function.update_of_ne hid], hsame⟩

theorem SameOwners.update_owner (h : SameOwners before after) (ha : after id = some a)
    (hsame : Account.SameOwner a b) : SameOwners before (Function.update after id (some b)) := by
  obtain ⟨hrole, hrole', hhash, hdis, hmail, htenant⟩ := hsame
  constructor
  · intro id' b' hb' hb'role
    by_cases hid : id' = id
    · subst hid
      rw [Function.update_self] at hb'
      cases hb'
      obtain ⟨o, ho, h1, -, h3, h4, h5, h6⟩ := h.acquired id' a ha hrole
      exact ⟨o, ho, h1, hrole', hhash.trans h3, hdis.trans h4, hmail.trans h5, htenant.trans h6⟩
    · rw [Function.update_of_ne hid] at hb'
      exact h.acquired id' b' hb' hb'role
  · intro id' o ho horole
    obtain ⟨b', hb', h1, h2, h3, h4, h5, h6⟩ := h.kept id' o ho horole
    by_cases hid : id' = id
    · subst hid
      rw [ha] at hb'
      cases hb'
      refine ⟨b, Function.update_self .., h1, hrole', hhash.trans h3, hdis.trans h4, hmail.trans h5,
        htenant.trans h6⟩
    · exact ⟨b', by rwa [Function.update_of_ne hid], h1, h2, h3, h4, h5, h6⟩

variable {s s' : Directory}

theorem execute_sameOwners {statement : DirectoryStatement} (h : SameOwners before s.users)
    (hmodest : Modest statement) (hspares : s.sparesStatement statement = true) :
    SameOwners before (s.execute statement).1.users := by
  cases statement with
  | insert id account =>
    simp only [execute]
    split
    · exact h
    · next hfree =>
      refine h.update ?_ ?_
      · intro a ha
        exact absurd (.inl (Option.isSome_iff_exists.mpr ⟨a, ha⟩)) hfree
      · intro b hb
        rw [← Option.some.inj hb]
        exact hmodest
  | update tenant id change =>
    simp only [execute]
    split
    · next a ha =>
      split
      · by_cases hrole : a.role = .owner
        · -- The request leaves what makes the owner.
          simp only [sparesStatement, ha, Option.all_some, hrole, Bool.or_eq_true,
            Bool.and_eq_true, Option.isNone_iff_eq_none, ne_eq, not_true_eq_false,
            decide_false, Bool.false_eq_true, false_or] at hspares
          obtain ⟨⟨hr, hp⟩, hd⟩ := hspares
          refine h.update_owner ha ⟨hrole, ?_, ?_, ?_, rfl, rfl⟩
          · simp [UserChange.apply, hr, hrole]
          · simp [UserChange.apply, hp]
          · cases hdis : change.disabled with
            | none => simp [UserChange.apply, hdis]
            | some d =>
              rw [hdis] at hd
              simpa [UserChange.apply, hdis] using hd
        · refine h.update ?_ ?_
          · intro a' ha'
            rw [ha] at ha'
            rwa [← Option.some.inj ha']
          · intro b hb howner
            rw [← Option.some.inj hb] at howner
            replace howner : change.role.getD a.role = .owner := howner
            cases hr : change.role with
            | none =>
              rw [hr] at howner
              exact hrole howner
            | some r =>
              rw [hr] at howner
              exact hmodest (by rw [hr]; exact congrArg some howner)
      · exact h
    · exact h
  | delete tenant id =>
    simp only [execute]
    split
    · next a ha =>
      split
      · split
        · exact h
        · refine h.update ?_ (by simp)
          intro a' ha'
          rw [ha] at ha'
          simp only [sparesStatement, ha, Option.all_some, ne_eq, decide_not, Bool.not_eq_true',
            decide_eq_false_iff_not] at hspares
          rwa [← Option.some.inj ha']
      · exact h
    · exact h

/-! ### Every run -/

/-- The owners are who they were, and no request on its way makes another. -/
structure Inv (init s : Directory) : Prop where
  owners : SameOwners init.users s.users
  modest : ∀ c caller statement, s.tasks c = .ready caller statement → Modest statement

theorem Inv.setTask {init : Directory} (h : Inv init s) (c : ℕ) {task : DirectoryTask}
    (htask : ∀ caller statement, task = .ready caller statement → Modest statement) :
    Inv init (s.setTask c task) := by
  refine ⟨h.owners, ?_⟩
  intro d caller statement hd
  by_cases hdc : d = c
  · subst hdc
    exact htask caller statement (by simpa [Directory.setTask] using hd)
  · exact h.modest d caller statement (by simpa [Directory.setTask, hdc] using hd)

theorem execute_tasks (s : Directory) (statement : DirectoryStatement) :
    (s.execute statement).1.tasks = s.tasks := by
  cases statement with
  | insert id account =>
    simp only [execute]
    split <;> rfl
  | update tenant id change =>
    simp only [execute]
    split
    · split <;> rfl
    · rfl
  | delete tenant id =>
    simp only [execute]
    split
    · split
      · split <;> rfl
      · rfl
    · rfl

theorem role_of_authenticate {tenant user : ℕ} (h : s.authenticate tenant user = some caller)
    (hadmin : (s.users user).all (·.role ≠ .owner) = true) : caller.role ≠ .owner := by
  unfold authenticate at h
  split at h
  · next a ha =>
    split at h
    · cases h
      simpa [ha] using hadmin
    · cases h
  · cases h

theorem Inv.step {init : Directory} {e : DirectoryEvent} (h : Inv init s)
    (hs : s.stepSparing hasher e = some s') : Inv init s' := by
  unfold stepSparing stepByAdmin at hs
  split_ifs at hs with hspares hadmin
  cases e with
  | request c user tenant req =>
    simp only [Directory.step] at hs
    split at hs
    · split at hs
      · cases hs
        exact h.setTask c (by simp)
      · next caller hcaller =>
        split at hs
        · next statement hprepare =>
          cases hs
          refine h.setTask c ?_
          intro _ statement' heq
          rw [← (DirectoryTask.ready.inj heq).2]
          exact modest_of_prepare (role_of_authenticate hcaller hadmin) hprepare
        · cases hs
          exact h.setTask c (by simp)
    · cases hs
  | perform c =>
    simp only [Directory.step] at hs
    split at hs
    · next caller statement hready =>
      cases hs
      simp only [spares, hready] at hspares
      have hexec : Inv init (s.execute statement).1 :=
        ⟨execute_sameOwners h.owners (h.modest c caller statement hready) hspares, by
          rw [execute_tasks]
          exact h.modest⟩
      exact hexec.setTask c (by simp)
    · cases hs
  | own id owned =>
    cases hs
    exact ⟨h.owners, h.modest⟩

/-- In every run of administrators' requests, in whatever order and interleaving, that
spares the owners: nobody becomes an owner, no owner changes, and no login as an owner
becomes possible. -/
theorem owners_kept {init : Directory} (hidle : ∀ c, init.tasks c = .idle)
    (hr : Runs.Reach (stepSparing hasher) init s) : OwnersKept hasher init s := by
  have hinit : Inv init init := by
    refine ⟨SameOwners.refl _, ?_⟩
    intro c caller statement hc
    rw [hidle c] at hc
    cases hc
  have h := (hr.invariant hinit fun _ _ _ h hs => h.step hs).owners
  refine ⟨h.acquired, h.kept, ?_⟩
  rintro tenant email password user b hb hrole ⟨b', hb', htenant, hmail, hverify, hdis⟩
  obtain rfl := Option.some.inj (hb.symm.trans hb')
  obtain ⟨a, ha, -, -, h3, h4, h5, h6⟩ := h.acquired user b hb hrole
  exact ⟨a, ha, h6.symm.trans htenant, by rw [← h5]; exact hmail, by rw [← h3]; exact hverify,
    h4.symm.trans hdis⟩

/-! ### An owner and an administrator -/

/-- Hashes that keep the password behind the salt. -/
def sampleHasher : PasswordHasher where
  hash salt password := "$argon2id$".toList ++ salt ++ '$' :: password
  verify password stored := ('$' :: password).isSuffixOf stored
  verify_hash := by
    intro salt password
    exact List.isSuffixOf_iff_suffix.mpr (List.suffix_append _ _)

def sampleOwner : Account where
  tenantId := 1
  email := "owner@acme.test".toList
  passwordHash := "$argon2id$c2FsdA$correct horse".toList
  displayName := "Owner".toList
  role := .owner
  disabled := false

def sampleAdmin : Account :=
  { sampleOwner with email := "admin@acme.test".toList, displayName := "Admin".toList, role := .admin }

/-- User 1 owns the tenant, user 2 administers it. -/
def sampleDirectory : Directory where
  users := fun id => if id = 1 then some sampleOwner else if id = 2 then some sampleAdmin else none
  emails := fun key =>
    if key = (1, sampleOwner.email) then some 1
    else if key = (1, sampleAdmin.email) then some 2 else none
  owned := fun _ => false
  tasks := fun _ => .idle

/-- User 2 asks for a new password for user `id`. -/
def samplePassword (id : ℕ) : DirectoryEvent :=
  .request 0 2 1 (.update id "bmV3".toList none none none (some "battery staple".toList))

/-- The administrator's own password may be set. -/
theorem owners_kept_sample :
    ∃ s, Runs.Reach (stepSparing sampleHasher) sampleDirectory s ∧
      s.tasks 0 = .returned (.ok ()) ∧ OwnersKept sampleHasher sampleDirectory s := by
  have hrun : (Runs.tryRun (stepSparing sampleHasher) sampleDirectory
      [samplePassword 2, .perform 0]).map (·.tasks 0) = some (.returned (.ok ())) := by
    decide +kernel
  obtain ⟨s, htry, hs⟩ := Option.map_eq_some_iff.mp hrun
  have hr := Runs.reach_of_tryRun .init htry
  exact ⟨s, hr, hs, owners_kept (fun _ => rfl) hr⟩

/-- So may the owner's, and the administrator then logs in as the owner. -/
theorem owner_taken_over :
    ∃ s, Runs.Reach (stepByAdmin sampleHasher) sampleDirectory s ∧
      (s.users 1).map (·.role) = some .owner ∧
      LogsIn sampleHasher s 1 "owner@acme.test".toList "battery staple".toList 1 ∧
      ¬ LogsIn sampleHasher sampleDirectory 1 "owner@acme.test".toList "battery staple".toList 1 ∧
      ¬ OwnersKept sampleHasher sampleDirectory s := by
  let taken : Account := { sampleOwner with passwordHash := "$argon2id$bmV3$battery staple".toList }
  have hrun : (Runs.tryRun (stepByAdmin sampleHasher) sampleDirectory
      [samplePassword 1, .perform 0]).map (·.users 1) = some (some taken) := by
    decide +kernel
  obtain ⟨s, htry, hs⟩ := Option.map_eq_some_iff.mp hrun
  have hin : LogsIn sampleHasher s 1 "owner@acme.test".toList "battery staple".toList 1 :=
    ⟨taken, hs, rfl, rfl, by decide +kernel, rfl⟩
  have hout : ¬ LogsIn sampleHasher sampleDirectory 1 "owner@acme.test".toList
      "battery staple".toList 1 := by
    rintro ⟨a, ha, -, -, hverify, -⟩
    obtain rfl : sampleOwner = a := Option.some.inj ha
    exact absurd hverify (by decide +kernel)
  refine ⟨s, Runs.reach_of_tryRun .init htry, by rw [hs]; rfl, hin, hout, ?_⟩
  intro hkept
  exact hout (hkept.tokens _ _ _ _ taken hs rfl hin)

end Directory

end NebulaDesk
