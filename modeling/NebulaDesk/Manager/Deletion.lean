/-
The deletion of a user (`nebula-manager/src/routes/directory.rs`, `delete_user`;
`nebula-manager/migrations`; `nebula-manager/src/routes/machines.rs`).

Six foreign keys refer to a user.  Those of machines and enrolment tokens are `SET NULL`, and
they are composite: with the owner they clear the tenant, which may not be NULL.

* **`deleteUser_refines`** — the directory's deletion is this one;
* **`delete_user_iff`** — the deletion does what it should exactly if nobody would be left
  without an owner;
* **`owner_stays`** — a user who has asked for an enrolment token cannot be deleted.
-/
import NebulaDesk.Lib.Command
import NebulaDesk.Lib.Relational
import NebulaDesk.Manager.Directory

namespace NebulaDesk

namespace Deletion

/-! ### The schema -/

inductive Table
  | tenants
  | users
  | userGroups
  | userGroupMembers
  | gateways
  | relays
  | machines
  | enrollmentTokens
  | publishedResources
  | entitlements
  | sessions
  | refreshTokens
  | workspaceInvitations
deriving DecidableEq

inductive Column
  | id
  | tenantId
  | name
  | slug
  | email
  /-- The expression `lower(btrim(email))`. -/
  | normalizedEmail
  | passwordHash
  | displayName
  | role
  | disabled
  | groupId
  | userId
  | issuerId
  | ownerUserId
  | gatewayId
  | relayId
  | machineId
  | resourceId
  | noisePublicKey
  | os
  | region
  | tokenHash
  | machineName
  | expiresAt
  | usedAt
  | usedBy
  | createdBy
deriving DecidableEq

/-- What a column holds. -/
inductive Cell
  | uuid (n : ℕ)
  | text (s : Text)
  | bytes (b : List UInt8)
  | flag (b : Bool)
  | time (t : ℤ)
  | hash (h : ℕ)
deriving DecidableEq

abbrev Row : Type := Relational.Row Column Cell

abbrev Database : Type := Relational.Database Table Column Cell

open Table Column Relational

/-- `REFERENCES tenants (id) ON DELETE CASCADE`. -/
def ofTenant (table : Table) : ForeignKey Table Column :=
  ⟨table, [tenantId], tenants, [.id], .cascade⟩

/-- `FOREIGN KEY (tenant_id, …) REFERENCES parent (tenant_id, id)`. -/
def composite (table : Table) (column : Column) (parent : Table) (onDelete : Action) :
    ForeignKey Table Column :=
  ⟨table, [tenantId, column], parent, [tenantId, .id], onDelete⟩

/-- `column UUID REFERENCES parent (id) ON DELETE SET NULL`. -/
def loose (table : Table) (column : Column) (parent : Table) : ForeignKey Table Column :=
  ⟨table, [column], parent, [.id], .setNull⟩

/-- The tables that refer to others, or are referred to, with the columns used here. -/
def schema : Schema Table Column where
  required
    | tenants => [.id, name, slug]
    | users => [.id, tenantId, email, passwordHash, displayName, role, disabled]
    | userGroups => [.id, tenantId, name]
    | userGroupMembers => [tenantId, groupId, userId]
    | gateways | relays => [.id, name]
    | machines => [.id, tenantId, name, os, noisePublicKey, region]
    | enrollmentTokens => [.id, tenantId, tokenHash, expiresAt, region]
    | publishedResources => [.id, tenantId, machineId, name]
    | entitlements => [.id, tenantId, resourceId]
    | sessions => [.id, tenantId, resourceId, machineId, userId]
    | refreshTokens => [.id, tenantId, userId, tokenHash, expiresAt]
    | workspaceInvitations => [.id, tenantId, issuerId, email, tokenHash, expiresAt]
  unique
    | tenants => [[.id], [slug]]
    | users => [[.id], [tenantId, email], [tenantId, .id], [tenantId, normalizedEmail]]
    | userGroups => [[.id], [tenantId, name], [tenantId, .id]]
    | userGroupMembers => [[groupId, userId]]
    | gateways | relays => [[.id], [name]]
    | machines => [[.id], [tenantId, name], [tenantId, .id], [noisePublicKey]]
    | enrollmentTokens => [[.id], [tokenHash]]
    | publishedResources => [[.id], [machineId, name], [tenantId, .id]]
    | entitlements => [[.id]]
    | sessions => [[.id]]
    | refreshTokens => [[.id], [tokenHash]]
    | workspaceInvitations => [[.id], [tokenHash]]
  foreignKeys :=
    [ofTenant users, ofTenant userGroups,
     composite userGroupMembers groupId userGroups .cascade,
     composite userGroupMembers userId users .cascade,
     ofTenant machines, loose machines gatewayId gateways,
     composite machines ownerUserId users .setNull,
     ofTenant enrollmentTokens, loose enrollmentTokens usedBy machines,
     composite enrollmentTokens ownerUserId users .setNull,
     composite publishedResources machineId machines .cascade,
     composite entitlements resourceId publishedResources .cascade,
     ofTenant sessions, loose sessions gatewayId gateways, loose sessions relayId relays,
     composite sessions resourceId publishedResources .cascade,
     composite sessions machineId machines .cascade,
     composite sessions userId users .cascade,
     composite refreshTokens userId users .cascade,
     ofTenant workspaceInvitations,
     composite workspaceInvitations issuerId users .cascade]

/-! ### Requests -/

/-- What a request does to the database; one that fails leaves it as it was. -/
abbrev Handler (α : Type) : Type := Cmd Database ApiError α

/-- The row with these cells and NULL elsewhere. -/
def rowOf (cells : List (Column × Cell)) : Row := fun c => cells.lookup c

/-- `id = … AND tenant_id = …`. -/
def isRow (tenant id : ℕ) (row : Row) : Bool :=
  row .id = some (.uuid id) && row tenantId = some (.uuid tenant)

def insertInto (table : Table) (row : Row) (error : Violation → ApiError) : Handler Unit := fun db =>
  match schema.insert table row db with
  | .ok db => (.ok (), db)
  | .error e => (.error (error e), db)

/-- `conflict`. -/
def conflict (message : String) : Violation → ApiError
  | .unique => .conflict message
  | _ => .database

/-- The `BEGIN` and `COMMIT` around a handler. -/
def transaction {α : Type} (m : Handler α) : Handler α := fun db =>
  match m db with
  | (.ok a, db') => (.ok a, db')
  | (.error e, _) => (.error e, db)

/-- `as_db`. -/
def roleAsDb : UserRole → Text
  | .user => "USER".toList
  | .admin => "ADMIN".toList
  | .owner => "OWNER".toList

def userRow (id : ℕ) (a : Account) : Row :=
  rowOf [(.id, .uuid id), (tenantId, .uuid a.tenantId), (email, .text a.email),
    (normalizedEmail, .text (emailKey a.email)), (passwordHash, .text a.passwordHash),
    (displayName, .text a.displayName), (role, .text (roleAsDb a.role)),
    (disabled, .flag a.disabled)]

/-- `AuthUser`: the live row is authoritative. -/
def authenticate (db : Database) (tenant user : ℕ) : Except ApiError AuthUser :=
  match (db users).find? (isRow tenant user) with
  | none => .error .unauthorized
  | some row =>
    if row disabled = some (.flag false) then
      match row role with
      | some (.text text) =>
        match UserRole.fromDb text with
        | some live => .ok ⟨user, tenant, live⟩
        | none => .error .unauthorized
      | _ => .error .unauthorized
    else .error .unauthorized

def validateSlug (slug : Text) : Except ApiError Unit :=
  if slug ≠ [] ∧ slug.len ≤ 63 ∧
      slug.all (fun c => ('a' ≤ c ∧ c ≤ 'z') ∨ ('0' ≤ c ∧ c ≤ '9') ∨ c = '-') ∧
      slug.head? ≠ some '-' ∧ slug.getLast? ≠ some '-' then .ok ()
  else .error (.badRequest "slug must be lowercase letters, digits and dashes")

/-- `create_tenant`; the identifiers and the salt are generated. -/
def createTenant (hasher : PasswordHasher) (tenant owner : ℕ) (salt tenantName tenantSlug ownerEmail
    ownerPassword ownerName : Text) : Handler Unit := do
  Cmd.ofExcept (validateSlug tenantSlug)
  let hash ← Cmd.ofExcept (hashPassword hasher salt ownerPassword)
  transaction do
    insertInto tenants
      (rowOf [(.id, .uuid tenant), (name, .text tenantName), (slug, .text tenantSlug)])
      (conflict "a tenant with that slug already exists")
    insertInto users (userRow owner ⟨tenant, ownerEmail, hash, ownerName, .owner, false⟩)
      fun _ => .database

/-- The statement of `create_user`. -/
def createUser (id : ℕ) (account : Account) : Handler Unit :=
  insertInto users (userRow id account) (conflict "a user with that email already exists")

/-- The cascades of this schema are no deeper than it has tables. -/
def cascadeDepth : ℕ := 13

/-- The statement of `delete_user`. -/
def deleteUser (tenant id : ℕ) : Handler Unit := fun db =>
  match schema.delete cascadeDepth users (isRow tenant id) db with
  | .error _ => (.error .database, db)
  | .ok db' => if (db users).any (isRow tenant id) then (.ok (), db') else (.error (.notFound "user"), db)

/-- `DELETE /v1/users/{id}`. -/
def deleteUserRequest (hasher : PasswordHasher) (caller : AuthUser) (id : ℕ) : Handler Unit := do
  match ← Cmd.ofExcept (DirectoryRequest.prepare hasher caller (.delete id)) with
  | .delete tenant id => deleteUser tenant id
  | _ => pure ()

/-- `POST /v1/users`. -/
def createUserRequest (hasher : PasswordHasher) (caller : AuthUser) (id : ℕ)
    (salt userEmail password userName : Text) (userRole : Option Text) : Handler Unit := do
  match ← Cmd.ofExcept
    (DirectoryRequest.prepare hasher caller (.create id salt userEmail password userName userRole))
  with
  | .insert id account => createUser id account
  | _ => pure ()

structure CreateEnrollmentToken where
  machineName : Option Text
  ownerUserId : Option ℕ
  ttlSecs : Option ℤ
  region : Option Text

/-- What self-service may ask for: the owner is the caller. -/
def CreateEnrollmentToken.restrict (caller : AuthUser) (req : CreateEnrollmentToken) :
    Except ApiError CreateEnrollmentToken :=
  if caller.role.isAdmin then .ok req
  else if req.ownerUserId.any (· ≠ caller.id) ∨ req.region.isSome then
    .error (.forbidden "self-service enrollment cannot choose another owner or a region")
  else if req.machineName.all isBlank then
    .error (.badRequest "self-service enrollment requires a nonempty machine_name")
  else .ok { req with ownerUserId := some caller.id }

/-- A day, unless the request says otherwise. -/
def CreateEnrollmentToken.ttl (req : CreateEnrollmentToken) : Except ApiError ℤ :=
  match req.ttlSecs with
  | some s =>
    if 0 < s ∧ s ≤ 30 * 24 * 3600 then .ok s
    else .error (.badRequest "ttl_secs must be between 1 second and 30 days")
  | none => .ok (24 * 3600)

def checkOwner (tenant owner : ℕ) : Handler Unit :=
  Cmd.get fun db =>
    if (db users).any fun row => isRow tenant owner row && row disabled = some (.flag false) then
      .ok ()
    else .error (.notFound "owner")

def optionalCell (column : Column) (cell : Option Cell) : List (Column × Cell) :=
  (cell.map fun cell => (column, cell)).toList

/-- `create_enrollment_token`; `id` and the secret are generated. -/
def createEnrollmentToken (clock : ℤ) (caller : AuthUser) (id secretHash : ℕ)
    (req : CreateEnrollmentToken) : Handler Unit := do
  let req ← Cmd.ofExcept (req.restrict caller)
  match req.ownerUserId with
  | some owner => checkOwner caller.tenant owner
  | none => pure ()
  let ttl ← Cmd.ofExcept req.ttl
  insertInto enrollmentTokens
    (rowOf ([(.id, .uuid id), (tenantId, .uuid caller.tenant), (tokenHash, .hash secretHash),
        (expiresAt, .time (clock + ttl)), (createdBy, .uuid caller.id),
        (Column.region, .text (req.region.getD "default".toList))] ++
      optionalCell machineName (req.machineName.map .text) ++
      optionalCell ownerUserId (req.ownerUserId.map .uuid)))
    fun _ => .database

/-- A token that may be used, in the claiming statement of `enroll`. -/
def claims (start : ℤ) (secretHash : ℕ) (row : Row) : Bool :=
  row tokenHash = some (.hash secretHash) && row usedAt = none &&
    match row expiresAt with
    | some (.time t) => start < t
    | _ => false

/-- The machine of a token: it has the tenant, the owner and the region of the token. -/
def machineRow (machine : ℕ) (req : EnrollRequest) (token : Row) : Row := fun c =>
  match c with
  | .id => some (.uuid machine)
  | name => some (.text req.name)
  | os => some (.text (req.os.map Char.toUpper))
  | noisePublicKey => some (.bytes (req.noiseKey.getD []))
  | tenantId | ownerUserId | region => token c
  | _ => none

/-- The transaction of `enroll`. -/
def enroll (clock : ℤ) (machine : ℕ) (req : EnrollRequest) : Handler Unit :=
  match Secrets.enrollBegin clock req with
  | .returned (.error e) => Cmd.throw e
  | _ => transaction fun db =>
    match (db enrollmentTokens).find? (claims clock req.tokenHash) with
    | none => (.error .unauthorized, db)
    | some token =>
      if (token machineName).any (· ≠ .text req.name) then
        (.error (.forbidden "this enrolment token is bound to a different machine name"), db)
      else
        match insertInto machines (machineRow machine req token)
          (conflict "a machine with that name or key already exists") db with
        | (.error e, db) => (.error e, db)
        | (.ok (), db) =>
          (.ok (), db.alter enrollmentTokens (claims clock req.tokenHash) fun row =>
            Function.update (Function.update row usedAt (some (.time clock))) usedBy
              (some (.uuid machine)))

/-! ### What a deletion does -/

/-- The row refers to the user by a column. -/
def refersTo (tenant id : ℕ) (column : Column) (row : Row) : Bool :=
  row tenantId = some (.uuid tenant) && row column = some (.uuid id)

/-- The column by which a table cascades from users. -/
def cascades : Table → Option Column
  | userGroupMembers | sessions | refreshTokens => some userId
  | workspaceInvitations => some issuerId
  | _ => none

/-- Without the rows that go with a user. -/
def purge (tenant id : ℕ) (db : Database) : Database := fun t =>
  match cascades t with
  | some column => (db t).filter (!refersTo tenant id column ·)
  | none => db t

/-- The user is the owner of a machine or of an enrolment token, used or not. -/
def Owns (tenant id : ℕ) (db : Database) : Prop :=
  ∃ t ∈ [machines, enrollmentTokens], ∃ row ∈ db t, refersTo tenant id ownerUserId row = true

instance (tenant id : ℕ) (db : Database) : Decidable (Owns tenant id db) :=
  inferInstanceAs (Decidable (∃ t ∈ [machines, enrollmentTokens], ∃ row ∈ db t,
    refersTo tenant id ownerUserId row = true))

theorem keysTo_users : schema.keysTo users =
    [composite userGroupMembers userId users .cascade,
     composite machines ownerUserId users .setNull,
     composite enrollmentTokens ownerUserId users .setNull,
     composite sessions userId users .cascade,
     composite refreshTokens userId users .cascade,
     composite workspaceInvitations issuerId users .cascade] := rfl

theorem shallow_users : ∀ key ∈ schema.keysTo users, schema.Shallow key := by
  rw [keysTo_users]
  simp only [List.forall_mem_cons, List.not_mem_nil, false_implies, implies_true, and_true]
  exact ⟨fun _ => rfl, fun h => (nomatch h), fun h => (nomatch h), fun _ => rfl, fun _ => rfl,
    fun _ => rfl⟩

variable {tenant id : ℕ} {user : Row} {db : Database}

theorem refers_composite (h : isRow tenant id user = true) (table : Table) (column : Column)
    (action : Action) :
    (composite table column users action).refers user = refersTo tenant id column := by
  obtain ⟨hid, htenant⟩ : user .id = some (.uuid id) ∧ user tenantId = some (.uuid tenant) := by
    simpa [isRow] using h
  funext row
  simp only [ForeignKey.refers, composite, List.zip_cons_cons, List.zip_nil_right, List.all_cons,
    List.all_nil, hid, htenant, refersTo, Bool.and_true]
  cases htenant' : row tenantId <;> cases hcolumn : row column <;> simp

theorem alter_of_forall_not {t : Table} {p : Row → Bool} {f : Row → Row}
    (h : ∀ row ∈ db t, p row = false) : db.alter t p f = db := by
  have hmap : (db t).map (fun row => if p row then f row else row) = db t := by
    conv_rhs => rw [← List.map_id (db t)]
    exact List.map_congr_left fun row hrow => by simp [h row hrow]
  rw [Relational.Database.alter, hmap, Function.update_eq_self]

theorem settle_cascade (h : isRow tenant id user = true) (table : Table) (column : Column) :
    schema.settle user db (composite table column users .cascade) =
      .ok (db.remove table (refersTo tenant id column)) := by
  rw [Schema.settle, Schema.act, refers_composite h]
  rfl

theorem settle_setNull (h : isRow tenant id user = true) {table : Table}
    (hrequired : tenantId ∈ schema.required table) :
    schema.settle user db (composite table ownerUserId users .setNull) =
      if ∃ row ∈ db table, refersTo tenant id ownerUserId row = true then .error .notNull
      else .ok db := by
  rw [Schema.settle, Schema.act, refers_composite h]
  have hcolumns : [tenantId, ownerUserId].any (· ∈ schema.required table) = true := by
    simp [hrequired]
  have hkey : composite table ownerUserId users .setNull =
      ⟨table, [tenantId, ownerUserId], users, [tenantId, .id], .setNull⟩ := rfl
  rw [hkey]
  dsimp only
  rw [hcolumns, Bool.and_true]
  by_cases howned : ∃ row ∈ db table, refersTo tenant id ownerUserId row = true
  · rw [if_pos howned, if_pos (List.any_eq_true.mpr howned)]
  · have hnone : ∀ row ∈ db table, refersTo tenant id ownerUserId row = false := fun row hrow =>
      Bool.eq_false_iff.mpr fun hrefers => howned ⟨row, hrow, hrefers⟩
    rw [if_neg howned, if_neg fun hany => howned (List.any_eq_true.mp hany),
      alter_of_forall_not hnone]

theorem remove_apply_of_ne {t t' : Table} (h : t' ≠ t) (p : Row → Bool) :
    db.remove t p t' = db t' := Function.update_of_ne h _ _

theorem settle_users (h : isRow tenant id user = true) :
    (schema.keysTo users).foldlM (schema.settle user) db =
      if Owns tenant id db then .error .notNull else .ok (purge tenant id db) := by
  have hmachines : db.remove userGroupMembers (refersTo tenant id userId) machines = db machines :=
    remove_apply_of_ne (by decide) _
  have htokens : db.remove userGroupMembers (refersTo tenant id userId) enrollmentTokens =
      db enrollmentTokens := remove_apply_of_ne (by decide) _
  rw [keysTo_users]
  simp only [List.foldlM_cons, List.foldlM_nil, settle_cascade h]
  show (schema.settle user (db.remove userGroupMembers (refersTo tenant id userId)) _ >>= _) = _
  rw [settle_setNull h (by decide), hmachines]
  by_cases hmachine : ∃ row ∈ db machines, refersTo tenant id ownerUserId row = true
  · rw [if_pos hmachine, if_pos ⟨machines, by decide, hmachine⟩]
    rfl
  · rw [if_neg hmachine]
    show (schema.settle user (db.remove userGroupMembers (refersTo tenant id userId)) _ >>= _) = _
    rw [settle_setNull h (by decide), htokens]
    by_cases htoken : ∃ row ∈ db enrollmentTokens, refersTo tenant id ownerUserId row = true
    · rw [if_pos htoken, if_pos ⟨enrollmentTokens, by decide, htoken⟩]
      rfl
    · have howns : ¬ Owns tenant id db := by
        rintro ⟨t, ht, howned⟩
        simp only [List.mem_cons, List.not_mem_nil, or_false] at ht
        rcases ht with rfl | rfl
        · exact hmachine howned
        · exact htoken howned
      rw [if_neg htoken, if_neg howns]
      show Except.ok _ = Except.ok _
      congr 1
      funext t
      cases t <;> rfl

theorem purge_purge : purge tenant id (purge tenant id db) = purge tenant id db := by
  funext t
  unfold purge
  cases cascades t with
  | none => rfl
  | some column => simp [List.filter_filter]

theorem owns_congr {db' : Database} (hmachines : db' machines = db machines)
    (htokens : db' enrollmentTokens = db enrollmentTokens) :
    Owns tenant id db' ↔ Owns tenant id db := by
  simp only [Owns, List.mem_cons, List.not_mem_nil, or_false, exists_eq_or_imp, exists_eq_left,
    hmachines, htokens]

theorem owns_remove {p : Row → Bool} : Owns tenant id (db.remove users p) ↔ Owns tenant id db :=
  owns_congr (remove_apply_of_ne (by decide) p) (remove_apply_of_ne (by decide) p)

theorem owns_purge : Owns tenant id (purge tenant id db) ↔ Owns tenant id db :=
  owns_congr rfl rfl

theorem settle_rows {rows : List Row} (h : ∀ row ∈ rows, isRow tenant id row = true)
    (hne : rows ≠ []) :
    rows.foldlM (fun db row => (schema.keysTo users).foldlM (schema.settle row) db) db =
      if Owns tenant id db then .error .notNull else .ok (purge tenant id db) := by
  induction rows generalizing db with
  | nil => exact absurd rfl hne
  | cons row rows ih =>
    rw [List.foldlM_cons, settle_users (h row List.mem_cons_self)]
    by_cases howns : Owns tenant id db
    · rw [if_pos howns]
      rfl
    · rw [if_neg howns]
      show rows.foldlM _ (purge tenant id db) = _
      by_cases hrows : rows = []
      · rw [hrows]
        rfl
      · have howns' : ¬ Owns tenant id (purge tenant id db) := fun h => howns (owns_purge.mp h)
        rw [ih (fun r hr => h r (List.mem_cons_of_mem _ hr)) hrows, if_neg howns', purge_purge]

theorem deleteUser_eq (h : ∃ row ∈ db users, isRow tenant id row = true) :
    deleteUser tenant id db =
      if Owns tenant id db then (.error .database, db)
      else (.ok (), purge tenant id (db.remove users (isRow tenant id))) := by
  have hrows : ∀ row ∈ (db users).filter (isRow tenant id), isRow tenant id row = true :=
    fun row hrow => (List.mem_filter.mp hrow).2
  have hne : (db users).filter (isRow tenant id) ≠ [] := by
    obtain ⟨row, hrow, huser⟩ := h
    exact List.ne_nil_of_mem (List.mem_filter.mpr ⟨hrow, huser⟩)
  rw [deleteUser, cascadeDepth, Schema.delete_shallow shallow_users, settle_rows hrows hne]
  by_cases howns : Owns tenant id db
  · rw [if_pos howns, if_pos (owns_remove.mpr howns)]
  · rw [if_neg howns, if_neg fun h => howns (owns_remove.mp h)]
    exact if_pos (List.any_eq_true.mpr h)

/-! ### The directory's statement -/

/-- The rows of users are the accounts of a directory, and it knows who owns something. -/
structure Mirrors (db : Database) (s : Directory) : Prop where
  rows : ∀ row ∈ db users, ∃ id a, s.users id = some a ∧ row = userRow id a
  users : ∀ id a, s.users id = some a → userRow id a ∈ db users
  emails : ∀ tenant key id, s.emails (tenant, key) = some id ↔
    ∃ a, s.users id = some a ∧ a.tenantId = tenant ∧ emailKey a.email = key
  owned : ∀ id a, s.users id = some a → (s.owned id = true ↔ Owns a.tenantId id db)

variable {s : Directory} {a : Account}

theorem isRow_userRow {id' : ℕ} : isRow tenant id (userRow id' a) = true ↔
    id' = id ∧ a.tenantId = tenant := by
  have hid : userRow id' a .id = some (.uuid id') := rfl
  have htenant : userRow id' a tenantId = some (.uuid a.tenantId) := rfl
  simp [isRow, hid, htenant]

theorem users_erase {key : ℕ} {address : Text} {id' : ℕ} {a' : Account} :
    ((s.setUser id none).setEmail key address none).users id' = some a' ↔
      id' ≠ id ∧ s.users id' = some a' := by
  by_cases hne : id' = id <;> simp [Directory.setEmail, Directory.setUser, hne]

theorem emails_erase {address key : Text} {t t' id' : ℕ} :
    ((s.setUser id none).setEmail t address none).emails (t', key) = some id' ↔
      (t', key) ≠ (t, emailKey address) ∧ s.emails (t', key) = some id' := by
  by_cases hne : (t', key) = (t, emailKey address)
  · rw [hne]
    simp [Directory.setEmail, Directory.setUser]
  · simp [Directory.setEmail, Directory.setUser, hne]

theorem deleteUser_none (h : ∀ row ∈ db users, isRow tenant id row = false) :
    deleteUser tenant id db = (.error (.notFound "user"), db) := by
  have hfilter : (db users).filter (isRow tenant id) = [] :=
    List.filter_eq_nil_iff.mpr fun row hrow => by simp [h row hrow]
  have hremove : db.remove users (isRow tenant id) = db := by
    have hall : (db users).filter (!isRow tenant id ·) = db users :=
      List.filter_eq_self.mpr fun row hrow => by simp [h row hrow]
    rw [Relational.Database.remove, hall, Function.update_eq_self]
  have hany : ¬ (db users).any (isRow tenant id) = true := by
    simpa using h
  rw [deleteUser, cascadeDepth, Schema.delete_shallow shallow_users, hfilter, hremove]
  exact if_neg hany

theorem Mirrors.erase (h : Mirrors db s) (ha : s.users id = some a) :
    Mirrors (purge a.tenantId id (db.remove Table.users (isRow a.tenantId id)))
      ((s.setUser id none).setEmail a.tenantId a.email none) where
  rows row hrow := by
    obtain ⟨hrow, hnot⟩ := List.mem_filter.mp hrow
    obtain ⟨id', a', ha', rfl⟩ := h.rows row hrow
    have hne : id' ≠ id := by
      rintro rfl
      obtain rfl := Option.some.inj (ha.symm.trans ha')
      simp [isRow_userRow.mpr ⟨rfl, rfl⟩] at hnot
    exact ⟨id', a', users_erase.mpr ⟨hne, ha'⟩, rfl⟩
  users id' a' ha' := by
    obtain ⟨hne, ha'⟩ := users_erase.mp ha'
    refine List.mem_filter.mpr ⟨h.users id' a' ha', ?_⟩
    have hnot : ¬ isRow a.tenantId id (userRow id' a') = true :=
      fun hrow => hne (isRow_userRow.mp hrow).1
    simpa using hnot
  emails tenant key id' := by
    rw [emails_erase]
    constructor
    · rintro ⟨hkey, hmail⟩
      obtain ⟨a', ha', rfl, rfl⟩ := (h.emails tenant key id').mp hmail
      refine ⟨a', users_erase.mpr ⟨?_, ha'⟩, rfl, rfl⟩
      rintro rfl
      obtain rfl := Option.some.inj (ha.symm.trans ha')
      exact hkey rfl
    · rintro ⟨a', ha', htenant, hkey⟩
      obtain ⟨hne, ha'⟩ := users_erase.mp ha'
      have hmail := (h.emails tenant key id').mpr ⟨a', ha', htenant, hkey⟩
      refine ⟨?_, hmail⟩
      intro heq
      have hold := (h.emails a.tenantId (emailKey a.email) id).mpr ⟨a, ha, rfl, rfl⟩
      rw [heq, hold] at hmail
      exact hne (Option.some.inj hmail).symm
  owned id' a' ha' := by
    have hsame : Owns a'.tenantId id'
        (purge a.tenantId id (db.remove Table.users (isRow a.tenantId id))) ↔
        Owns a'.tenantId id' db := owns_congr rfl rfl
    rw [hsame]
    exact h.owned id' a' (users_erase.mp ha').2

/-- The `DELETE` of the directory is this one. -/
theorem deleteUser_refines (h : Mirrors db s) :
    (deleteUser tenant id db).1 = (s.execute (.delete tenant id)).2 ∧
      Mirrors (deleteUser tenant id db).2 (s.execute (.delete tenant id)).1 := by
  have hrow : ∀ row ∈ db Table.users, isRow tenant id row = true →
      ∃ a, s.users id = some a ∧ a.tenantId = tenant := by
    intro row hmem hrow
    obtain ⟨id', a, ha, rfl⟩ := h.rows row hmem
    obtain ⟨rfl, htenant⟩ := isRow_userRow.mp hrow
    exact ⟨a, ha, htenant⟩
  by_cases hex : ∃ row ∈ db Table.users, isRow tenant id row = true
  · obtain ⟨row, hmem, hr⟩ := hex
    obtain ⟨a, ha, rfl⟩ := hrow row hmem hr
    rw [deleteUser_eq ⟨row, hmem, hr⟩]
    by_cases howns : Owns a.tenantId id db
    · simpa [Directory.execute, ha, howns, (h.owned id a ha).mpr howns] using h
    · have howned : s.owned id = false :=
        Bool.eq_false_iff.mpr fun howned => howns ((h.owned id a ha).mp howned)
      simpa [Directory.execute, ha, howns, howned] using h.erase ha
  · have hnone : ∀ row ∈ db Table.users, isRow tenant id row = false := fun row hmem =>
      Bool.eq_false_iff.mpr fun hr => hex ⟨row, hmem, hr⟩
    rw [deleteUser_none hnone]
    cases ha : s.users id with
    | none => simpa [Directory.execute, ha] using h
    | some a =>
      have hne : a.tenantId ≠ tenant := fun htenant =>
        hex ⟨_, h.users id a ha, isRow_userRow.mpr ⟨rfl, htenant⟩⟩
      simpa [Directory.execute, ha, hne] using h

/-- The owner is cleared, and nothing else. -/
def disown (tenant id : ℕ) (row : Row) : Row :=
  if refersTo tenant id ownerUserId row then Function.update row ownerUserId none else row

structure Deleted (tenant id : ℕ) (before after : Database) : Prop where
  user : ∀ row ∈ after users, isRow tenant id row = false
  rows : ∀ t ∈ [refreshTokens, userGroupMembers, sessions], ∀ row ∈ after t,
    refersTo tenant id userId row = false
  ownerless : ∀ t ∈ [machines, enrollmentTokens], after t = (before t).map (disown tenant id)

theorem deleted_purge (h : ¬ Owns tenant id db) :
    Deleted tenant id db (purge tenant id (db.remove users (isRow tenant id))) where
  user row hrow := by
    have hmem : row ∈ (db users).filter (!isRow tenant id ·) := hrow
    simpa using (List.mem_filter.mp hmem).2
  rows t ht row hrow := by
    have hmem : row ∈ (db t).filter (!refersTo tenant id userId ·) := by
      simp only [List.mem_cons, List.not_mem_nil, or_false] at ht
      rcases ht with rfl | rfl | rfl <;> exact hrow
    simpa using (List.mem_filter.mp hmem).2
  ownerless t ht := by
    have hsame : purge tenant id (db.remove users (isRow tenant id)) t = db t := by
      simp only [List.mem_cons, List.not_mem_nil, or_false] at ht
      rcases ht with rfl | rfl <;> rfl
    have hnone : ∀ row ∈ db t, disown tenant id row = row := fun row hrow =>
      if_neg fun howned => h ⟨t, ht, row, hrow, howned⟩
    rw [hsame]
    conv_lhs => rw [← List.map_id (db t)]
    exact List.map_congr_left fun row hrow => (hnone row hrow).symm

theorem deleteUserRequest_eq (hasher : PasswordHasher) {caller : AuthUser}
    (hadmin : caller.role.isAdmin = true) (hself : id ≠ caller.id) :
    deleteUserRequest hasher caller id db = deleteUser caller.tenant id db := by
  have hprepare : DirectoryRequest.prepare hasher caller (.delete id) =
      .ok (.delete caller.tenant id) := by
    rw [DirectoryRequest.prepare, AuthUser.requireAdmin, if_pos hadmin, AuthUser.mayDelete,
      if_neg hself]
    rfl
  rw [deleteUserRequest, hprepare]
  rfl

/-- **Deleting a user**: it does what it should exactly if the user owns no machine and no
enrolment token. -/
theorem delete_user_iff (hasher : PasswordHasher) {caller : AuthUser}
    (hadmin : caller.role.isAdmin = true) (hself : id ≠ caller.id)
    (huser : ∃ row ∈ db users, isRow caller.tenant id row = true) :
    (∃ db', deleteUserRequest hasher caller id db = (.ok (), db') ∧
      Deleted caller.tenant id db db') ↔ ¬ Owns caller.tenant id db := by
  rw [deleteUserRequest_eq hasher hadmin hself, deleteUser_eq huser]
  by_cases howns : Owns caller.tenant id db
  · rw [if_pos howns]
    exact iff_of_false (fun ⟨_, h, _⟩ => nomatch h) (not_not.mpr howns)
  · rw [if_neg howns]
    exact iff_of_true ⟨_, rfl, deleted_purge howns⟩ howns

/-! ### A user who asked for a token -/

def noTenants : Database := fun _ => []

/-- A tenant with its owner and a user. -/
def hiredDb : Database :=
  let founded := (createTenant Directory.sampleHasher 1 2 "salt".toList "Acme".toList "acme".toList
    "olga@acme.test".toList "correct horse battery".toList "Olga".toList noTenants).2
  (createUserRequest Directory.sampleHasher ⟨2, 1, .owner⟩ 3 "salt".toList
    "ulf@acme.test".toList "another long password".toList "Ulf".toList none founded).2

theorem delete_user_iff_hired :
    ∃ db', deleteUserRequest Directory.sampleHasher ⟨2, 1, .owner⟩ 3 hiredDb = (.ok (), db') ∧
      Deleted 1 3 hiredDb db' :=
  (@delete_user_iff 3 hiredDb Directory.sampleHasher ⟨2, 1, .owner⟩ rfl (by decide)
    (by decide)).mpr (by decide)

/-- The user asks for an enrolment token of his own. -/
def ownerDb : Database :=
  (createEnrollmentToken 0 ⟨3, 1, .user⟩ 4 77 ⟨some "laptop".toList, none, none, none⟩ hiredDb).2

/-- The machine that the token enrols. -/
def laptop : EnrollRequest where
  tokenHash := 77
  name := "laptop".toList
  os := "linux".toList
  noiseKey := some (List.replicate 32 7)

/-- With the token, and with the machine, the user stays. -/
theorem owner_stays :
    authenticate ownerDb 1 2 = .ok ⟨2, 1, .owner⟩ ∧
      (∃ row ∈ ownerDb users, isRow 1 3 row = true) ∧
      deleteUserRequest Directory.sampleHasher ⟨2, 1, .owner⟩ 3 ownerDb =
        (.error .database, ownerDb) ∧
      (enroll 60 5 laptop ownerDb).1 = .ok () ∧
      deleteUserRequest Directory.sampleHasher ⟨2, 1, .owner⟩ 3 (enroll 60 5 laptop ownerDb).2 =
        (.error .database, (enroll 60 5 laptop ownerDb).2) := by
  refine ⟨by decide, by decide, ?_, by decide, ?_⟩
  · rw [deleteUserRequest_eq _ rfl (by decide), deleteUser_eq (by decide), if_pos (by decide)]
  · rw [deleteUserRequest_eq _ rfl (by decide), deleteUser_eq (by decide), if_pos (by decide)]

end Deletion

end NebulaDesk
