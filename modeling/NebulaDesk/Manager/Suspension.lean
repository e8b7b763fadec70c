/-
A suspended tenant (`nebula-manager/src/auth/extract.rs`, `AuthUser`;
`nebula-manager/src/auth/tokens.rs`, `AccessTokens`; `nebula-manager/src/routes/auth.rs`, `login`
and `refresh`; `nebula-manager/src/routes/workspace.rs`, `workspace`).

`login` and `workspace` ask for a tenant that is not disabled.  `refresh` and the
extractor of the caller look at the account only.

* **`suspension_locks`** — exactly which credentials a suspended tenant's users can still
  use;
* **`suspension_outlived`** — the tokens of a login before the suspension.
-/
import NebulaDesk.Manager.Credentials

namespace NebulaDesk

/-- Claims carried by an access token; the ids are `none` where they are no ids. -/
structure AccessClaims where
  sub : Option ℕ
  tid : Option ℕ
  role : UserRole
  iat : ℤ
  exp : ℤ
deriving DecidableEq

/-- The HS256 tokens of a secret: what `decode` makes of one that is signed with it. -/
structure AccessTokens where
  decode : Text → Option AccessClaims
  ttl : ℤ

namespace AccessTokens

/-- The claims of a new token. -/
def issue (tokens : AccessTokens) (now : ℤ) (user tenant : ℕ) (role : UserRole) : AccessClaims where
  sub := some user
  tid := some tenant
  role := role
  iat := now
  exp := now + tokens.ttl

/-- The signature, and the expiry without leeway. -/
def verify (tokens : AccessTokens) (now : ℤ) (token : Text) : Option AccessClaims :=
  (tokens.decode token).filter (now ≤ ·.exp)

end AccessTokens

/-- `bearer`: the credential behind the scheme of an `Authorization` header. -/
def bearer (header : Option Text) (scheme : Text) : Option Text := do
  let raw ← header
  guard (' ' ∈ raw)
  let got := raw.takeWhile (· ≠ ' ')
  let value := (raw.dropWhile (· ≠ ' ')).drop 1
  guard (got.map Char.toLower = scheme.map Char.toLower)
  return trim value

structure Workspace where
  id : ℕ
  slug : Text
  name : Text
  kind : WorkspaceKind
deriving DecidableEq

namespace Credentials

/-- `POST /v1/auth/login`, with the claims of the access token of the pair. -/
def login (hasher : PasswordHasher) (access : AccessTokens) (s : Credentials) (req : LoginRequest) :
    Except ApiError AccessClaims :=
  match s.findLogin req with
  | none => .error .unauthorized
  | some (id, a) =>
    if !hasher.verify req.password a.passwordHash || a.disabled then .error .unauthorized
    else .ok (access.issue s.clock id a.tenantId a.role)

/-- `POST /v1/auth/refresh`. -/
def refresh (access : AccessTokens) (s : Credentials) (hash : ℕ) : Except ApiError AccessClaims :=
  match s.tokens.find? (·.hash = hash) with
  | none => .error .unauthorized
  | some t =>
    if t.token.revokedAt.isNone ∧ s.clock < t.token.expiresAt then
      match s.directory.users t.token.userId with
      | none => .error .unauthorized
      | some a =>
        if a.disabled then .error .unauthorized
        else .ok (access.issue s.clock t.token.userId t.token.tenantId a.role)
    else .error .unauthorized

/-- `AuthUser::from_request_parts`. -/
def fromRequestParts (access : AccessTokens) (s : Credentials) (header : Option Text) :
    Except ApiError AuthUser :=
  match (bearer header "Bearer".toList).bind (access.verify s.clock) with
  | none => .error .unauthorized
  | some claims =>
    match claims.sub, claims.tid with
    | some id, some tenant =>
      match s.directory.authenticate tenant id with
      | some caller => .ok caller
      | none => .error .unauthorized
    | _, _ => .error .unauthorized

/-- `workspace`. -/
def workspace (s : Credentials) (id : ℕ) : Except ApiError Workspace :=
  match s.tenants.find? (fun t => t.1 = id && !t.2.disabled) with
  | some (id, t) => .ok ⟨id, t.slug, t.name, t.kind⟩
  | none => .error .unauthorized

/-- `GET /v1/workspace`. -/
def current (access : AccessTokens) (s : Credentials) (header : Option Text) :
    Except ApiError Workspace := do
  let caller ← s.fromRequestParts access header
  s.workspace caller.tenant

/-! ### These are the statements of the requests -/

variable {hasher : PasswordHasher} {access : AccessTokens} {s s' : Credentials} {c hash : ℕ}

theorem checkPassword_tasks (req : LoginRequest) :
    (s.checkPassword hasher c req).tasks c =
      match s.login hasher access req with
      | .ok _ =>
        match s.findLogin req with
        | some (id, a) => .login req (.verified id a (s.changes id))
        | none => .idle
      | .error e => .login req (.returned (.error e)) := by
  unfold checkPassword login
  cases hfind : s.findLogin req with
  | none => simp [setTask]
  | some found =>
    obtain ⟨id, a⟩ := found
    simp only
    split <;> simp [setTask]

theorem readAccount_tasks (h : s.claimToken c hash s.clock = some s') :
    (∃ e, s.refresh access hash = .error e ∧
        s'.tasks c = .refresh hash (.returned (.error e))) ∨
      ∃ r, s'.tasks c = .refresh hash (.claimed r) ∧
        ((∃ claims, s.refresh access hash = .ok claims ∧
          (s'.readAccount c hash r).tasks c = .refresh hash (.admitted r)) ∨
        ∃ e, s.refresh access hash = .error e ∧
          ∀ r', (s'.readAccount c hash r).tasks c ≠ .refresh hash (.admitted r')) := by
  unfold claimToken at h
  unfold refresh
  cases hfind : s.tokens.find? (·.hash = hash) with
  | none =>
    simp only [hfind, Option.some.injEq] at h
    subst h
    exact .inl ⟨.unauthorized, rfl, by simp [finish]⟩
  | some t =>
    simp only [hfind] at h
    split at h
    · cases h
    · split at h
      · next hlive =>
        cases h
        refine .inr ⟨⟨s.clock, t⟩, by simp, ?_⟩
        simp only [if_pos hlive, readAccount]
        cases hrow : s.directory.users t.token.userId with
        | none => exact .inr ⟨.unauthorized, rfl, by simp [finish]⟩
        | some a =>
          cases hdisabled : a.disabled with
          | true => exact .inr ⟨.unauthorized, by simp [hdisabled], by simp [setTask, hdisabled]⟩
          | false => exact .inl ⟨_, by simp [hdisabled]; rfl, by simp [setTask, hdisabled]⟩
      · next hdead =>
        cases h
        exact .inl ⟨.unauthorized, by simp only [if_neg hdead], by simp [finish]⟩

/-! ### What a suspended tenant still admits -/

/-- The tenant is there, and disabled. -/
def Suspended (s : Credentials) (tenant : ℕ) : Prop :=
  tenant ∈ s.tenants.map (·.1) ∧ ∀ t, (tenant, t) ∈ s.tenants → t.disabled = true

/-- `UPDATE tenants SET disabled = true WHERE id = …`. -/
def suspend (s : Credentials) (tenant : ℕ) : Credentials :=
  { s with tenants := s.tenants.map fun t =>
      if t.1 = tenant then (t.1, { t.2 with disabled := true }) else t }

/-- What a user may present. -/
inductive Credential
  | password (req : LoginRequest)
  | refresh (hash : ℕ)
  | access (header : Option Text)
deriving DecidableEq

/-- The credential is good for nothing that belongs to the tenant: no pair is issued for one of
its users, and no request is one of theirs. -/
def Locked (hasher : PasswordHasher) (access : AccessTokens) (s : Credentials) (tenant : ℕ) :
    Credential → Prop
  | .password req => ∀ claims, s.login hasher access req = .ok claims → claims.tid ≠ some tenant
  | .refresh hash => ∀ claims, s.refresh access hash = .ok claims → claims.tid ≠ some tenant
  | .access header => ∀ caller, s.fromRequestParts access header = .ok caller →
      caller.tenant ≠ tenant

/-- The account is gone or is itself disabled. -/
def AccountShut (s : Credentials) (id : ℕ) : Prop :=
  ∀ a, s.directory.users id = some a → a.disabled = true

/-- A password; a refresh token of another tenant, or revoked, or expired, or of an account
that is itself shut; an access token of another tenant, or one that does not verify, or of
an account that is itself shut. -/
def Shut (access : AccessTokens) (s : Credentials) (tenant : ℕ) : Credential → Prop
  | .password _ => True
  | .refresh hash => ∀ t, s.tokens.find? (·.hash = hash) = some t →
      t.token.tenantId ≠ tenant ∨ t.token.revokedAt.isSome = true ∨ t.token.expiresAt ≤ s.clock ∨
        s.AccountShut t.token.userId
  | .access header => ∀ token claims id, bearer header "Bearer".toList = some token →
      access.verify s.clock token = some claims → claims.sub = some id → claims.tid = some tenant →
      ∀ a, s.directory.users id = some a → a.tenantId = tenant → a.disabled = true

variable {tenant : ℕ}

theorem suspended_suspend (h : tenant ∈ s.tenants.map (·.1)) : (s.suspend tenant).Suspended tenant := by
  refine ⟨?_, ?_⟩
  · obtain ⟨t, ht, rfl⟩ := List.mem_map.mp h
    refine List.mem_map.mpr ⟨(t.1, { t.2 with disabled := true }), ?_, rfl⟩
    exact List.mem_map.mpr ⟨t, ht, if_pos rfl⟩
  · intro t ht
    obtain ⟨u, -, hu⟩ := List.mem_map.mp ht
    split at hu
    · rw [← (Prod.mk.inj hu).2]
    · next hne => exact absurd (congrArg Prod.fst hu) hne

theorem tenant_of_findLogin {req : LoginRequest} {id : ℕ} {a : Account}
    (h : s.findLogin req = some (id, a)) : ∃ t, (a.tenantId, t) ∈ s.tenants ∧ t.disabled = false := by
  unfold findLogin at h
  split at h
  · cases h
  · next tenant t hfind =>
    split at h
    · cases h
    · split at h
      · cases h
      · split at h
        · next a' _ hrow =>
          cases h
          rw [hrow.1]
          have hlive := List.find?_some hfind
          simp only [Bool.and_eq_true, Bool.not_eq_true'] at hlive
          exact ⟨t, List.mem_of_find?_eq_some hfind, hlive.2⟩
        · cases h

theorem locked_password (hs : s.Suspended tenant) (req : LoginRequest) :
    s.Locked hasher access tenant (.password req) := by
  intro claims h htid
  unfold login at h
  split at h
  · cases h
  · next id a hfind =>
    split at h
    · cases h
    · cases h
      obtain ⟨t, ht, hlive⟩ := tenant_of_findLogin hfind
      obtain rfl : a.tenantId = tenant := Option.some.inj htid
      rw [hs.2 t ht] at hlive
      cases hlive

theorem locked_refresh_iff (hash : ℕ) :
    s.Locked hasher access tenant (.refresh hash) ↔ s.Shut access tenant (.refresh hash) := by
  simp only [Locked, Shut, refresh]
  cases hfind : s.tokens.find? (·.hash = hash) with
  | none => simp
  | some t =>
    simp only [Option.some.injEq, forall_eq', AccountShut]
    by_cases hlive : t.token.revokedAt.isNone ∧ s.clock < t.token.expiresAt
    · have hrevoked : t.token.revokedAt.isSome = false := by simpa using hlive.1
      have hexpired : ¬ t.token.expiresAt ≤ s.clock := not_le.mpr hlive.2
      simp only [if_pos hlive, hrevoked, hexpired, Bool.false_eq_true, false_or]
      cases hrow : s.directory.users t.token.userId with
      | none => simp
      | some a =>
        cases hdisabled : a.disabled with
        | true => simp [hdisabled]
        | false => simp [hdisabled, AccessTokens.issue]
    · have hdead : t.token.revokedAt.isSome = true ∨ t.token.expiresAt ≤ s.clock := by
        by_contra hboth
        rw [not_or, Bool.not_eq_true, Option.isSome_eq_false_iff, not_le] at hboth
        exact hlive hboth
      simp only [if_neg hlive, reduceCtorEq, false_implies, implies_true, true_iff]
      rcases hdead with h | h
      · exact .inr (.inl h)
      · exact .inr (.inr (.inl h))

theorem authenticate_eq_some {user : ℕ} {d : Directory} {caller : AuthUser} :
    d.authenticate tenant user = some caller ↔ ∃ a, d.users user = some a ∧ a.tenantId = tenant ∧
      a.disabled = false ∧ caller = ⟨user, tenant, a.role⟩ := by
  unfold Directory.authenticate
  cases d.users user with
  | none => simp
  | some a =>
    simp only [Option.some.injEq, exists_eq_left', Option.ite_none_right_eq_some, and_assoc]
    exact ⟨fun ⟨h1, h2, h3⟩ => ⟨h1, h2, h3.symm⟩, fun ⟨h1, h2, h3⟩ => ⟨h1, h2, h3.symm⟩⟩

theorem fromRequestParts_eq_ok {header : Option Text} {caller : AuthUser} :
    s.fromRequestParts access header = .ok caller ↔ ∃ token claims id,
      bearer header "Bearer".toList = some token ∧ access.verify s.clock token = some claims ∧
      claims.sub = some id ∧ claims.tid = some caller.tenant ∧
      s.directory.authenticate caller.tenant id = some caller := by
  unfold fromRequestParts
  constructor
  · intro h
    split at h
    · cases h
    · next claims hclaims =>
      obtain ⟨token, hbearer, hverify⟩ := Option.bind_eq_some_iff.mp hclaims
      split at h
      · next id t hsub htid =>
        split at h
        · next caller' hauth =>
          cases h
          obtain ⟨a, -, -, -, rfl⟩ := authenticate_eq_some.mp hauth
          exact ⟨token, claims, id, hbearer, hverify, hsub, htid, hauth⟩
        · cases h
      · cases h
  · rintro ⟨token, claims, id, hbearer, hverify, hsub, htid, hauth⟩
    simp only [hbearer, Option.bind_some, hverify, hsub, htid, hauth]

theorem locked_access_iff (header : Option Text) :
    s.Locked hasher access tenant (.access header) ↔ s.Shut access tenant (.access header) := by
  simp only [Locked, Shut]
  constructor
  · intro h token claims id hbearer hverify hsub htid a ha hat
    by_contra hlive
    rw [Bool.not_eq_true] at hlive
    have hauth : s.directory.authenticate tenant id = some ⟨id, tenant, a.role⟩ :=
      authenticate_eq_some.mpr ⟨a, ha, hat, hlive, rfl⟩
    exact h ⟨id, tenant, a.role⟩
      (fromRequestParts_eq_ok.mpr ⟨token, claims, id, hbearer, hverify, hsub, htid, hauth⟩) rfl
  · rintro h caller hcaller rfl
    obtain ⟨token, claims, id, hbearer, hverify, hsub, htid, hauth⟩ :=
      fromRequestParts_eq_ok.mp hcaller
    obtain ⟨a, ha, hat, hlive, -⟩ := authenticate_eq_some.mp hauth
    rw [h token claims id hbearer hverify hsub htid a ha hat] at hlive
    cases hlive

theorem workspace_suspended (hs : s.Suspended tenant) : s.workspace tenant = .error .unauthorized := by
  unfold workspace
  split
  · next id t hfind =>
    have hlive := List.find?_some hfind
    simp only [Bool.and_eq_true, decide_eq_true_eq, Bool.not_eq_true'] at hlive
    obtain ⟨rfl, hlive⟩ := hlive
    rw [hs.2 t (List.mem_of_find?_eq_some hfind)] at hlive
    cases hlive
  · rfl

theorem workspace_ne (hs : s.Suspended tenant) {header : Option Text} {w : Workspace}
    (h : s.current access header = .ok w) : w.id ≠ tenant := by
  simp only [current, Layout.bind_eq_ok] at h
  obtain ⟨caller, -, h⟩ := h
  have hid : w.id = caller.tenant := by
    unfold workspace at h
    split at h
    · next id t hfind =>
      cases h
      have hfound := List.find?_some hfind
      simp only [Bool.and_eq_true, decide_eq_true_eq] at hfound
      exact hfound.1
    · cases h
  rw [hid]
  rintro rfl
  rw [workspace_suspended hs] at h
  cases h

/-- In every state in which a tenant is suspended, its passwords issue nothing and its
workspace is shown to nobody; of its tokens, exactly those are good for nothing that have
ended by themselves or are of an account that is itself shut. -/
theorem suspension_locks (hs : s.Suspended tenant) (credential : Credential) :
    (s.Locked hasher access tenant credential ↔ s.Shut access tenant credential) ∧
      ∀ header w, s.current access header = .ok w → w.id ≠ tenant := by
  refine ⟨?_, fun header w h => workspace_ne hs h⟩
  cases credential with
  | password req => exact ⟨fun _ => trivial, fun _ => locked_password hs req⟩
  | refresh hash => exact locked_refresh_iff hash
  | access header => exact locked_access_iff header

/-! ### A login before the suspension -/

/-- The access token `42` is of user 2. -/
def sampleAccess : AccessTokens where
  decode token := if token = "42".toList then some ⟨some 2, some 1, .admin, 0, 900⟩ else none
  ttl := 900

def sampleHeader : Option Text := some "Bearer 42".toList

/-- User 2 has logged in, and has the refresh token `11`. -/
def sampleLoggedIn : Option Credentials :=
  Runs.tryRun (step Directory.sampleHasher 100) sampleCredentials
    [sampleLogin, .run 1 0, .run 1 11, .run 1 0]

/-- What the two tokens are good for. -/
def sampleUses (s : Credentials) : Bool :=
  decide (s.refresh sampleAccess 11 = .ok ⟨some 2, some 1, .admin, 0, 900⟩) &&
    decide (s.fromRequestParts sampleAccess sampleHeader = .ok ⟨2, 1, .admin⟩)

/-- The tokens of a login outlive the suspension of its tenant. -/
theorem suspension_outlived :
    ∃ s, Runs.Reach (step Directory.sampleHasher 100) sampleCredentials s ∧
      (s.suspend 1).Suspended 1 ∧
      ¬ (s.suspend 1).Locked Directory.sampleHasher sampleAccess 1 (.refresh 11) ∧
      ¬ (s.suspend 1).Locked Directory.sampleHasher sampleAccess 1 (.access sampleHeader) := by
  have hrun : sampleLoggedIn.map (fun s => s.tenants.any (·.1 = 1) && sampleUses (s.suspend 1)) =
      some true := by
    decide +kernel
  obtain ⟨s, htry, hs⟩ := Option.map_eq_some_iff.mp hrun
  obtain ⟨htenant, huses⟩ := Bool.and_eq_true_iff.mp hs
  obtain ⟨hrefresh, haccess⟩ := Bool.and_eq_true_iff.mp huses
  refine ⟨s, Runs.reach_of_tryRun .init htry, suspended_suspend ?_, ?_, ?_⟩
  · obtain ⟨t, ht, h1⟩ := List.any_eq_true.mp htenant
    exact List.mem_map.mpr ⟨t, ht, of_decide_eq_true h1⟩
  · exact fun h => h _ (of_decide_eq_true hrefresh) rfl
  · exact fun h => h _ (of_decide_eq_true haccess) rfl

/-- A suspended account of a suspended tenant is locked. -/
theorem suspension_locks_sample :
    Locked Directory.sampleHasher sampleAccess
      ({ sampleCredentials with
        directory := Directory.sampleDirectory.setUser 2
          (some { Directory.sampleAdmin with disabled := true }) }.suspend 1) 1 (.refresh 10) := by
  have hs : ({ sampleCredentials with
      directory := Directory.sampleDirectory.setUser 2
        (some { Directory.sampleAdmin with disabled := true }) }.suspend 1).Suspended 1 :=
    suspended_suspend (by decide)
  refine (suspension_locks hs (.refresh 10)).1.mpr ?_
  rintro t ht
  obtain rfl : _ = t := Option.some.inj ht
  refine .inr (.inr (.inr ?_))
  intro a ha
  obtain rfl : _ = a := Option.some.inj ha
  rfl

end Credentials

end NebulaDesk
