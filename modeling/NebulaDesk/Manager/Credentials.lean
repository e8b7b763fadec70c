/-
Logins and the changes that end them (`nebula-manager/src/routes/auth.rs`, `login` and
`refresh`; `nebula-manager/src/routes/directory.rs`, `update_user`).

`update_user` writes the row of the user in one statement and revokes the refresh
tokens in a second one.  The second sees the rows that were committed when it started;
a row another transaction has locked it waits for, and then looks at again.  A `login`
compares the password in one statement and inserts its token in a later one, and a
`refresh` inserts the successor of its token in a transaction of its own.

* **`credentials_end_logins`** — no older token is left by an update whose second
  statement runs, if none is made visible once that statement has started;
* **`rotation_survives`** — a token that is made visible later stays.
-/
import NebulaDesk.Manager.Directory

namespace NebulaDesk

open Transactions

/-- A committed row of `refresh_tokens`.  `since` counts the credential changes of the
user before the login it goes back to compared its password. -/
structure IssuedToken where
  hash : ℕ
  token : RefreshToken
  since : ℕ
deriving DecidableEq

structure LoginRequest where
  /-- The slug of the tenant. -/
  tenant : Text
  email : Text
  password : Text
deriving DecidableEq

inductive LoginPhase
  | begun
  /-- The password is right; the token is still to be inserted. -/
  | verified (id : ℕ) (account : Account) (since : ℕ)
  | inserted (hash : ℕ)
  | returned (answer : Except ApiError ℕ)
deriving DecidableEq

/-- A refresh that has claimed its token; `start` is the transaction's `now()`. -/
structure Rotation where
  start : ℤ
  old : IssuedToken
deriving DecidableEq

inductive RotationPhase
  | begun (start : ℤ)
  | claimed (r : Rotation)
  | admitted (r : Rotation)
  /-- The account is disabled: only the revocation is committed. -/
  | refused (r : Rotation)
  | inserted (r : Rotation) (successor : IssuedToken)
  | returned (answer : Except ApiError ℕ)
deriving DecidableEq

inductive UpdatePhase
  | ready (tenant id : ℕ) (change : UserChange)
  /-- The row is written; it was the `number`-th change of the user's credentials. -/
  | changed (id number : ℕ)
  /-- The second statement runs: the rows it has yet to come to, and those it has
  locked and written. -/
  | revoking (id number : ℕ) (start : ℤ) (todo done : List ℕ)
  /-- With the credentials that were changed, if any. -/
  | returned (change : Option (ℕ × ℕ)) (answer : Except ApiError Unit)
deriving DecidableEq

inductive CredentialTask
  | idle
  | login (req : LoginRequest) (phase : LoginPhase)
  | refresh (hash : ℕ) (phase : RotationPhase)
  | update (phase : UpdatePhase)
deriving DecidableEq

structure Credentials where
  tenants : List (ℕ × Tenant)
  /-- The users; the requests themselves are `tasks`. -/
  directory : Directory
  tokens : List IssuedToken
  locks : Locks ℕ
  clock : ℤ
  /-- How often the credentials of each user have been changed. -/
  changes : ℕ → ℕ
  /-- The last change of each user whose second statement has started. -/
  swept : ℕ → ℕ
  tasks : ℕ → CredentialTask

inductive CredentialEvent
  | tick (now : ℤ)
  | login (c : ℕ) (req : LoginRequest)
  | refresh (c hash : ℕ)
  /-- An `update_user` of `caller`. -/
  | update (c caller tenant id : ℕ) (salt : Text) (displayName role : Option Text)
      (disabled : Option Bool) (password : Option Text)
  /-- The next statement of a request, with the token it generates. -/
  | run (c fresh : ℕ)
  /-- The second statement of an update comes to a row. -/
  | visit (c hash : ℕ)
  /-- A commit; without an answer, it has taken effect and the caller sees an error. -/
  | commit (c : ℕ) (answered : Bool)
  /-- The statement, or the commit, fails. -/
  | fail (c : ℕ)
deriving DecidableEq

def UserChange.endsSessions (change : UserChange) : Bool :=
  change.passwordHash.isSome || change.disabled = some true

namespace IssuedToken

/-- The row matches `user_id = $1 AND revoked_at IS NULL`. -/
def isLive (t : IssuedToken) (id : ℕ) : Bool := t.token.userId = id && t.token.revokedAt.isNone

def revoke (t : IssuedToken) (now : ℤ) : IssuedToken :=
  { t with token := { t.token with revokedAt := some now } }

end IssuedToken

namespace Credentials

def revokeAll (rows : List IssuedToken) (hashes : List ℕ) (now : ℤ) : List IssuedToken :=
  rows.map fun t => if t.hash ∈ hashes then t.revoke now else t

def setTask (s : Credentials) (c : ℕ) (task : CredentialTask) : Credentials :=
  { s with tasks := Function.update s.tasks c task }

/-- The transaction ends, if there is one, and the request returns. -/
def finish (s : Credentials) (c : ℕ) (task : CredentialTask) : Credentials :=
  { s with locks := s.locks.release c, tasks := Function.update s.tasks c task }

/-! ### `login` -/

/-- `SELECT … FROM users u JOIN tenants t …`; the index on the addresses finds the
row. -/
def findLogin (s : Credentials) (req : LoginRequest) : Option (ℕ × Account) :=
  match s.tenants.find? (fun t => t.2.slug = req.tenant && !t.2.disabled) with
  | none => none
  | some (tenant, _) =>
    match s.directory.emails (tenant, emailKey req.email) with
    | none => none
    | some id =>
      match s.directory.users id with
      | none => none
      | some a =>
        if a.tenantId = tenant ∧ a.email.map Char.toLower = req.email.map Char.toLower then
          some (id, a)
        else none

def checkPassword (hasher : PasswordHasher) (s : Credentials) (c : ℕ) (req : LoginRequest) :
    Credentials :=
  let refuse := s.setTask c (.login req (.returned (.error .unauthorized)))
  match s.findLogin req with
  | none => refuse
  | some (id, a) =>
    if !hasher.verify req.password a.passwordHash || a.disabled then refuse
    else s.setTask c (.login req (.verified id a (s.changes id)))

/-- `issue_pair`: `INSERT INTO refresh_tokens`, visible at once. -/
def insertLogin (ttl : ℤ) (s : Credentials) (c : ℕ) (req : LoginRequest) (id : ℕ) (a : Account)
    (since fresh : ℕ) : Option Credentials :=
  if !s.locks.mayTake c fresh then none
  else if s.tokens.any (·.hash = fresh) then
    some (s.setTask c (.login req (.returned (.error .database))))
  else
    let token : RefreshToken :=
      { tenantId := a.tenantId, userId := id, expiresAt := s.clock + ttl, revokedAt := none }
    some { s with
      tokens := s.tokens ++ [⟨fresh, token, since⟩]
      tasks := Function.update s.tasks c (.login req (.inserted fresh)) }

def loginStep (hasher : PasswordHasher) (ttl : ℤ) (s : Credentials) (c : ℕ) (req : LoginRequest)
    (phase : LoginPhase) (fresh : ℕ) : Option Credentials :=
  match phase with
  | .begun => some (s.checkPassword hasher c req)
  | .verified id a since => s.insertLogin ttl c req id a since fresh
  | .inserted hash => some (s.setTask c (.login req (.returned (.ok hash))))
  | .returned _ => none

/-! ### `refresh` -/

/-- `UPDATE refresh_tokens SET revoked_at = now() …`. -/
def claimToken (s : Credentials) (c hash : ℕ) (start : ℤ) : Option Credentials :=
  let refuse := s.finish c (.refresh hash (.returned (.error .unauthorized)))
  match s.tokens.find? (·.hash = hash) with
  | none => some refuse
  | some old =>
    if !s.locks.mayTake c hash then none
    else if old.token.revokedAt.isNone ∧ start < old.token.expiresAt then
      some { s with
        locks := s.locks.take c hash
        tasks := Function.update s.tasks c (.refresh hash (.claimed ⟨start, old⟩)) }
    else some refuse

/-- `SELECT … FROM users`. -/
def readAccount (s : Credentials) (c hash : ℕ) (r : Rotation) : Credentials :=
  match s.directory.users r.old.token.userId with
  | none => s.finish c (.refresh hash (.returned (.error .unauthorized)))
  | some a => s.setTask c (.refresh hash (if a.disabled then .refused r else .admitted r))

/-- `INSERT INTO refresh_tokens`, visible with the commit. -/
def insertSuccessor (ttl : ℤ) (s : Credentials) (c hash : ℕ) (r : Rotation) (fresh : ℕ) :
    Option Credentials :=
  if !s.locks.mayTake c fresh ∨ fresh = hash then none
  else if s.tokens.any (·.hash = fresh) then
    some (s.finish c (.refresh hash (.returned (.error .database))))
  else
    let token : RefreshToken :=
      { tenantId := r.old.token.tenantId, userId := r.old.token.userId,
        expiresAt := s.clock + ttl, revokedAt := none }
    some { s with
      locks := s.locks.take c fresh
      tasks := Function.update s.tasks c
        (.refresh hash (.inserted r ⟨fresh, token, r.old.since⟩)) }

def rotationStep (ttl : ℤ) (s : Credentials) (c hash : ℕ) (phase : RotationPhase) (fresh : ℕ) :
    Option Credentials :=
  match phase with
  | .begun start => s.claimToken c hash start
  | .claimed r => some (s.readAccount c hash r)
  | .admitted r => s.insertSuccessor ttl c hash r fresh
  | .refused _ | .inserted .. | .returned _ => none

def rotationCommit (s : Credentials) (c hash : ℕ) (answered : Bool) :
    RotationPhase → Option Credentials
  | .refused r =>
    let answer : ApiError := if answered then .unauthorized else .database
    some ({ s with tokens := revokeAll s.tokens [r.old.hash] r.start }.finish c
      (.refresh hash (.returned (.error answer))))
  | .inserted r successor =>
    let answer := if answered then .ok successor.hash else .error .database
    some ({ s with tokens := revokeAll s.tokens [r.old.hash] r.start ++ [successor] }.finish c
      (.refresh hash (.returned answer)))
  | _ => none

/-! ### `update_user` -/

/-- The caller's live row and the checks before the first statement. -/
def updateBegin (hasher : PasswordHasher) (s : Credentials) (caller tenant : ℕ)
    (req : DirectoryRequest) : UpdatePhase :=
  match s.directory.authenticate tenant caller with
  | none => .returned none (.error .unauthorized)
  | some caller =>
    match req.prepare hasher caller with
    | .ok (.update tenant id change) => .ready tenant id change
    | .ok _ => .returned none (.error .internal)
    | .error e => .returned none (.error e)

/-- `UPDATE users SET …`. -/
def updateUser (s : Credentials) (c tenant id : ℕ) (change : UserChange) (answered : Bool) :
    Credentials :=
  match s.directory.execute (.update tenant id change) with
  | (_, .error e) => s.setTask c (.update (.returned none (.error e)))
  | (directory, .ok ()) =>
    if change.endsSessions then
      let number := s.changes id + 1
      { s with
        directory
        changes := Function.update s.changes id number
        tasks := Function.update s.tasks c (.update (if answered then .changed id number
          else .returned (some (id, number)) (.error .database))) }
    else
      { s with
        directory
        tasks := Function.update s.tasks c (.update (.returned none
          (if answered then .ok () else .error .database))) }

/-- `UPDATE refresh_tokens …` starts, and takes its snapshot. -/
def startRevoking (s : Credentials) (c id number : ℕ) : Credentials :=
  { s with
    swept := Function.update s.swept id (max (s.swept id) number)
    tasks := Function.update s.tasks c
      (.update (.revoking id number s.clock ((s.tokens.filter (·.isLive id)).map (·.hash)) [])) }

/-- It comes to a row of its snapshot: it waits for the lock and looks again. -/
def visit (s : Credentials) (c hash : ℕ) : Option Credentials :=
  match s.tasks c with
  | .update (.revoking id number start todo done) =>
    if hash ∉ todo ∨ !s.locks.mayTake c hash then none
    else
      let todo := todo.filter (· ≠ hash)
      if s.tokens.any (fun t => t.hash = hash && t.isLive id) then
        some { s with
          locks := s.locks.take c hash
          tasks := Function.update s.tasks c
            (.update (.revoking id number start todo (hash :: done))) }
      else some (s.setTask c (.update (.revoking id number start todo done)))
  | _ => none

def updateCommit (s : Credentials) (c : ℕ) (answered : Bool) : UpdatePhase → Option Credentials
  | .ready tenant id change => some (s.updateUser c tenant id change answered)
  | .revoking id number start [] done =>
    some ({ s with tokens := revokeAll s.tokens done start }.finish c
      (.update (.returned (some (id, number)) (if answered then .ok () else .error .database))))
  | _ => none

/-! ### The machine -/

def fail (s : Credentials) (c : ℕ) : Option Credentials :=
  match s.tasks c with
  | .idle | .login _ (.returned _) | .refresh _ (.returned _) | .update (.returned ..) => none
  | .login req _ => some (s.finish c (.login req (.returned (.error .database))))
  | .refresh hash _ => some (s.finish c (.refresh hash (.returned (.error .database))))
  | .update (.ready ..) => some (s.finish c (.update (.returned none (.error .database))))
  | .update (.changed id number) | .update (.revoking id number ..) =>
    some (s.finish c (.update (.returned (some (id, number)) (.error .database))))

def begin (s : Credentials) (c : ℕ) (task : CredentialTask) : Option Credentials :=
  if s.tasks c = .idle then some (s.setTask c task) else none

def step (hasher : PasswordHasher) (ttl : ℤ) (s : Credentials) :
    CredentialEvent → Option Credentials
  | .tick now => if s.clock ≤ now then some { s with clock := now } else none
  | .login c req => s.begin c (.login req .begun)
  | .refresh c hash => s.begin c (.refresh hash (.begun s.clock))
  | .update c caller tenant id salt displayName role disabled password =>
    s.begin c (.update (s.updateBegin hasher caller tenant
      (.update id salt displayName role disabled password)))
  | .run c fresh =>
    match s.tasks c with
    | .login req phase => s.loginStep hasher ttl c req phase fresh
    | .refresh hash phase => s.rotationStep ttl c hash phase fresh
    | .update (.changed id number) => some (s.startRevoking c id number)
    | _ => none
  | .visit c hash => s.visit c hash
  | .commit c answered =>
    match s.tasks c with
    | .refresh hash phase => s.rotationCommit c hash answered phase
    | .update phase => s.updateCommit c answered phase
    | _ => none
  | .fail c => s.fail c

/-- Committed tables, before the first request. -/
def start (tenants : List (ℕ × Tenant)) (directory : Directory) (tokens : List (ℕ × RefreshToken))
    (clock : ℤ) : Credentials where
  tenants := tenants
  directory := directory
  tokens := tokens.map fun t => ⟨t.1, t.2, 0⟩
  locks := Locks.none
  clock := clock
  changes := fun _ => 0
  swept := fun _ => 0
  tasks := fun _ => .idle

/-- Once an update that has changed a user's credentials has returned, no token that
goes back to a login before the change is unrevoked. -/
def Ended (s : Credentials) : Prop :=
  ∀ c id number answer, s.tasks c = .update (.returned (some (id, number)) answer) →
    ∀ t ∈ s.tokens, t.token.userId = id → t.since < number → t.token.revokedAt ≠ none

/-- A token becomes visible only while no later change of the user's credentials has
started to revoke, and no update fails between its two statements. -/
def timely (s : Credentials) : CredentialEvent → Bool
  | .run c _ =>
    match s.tasks c with
    | .login _ (.verified id _ since) => s.swept id ≤ since
    | _ => true
  | .commit c answered =>
    match s.tasks c with
    | .refresh _ (.inserted _ successor) => s.swept successor.token.userId ≤ successor.since
    | .update (.ready _ _ change) => answered || !change.endsSessions
    | _ => true
  | .fail c =>
    match s.tasks c with
    | .update (.changed ..) | .update (.revoking ..) => false
    | _ => true
  | _ => true

def stepTimely (hasher : PasswordHasher) (ttl : ℤ) (s : Credentials) (e : CredentialEvent) :
    Option Credentials :=
  if s.timely e then s.step hasher ttl e else none

/-! ### What a step makes visible -/

/-- Whatever of the user's tokens from before the change is unrevoked has a hash in
`left`, and none becomes visible any more. -/
def Covers (s : Credentials) (id number : ℕ) (left : List ℕ) : Prop :=
  number ≤ s.swept id ∧ ∀ t ∈ s.tokens, t.token.userId = id → t.since < number →
    t.token.revokedAt = none → t.hash ∈ left

/-- The rows that become visible go back to no login that a snapshot should have seen. -/
structure Grows (s s' : Credentials) : Prop where
  swept : ∀ id, s.swept id ≤ s'.swept id
  tokens : ∀ t ∈ s'.tokens, t.token.revokedAt = none →
    t ∈ s.tokens ∨ s.swept t.token.userId ≤ t.since

/-- What is known of a request. -/
def TaskInv (s : Credentials) : CredentialTask → Prop
  | .update (.revoking id number _ todo done) => s.Covers id number (todo ++ done)
  | .update (.returned (some (id, number)) _) => s.Covers id number []
  | _ => True

def Inv (s : Credentials) : Prop := ∀ c, s.TaskInv (s.tasks c)

/-- What one step does: one request moves, and the tables grow. -/
def Moves (s s' : Credentials) : Prop :=
  ∃ c task, s'.tasks = Function.update s.tasks c task ∧ Grows s s' ∧ s'.TaskInv task

variable {hasher : PasswordHasher} {ttl : ℤ} {s s' : Credentials} {c id number : ℕ}
  {left : List ℕ} {task : CredentialTask}

theorem Covers.grow (h : s.Covers id number left) (hg : Grows s s') : s'.Covers id number left := by
  constructor
  · exact le_trans h.1 (hg.swept id)
  · intro t ht hid hsince hlive
    rcases hg.tokens t ht hlive with hold | hnew
    · exact h.2 t hold hid hsince hlive
    · -- The new row is no older than the change.
      rw [hid] at hnew
      have := h.1
      omega

theorem TaskInv.grow (h : s.TaskInv task) (hg : Grows s s') : s'.TaskInv task := by
  unfold TaskInv at h ⊢
  split at h
  · exact Covers.grow h hg
  · exact Covers.grow h hg
  · trivial

theorem Inv.move (h : Inv s) (hm : Moves s s') : Inv s' := by
  obtain ⟨c, task, htasks, hg, htask⟩ := hm
  intro d
  rw [htasks]
  by_cases hd : d = c
  · rw [hd, Function.update_self]
    exact htask
  · rw [Function.update_of_ne hd]
    exact (h d).grow hg

theorem Grows.of_eq (htokens : s'.tokens = s.tokens) (hswept : s'.swept = s.swept) :
    Grows s s' := by
  constructor
  · intro id
    rw [hswept]
  · intro t ht _
    rw [htokens] at ht
    exact .inl ht

theorem Moves.of_eq (htasks : s'.tasks = Function.update s.tasks c task)
    (htokens : s'.tokens = s.tokens) (hswept : s'.swept = s.swept) (htask : s'.TaskInv task) :
    Moves s s' :=
  ⟨c, task, htasks, Grows.of_eq htokens hswept, htask⟩

theorem mem_of_mem_revokeAll {rows : List IssuedToken} {hashes : List ℕ} {now : ℤ} {t : IssuedToken}
    (ht : t ∈ revokeAll rows hashes now) (hlive : t.token.revokedAt = none) :
    t ∈ rows ∧ t.hash ∉ hashes := by
  obtain ⟨u, hu, rfl⟩ := List.mem_map.mp ht
  split at hlive
  · cases hlive
  · next hne =>
    rw [if_neg hne]
    exact ⟨hu, hne⟩

/-! ### The handlers -/

theorem moves_login {req : LoginRequest} {phase : LoginPhase} {fresh : ℕ}
    (htask : s.tasks c = .login req phase) (htimely : s.timely (.run c fresh) = true)
    (hs : s.loginStep hasher ttl c req phase fresh = some s') : Moves s s' := by
  cases phase with
  | begun =>
    cases hs
    unfold checkPassword
    split
    · exact Moves.of_eq rfl rfl rfl trivial
    · split
      · exact Moves.of_eq rfl rfl rfl trivial
      · exact Moves.of_eq rfl rfl rfl trivial
  | verified id a since =>
    simp only [loginStep, insertLogin] at hs
    split_ifs at hs
    · cases hs
      exact Moves.of_eq rfl rfl rfl trivial
    · cases hs
      simp only [timely, htask, decide_eq_true_eq] at htimely
      refine ⟨c, _, rfl, ⟨fun _ => le_rfl, ?_⟩, trivial⟩
      intro t ht _
      rcases List.mem_append.mp ht with hold | hnew
      · exact .inl hold
      · obtain rfl := List.mem_singleton.mp hnew
        exact .inr htimely
  | inserted hash =>
    cases hs
    exact Moves.of_eq rfl rfl rfl trivial
  | returned answer => cases hs

theorem moves_rotation {hash : ℕ} {phase : RotationPhase} {fresh : ℕ}
    (hs : s.rotationStep ttl c hash phase fresh = some s') : Moves s s' := by
  cases phase with
  | begun start =>
    simp only [rotationStep, claimToken] at hs
    split at hs
    · cases hs
      exact Moves.of_eq rfl rfl rfl trivial
    · split_ifs at hs
      · cases hs
        exact Moves.of_eq rfl rfl rfl trivial
      · cases hs
        exact Moves.of_eq rfl rfl rfl trivial
  | claimed r =>
    cases hs
    unfold readAccount
    split
    · exact Moves.of_eq rfl rfl rfl trivial
    · exact Moves.of_eq rfl rfl rfl trivial
  | admitted r =>
    simp only [rotationStep, insertSuccessor] at hs
    split_ifs at hs
    · cases hs
      exact Moves.of_eq rfl rfl rfl trivial
    · cases hs
      exact Moves.of_eq rfl rfl rfl trivial
  | refused r => cases hs
  | inserted r successor => cases hs
  | returned answer => cases hs

variable {answered : Bool}

theorem moves_rotationCommit {hash : ℕ} {phase : RotationPhase}
    (htask : s.tasks c = .refresh hash phase) (htimely : s.timely (.commit c answered) = true)
    (hs : s.rotationCommit c hash answered phase = some s') : Moves s s' := by
  cases phase with
  | refused r =>
    cases hs
    refine ⟨c, _, rfl, ⟨fun _ => le_rfl, ?_⟩, trivial⟩
    intro t ht hlive
    exact .inl (mem_of_mem_revokeAll ht hlive).1
  | inserted r successor =>
    cases hs
    simp only [timely, htask, decide_eq_true_eq] at htimely
    refine ⟨c, _, rfl, ⟨fun _ => le_rfl, ?_⟩, trivial⟩
    intro t ht hlive
    rcases List.mem_append.mp ht with hold | hnew
    · exact .inl (mem_of_mem_revokeAll hold hlive).1
    · obtain rfl := List.mem_singleton.mp hnew
      exact .inr htimely
  | begun start => cases hs
  | claimed r => cases hs
  | admitted r => cases hs
  | returned answer => cases hs

theorem moves_updateUser {tenant : ℕ} {change : UserChange}
    (htimely : answered = true ∨ change.endsSessions = false) :
    Moves s (s.updateUser c tenant id change answered) := by
  unfold updateUser
  split
  · exact Moves.of_eq rfl rfl rfl trivial
  · split
    · next hends =>
      -- The second statement is still to come.
      obtain rfl : answered = true := by
        rcases htimely with h | h
        · exact h
        · rw [h] at hends
          cases hends
      exact Moves.of_eq rfl rfl rfl trivial
    · exact Moves.of_eq rfl rfl rfl trivial

theorem moves_startRevoking : Moves s (s.startRevoking c id number) := by
  refine ⟨c, _, rfl, ⟨?_, fun t ht _ => .inl ht⟩, ?_, ?_⟩
  · intro id'
    by_cases hid : id' = id
    · subst hid
      simp only [startRevoking, Function.update_self]
      exact le_max_left ..
    · simp only [startRevoking, Function.update_of_ne hid]
      exact le_rfl
  · simp only [startRevoking, Function.update_self]
    exact le_max_right ..
  · intro t ht hid _ hlive
    rw [List.append_nil]
    refine List.mem_map.mpr ⟨t, List.mem_filter.mpr ⟨ht, ?_⟩, rfl⟩
    simp [IssuedToken.isLive, hid, hlive]

theorem moves_visit {hash : ℕ} (h : Inv s) (hs : s.visit c hash = some s') : Moves s s' := by
  unfold visit at hs
  split at hs
  · next id number start todo done htask =>
    have hinv := h c
    rw [htask] at hinv
    obtain ⟨hswept, hcovers⟩ := hinv
    split_ifs at hs with hwait hlive
    · cases hs
      refine Moves.of_eq rfl rfl rfl ⟨hswept, ?_⟩
      intro t ht hid hsince hnone
      have := hcovers t ht hid hsince hnone
      by_cases hhash : t.hash = hash
      · simp [hhash]
      · simpa [hhash] using this
    · cases hs
      refine Moves.of_eq rfl rfl rfl ⟨hswept, ?_⟩
      intro t ht hid hsince hnone
      have hmem := hcovers t ht hid hsince hnone
      -- A row that is left out is not live any more.
      have hhash : t.hash ≠ hash := by
        intro hhash
        refine hlive (List.any_eq_true.mpr ⟨t, ht, ?_⟩)
        simp [IssuedToken.isLive, hhash, hid, hnone]
      simpa [hhash] using hmem
  · cases hs

theorem moves_updateCommit {phase : UpdatePhase} (h : Inv s)
    (htask : s.tasks c = .update phase) (htimely : s.timely (.commit c answered) = true)
    (hs : s.updateCommit c answered phase = some s') : Moves s s' := by
  cases phase with
  | ready tenant id change =>
    cases hs
    refine moves_updateUser ?_
    simpa [timely, htask] using htimely
  | revoking id number start todo done =>
    cases todo with
    | cons hash todo => cases hs
    | nil =>
      cases hs
      have hinv := h c
      rw [htask] at hinv
      obtain ⟨hswept, hcovers⟩ := hinv
      refine ⟨c, _, rfl, ⟨fun _ => le_rfl, ?_⟩, hswept, ?_⟩
      · intro t ht hlive
        exact .inl (mem_of_mem_revokeAll ht hlive).1
      · intro t ht hid hsince hlive
        obtain ⟨hold, hnot⟩ := mem_of_mem_revokeAll ht hlive
        exact absurd (hcovers t hold hid hsince hlive) hnot
  | changed id number => cases hs
  | returned change answer => cases hs

theorem moves_begin (hs : s.begin c task = some s') (htask : s.TaskInv task) : Moves s s' := by
  unfold begin at hs
  split_ifs at hs
  cases hs
  exact Moves.of_eq rfl rfl rfl (htask.grow (Grows.of_eq rfl rfl))

theorem taskInv_updateBegin (hasher : PasswordHasher) (s : Credentials) (caller tenant : ℕ)
    (req : DirectoryRequest) : s.TaskInv (.update (s.updateBegin hasher caller tenant req)) := by
  unfold updateBegin
  split
  · trivial
  · split <;> trivial

theorem moves_fail (htimely : s.timely (.fail c) = true) (hs : s.fail c = some s') :
    Moves s s' := by
  unfold fail at hs
  split at hs
  case h_8 htask | h_9 htask =>
    simp [timely, htask] at htimely
  all_goals first
    | cases hs; done
    | cases hs
      exact Moves.of_eq rfl rfl rfl trivial

theorem moves_step {e : CredentialEvent} (h : Inv s) (hs : s.stepTimely hasher ttl e = some s') :
    Moves s s' := by
  unfold stepTimely at hs
  split_ifs at hs with htimely
  cases e with
  | tick now =>
    simp only [step] at hs
    split_ifs at hs
    cases hs
    refine ⟨0, s.tasks 0, (Function.update_eq_self ..).symm, Grows.of_eq rfl rfl, ?_⟩
    exact (h 0).grow (Grows.of_eq rfl rfl)
  | login c req => exact moves_begin hs trivial
  | refresh c hash => exact moves_begin hs trivial
  | update c caller tenant id salt displayName role disabled password =>
    exact moves_begin hs (taskInv_updateBegin ..)
  | run c fresh =>
    simp only [step] at hs
    split at hs
    · next htask => exact moves_login htask htimely hs
    · exact moves_rotation hs
    · cases hs
      exact moves_startRevoking
    · cases hs
  | visit c hash => exact moves_visit h hs
  | commit c answered =>
    simp only [step] at hs
    split at hs
    · next htask => exact moves_rotationCommit htask htimely hs
    · next htask => exact moves_updateCommit h htask htimely hs
    · cases hs
  | fail c => exact moves_fail htimely hs

/-- In every interleaving of logins, refreshes and updates in which no token becomes
visible after a later change of its user's credentials has started to revoke, and in
which both statements of an update run: once such an update has returned, no token that
goes back to an older login is unrevoked. -/
theorem credentials_end_logins {tenants : List (ℕ × Tenant)} {directory : Directory}
    {tokens : List (ℕ × RefreshToken)} {clock : ℤ}
    (hr : Runs.Reach (stepTimely hasher ttl) (start tenants directory tokens clock) s) :
    Ended s := by
  have hinv : Inv s := hr.invariant (fun _ => trivial) fun _ _ _ h hs => h.move (moves_step h hs)
  intro c id number answer htask t ht hid hsince hlive
  have hcovers := hinv c
  rw [htask] at hcovers
  exact absurd (hcovers.2 t ht hid hsince hlive) List.not_mem_nil

/-! ### An administrator changes his password -/

def sampleTenant : Tenant where
  slug := "acme".toList
  name := "Acme".toList
  kind := .organization
  disabled := false

/-- User 2 has one refresh token. -/
def sampleCredentials : Credentials :=
  start [(1, sampleTenant)] Directory.sampleDirectory
    [(10, { tenantId := 1, userId := 2, expiresAt := 1000, revokedAt := none })] 0

/-- User 2 logs in with the password he has. -/
def sampleLogin : CredentialEvent :=
  .login 1 ⟨"acme".toList, "admin@acme.test".toList, "correct horse".toList⟩

/-- User 2 sets a new one. -/
def sampleChange : CredentialEvent :=
  .update 0 2 1 2 "bmV3".toList none none none (some "battery staple".toList)

/-- What is left after some events: how the update stands, and the live tokens of
user 2 with their logins. -/
def sampleRun (step : Credentials → CredentialEvent → Option Credentials)
    (events : List CredentialEvent) : Option (CredentialTask × List (ℕ × ℕ)) :=
  (Runs.tryRun step sampleCredentials events).map fun s =>
    (s.tasks 0, (s.tokens.filter (·.isLive 2)).map fun t => (t.hash, t.since))

/-- A live token of an older login is what `Ended` excludes. -/
theorem not_ended_of_live {hash since : ℕ} {answer : Except ApiError Unit}
    (htask : s.tasks c = .update (.returned (some (id, number)) answer))
    (hmem : (hash, since) ∈ (s.tokens.filter (·.isLive id)).map fun t => (t.hash, t.since))
    (hsince : since < number) : ¬ Ended s := by
  intro h
  obtain ⟨t, ht, heq⟩ := List.mem_map.mp hmem
  obtain ⟨hmem', hlive⟩ := List.mem_filter.mp ht
  simp only [IssuedToken.isLive, Bool.and_eq_true, decide_eq_true_eq,
    Option.isNone_iff_eq_none] at hlive
  cases heq
  exact h c id number answer htask t hmem' hlive.1 hsince hlive.2

/-- A login that is over when the tokens are revoked is ended, and a later one with the
new password is not. -/
theorem credentials_end_logins_sample :
    ∃ s, Runs.Reach (stepTimely Directory.sampleHasher 100) sampleCredentials s ∧
      s.tasks 0 = .update (.returned (some (2, 1)) (.ok ())) ∧
      (s.tokens.filter (·.isLive 2)).map (fun t => (t.hash, t.since)) = [(12, 1)] ∧ Ended s := by
  have hrun : sampleRun (stepTimely Directory.sampleHasher 100)
      [sampleLogin, .run 1 0, .run 1 11, sampleChange, .commit 0 true, .run 0 0, .visit 0 11,
       .visit 0 10, .commit 0 true,
       .login 2 ⟨"acme".toList, "admin@acme.test".toList, "battery staple".toList⟩, .run 2 0,
       .run 2 12] = some (.update (.returned (some (2, 1)) (.ok ())), [(12, 1)]) := by
    decide +kernel
  obtain ⟨s, htry, hs⟩ := Option.map_eq_some_iff.mp hrun
  have hr := Runs.reach_of_tryRun .init htry
  obtain ⟨htask, hlive⟩ := Prod.mk.inj hs
  exact ⟨s, hr, htask, hlive, credentials_end_logins hr⟩

/-- A refresh commits the successor of its token while the update waits for the row of
the token: the row is revoked by then, and the successor is not in the snapshot. -/
theorem rotation_survives :
    ∃ s, Runs.Reach (step Directory.sampleHasher 100) sampleCredentials s ∧
      s.tasks 0 = .update (.returned (some (2, 1)) (.ok ())) ∧
      (s.tokens.filter (·.isLive 2)).map (fun t => (t.hash, t.since)) = [(11, 0)] ∧ ¬ Ended s := by
  have hrun : sampleRun (step Directory.sampleHasher 100)
      [.refresh 1 10, .run 1 0, .run 1 0, .run 1 11, sampleChange, .commit 0 true, .run 0 0,
       .commit 1 true, .visit 0 10, .commit 0 true] =
      some (.update (.returned (some (2, 1)) (.ok ())), [(11, 0)]) := by
    decide +kernel
  obtain ⟨s, htry, hs⟩ := Option.map_eq_some_iff.mp hrun
  obtain ⟨htask, hlive⟩ := Prod.mk.inj hs
  refine ⟨s, Runs.reach_of_tryRun .init htry, htask, hlive, ?_⟩
  exact not_ended_of_live htask (hlive ▸ List.mem_singleton_self (11, 0)) Nat.zero_lt_one

end Credentials

end NebulaDesk
