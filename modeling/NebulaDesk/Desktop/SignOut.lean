/-
Signing in and out of the desktop (`nebula-desktop/src/lib.rs`, `invalidate`, `api`, `authenticate`
and `Logout`; `nebula-desktop/src/manager.rs`, `Account::request`, `Account::logout` and
`Manager::authenticate`; `nebula-manager/src/routes/auth.rs`, `refresh` and `logout`).

An account stores the refresh token it has last been given and rotates it under its lock.
`invalidate` cancels what runs under the old account; a logout presents the token that is
stored.  The manager processes a request at some time before its reply arrives, also if
the future that waits for it is gone by then.
-/
import NebulaDesk.Lib.Runs

namespace NebulaDesk

namespace SignOut

/-- A request to the manager: on its way, or answered. -/
inductive Exchange (α : Type)
  | sent
  | answered (reply : α)
deriving DecidableEq

/-- `Account::request`. -/
inductive ApiPhase
  /-- Waits for the credentials of the account. -/
  | locking
  | first
  /-- The first try was refused; the refresh token is presented. -/
  | refreshing (presented : Option ℕ) (exchange : Exchange (Option ℕ))
  | second
  /-- The credentials are free again; what comes after the request is left. -/
  | returned
deriving DecidableEq

/-- `Manager::authenticate`, and what `authenticate` does with its account. -/
inductive SignInPhase
  | issuing (exchange : Exchange (Option ℕ))
  /-- `GET v1/workspace`. -/
  | resolving (token : ℕ)
  /-- The workspace was refused, and the token is given back. -/
  | dropping (token : ℕ) (answered : Bool)
  /-- Waits for the authentication. -/
  | installing
deriving DecidableEq

/-- `Account::logout`. -/
inductive LogoutPhase
  | locking
  | revoking (presented : Option ℕ) (answered : Bool)
deriving DecidableEq

/-- Why an account is logged out, with the generation of the invalidation that took it. -/
inductive LogoutKind
  /-- `Logout`. -/
  | requested (generation : ℕ)
  /-- Spawned by the sign-in that follows. -/
  | superseded (generation : ℕ)
  /-- The sign-in has been overtaken by another invalidation. -/
  | stale
deriving DecidableEq

/-- The generation whose predecessors the logout signs out. -/
def LogoutKind.number : LogoutKind → Option ℕ
  | .requested g | .superseded g => some g
  | .stale => none

/-- What an invalidation is made for. -/
inductive Purpose
  | signIn
  | signOut
deriving DecidableEq

inductive DesktopTask
  | idle
  /-- A request as `account`; `generation` is that of its cancellation token, and `none` for
  a request that was spawned without one. -/
  | api (account : ℕ) (generation : Option ℕ) (phase : ApiPhase)
  /-- Holds the authentication while the sessions stop. -/
  | invalidating (purpose : Purpose)
  /-- The sign-in of a generation; its account has the same number. -/
  | signIn (generation : ℕ) (phase : SignInPhase)
  | logout (account : ℕ) (kind : LogoutKind) (phase : LogoutPhase)
  | done
deriving DecidableEq

/-- A request whose future is gone and that the manager may still process. -/
inductive Orphan
  | login (generation : ℕ)
  | refresh (presented : Option ℕ)
  | logout (presented : Option ℕ)
deriving DecidableEq

/-- What the manager makes of a request that it need not grant: the token has expired, or
the account is disabled, which revokes it. -/
inductive Verdict
  | grant
  | refuse
  | revoke
deriving DecidableEq

inductive Event
  | api (c : ℕ)
  | lock (c : ℕ)
  /-- The access token is refused. -/
  | unauthorized (c : ℕ)
  /-- The manager processes what task `c` has sent. -/
  | manager (c : ℕ) (verdict : Verdict)
  /-- The reply reaches the task; `ok` is about the workspace. -/
  | receive (c : ℕ) (ok : Bool)
  | finish (c : ℕ)
  /-- `close_unused_ticket`, as task `d`. -/
  | close (c d : ℕ)
  | invalidate (c : ℕ) (purpose : Purpose)
  /-- The sessions have stopped; `d` logs the superseded account out. -/
  | invalidated (c d : ℕ)
  | install (c : ℕ)
  /-- The future is dropped, by a cancellation or by whoever waits for it. -/
  | cancel (c : ℕ)
  | orphan (i : ℕ) (verdict : Verdict)
  /-- The request of a dropped future never arrives. -/
  | lose (i : ℕ)
deriving DecidableEq

end SignOut

open SignOut

/-- The desktop and the refresh tokens the manager has issued to it. -/
structure SignOut where
  /-- The tokens that are not revoked, with the login each goes back to. -/
  live : ℕ → Option ℕ
  /-- The next token. -/
  next : ℕ
  generation : ℕ
  /-- `auth.account`. -/
  installed : Option ℕ
  authLock : Option ℕ
  /-- The refresh token in the credentials of an account. -/
  stored : ℕ → Option ℕ
  credLock : ℕ → Option ℕ
  tasks : ℕ → DesktopTask
  orphans : List Orphan
  /-- The generations of the logouts, requested or spawned, that have returned. -/
  completed : List ℕ

namespace SignOut

def start : SignOut where
  live := fun _ => none
  next := 0
  generation := 0
  installed := none
  authLock := none
  stored := fun _ => none
  credLock := fun _ => none
  tasks := fun _ => .idle
  orphans := []
  completed := []

def setTask (s : SignOut) (c : ℕ) (task : DesktopTask) : SignOut :=
  { s with tasks := Function.update s.tasks c task }

def setStored (s : SignOut) (account : ℕ) (token : Option ℕ) : SignOut :=
  { s with stored := Function.update s.stored account token }

def takeCredentials (s : SignOut) (account c : ℕ) : SignOut :=
  { s with credLock := Function.update s.credLock account (some c) }

/-- The guard of task `c` is dropped, if it has one. -/
def releaseCredentials (s : SignOut) (account c : ℕ) : SignOut :=
  { s with credLock := fun a => if a = account ∧ s.credLock a = some c then none else s.credLock a }

/-! ### The manager -/

def revoke (s : SignOut) (presented : Option ℕ) : SignOut :=
  { s with live := fun token => if presented = some token then none else s.live token }

/-- `issue_pair`. -/
def issue (s : SignOut) (login : ℕ) : SignOut :=
  { s with live := Function.update s.live s.next (some login), next := s.next + 1 }

/-- `POST v1/auth/refresh`, with the new token. -/
def refresh (s : SignOut) (presented : Option ℕ) (verdict : Verdict) : SignOut × Option ℕ :=
  match presented.bind s.live with
  | none => (s, none)
  | some login =>
    match verdict with
    | .grant => ((s.revoke presented).issue login, some s.next)
    | .refuse => (s, none)
    | .revoke => (s.revoke presented, none)

/-- `POST v1/auth/login`, `register` and `accept-invitation`. -/
def login (s : SignOut) (generation : ℕ) : Verdict → SignOut × Option ℕ
  | .grant => (s.issue generation, some s.next)
  | .refuse | .revoke => (s, none)

/-! ### The desktop -/

/-- The cancellation token of the generation has not been cancelled. -/
def current (s : SignOut) (generation : Option ℕ) : Bool := generation.all (· = s.generation)

/-- The manager processes what a task has sent. -/
def process (s : SignOut) (c : ℕ) (verdict : Verdict) : Option SignOut :=
  match s.tasks c with
  | .api a g (.refreshing p .sent) =>
    let (s', reply) := s.refresh p verdict
    some (s'.setTask c (.api a g (.refreshing p (.answered reply))))
  | .signIn g (.issuing .sent) =>
    let (s', reply) := s.login g verdict
    some (s'.setTask c (.signIn g (.issuing (.answered reply))))
  | .signIn g (.dropping token false) =>
    some ((s.revoke (some token)).setTask c (.signIn g (.dropping token true)))
  | .logout a k (.revoking p false) =>
    some ((s.revoke p).setTask c (.logout a k (.revoking p true)))
  | _ => none

/-- The logout has returned. -/
def complete (s : SignOut) (kind : LogoutKind) : SignOut :=
  { s with completed := kind.number.toList ++ s.completed }

/-- A reply reaches its task. -/
def receive (s : SignOut) (c : ℕ) (ok : Bool) : Option SignOut :=
  match s.tasks c with
  | .api a g (.refreshing _ (.answered reply)) =>
    if s.current g then
      match reply with
      | some token => some ((s.setStored a (some token)).setTask c (.api a g .second))
      | none => some ((s.releaseCredentials a c).setTask c (.api a g .returned))
    else none
  | .signIn g (.issuing (.answered reply)) =>
    if s.current (some g) then
      match reply with
      | some token => some (s.setTask c (.signIn g (.resolving token)))
      | none => some (s.setTask c .done)
    else none
  | .signIn g (.resolving token) =>
    if s.current (some g) then
      if ok then some ((s.setStored g (some token)).setTask c (.signIn g .installing))
      else some (s.setTask c (.signIn g (.dropping token false)))
    else none
  | .signIn g (.dropping _ true) =>
    if s.current (some g) then some (s.setTask c .done) else none
  | .logout a k (.revoking _ true) =>
    some ((((s.setStored a none).releaseCredentials a c).complete k).setTask c .done)
  | _ => none

/-- `invalidate` returns: the account is taken. -/
def invalidated (s : SignOut) (c d : ℕ) (purpose : Purpose) : Option SignOut :=
  let taken := { s with installed := none, authLock := none }
  match purpose, s.installed with
  | .signOut, none => some ((taken.complete (.requested s.generation)).setTask c .done)
  | .signOut, some a => some (taken.setTask c (.logout a (.requested s.generation) .locking))
  | .signIn, none => some (taken.setTask c (.signIn s.generation (.issuing .sent)))
  | .signIn, some a =>
    if s.tasks d = .idle then
      some ((taken.setTask c (.signIn s.generation (.issuing .sent))).setTask d
        (.logout a (.superseded s.generation) .locking))
    else none

/-- What the manager may still process when the future is gone. -/
def DesktopTask.leaves : DesktopTask → List Orphan
  | .api _ _ (.refreshing p .sent) => [.refresh p]
  | .signIn g (.issuing .sent) => [.login g]
  | .signIn _ (.dropping token false) => [.logout (some token)]
  | .logout _ _ (.revoking p false) => [.logout p]
  | _ => []

/-- A future is dropped, and with it the locks it holds. -/
def cancel (s : SignOut) (c : ℕ) : Option SignOut :=
  let left := { s with orphans := s.orphans ++ (s.tasks c).leaves }
  match s.tasks c with
  | .api a (some _) _ | .logout a (.requested _) _ | .logout a .stale _ =>
    some ((left.releaseCredentials a c).setTask c .done)
  | .signIn .. => some (left.setTask c .done)
  | .invalidating _ => some ({ left with authLock := none }.setTask c .done)
  | _ => none

/-- The manager processes a request that nobody waits for. -/
def adopt (s : SignOut) (verdict : Verdict) : Orphan → SignOut
  | .login g => (s.login g verdict).1
  | .refresh p => (s.refresh p verdict).1
  | .logout p => s.revoke p

def step (s : SignOut) : Event → Option SignOut
  | .api c =>
    if s.tasks c = .idle ∧ s.authLock = none then
      match s.installed with
      | none => some (s.setTask c .done)
      | some a => some (s.setTask c (.api a (some s.generation) .locking))
    else none
  | .lock c =>
    match s.tasks c with
    | .api a g .locking =>
      if s.credLock a = none ∧ s.current g then
        some ((s.takeCredentials a c).setTask c (.api a g .first))
      else none
    | .logout a k .locking =>
      if s.credLock a = none then
        some ((s.takeCredentials a c).setTask c (.logout a k (.revoking (s.stored a) false)))
      else none
    | _ => none
  | .unauthorized c =>
    match s.tasks c with
    | .api a g .first =>
      if s.current g then some (s.setTask c (.api a g (.refreshing (s.stored a) .sent))) else none
    | _ => none
  | .manager c verdict => s.process c verdict
  | .receive c ok => s.receive c ok
  | .finish c =>
    match s.tasks c with
    | .api a g .first | .api a g .second =>
      if s.current g then some ((s.releaseCredentials a c).setTask c (.api a g .returned)) else none
    | .api _ _ .returned => some (s.setTask c .done)
    | _ => none
  | .close c d =>
    match s.tasks c with
    | .api a (some _) .returned =>
      if s.tasks d = .idle then
        some ((s.setTask c .done).setTask d (.api a none .locking))
      else none
    | _ => none
  | .invalidate c purpose =>
    if s.tasks c = .idle ∧ s.authLock = none then
      some ({ s with generation := s.generation + 1, authLock := some c }.setTask c
        (.invalidating purpose))
    else none
  | .invalidated c d =>
    match s.tasks c with
    | .invalidating purpose => s.invalidated c d purpose
    | _ => none
  | .install c =>
    match s.tasks c with
    | .signIn g .installing =>
      if s.authLock = none then
        if s.generation = g then some ({ s with installed := some g }.setTask c .done)
        else some (s.setTask c (.logout g .stale .locking))
      else none
    | _ => none
  | .cancel c => s.cancel c
  | .orphan i verdict =>
    match s.orphans[i]? with
    | some orphan => some { s.adopt verdict orphan with orphans := s.orphans.eraseIdx i }
    | none => none
  | .lose i =>
    if i < s.orphans.length then some { s with orphans := s.orphans.eraseIdx i } else none

/-- Dropping the future loses no token that is not revoked. -/
def DesktopTask.expendable : DesktopTask → Bool
  | .api _ _ (.refreshing _ .sent) => false
  | .api _ _ (.refreshing _ (.answered (some _))) => false
  | .signIn _ (.issuing (.answered none)) => true
  | .signIn _ (.dropping _ true) => true
  | .signIn .. => false
  | .logout _ _ (.revoking _ true) => true
  | .logout .. => false
  | _ => true

/-- No future is dropped that is the only one to know of a token. -/
def steady (s : SignOut) : Event → Bool
  | .cancel c => (s.tasks c).expendable
  | _ => true

def stepSteady (s : SignOut) (e : Event) : Option SignOut := if s.steady e then s.step e else none

/-- No request of the desktop is in flight. -/
def Quiet (s : SignOut) : Prop :=
  (∀ c, s.tasks c = .idle ∨ s.tasks c = .done) ∧ s.orphans = []

/-- Once a logout has returned and nothing is in flight, no token of an earlier login is
left. -/
def SignedOut (s : SignOut) : Prop :=
  s.Quiet → ∀ g ∈ s.completed, ∀ token login, s.live token = some login → g ≤ login

end SignOut

end NebulaDesk
