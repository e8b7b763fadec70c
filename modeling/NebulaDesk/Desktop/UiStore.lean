/-
The store of the desktop interface (`apps/desktop-ui/src/state/store.ts`).

A method runs up to its next `await` in one piece; a `StoreTask` is a call that waits there, and
the replies come in any order.  Beside each value the snapshot shows stands the request whose reply
it came from: the account that was shown when it was sent, how many authentications, logouts and
actions had begun, and whether a logout was pending.

The types of what is only shown are parameters.
-/
import NebulaDesk.Lib.Runs

namespace NebulaDesk

/-- The types of `api/types.ts` that the store does not look into. -/
structure ApiTypes where
  Account : Type
  Resource : Type
  Machine : Type
  LocalHost : Type
  Transfer : Type

inductive UiSessionState
  | connecting | connected | disconnected | failed
deriving DecidableEq

structure UiSession where
  sessionId : String
  name : String
  state : UiSessionState
  error : Option String
deriving DecidableEq

inductive RequestOp
  | account | authenticate | logout | refresh | poll | work
deriving DecidableEq

/-- A request as it was sent. -/
structure Issue (T : ApiTypes) where
  op : RequestOp
  account : Option T.Account
  /-- How many authentications, logouts and actions had begun. -/
  begun : ℕ
  /-- Whether a logout was pending. -/
  inLogout : Bool

/-- A value, and the request whose reply it came from. -/
structure Brought (T : ApiTypes) (α : Type) where
  value : α
  source : Option (Issue T)

def Brought.blank {T : ApiTypes} {α : Type} (value : α) : Brought T α := ⟨value, none⟩

structure UiSnapshot (T : ApiTypes) where
  account : Option T.Account
  ready : Bool
  busy : Bool
  loading : Bool
  error : Brought T (Option String)
  resources : Brought T (List T.Resource)
  machines : Brought T (List T.Machine)
  host : Brought T (Option T.LocalHost)
  sessions : Brought T (List UiSession)
  transfers : Brought T (List T.Transfer)

namespace UiSnapshot

/-- `empty()`. -/
def empty (T : ApiTypes) : UiSnapshot T where
  account := none
  ready := false
  busy := false
  loading := false
  error := .blank none
  resources := .blank []
  machines := .blank []
  host := .blank none
  sessions := .blank []
  transfers := .blank []

end UiSnapshot

/-- A call that waits: for a reply, or for the refresh it has called (if that does wait). -/
inductive StoreTask (T : ApiTypes)
  | start (epoch : ℕ) (issue : Issue T)
  | authenticate (epoch : ℕ) (issue : Issue T)
  | authenticateRefresh (epoch : ℕ) (refresh : Option ℕ)
  | logout (epoch : ℕ) (issue : Issue T)
  | refresh (epoch read : ℕ) (issue : Issue T)
  | poll (epoch read : ℕ) (issue : Issue T)
  | action (epoch : ℕ) (refresh : Bool) (issue : Issue T)
  | actionRefresh (epoch : ℕ) (refresh : Option ℕ)

/-- The tasks that `mutationPending` stands for. -/
def StoreTask.mutates {T : ApiTypes} : StoreTask T → Bool
  | .authenticate .. | .authenticateRefresh .. | .logout .. | .action .. | .actionRefresh .. => true
  | _ => false

def StoreTask.isLogout {T : ApiTypes} : StoreTask T → Bool
  | .logout .. => true
  | _ => false

structure DesktopStore (T : ApiTypes) where
  state : UiSnapshot T
  epoch : ℕ
  reads : ℕ
  pollPending : Bool
  mutationPending : Bool
  tasks : ℕ → Option (StoreTask T)
  /-- The name of the next task. -/
  next : ℕ
  begun : ℕ

/-- What a reply brings: `rejected` carries the text of `errorMessage`. -/
inductive ApiReply (α : Type)
  | fulfilled (value : α)
  | rejected (message : String)

namespace ApiReply

def value? {α : Type} : ApiReply α → Option α
  | fulfilled value => some value
  | rejected _ => none

def message? {α : Type} : ApiReply α → Option String
  | fulfilled _ => none
  | rejected message => some message

end ApiReply

namespace DesktopStore

variable {T : ApiTypes}

def set (f : UiSnapshot T → UiSnapshot T) (s : DesktopStore T) : DesktopStore T :=
  { s with state := f s.state }

def spawn (task : StoreTask T) (s : DesktopStore T) : DesktopStore T :=
  { s with tasks := Function.update s.tasks s.next (some task), next := s.next + 1 }

/-- The task `id` goes on to wait at `task`, or is done. -/
def goOn (id : ℕ) (task : Option (StoreTask T)) (s : DesktopStore T) : DesktopStore T :=
  { s with tasks := Function.update s.tasks id task }

/-- Whether a logout is pending, of the calls so far. -/
def inLogout (s : DesktopStore T) : Bool :=
  (List.range s.next).any fun id => (s.tasks id).any StoreTask.isLogout

def issue (op : RequestOp) (s : DesktopStore T) : Issue T :=
  ⟨op, s.state.account, s.begun, s.inLogout⟩

/-- `start()` up to its request. -/
def start (T : ApiTypes) : DesktopStore T :=
  let s : DesktopStore T := ⟨.empty T, 1, 0, false, false, fun _ => none, 0, 0⟩
  s.spawn (.start 1 (s.issue .account))

/-! ### The calls -/

def clearError (s : DesktopStore T) : DesktopStore T :=
  s.set fun state => { state with error := .blank none }

/-- A mutation begins: what `epoch` and `reads` do is up to it. -/
def begin (s : DesktopStore T) : DesktopStore T :=
  { s with mutationPending := true, begun := s.begun + 1 }

def authenticate (s : DesktopStore T) : DesktopStore T :=
  if s.mutationPending then s
  else
    let s := { s.begin with epoch := s.epoch + 1 }
    let s := s.set fun _ => { UiSnapshot.empty T with ready := true, busy := true }
    s.spawn (.authenticate s.epoch (s.issue .authenticate))

def logout (s : DesktopStore T) : DesktopStore T :=
  if s.mutationPending then s
  else
    let s := { s.begin with epoch := s.epoch + 1 }
    let s := s.set fun state => { state with busy := true, error := .blank none }
    s.spawn (.logout s.epoch (s.issue .logout))

/-- `refresh()` up to its requests, and the task that waits for them. -/
def refresh (s : DesktopStore T) : DesktopStore T × Option ℕ :=
  if s.state.account.isNone then (s, none)
  else
    let s := { s with reads := s.reads + 1 }
    let s := s.set fun state => { state with loading := true, error := .blank none }
    (s.spawn (.refresh s.epoch s.reads (s.issue .refresh)), some s.next)

def poll (s : DesktopStore T) : DesktopStore T :=
  if s.state.account.isNone || s.pollPending || s.mutationPending then s
  else
    let s := { s with pollPending := true }
    s.spawn (.poll s.epoch s.reads (s.issue .poll))

def action (refresh : Bool) (s : DesktopStore T) : DesktopStore T :=
  if s.mutationPending || s.state.account.isNone then s
  else
    let s := { s.begin with reads := s.reads + 1 }
    let s := s.set fun state => { state with busy := true, loading := false, error := .blank none }
    s.spawn (.action s.epoch refresh (s.issue .work))

/-! ### The replies -/

/-- `finally` of a mutation. -/
def finish (epoch : ℕ) (f : UiSnapshot T → UiSnapshot T) (s : DesktopStore T) : DesktopStore T :=
  let s := { s with mutationPending := false }
  if epoch = s.epoch then s.set f else s

/-- `if (epoch === this.epoch) this.set({ error })`. -/
def fail (epoch : ℕ) (message : String) (issue : Issue T) (s : DesktopStore T) : DesktopStore T :=
  if epoch = s.epoch then
    s.set fun state => { state with error := ⟨some message, some issue⟩ }
  else s

def notBusy (state : UiSnapshot T) : UiSnapshot T := { state with busy := false }

def startReply (epoch : ℕ) (issue : Issue T) (reply : ApiReply (Option T.Account))
    (s : DesktopStore T) : DesktopStore T :=
  if epoch ≠ s.epoch then s
  else
    match reply with
    | .fulfilled account =>
      let s := s.set fun state => { state with account := account, ready := true }
      if account.isSome then s.refresh.1 else s
    | .rejected message =>
      s.set fun state => { state with ready := true, error := ⟨some message, some issue⟩ }

/-- After the reply the call waits for the refresh, or ends. -/
def authenticateReply (id epoch : ℕ) (issue : Issue T) (reply : ApiReply T.Account)
    (s : DesktopStore T) : DesktopStore T :=
  match reply with
  | .fulfilled account =>
    if epoch ≠ s.epoch then s.finish epoch notBusy
    else
      let s := s.set fun state => { state with account := some account, ready := true }
      let (s, refresh) := s.refresh
      s.goOn id (some (.authenticateRefresh epoch refresh))
  | .rejected message => (s.fail epoch message issue).finish epoch notBusy

def logoutFailed : String :=
  "已清除当前界面的账号数据，但未能确认退出操作或服务器会话撤销。"

def logoutReply (epoch : ℕ) (issue : Issue T) (reply : ApiReply Unit) (s : DesktopStore T) :
    DesktopStore T :=
  let s := if epoch ≠ s.epoch then s else s.set fun _ =>
    match reply with
    | .fulfilled () => { UiSnapshot.empty T with ready := true }
    | .rejected message =>
      { UiSnapshot.empty T with
        ready := true
        busy := true
        error := ⟨some (logoutFailed ++ message), some issue⟩ }
  s.finish epoch fun state => { state with busy := false, loading := false }

def orBlank {α : Type} (issue : Issue T) (blank : α) (reply : ApiReply α) : Brought T α :=
  match reply.value? with
  | some value => ⟨value, some issue⟩
  | none => .blank blank

def rejections (issue : Issue T) (messages : List (Option String)) : Brought T (Option String) :=
  let text := "；".intercalate (messages.filterMap id)
  if text = "" then .blank none else ⟨some text, some issue⟩

def refreshReply (epoch read : ℕ) (issue : Issue T) (resources : ApiReply (List T.Resource))
    (machines : ApiReply (List T.Machine)) (host : ApiReply T.LocalHost) (s : DesktopStore T) :
    DesktopStore T :=
  if epoch ≠ s.epoch || read ≠ s.reads then s
  else s.set fun state => { state with
    loading := false
    resources := orBlank issue [] resources
    machines := orBlank issue [] machines
    host := match host with
      | .fulfilled host => ⟨some host, some issue⟩
      | .rejected _ => .blank none
    error := rejections issue [resources.message?, machines.message?, host.message?] }

/-- The sessions that have failed since the last poll. -/
def failures (previous sessions : List UiSession) : List UiSession :=
  sessions.filter fun session => session.state = .failed &&
    !previous.any fun p => p.sessionId = session.sessionId && p.state = .failed

def failureText (session : UiSession) : String :=
  session.name ++ "：" ++
    session.error.getD "连接失败，请检查远端共享服务和系统权限。"

def pollReply (epoch read : ℕ) (issue : Issue T)
    (reply : ApiReply (List UiSession × List T.Transfer)) (s : DesktopStore T) : DesktopStore T :=
  let s := if epoch ≠ s.epoch || read ≠ s.reads then s else s.set fun state =>
    match reply with
    | .fulfilled (sessions, transfers) =>
      { state with
        sessions := ⟨sessions, some issue⟩
        transfers := ⟨transfers, some issue⟩
        error :=
          match failures state.sessions.value sessions with
          | [] => state.error
          | failed => ⟨some ("；".intercalate (failed.map failureText)), some issue⟩ }
    | .rejected message => { state with error := ⟨some message, some issue⟩ }
  { s with pollPending := false }

/-- `finally` of an action. -/
def finishAction (epoch : ℕ) (s : DesktopStore T) : DesktopStore T :=
  let s := s.finish epoch notBusy
  if epoch = s.epoch then s.poll else s

def actionReply (id epoch : ℕ) (refreshes : Bool) (issue : Issue T) (reply : ApiReply Unit)
    (s : DesktopStore T) : DesktopStore T :=
  match reply with
  | .fulfilled () =>
    if epoch ≠ s.epoch then s.finishAction epoch
    else if refreshes then
      let (s, refresh) := s.refresh
      s.goOn id (some (.actionRefresh epoch refresh))
    else s.finishAction epoch
  | .rejected message => (s.fail epoch message issue).finishAction epoch

/-- What the replies to a task's requests bring. -/
inductive Outcome (T : ApiTypes)
  | account (reply : ApiReply (Option T.Account))
  | authenticated (reply : ApiReply T.Account)
  | unit (reply : ApiReply Unit)
  | refreshed (resources : ApiReply (List T.Resource)) (machines : ApiReply (List T.Machine))
      (host : ApiReply T.LocalHost)
  | polled (reply : ApiReply (List UiSession × List T.Transfer))
  /-- The refresh it waited for has returned. -/
  | resumed

/-- Whether a task waits for this task, and that is still there. -/
def waitsFor (refresh : Option ℕ) (s : DesktopStore T) : Bool :=
  refresh.any fun id => (s.tasks id).isSome

/-- The task `id` is given what it waits for. -/
def resolve (id : ℕ) (outcome : Outcome T) (s : DesktopStore T) : Option (DesktopStore T) :=
  match s.tasks id, outcome with
  | some (.start epoch issue), .account reply =>
    some ((s.goOn id none).startReply epoch issue reply)
  | some (.authenticate epoch issue), .authenticated reply =>
    some ((s.goOn id none).authenticateReply id epoch issue reply)
  | some (.logout epoch issue), .unit reply =>
    some ((s.goOn id none).logoutReply epoch issue reply)
  | some (.refresh epoch read issue), .refreshed resources machines host =>
    some ((s.goOn id none).refreshReply epoch read issue resources machines host)
  | some (.poll epoch read issue), .polled reply =>
    some ((s.goOn id none).pollReply epoch read issue reply)
  | some (.action epoch refreshes issue), .unit reply =>
    some ((s.goOn id none).actionReply id epoch refreshes issue reply)
  | some (.authenticateRefresh epoch refresh), .resumed =>
    if s.waitsFor refresh then none else some ((s.goOn id none).finish epoch notBusy)
  | some (.actionRefresh epoch refresh), .resumed =>
    if s.waitsFor refresh then none else some ((s.goOn id none).finishAction epoch)
  | _, _ => none

end DesktopStore

inductive StoreEvent (T : ApiTypes)
  | clearError
  | authenticate
  | logout
  | refresh
  | poll
  | action (refresh : Bool)
  | resolve (id : ℕ) (outcome : DesktopStore.Outcome T)

namespace DesktopStore

variable {T : ApiTypes}

def step (s : DesktopStore T) : StoreEvent T → Option (DesktopStore T)
  | .clearError => some s.clearError
  | .authenticate => some s.authenticate
  | .logout => some s.logout
  | .refresh => some s.refresh.1
  | .poll => some s.poll
  | .action refresh => some (s.action refresh)
  | .resolve id outcome => s.resolve id outcome

end DesktopStore

end NebulaDesk
