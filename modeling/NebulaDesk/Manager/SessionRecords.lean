/-
Session records (`nebula-manager/src/routes/nodes.rs`, `report_session`;
`nebula-manager/src/routes/sessions.rs`, `close`).

A session is reported by two ends, through its gateway, and may be closed by its user.
The row is final once one of them has closed it: whatever comes later is answered as
done, and not recorded.

* **`reports_recorded`** — the state and the two dates follow the reports in every
  order; the counters are the largest ones reported exactly if nothing that comes after
  the first closing report exceeds what came until then, and in every order exactly if
  every closing report carries the largest counters;
* **`closing_order_counts`** — the two closing reports of one session, in both orders.
-/
import NebulaDesk.Lib.Runs
import NebulaDesk.Manager.Api

namespace NebulaDesk

inductive NodeKind
  | gateway
  | relay
deriving DecidableEq, Repr

structure AuthNode where
  id : ℕ
  kind : NodeKind
deriving DecidableEq, Repr

inductive SessionState
  | pending
  | active
  | closed
  | failed
deriving DecidableEq, Repr

/-- `state IN ('CLOSED', 'FAILED')`. -/
def SessionState.isFinal : SessionState → Bool
  | pending | active => false
  | closed | failed => true

/-- A row of `sessions`. -/
structure SessionRow where
  tenantId : ℕ
  userId : ℕ
  gatewayId : Option ℕ
  relayId : Option ℕ
  state : SessionState
  bytesUp : ℤ
  bytesDown : ℤ
  closeReason : Option Text
  startedAt : Option ℤ
  endedAt : Option ℤ
deriving DecidableEq

/-- The row as `create` inserts it. -/
def SessionRow.fresh (tenantId userId : ℕ) (gatewayId relayId : Option ℕ) : SessionRow where
  tenantId := tenantId
  userId := userId
  gatewayId := gatewayId
  relayId := relayId
  state := .pending
  bytesUp := 0
  bytesDown := 0
  closeReason := none
  startedAt := none
  endedAt := none

structure SessionReport where
  state : Text
  reason : Option Text
  /-- Bytes received from the client so far. -/
  bytesUp : Option ℤ
  /-- Bytes sent to the client so far. -/
  bytesDown : Option ℤ
deriving DecidableEq

/-- The states a node may report. -/
def SessionReport.parse (req : SessionReport) : Option SessionState :=
  if req.state = "ACTIVE".toList then some .active
  else if req.state = "CLOSED".toList then some .closed
  else if req.state = "FAILED".toList then some .failed
  else none

namespace SessionRow

variable (row : SessionRow)

/-- `{column} = $2`. -/
def assignedTo (node : AuthNode) : Bool :=
  match node.kind with
  | .gateway => row.gatewayId = some node.id
  | .relay => row.relayId = some node.id

/-- The `UPDATE` of a report.  Byte counters are cumulative from the node's point of view,
so taking the maximum keeps a retried or out-of-order report from moving them backwards. -/
def report (now : ℤ) (state : SessionState) (req : SessionReport) : SessionRow :=
  { row with
    state
    closeReason := req.reason.orElse fun _ => row.closeReason
    bytesUp := max row.bytesUp (req.bytesUp.getD 0)
    bytesDown := max row.bytesDown (req.bytesDown.getD 0)
    startedAt := if state = .active ∧ row.startedAt.isNone then some now else row.startedAt
    endedAt := if state.isFinal then some now else row.endedAt }

/-- The `UPDATE` of a user. -/
def close (now : ℤ) : SessionRow :=
  { row with
    state := .closed
    endedAt := some now
    closeReason := some "closed_by_user".toList }

end SessionRow

/-- The table `sessions`. -/
abbrev SessionRecords := ℕ → Option SessionRow

namespace SessionRecords

/-- `POST /v1/sessions/{id}/report`. -/
def reportSession (s : SessionRecords) (now : ℤ) (node : AuthNode) (id : ℕ) (req : SessionReport) :
    SessionRecords × Except ApiError Unit :=
  match req.parse with
  | none => (s, .error (.badRequest "state must be ACTIVE, CLOSED or FAILED"))
  | some state =>
    match (s id).filter (·.assignedTo node) with
    | none => (s, .error (.notFound "session"))
    | some row =>
      -- Both ends report the end of a session; the second finds the row already final.
      if row.state.isFinal then (s, .ok ())
      else (Function.update s id (some (row.report now state req)), .ok ())

/-- `tenant_id = $2 AND ($3::uuid IS NULL OR user_id = $3)`. -/
def mayClose (caller : AuthUser) (row : SessionRow) : Bool :=
  row.tenantId = caller.tenant && (caller.role.isAdmin || row.userId = caller.id)

/-- `DELETE /v1/sessions/{id}`. -/
def close (s : SessionRecords) (now : ℤ) (caller : AuthUser) (id : ℕ) :
    SessionRecords × Except ApiError Unit :=
  match (s id).filter (mayClose caller) with
  | none => (s, .error (.notFound "session"))
  | some row =>
    if row.state.isFinal then (s, .error (.notFound "session"))
    else (Function.update s id (some (row.close now)), .ok ())

inductive RecordEvent
  | report (now : ℤ) (node : AuthNode) (id : ℕ) (req : SessionReport)
  | close (now : ℤ) (caller : AuthUser) (id : ℕ)
deriving DecidableEq

def step (s : SessionRecords) : RecordEvent → SessionRecords
  | .report now node id req => (s.reportSession now node id req).1
  | .close now caller id => (s.close now caller id).1

/-! ### What an event says of a session -/

/-- What is said of a session: a state, the bytes up and the bytes down. -/
structure Saying where
  state : SessionState
  bytesUp : ℤ
  bytesDown : ℤ
deriving DecidableEq

/-- What an event says of the session, if it is about it and allowed to. -/
def saying (id : ℕ) (row : SessionRow) : RecordEvent → Option Saying
  | .report _ node id' req =>
    if id' = id ∧ row.assignedTo node then
      req.parse.map fun state => ⟨state, req.bytesUp.getD 0, req.bytesDown.getD 0⟩
    else none
  | .close _ caller id' =>
    if id' = id ∧ mayClose caller row then some ⟨.closed, 0, 0⟩ else none

/-- Everything that is said of the session, in the order of the events. -/
def said (id : ℕ) (row : SessionRow) (events : List RecordEvent) : List Saying :=
  events.filterMap (saying id row)

/-- The largest of some counters, all of which start at zero. -/
def most (f : Saying → ℤ) (l : List Saying) : ℤ := (l.map f).foldr max 0

/-- Up to the first closing one, and that one. -/
def counted : List Saying → List Saying
  | [] => []
  | a :: l => if a.state.isFinal then [a] else a :: counted l

/-- What comes after the first closing one. -/
def late : List Saying → List Saying
  | [] => []
  | a :: l => if a.state.isFinal then l else late l

/-- Nothing that comes after the first closing report exceeds what came until then. -/
def Settled (l : List Saying) : Prop :=
  ∀ a ∈ late l, a.bytesUp ≤ most Saying.bytesUp (counted l) ∧
    a.bytesDown ≤ most Saying.bytesDown (counted l)

/-- Every closing report carries the largest counters. -/
def Complete (l : List Saying) : Prop :=
  ∀ a ∈ l, a.state.isFinal = true →
    ∀ b ∈ l, b.bytesUp ≤ max a.bytesUp 0 ∧ b.bytesDown ≤ max a.bytesDown 0

/-- The state and the dates of session `id` over some events: it does not leave a final
state, and the dates are set when it has been active and has ended. -/
structure Dated (s : SessionRecords) (id : ℕ) (events : List RecordEvent) : Prop where
  stays : ∀ before after row, events = before ++ after →
    Runs.run step s before id = some row → row.state.isFinal = true →
    Runs.run step s events id = some row
  started : ∀ row, Runs.run step s events id = some row →
    (row.startedAt.isSome = true ↔ ∃ before row', before <+: events ∧
      Runs.run step s before id = some row' ∧ row'.state = .active)
  ended : ∀ row, Runs.run step s events id = some row →
    (row.endedAt.isSome = true ↔ row.state.isFinal = true)

/-- The counters of session `id` are the largest ones that were reported. -/
def Counted (s : SessionRecords) (id : ℕ) (row : SessionRow) (events : List RecordEvent) : Prop :=
  ∀ row', Runs.run step s events id = some row' →
    row'.bytesUp = most Saying.bytesUp (said id row events) ∧
      row'.bytesDown = most Saying.bytesDown (said id row events)

variable {s : SessionRecords} {id : ℕ} {row row' : SessionRow} {e : RecordEvent}

/-! ### One event -/

/-- Whom a row belongs to does not change. -/
structure SameParties (row row' : SessionRow) : Prop where
  tenant : row'.tenantId = row.tenantId
  user : row'.userId = row.userId
  gateway : row'.gatewayId = row.gatewayId
  relay : row'.relayId = row.relayId

theorem SameParties.saying_eq (h : SameParties row row') (id : ℕ) (e : RecordEvent) :
    saying id row' e = saying id row e := by
  cases e with
  | report now node id' req =>
    have hassigned : row'.assignedTo node = row.assignedTo node := by
      unfold SessionRow.assignedTo
      rw [h.gateway, h.relay]
    simp only [saying, hassigned]
  | close now caller id' =>
    have hmay : mayClose caller row' = mayClose caller row := by
      unfold mayClose
      rw [h.tenant, h.user]
    simp only [saying, hmay]

/-- What a row that is not final makes of an event that is about it. -/
def hear (row : SessionRow) : RecordEvent → SessionRow
  | .report now _ _ req => (req.parse.map fun state => row.report now state req).getD row
  | .close now .. => row.close now

/-- The row of session `id` under an event. -/
def rowStep (id : ℕ) (row : SessionRow) (e : RecordEvent) : SessionRow :=
  if (saying id row e).isSome ∧ row.state.isFinal = false then hear row e else row

theorem filter_row (h : s id = some row) (p : SessionRow → Bool) :
    (s id).filter p = if p row = true then some row else none := by
  rw [h, Option.filter_some]

theorem reportSession_self (h : s id = some row) (now : ℤ) (node : AuthNode) (req : SessionReport) :
    (s.reportSession now node id req).1 id = some (rowStep id row (.report now node id req)) := by
  unfold reportSession
  cases hparse : req.parse with
  | none => simpa [rowStep, saying, hparse] using h
  | some state =>
    simp only [filter_row h]
    by_cases hassigned : row.assignedTo node = true
    · by_cases hfinal : row.state.isFinal = true
      · simpa [rowStep, hassigned, hfinal] using h
      · simp [rowStep, saying, hear, hparse, hassigned, hfinal]
    · simpa [rowStep, saying, hassigned] using h

theorem close_self (h : s id = some row) (now : ℤ) (caller : AuthUser) :
    (s.close now caller id).1 id = some (rowStep id row (.close now caller id)) := by
  unfold close
  simp only [filter_row h]
  by_cases hmay : mayClose caller row = true
  · by_cases hfinal : row.state.isFinal = true
    · simpa [rowStep, hmay, hfinal] using h
    · simp [rowStep, saying, hear, hmay, hfinal]
  · simpa [rowStep, saying, hmay] using h

theorem reportSession_other {id' : ℕ} (hid : id' ≠ id) (now : ℤ) (node : AuthNode)
    (req : SessionReport) : (s.reportSession now node id' req).1 id = s id := by
  unfold reportSession
  cases req.parse with
  | none => rfl
  | some state =>
    cases (s id').filter (·.assignedTo node) with
    | none => rfl
    | some row =>
      by_cases hfinal : row.state.isFinal = true
      · simp [hfinal]
      · simp [hfinal, Function.update_of_ne hid.symm]

theorem close_other {id' : ℕ} (hid : id' ≠ id) (now : ℤ) (caller : AuthUser) :
    (s.close now caller id').1 id = s id := by
  unfold close
  cases (s id').filter (mayClose caller) with
  | none => rfl
  | some row =>
    by_cases hfinal : row.state.isFinal = true
    · simp [hfinal]
    · simp [hfinal, Function.update_of_ne hid.symm]

theorem step_self (h : s id = some row) (e : RecordEvent) :
    step s e id = some (rowStep id row e) := by
  cases e with
  | report now node id' req =>
    by_cases hid : id' = id
    · subst hid
      exact reportSession_self h now node req
    · have hrow : rowStep id row (.report now node id' req) = row := by
        simp [rowStep, saying, hid]
      rw [hrow, ← h]
      exact reportSession_other hid now node req
  | close now caller id' =>
    by_cases hid : id' = id
    · subst hid
      exact close_self h now caller
    · have hrow : rowStep id row (.close now caller id') = row := by
        simp [rowStep, saying, hid]
      rw [hrow, ← h]
      exact close_other hid now caller

theorem run_self (h : s id = some row) (events : List RecordEvent) :
    Runs.run step s events id = some (Runs.run (rowStep id) row events) := by
  induction events generalizing s row with
  | nil => exact h
  | cons e es ih => exact ih (step_self h e)

/-- What recording a saying does to a row. -/
structure Records (a : Saying) (row row' : SessionRow) : Prop where
  parties : SameParties row row'
  state : row'.state = a.state
  up : 0 ≤ row.bytesUp → row'.bytesUp = max row.bytesUp a.bytesUp
  down : 0 ≤ row.bytesDown → row'.bytesDown = max row.bytesDown a.bytesDown
  started : row'.startedAt.isSome = true ↔ row.startedAt.isSome = true ∨ row'.state = .active
  ended : row'.endedAt.isSome = true ↔ row.endedAt.isSome = true ∨ row'.state.isFinal = true

theorem records_hear {a : Saying} (h : saying id row e = some a) : Records a row (hear row e) := by
  cases e with
  | report now node id' req =>
    simp only [saying, Option.ite_none_right_eq_some, Option.map_eq_some_iff] at h
    obtain ⟨-, state, hparse, rfl⟩ := h
    have hhear : hear row (.report now node id' req) = row.report now state req := by
      simp [hear, hparse]
    rw [hhear]
    refine ⟨⟨rfl, rfl, rfl, rfl⟩, rfl, fun _ => rfl, fun _ => rfl, ?_, ?_⟩
    · cases hstarted : row.startedAt <;> by_cases hactive : state = .active <;>
        simp [SessionRow.report, hstarted, hactive]
    · cases hfinal : state.isFinal <;> simp [SessionRow.report, hfinal]
  | close now caller id' =>
    simp only [saying, Option.ite_none_right_eq_some] at h
    obtain ⟨-, h⟩ := h
    cases h
    refine ⟨⟨rfl, rfl, rfl, rfl⟩, rfl, fun h => (max_eq_left h).symm, fun h => (max_eq_left h).symm,
      ?_, ?_⟩
    · simp [hear, SessionRow.close]
    · simp [hear, SessionRow.close, SessionState.isFinal]

theorem rowStep_cases (id : ℕ) (row : SessionRow) (e : RecordEvent) :
    (rowStep id row e = row ∧ (saying id row e = none ∨ row.state.isFinal = true)) ∨
      ∃ a, saying id row e = some a ∧ row.state.isFinal = false ∧
        Records a row (rowStep id row e) := by
  unfold rowStep
  cases hsaying : saying id row e with
  | none => exact .inl ⟨by simp, .inl rfl⟩
  | some a =>
    cases hfinal : row.state.isFinal with
    | true => exact .inl ⟨by simp, .inr rfl⟩
    | false =>
      refine .inr ⟨a, rfl, rfl, ?_⟩
      simpa using records_hear hsaying

theorem rowStep_parties (id : ℕ) (row : SessionRow) (e : RecordEvent) :
    SameParties row (rowStep id row e) := by
  rcases rowStep_cases id row e with ⟨h, -⟩ | ⟨a, -, -, h⟩
  · rw [h]
    exact ⟨rfl, rfl, rfl, rfl⟩
  · exact h.parties

theorem rowStep_final (h : row.state.isFinal = true) : rowStep id row e = row := by
  simp [rowStep, h]

/-! ### A whole run -/

theorem run_final (h : row.state.isFinal = true) (events : List RecordEvent) :
    Runs.run (rowStep id) row events = row := by
  induction events with
  | nil => rfl
  | cons e es ih => rw [Runs.run_cons, rowStep_final h, ih]

theorem said_cons (id : ℕ) (row : SessionRow) (e : RecordEvent) (es : List RecordEvent) :
    said id row (e :: es) =
      (saying id row e).toList ++ said id (rowStep id row e) es := by
  have hsame : saying id (rowStep id row e) = saying id row :=
    funext ((rowStep_parties id row e).saying_eq id)
  unfold said
  rw [hsame, List.filterMap_cons]
  cases saying id row e <;> rfl

theorem most_cons (f : Saying → ℤ) (a : Saying) (l : List Saying) :
    most f (a :: l) = max (f a) (most f l) := rfl

theorem most_nonneg (f : Saying → ℤ) (l : List Saying) : 0 ≤ most f l := by
  induction l with
  | nil => exact le_rfl
  | cons a l ih => exact le_max_of_le_right ih

theorem run_counters (hup : 0 ≤ row.bytesUp) (hdown : 0 ≤ row.bytesDown)
    (hfinal : row.state.isFinal = false) (events : List RecordEvent) :
    (Runs.run (rowStep id) row events).bytesUp =
        max row.bytesUp (most Saying.bytesUp (counted (said id row events))) ∧
      (Runs.run (rowStep id) row events).bytesDown =
        max row.bytesDown (most Saying.bytesDown (counted (said id row events))) := by
  induction events generalizing row with
  | nil => exact ⟨(max_eq_left hup).symm, (max_eq_left hdown).symm⟩
  | cons e es ih =>
    rw [Runs.run_cons, said_cons]
    rcases rowStep_cases id row e with ⟨hrow, hnone⟩ | ⟨a, hsaying, -, hrec⟩
    · rw [hrow, hnone.resolve_right (by simp [hfinal])]
      exact ih hup hdown hfinal
    · simp only [hsaying, Option.toList_some, List.singleton_append, counted]
      have hup' := hrec.up hup
      have hdown' := hrec.down hdown
      by_cases ha : a.state.isFinal = true
      · rw [run_final (by rwa [hrec.state]), if_pos ha, most_cons, most_cons, hup', hdown']
        show _ = max _ (max _ 0) ∧ _ = max _ (max _ 0)
        omega
      · rw [Bool.not_eq_true] at ha
        have := ih (show 0 ≤ (rowStep id row e).bytesUp by omega) (by omega) (by rwa [hrec.state])
        rw [if_neg (by simp [ha]), most_cons, most_cons, this.1, this.2, hup', hdown']
        exact ⟨max_assoc .., max_assoc ..⟩

theorem run_started (hactive : row.state = .active → row.startedAt.isSome = true)
    (events : List RecordEvent) :
    (Runs.run (rowStep id) row events).startedAt.isSome = true ↔ row.startedAt.isSome = true ∨
      ∃ before, before <+: events ∧ (Runs.run (rowStep id) row before).state = .active := by
  induction events generalizing row with
  | nil =>
    refine ⟨.inl, ?_⟩
    rintro (h | ⟨before, hbefore, h⟩)
    · exact h
    · rw [List.prefix_nil.mp hbefore] at h
      exact hactive h
  | cons e es ih =>
    have hone : (rowStep id row e).startedAt.isSome = true ↔
        row.startedAt.isSome = true ∨ (rowStep id row e).state = .active := by
      rcases rowStep_cases id row e with ⟨hrow, -⟩ | ⟨a, -, -, hrec⟩
      · rw [hrow]
        exact ⟨.inl, fun h => h.elim (fun h => h) hactive⟩
      · exact hrec.started
    rw [Runs.run_cons, ih fun h => hone.mpr (.inr h), hone]
    constructor
    · rintro ((h | h) | ⟨before, hbefore, h⟩)
      · exact .inl h
      · exact .inr ⟨[e], by simp, h⟩
      · exact .inr ⟨e :: before, List.cons_prefix_cons.mpr ⟨rfl, hbefore⟩, h⟩
    · rintro (h | ⟨before, hbefore, h⟩)
      · exact .inl (.inl h)
      · cases before with
        | nil => exact .inl (.inl (hactive h))
        | cons b bs =>
          obtain ⟨rfl, hbs⟩ := List.cons_prefix_cons.mp hbefore
          exact .inr ⟨bs, hbs, h⟩

theorem run_ended (h : row.endedAt.isSome = true ↔ row.state.isFinal = true)
    (events : List RecordEvent) :
    (Runs.run (rowStep id) row events).endedAt.isSome = true ↔
      (Runs.run (rowStep id) row events).state.isFinal = true := by
  refine Runs.run_invariant
    (P := fun row : SessionRow => row.endedAt.isSome = true ↔ row.state.isFinal = true) ?_ h events
  intro row e h
  rcases rowStep_cases id row e with ⟨hrow, -⟩ | ⟨a, -, hfinal, hrec⟩
  · rwa [hrow]
  · rw [hrec.ended, h, hfinal]
    simp

theorem dated_of_fresh {tenant user : ℕ} {gateway relay : Option ℕ}
    (h : s id = some (.fresh tenant user gateway relay)) (events : List RecordEvent) :
    Dated s id events := by
  refine ⟨?_, ?_, ?_⟩
  · rintro before after row rfl hrow hfinal
    rw [run_self h] at hrow ⊢
    cases hrow
    rw [Runs.run_append, run_final hfinal]
  · intro row hrow
    rw [run_self h] at hrow
    cases hrow
    rw [run_started (by simp [SessionRow.fresh])]
    simp only [run_self h]
    constructor
    · rintro (hnone | ⟨before, hbefore, hactive⟩)
      · cases hnone
      · exact ⟨before, _, hbefore, rfl, hactive⟩
    · rintro ⟨before, _, hbefore, hrow', hactive⟩
      cases hrow'
      exact .inr ⟨before, hbefore, hactive⟩
  · intro row hrow
    rw [run_self h] at hrow
    cases hrow
    exact run_ended (by simp [SessionRow.fresh, SessionState.isFinal]) events

/-! ### What is lost -/

variable {l : List Saying}

theorem most_le_iff {f : Saying → ℤ} {b : ℤ} (hb : 0 ≤ b) : most f l ≤ b ↔ ∀ a ∈ l, f a ≤ b := by
  induction l with
  | nil => simpa [most] using hb
  | cons a l ih => rw [most_cons, max_le_iff, ih, List.forall_mem_cons]

theorem most_split (f : Saying → ℤ) (l : List Saying) :
    most f l = max (most f (counted l)) (most f (late l)) := by
  induction l with
  | nil => rfl
  | cons a l ih =>
    rw [counted, late]
    split
    · show max (f a) (most f l) = max (max (f a) 0) (most f l)
      have := most_nonneg f l
      omega
    · rw [most_cons, most_cons, ih, max_assoc]

theorem most_counted_iff (f : Saying → ℤ) (l : List Saying) :
    most f (counted l) = most f l ↔ ∀ a ∈ late l, f a ≤ most f (counted l) := by
  rw [most_split f l, eq_comm, max_eq_left_iff, most_le_iff (most_nonneg f _)]

theorem counted_iff_settled {tenant user : ℕ} {gateway relay : Option ℕ}
    (h : s id = some (.fresh tenant user gateway relay)) (events : List RecordEvent) :
    Counted s id (.fresh tenant user gateway relay) events ↔
      Settled (said id (.fresh tenant user gateway relay) events) := by
  have hrun := @run_counters id (.fresh tenant user gateway relay) le_rfl le_rfl rfl events
  have hfresh : ∀ f l, max (0 : ℤ) (most f l) = most f l := fun f l =>
    max_eq_right (most_nonneg f l)
  simp only [SessionRow.fresh] at hrun
  rw [hfresh, hfresh] at hrun
  unfold Counted Settled
  rw [run_self h]
  simp only [Option.some.injEq, forall_eq']
  rw [forall₂_and]
  exact and_congr
    ((Eq.congr_left hrun.1).trans (most_counted_iff Saying.bytesUp _))
    ((Eq.congr_left hrun.2).trans (most_counted_iff Saying.bytesDown _))

theorem mem_of_mem_late {a : Saying} (h : a ∈ late l) : a ∈ l := by
  induction l with
  | nil => exact h
  | cons b l ih =>
    rw [late] at h
    split at h
    · exact List.mem_cons_of_mem _ h
    · exact List.mem_cons_of_mem _ (ih h)

theorem exists_final_of_late {a : Saying} (h : a ∈ late l) :
    ∃ b ∈ l, b.state.isFinal = true ∧
      ∀ f : Saying → ℤ, max (f b) 0 ≤ most f (counted l) := by
  induction l with
  | nil => cases h
  | cons b l ih =>
    rw [late] at h
    rw [counted]
    split at h
    · next hfinal =>
      refine ⟨b, List.mem_cons_self, hfinal, ?_⟩
      intro f
      rw [if_pos hfinal]
      exact le_rfl
    · next hfinal =>
      obtain ⟨c, hc, hcfinal, hmost⟩ := ih h
      refine ⟨c, List.mem_cons_of_mem _ hc, hcfinal, ?_⟩
      intro f
      rw [if_neg hfinal, most_cons]
      exact le_max_of_le_right (hmost f)

theorem Complete.settled (h : Complete l) : Settled l := by
  intro a ha
  obtain ⟨b, hb, hfinal, hmost⟩ := exists_final_of_late ha
  obtain ⟨hup, hdown⟩ := h b hb hfinal a (mem_of_mem_late ha)
  exact ⟨hup.trans (hmost _), hdown.trans (hmost _)⟩

theorem Complete.perm {l l' : List Saying} (hperm : l'.Perm l) (h : Complete l) : Complete l' := by
  intro a ha hfinal b hb
  exact h a (hperm.subset ha) hfinal b (hperm.subset hb)

/-- If every order is settled, so is the one in which a given closing report comes
first. -/
theorem complete_of_orders (row : SessionRow)
    (h : ∀ order : List RecordEvent, order.Perm events → Settled (said id row order)) :
    Complete (said id row events) := by
  intro a ha hfinal b hb
  obtain ⟨e, he, hsaying⟩ := List.mem_filterMap.mp ha
  have hperm : (e :: events.erase e).Perm events := (List.perm_cons_erase he).symm
  have hsaid : said id row (e :: events.erase e) = a :: said id row (events.erase e) := by
    rw [said, List.filterMap_cons, hsaying]
    rfl
  have hsettled := h _ hperm
  rw [hsaid] at hsettled
  have hb' : b ∈ said id row (e :: events.erase e) := (hperm.symm.filterMap _).subset hb
  rw [hsaid] at hb'
  rcases List.mem_cons.mp hb' with rfl | hlate
  · exact ⟨le_max_left .., le_max_left ..⟩
  · have := hsettled b (by rwa [late, if_pos hfinal])
    rwa [counted, if_pos hfinal] at this

/-- The state and the dates of a new session follow what is reported, in every order; its
counters are the largest reported exactly if nothing larger comes after the first
closing report, and in every order exactly if every closing report has the largest. -/
theorem reports_recorded {tenant user : ℕ} {gateway relay : Option ℕ}
    (h : s id = some (.fresh tenant user gateway relay)) (events : List RecordEvent) :
    Dated s id events ∧
      ((Dated s id events ∧ Counted s id (.fresh tenant user gateway relay) events) ↔
        Settled (said id (.fresh tenant user gateway relay) events)) ∧
      ((∀ order : List RecordEvent, order.Perm events →
          Dated s id order ∧ Counted s id (.fresh tenant user gateway relay) order) ↔
        Complete (said id (.fresh tenant user gateway relay) events)) := by
  have hone : ∀ order : List RecordEvent,
      (Dated s id order ∧ Counted s id (.fresh tenant user gateway relay) order) ↔
        Settled (said id (.fresh tenant user gateway relay) order) := by
    intro order
    rw [and_iff_right (dated_of_fresh h order), counted_iff_settled h order]
  refine ⟨dated_of_fresh h events, hone events, ?_⟩
  constructor
  · intro horders
    exact complete_of_orders _ fun order hperm => (hone order).mp (horders order hperm)
  · intro hcomplete order hperm
    exact (hone order).mpr (hcomplete.perm (hperm.filterMap _)).settled

/-! ### The two closing reports of a session -/

/-- What `serve_client` reports once its client's connection is gone. -/
def gatewayClosed : SessionReport where
  state := "CLOSED".toList
  reason := some "client_disconnected".toList
  bytesUp := none
  bytesDown := none

/-- What `pump_agent` reports of an agent's `SessionClosed`: the agent's "sent" is the
client's "down". -/
def agentClosed (sent received : ℤ) : SessionReport where
  state := "CLOSED".toList
  reason := none
  bytesUp := some received
  bytesDown := some sent

def sampleRecords : SessionRecords :=
  Function.update (fun _ => none) 1 (some (.fresh 5 6 (some 7) none))

def sampleGatewayNode : AuthNode := ⟨7, .gateway⟩

/-- Whichever report comes first decides whether the counters of the agent are kept. -/
theorem closing_order_counts :
    (Runs.run step sampleRecords
        [.report 10 sampleGatewayNode 1 (agentClosed 4096 1024),
          .report 11 sampleGatewayNode 1 gatewayClosed] 1).map (fun r => (r.bytesUp, r.bytesDown)) =
        some (1024, 4096) ∧
      (Runs.run step sampleRecords
        [.report 10 sampleGatewayNode 1 gatewayClosed,
          .report 11 sampleGatewayNode 1 (agentClosed 4096 1024)] 1).map
            (fun r => (r.bytesUp, r.bytesDown)) = some (0, 0) ∧
      ¬ Counted sampleRecords 1 (.fresh 5 6 (some 7) none)
        [.report 10 sampleGatewayNode 1 gatewayClosed,
          .report 11 sampleGatewayNode 1 (agentClosed 4096 1024)] := by
  refine ⟨by decide, by decide, ?_⟩
  intro hcounted
  cases hrow : Runs.run step sampleRecords [.report 10 sampleGatewayNode 1 gatewayClosed,
      .report 11 sampleGatewayNode 1 (agentClosed 4096 1024)] 1 with
  | none => revert hrow; decide
  | some row =>
    have hup := (hcounted row hrow).1
    have hzero : row.bytesUp = 0 := by
      have : (Runs.run step sampleRecords [.report 10 sampleGatewayNode 1 gatewayClosed,
        .report 11 sampleGatewayNode 1 (agentClosed 4096 1024)] 1).map (·.bytesUp) = some 0 := by
        decide
      rw [hrow] at this
      exact Option.some.inj this
    rw [hzero] at hup
    revert hup
    decide

theorem reports_recorded_closed :
    Counted sampleRecords 1 (.fresh 5 6 (some 7) none)
      [.report 10 sampleGatewayNode 1 (agentClosed 4096 1024),
        .report 11 sampleGatewayNode 1 gatewayClosed] := by
  have hrow : sampleRecords 1 = some (.fresh 5 6 (some 7) none) := rfl
  have h := reports_recorded hrow
    [.report 10 sampleGatewayNode 1 (agentClosed 4096 1024),
      .report 11 sampleGatewayNode 1 gatewayClosed]
  have hsettled : Settled (said 1 (.fresh 5 6 (some 7) none)
      [.report 10 sampleGatewayNode 1 (agentClosed 4096 1024),
        .report 11 sampleGatewayNode 1 gatewayClosed]) := by
    unfold Settled
    decide
  exact (h.2.1.mpr hsettled).2

end SessionRecords

end NebulaDesk
