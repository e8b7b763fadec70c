/-
The gateway's count of its connections (`nebula-gateway/src/lib.rs`, `Gateway::run`;
`nebula-gateway/src/manager.rs`).

A connection is counted before its handshake, and the count goes down behind the `await` of its
dispatch.  A dispatch that panics does not get there.  The error of a failed call to the manager
is cut at byte 512, which panics inside a character.

* **`connections_accounted`** — without panics the count is that of the dispatches in progress,
  it never exceeds the limit, and a call panics exactly on such an answer;
* **`connection_leaks`** — a body with a two-byte character behind 511 bytes.
-/
import NebulaDesk.Lib.Runs
import NebulaDesk.Proto.Surface

namespace NebulaDesk

namespace ConnectionCount

open Runs

/-! ### Calls to the manager -/

structure Response where
  status : ℕ
  /-- The body, if it can be read. -/
  text : Option Text
  /-- The body is what a call that reads it expects. -/
  decodes : Bool
deriving DecidableEq

inductive ManagerError
  | http
  | unauthorized
  | status (status : ℕ) (body : Text)
deriving DecidableEq

/-- What comes of a call that does not succeed. -/
inductive Failure
  | error (e : ManagerError)
  | panic
deriving DecidableEq

/-- `String::truncate`, which panics (`none`) inside a character. -/
def truncate : ℕ → Text → Option Text
  | _, [] => some []
  | 0, _ => some []
  | n + 1, c :: body =>
    if c.utf8Size ≤ n + 1 then (truncate (n + 1 - c.utf8Size) body).map (c :: ·) else none

def statusError (r : Response) : Failure :=
  if r.status = 401 then .error .unauthorized
  else
    match truncate 512 (r.text.getD []) with
    | some body => .error (.status r.status body)
    | none => .panic

/-- `is_success`. -/
def Response.isSuccess (r : Response) : Bool := 200 ≤ r.status && r.status < 300

def expectSuccess (r : Response) : Except Failure Unit :=
  if r.isSuccess then .ok () else .error (statusError r)

def parse (r : Response) : Except Failure Unit :=
  if !r.isSuccess then .error (statusError r)
  else if r.decodes then .ok () else .error (.error .http)

inductive Call
  | verifyMachine
  | markMachineDraining
  | reportSession
  | jwks
deriving DecidableEq

def Call.read : Call → Response → Except Failure Unit
  | verifyMachine, r =>
    if r.status = 401 then .error (.error .unauthorized) else expectSuccess r
  | markMachineDraining, r => expectSuccess r
  | reportSession, r => expectSuccess r
  | jwks, r => parse r

/-- A call whose response does not come fails too. -/
def Call.run (call : Call) : Option Response → Except Failure Unit
  | none => .error (.error .http)
  | some r => call.read r

/-! ### The accept loop -/

structure Connections where
  /-- The counter. -/
  connections : ℕ
  /-- What the accept loop has loaded and found below the limit. -/
  loaded : Option ℕ
  /-- The dispatches in progress. -/
  running : List ℕ
  spawned : ℕ
  /-- The dispatches that have panicked. -/
  panicked : ℕ
deriving DecidableEq

def start : Connections := ⟨0, none, [], 0, 0⟩

inductive Event
  /-- The endpoint accepts; the counter is loaded. -/
  | incoming
  /-- The counter goes up, and the dispatch is spawned. -/
  | spawn
  /-- Dispatch `c` has the answer to a call. -/
  | call (c : ℕ) (call : Call) (answer : Option Response)
  /-- Dispatch `c` ends, well or with an error. -/
  | ends (c : ℕ) (result : Except Unit Unit)
  /-- Dispatch `c` panics for another reason. -/
  | panics (c : ℕ)
deriving DecidableEq

namespace Connections

/-- The task unwinds; what it would have done after the `await` is not done. -/
def unwind (s : Connections) (c : ℕ) : Connections :=
  { s with running := s.running.erase c, panicked := s.panicked + 1 }

def step (maxConnections : ℕ) (s : Connections) : Event → Option Connections
  | .incoming =>
    if s.loaded.isSome then none
    else if maxConnections ≤ s.connections then some s
    else some { s with loaded := some s.connections }
  | .spawn =>
    match s.loaded with
    | some _ => some { s with
        connections := s.connections + 1, loaded := none
        running := s.running ++ [s.spawned], spawned := s.spawned + 1 }
    | none => none
  | .call c call answer =>
    if c ∈ s.running then
      match call.run answer with
      | .error .panic => some (s.unwind c)
      -- Any other error the dispatch handles, or ends with.
      | _ => some s
    else none
  | .ends c _ =>
    if c ∈ s.running then
      some { s with connections := s.connections - 1, running := s.running.erase c }
    else none
  | .panics c => if c ∈ s.running then some (s.unwind c) else none

end Connections

/-! ### When a call panics -/

/-- Byte `n` begins a character, or ends the text. -/
def IsBoundary (n : ℕ) (body : Text) : Prop :=
  ∃ k ∈ List.range (body.length + 1), Text.len (body.take k) = n

instance (n : ℕ) (body : Text) : Decidable (IsBoundary n body) :=
  inferInstanceAs (Decidable (∃ k ∈ List.range (body.length + 1), Text.len (body.take k) = n))

/-- A success, a refusal of the credential, or a body that can be cut. -/
def Clean (r : Response) : Prop :=
  r.isSuccess = true ∨ r.status = 401 ∨ Text.len (r.text.getD []) ≤ 512 ∨
    IsBoundary 512 (r.text.getD [])

instance (r : Response) : Decidable (Clean r) :=
  inferInstanceAs (Decidable (_ ∨ _ ∨ _ ∨ _))

theorem len_cons (c : Char) (body : Text) : Text.len (c :: body) = c.utf8Size + Text.len body := by
  rw [Text.len, List.map_cons, List.sum_cons]
  rfl

theorem isBoundary_zero (body : Text) : IsBoundary 0 body :=
  ⟨0, List.mem_range.mpr (Nat.succ_pos _), rfl⟩

theorem isBoundary_cons {n : ℕ} {c : Char} {body : Text} (h : 0 < n) :
    IsBoundary n (c :: body) ↔ c.utf8Size ≤ n ∧ IsBoundary (n - c.utf8Size) body := by
  constructor
  · rintro ⟨k, hk, hlen⟩
    cases k with
    | zero =>
      rw [List.take_zero] at hlen
      exact absurd hlen h.ne
    | succ k =>
      rw [List.take_succ_cons, len_cons] at hlen
      rw [List.mem_range, List.length_cons] at hk
      exact ⟨by omega, k, List.mem_range.mpr (by omega), by omega⟩
  · rintro ⟨hle, k, hk, hlen⟩
    rw [List.mem_range] at hk
    refine ⟨k + 1, List.mem_range.mpr (by rw [List.length_cons]; omega), ?_⟩
    rw [List.take_succ_cons, len_cons]
    omega

theorem truncate_eq_none_iff {n : ℕ} {body : Text} :
    truncate n body = none ↔ n < Text.len body ∧ ¬ IsBoundary n body := by
  induction body generalizing n with
  | nil =>
    have hnil : truncate n [] = some [] := by rw [truncate]
    rw [hnil]
    exact iff_of_false nofun fun h => Nat.not_lt_zero n h.1
  | cons c body ih =>
    cases n with
    | zero =>
      rw [truncate]
      · exact iff_of_false nofun fun h => h.2 (isBoundary_zero _)
      · exact nofun
    | succ n =>
      rw [truncate, len_cons, isBoundary_cons (Nat.succ_pos n)]
      split
      · next hle =>
        rw [Option.map_eq_none_iff, ih]
        constructor
        · rintro ⟨hlt, hno⟩
          exact ⟨by omega, fun h => hno h.2⟩
        · rintro ⟨hlt, hno⟩
          exact ⟨by omega, fun h => hno ⟨hle, h⟩⟩
      · next hgt => exact iff_of_true rfl ⟨by omega, fun h => hgt h.1⟩

theorem statusError_eq_panic_iff {r : Response} :
    statusError r = .panic ↔ r.status ≠ 401 ∧ 512 < Text.len (r.text.getD []) ∧
      ¬ IsBoundary 512 (r.text.getD []) := by
  rw [← truncate_eq_none_iff, statusError]
  split
  · next h => exact iff_of_false nofun fun hne => hne.1 h
  · next h =>
    cases truncate 512 (r.text.getD []) with
    | none => exact iff_of_true rfl ⟨h, rfl⟩
    | some body => exact iff_of_false nofun fun hnone => nomatch hnone.2

theorem expectSuccess_eq_panic_iff {r : Response} :
    expectSuccess r = .error .panic ↔ ¬ Clean r := by
  unfold expectSuccess Clean
  by_cases hok : r.isSuccess = true
  · rw [if_pos hok]
    exact iff_of_false nofun fun h => h (.inl hok)
  · rw [if_neg hok, Except.error.injEq, statusError_eq_panic_iff]
    simp only [not_or, not_le]
    exact ⟨fun h => ⟨hok, h⟩, fun h => h.2⟩

theorem run_eq_panic_iff (call : Call) (answer : Option Response) :
    call.run answer = .error .panic ↔ ∃ r, answer = some r ∧ ¬ Clean r := by
  cases answer with
  | none => exact iff_of_false nofun fun ⟨_, h, _⟩ => nomatch h
  | some r =>
    have hread : call.read r = .error .panic ↔ ¬ Clean r := by
      cases call with
      | verifyMachine =>
        rw [Call.read]
        split
        · next h => exact iff_of_false nofun fun hclean => hclean (.inr (.inl h))
        · exact expectSuccess_eq_panic_iff
      | markMachineDraining => exact expectSuccess_eq_panic_iff
      | reportSession => exact expectSuccess_eq_panic_iff
      | jwks =>
        rw [← expectSuccess_eq_panic_iff, Call.read, parse, expectSuccess]
        cases r.isSuccess with
        | false => exact Iff.rfl
        | true =>
          cases r.decodes with
          | false => exact iff_of_false nofun nofun
          | true => exact iff_of_false nofun nofun
    rw [Call.run, hread]
    exact ⟨fun h => ⟨r, rfl, h⟩, fun ⟨r', hr, h⟩ => Option.some.inj hr ▸ h⟩

/-! ### The count -/

namespace Connections

/-- No dispatch panics: every answer is clean, and nothing else goes wrong. -/
def steady : Event → Bool
  | .call _ _ (some r) => Clean r
  | .panics _ => false
  | _ => true

/-- The runs without panics. -/
def stepSteady (maxConnections : ℕ) (s : Connections) (e : Event) : Option Connections :=
  if steady e then s.step maxConnections e else none

structure Accounted (maxConnections : ℕ) (s : Connections) : Prop where
  count : s.connections = s.running.length
  bound : s.connections ≤ maxConnections

structure Inv (maxConnections : ℕ) (s : Connections) : Prop where
  count : s.connections = s.running.length + s.panicked
  bound : s.connections ≤ maxConnections
  /-- Behind the load the counter only goes down. -/
  loaded : ∀ n, s.loaded = some n → s.connections ≤ n ∧ n < maxConnections

variable {maxConnections : ℕ} {s s' : Connections} {e : Event}

theorem Inv.unwind (h : Inv maxConnections s) {c : ℕ} (hc : c ∈ s.running) :
    Inv maxConnections (s.unwind c) where
  count := by
    have hcount := h.count
    have hlength := List.length_erase_of_mem hc
    have hpos := List.length_pos_of_mem hc
    show s.connections = (s.running.erase c).length + (s.panicked + 1)
    omega
  __ := h

theorem Inv.step (h : Inv maxConnections s) (hs : s.step maxConnections e = some s') :
    Inv maxConnections s' := by
  cases e with
  | incoming =>
    simp only [Connections.step] at hs
    split at hs
    · cases hs
    · split at hs
      · cases hs
        exact h
      · next hlt =>
        cases hs
        refine ⟨h.count, h.bound, fun n hn => ?_⟩
        cases hn
        exact ⟨le_rfl, not_le.mp hlt⟩
  | spawn =>
    simp only [Connections.step] at hs
    split at hs
    · next n hn =>
      cases hs
      obtain ⟨hle, hlt⟩ := h.loaded n hn
      refine ⟨?_, ?_, nofun⟩
      · have hcount := h.count
        show s.connections + 1 = (s.running ++ [s.spawned]).length + s.panicked
        rw [List.length_append, List.length_singleton]
        omega
      · show s.connections + 1 ≤ maxConnections
        omega
    · cases hs
  | call c call answer =>
    simp only [Connections.step] at hs
    split at hs
    · next hc =>
      split at hs
      · cases hs
        exact h.unwind hc
      · cases hs
        exact h
    · cases hs
  | ends c result =>
    obtain ⟨hc, rfl⟩ := Runs.some_of_guard hs
    have hcount := h.count
    have hbound := h.bound
    have hlength := List.length_erase_of_mem hc
    have hpos := List.length_pos_of_mem hc
    refine ⟨?_, ?_, fun n hn => ?_⟩
    · show s.connections - 1 = (s.running.erase c).length + s.panicked
      omega
    · show s.connections - 1 ≤ maxConnections
      omega
    · obtain ⟨hle, hlt⟩ := h.loaded n hn
      exact ⟨(Nat.sub_le _ _).trans hle, hlt⟩
  | panics c =>
    obtain ⟨hc, rfl⟩ := Runs.some_of_guard hs
    exact h.unwind hc

theorem panicked_of_stepSteady (hs : s.stepSteady maxConnections e = some s') :
    s'.panicked = s.panicked := by
  unfold stepSteady at hs
  split at hs
  · next hsteady =>
    cases e with
    | incoming =>
      simp only [Connections.step] at hs
      split at hs
      · cases hs
      · split at hs <;> cases hs <;> rfl
    | spawn =>
      simp only [Connections.step] at hs
      split at hs
      · cases hs
        rfl
      · cases hs
    | call c call answer =>
      simp only [Connections.step] at hs
      split at hs
      · split at hs
        · next hpanic =>
          obtain ⟨r, rfl, hclean⟩ := (run_eq_panic_iff call answer).mp hpanic
          exact absurd (of_decide_eq_true hsteady) hclean
        · cases hs
          rfl
      · cases hs
    | ends c result =>
      obtain ⟨-, rfl⟩ := Runs.some_of_guard hs
      rfl
    | panics c => cases hsteady
  · cases hs

theorem inv_start : Inv maxConnections start := ⟨rfl, Nat.zero_le _, nofun⟩

/-- **The gateway's count.** -/
theorem connections_accounted (maxConnections : ℕ) :
    (∀ s, Reach (stepSteady maxConnections) start s → Accounted maxConnections s) ∧
      (∀ s, Reach (Connections.step maxConnections) start s → s.connections ≤ maxConnections ∧
        (s.connections = s.running.length ↔ s.panicked = 0)) ∧
      ∀ (call : Call) (answer : Option Response),
        call.run answer = .error .panic ↔ ∃ r, answer = some r ∧ ¬ Clean r := by
  refine ⟨fun s hr => ?_, fun s hr => ?_, run_eq_panic_iff⟩
  · have hinv : Inv maxConnections s ∧ s.panicked = 0 := by
      refine Reach.invariant (P := fun s => Inv maxConnections s ∧ s.panicked = 0) hr
        ⟨inv_start, rfl⟩ fun s s' e h hs => ⟨?_, ?_⟩
      · unfold stepSteady at hs
        split at hs
        · exact h.1.step hs
        · cases hs
      · rw [panicked_of_stepSteady hs, h.2]
    obtain ⟨⟨hcount, hbound, -⟩, hzero⟩ := hinv
    exact ⟨by omega, hbound⟩
  · obtain ⟨hcount, hbound, -⟩ := hr.invariant inv_start fun _ _ _ h hs => Inv.step h hs
    exact ⟨hbound, by omega⟩

def refusedReport : List Event :=
  [.incoming, .spawn, .incoming, .call 0 .reportSession (some ⟨500, some "oops".toList, false⟩),
   .spawn, .ends 0 (.error ())]

theorem connections_accounted_refused :
    ∃ s, tryRun (stepSteady 2) start refusedReport = some s ∧ Accounted 2 s :=
  have hrun : tryRun (stepSteady 2) start refusedReport = some _ := rfl
  ⟨_, hrun, (connections_accounted 2).1 _ (reach_of_tryRun .init hrun)⟩

def longPage : Response := ⟨502, some (List.replicate 511 'a' ++ "é".toList), false⟩

/-- With a limit of one, nobody is let in any more. -/
theorem connection_leaks :
    ∃ s, tryRun (Connections.step 1) start [.incoming, .spawn, .call 0 .reportSession (some longPage)]
        = some s ∧
      s.running = [] ∧ s.connections = 1 ∧ ¬ Accounted 1 s ∧
      s.step 1 .incoming = some s := by
  refine ⟨⟨1, none, [], 1, 1⟩, by decide +kernel, rfl, rfl, fun h => ?_, rfl⟩
  exact absurd h.count (by decide)

end Connections

end ConnectionCount

end NebulaDesk
