/-
Logins isolate sessions.

Every session that is registered or runs belongs to the invalidation that has returned last,
at most one of them is active for a resource, at most `MAX_SESSIONS` are not done, and none is
active again once it has ceased to be.
-/
import NebulaDesk.Desktop.SessionsRequests

namespace NebulaDesk

namespace Sessions

/-! ### What is said of a state -/

/-- The session is listed as connecting or connected. -/
def Active (s : Sessions) (id : ℕ) : Prop :=
  ∃ view, (id, view) ∈ s.registry ∧ view.state.active = true

def isRunning (s : Sessions) (id : ℕ) : Bool := (s.children id).any (·.running)

def Task.invalidates : Task → Bool
  | .invalidating _ | .stopping .. => true
  | _ => false

structure Isolated (s : Sessions) : Prop where
  account : ∀ a, s.account = some a → a = s.returned
  returned : (∀ c, (s.tasks c).invalidates = false) → s.returned = s.generation
  /-- What is registered or runs was started under the present account. -/
  sessions : ∀ id, id ∈ s.keys ∨ s.isRunning id = true →
    ∃ child, s.children id = some child ∧ child.account = s.returned
  resource : ∀ e ∈ s.registry, ∀ e' ∈ s.registry, e.2.state.active = true →
    e'.2.state.active = true → e.2.resourceId = e'.2.resourceId → e.1 = e'.1
  limit : ∀ ids : Finset ℕ, (∀ id ∈ ids, ∃ child, s.children id = some child ∧ child.done = false) →
    ids.card ≤ MAX_SESSIONS

structure Later (s s' : Sessions) : Prop where
  /-- No session is started for an account of before. -/
  account : ∀ id child, s.children id = none → s'.children id = some child →
    s.returned ≤ child.account
  inactive : ∀ id, (s.children id).isSome = true → ¬ s.Active id → ¬ s'.Active id

variable {s s' t : Sessions} {e : Event} {c id : ℕ}

/-! ### Later states -/

/-- What one step does to the sessions there are. -/
structure Onward (s t : Sessions) : Prop where
  returned : s.returned ≤ t.returned
  started : ∀ id child, s.children id = none → t.children id = some child →
    child.account = s.returned
  children : ∀ id old, s.children id = some old → ∃ new, t.children id = some new ∧
    new.account = old.account
  inactive : ∀ id, (s.children id).isSome = true → t.Active id → s.Active id

theorem Quiet.onward (h : Quiet s t) : Onward s t where
  returned := h.returned.ge
  started := by
    intro id child hnone hsome
    rw [(h.children id).mpr hnone] at hsome
    cases hsome
  children := by
    intro id old hold
    cases hnew : t.children id with
    | none =>
      rw [(h.children id).mp hnew] at hold
      cases hold
    | some new =>
      obtain ⟨old', hold', haccount, -⟩ := h.child id new hnew
      obtain rfl := Option.some.inj (hold.symm.trans hold')
      exact ⟨new, rfl, haccount⟩
  inactive := by
    rintro id - ⟨view, hmem, hactive⟩
    obtain ⟨e, he, rfl, -, ha⟩ := h.views _ hmem hactive
    exact ⟨e.2, he, ha⟩

theorem Onward.of_same (hreturned : s.returned ≤ t.returned) (hchildren : t.children = s.children)
    (hregistry : ∀ e ∈ t.registry, e ∈ s.registry) : Onward s t where
  returned := hreturned
  started := by
    intro id child hnone hsome
    rw [hchildren, hnone] at hsome
    cases hsome
  children := fun id old hold => ⟨old, by rw [hchildren, hold], rfl⟩
  inactive := fun id _ ⟨view, hmem, hactive⟩ => ⟨view, hregistry _ hmem, hactive⟩

theorem onward_insert {account : ℕ} {view : Session} (haccount : account = s.returned)
    (hunused : s.children id = none) : Onward s (s.retain.insert id account view) where
  returned := le_rfl
  started := by
    intro i child hnone hsome
    by_cases hi : i = id
    · subst hi
      rw [children_insert_self] at hsome
      cases hsome
      exact haccount
    · rw [children_insert hi] at hsome
      exact absurd (hnone.symm.trans hsome) nofun
  children := by
    intro i old hold
    refine ⟨old, ?_, rfl⟩
    rw [children_insert]
    · exact hold
    · rintro rfl
      exact absurd (hunused.symm.trans hold) nofun
  inactive := by
    rintro i hi ⟨view', hmem, hactive⟩
    rcases List.mem_cons.mp hmem with heq | hmem
    · cases heq
      rw [hunused] at hi
      cases hi
    · exact ⟨view', (List.mem_filter.mp (List.mem_filter.mp hmem).1).1, hactive⟩

theorem onward_start {connect : Connect} {resource : Resource} {ticket : Ticket} {spawned : Bool}
    (h : s.Inv) (hc : s.tasks c = .starting connect resource ticket) :
    Onward s ({ (s.start connect.account resource ticket connect.profile spawned).1 with
      auth := none }.giveUp c) := by
  have hthis := h.tasks c
  rw [hc] at hthis
  obtain ⟨⟨⟨haccount, hle⟩, -, -, hunused⟩, hg⟩ := hthis.relies
  have hreturned : s.returned = s.generation := le_antisymm h.core.le (hg ▸ hle)
  have hon : Onward s (s.start connect.account resource ticket connect.profile spawned).1 := by
    obtain heq | heq | ⟨-, heq⟩ :=
      s.start_cases connect.account resource ticket connect.profile spawned
    · rw [heq]
      exact .of_same le_rfl rfl fun _ h => h
    · rw [heq]
      exact .of_same le_rfl rfl fun _ h => (List.mem_filter.mp h).1
    · rw [heq]
      exact onward_insert (haccount.trans (hg.symm.trans hreturned.symm)) hunused.1
  exact { hon with }

theorem onward_stepRequest (h : s.Inv) (hs : s.stepRequest e = some s') : Onward s s' := by
  cases e with
  | stopAll c =>
    simp only [stepRequest] at hs
    split at hs
    · cases hs
      have hon := (quiet_stopAll (s := s) s.keys).onward
      exact { hon with }
    · cases hs
  | disconnect c id =>
    simp only [stepRequest] at hs
    split at hs
    · split at hs
      · cases hs
        have hon := (quiet_stopAll (s := s) [id]).onward
        exact { hon with }
      · cases hs
        exact .of_same le_rfl rfl fun _ h => h
    · cases hs
  | start c spawned =>
    simp only [stepRequest] at hs
    split at hs
    · next connect resource ticket hc =>
      cases hs
      exact onward_start h hc
    · cases hs
  | invalidated c =>
    simp only [stepRequest] at hs
    split at hs
    · obtain ⟨-, rfl⟩ := Runs.some_of_guard hs
      exact .of_same h.core.le rfl fun _ hmem => absurd hmem List.not_mem_nil
    · cases hs
  | _ =>
    simp only [stepRequest] at hs
    repeat' split at hs
    all_goals first
      | cases hs
        done
      | cases hs
        exact .of_same le_rfl rfl fun _ h => h

/-- What a run does to the sessions there were. -/
structure Since (s t : Sessions) : Prop where
  returned : s.returned ≤ t.returned
  started : ∀ id child, s.children id = none → t.children id = some child →
    s.returned ≤ child.account
  children : ∀ id, (s.children id).isSome = true → (t.children id).isSome = true
  inactive : ∀ id, (s.children id).isSome = true → t.Active id → s.Active id

theorem Since.snoc {u : Sessions} (h : Since s t) (hon : Onward t u) : Since s u where
  returned := h.returned.trans hon.returned
  started := by
    intro id child hnone hsome
    cases hmid : t.children id with
    | none =>
      rw [hon.started id child hmid hsome]
      exact h.returned
    | some mid =>
      obtain ⟨new, hnew, haccount⟩ := hon.children id mid hmid
      obtain rfl := Option.some.inj (hsome.symm.trans hnew)
      rw [haccount]
      exact h.started id mid hnone hmid
  children := by
    intro id hid
    obtain ⟨mid, hmid⟩ := Option.isSome_iff_exists.mp (h.children id hid)
    obtain ⟨new, hnew, -⟩ := hon.children id mid hmid
    rw [hnew]
    rfl
  inactive := fun id hid hactive => h.inactive id hid (hon.inactive id (h.children id hid) hactive)

theorem since_of_reach (hs : s.Inv) (hr : Runs.Reach step s t) : t.Inv ∧ Since s t := by
  refine hr.invariant (P := fun t => t.Inv ∧ Since s t) ?_ ?_
  · refine ⟨hs, le_rfl, ?_, fun _ h => h, fun _ _ h => h⟩
    exact fun id child hnone hsome => absurd (hnone.symm.trans hsome) nofun
  · rintro t u e ⟨ht, hsince⟩ hstep
    refine ⟨ht.step hstep, hsince.snoc ?_⟩
    rcases step_cases hstep with hrequest | ⟨id, child, hid, hchild⟩
    · exact onward_stepRequest ht hrequest
    · exact (quiet_stepChild hid hchild).onward

theorem Inv.isolated (h : s.Inv) : s.Isolated where
  __ := h.core
  returned := by
    intro hnone
    cases hauth : s.auth with
    | none => exact h.core.current hauth
    | some c =>
      -- Who holds the authentication and does not invalidate has checked its token.
      have hholds := (h.tasks c).auth.mpr hauth
      have hrelies := (h.tasks c).relies
      have hno := hnone c
      cases htask : s.tasks c with
      | starting connect resource ticket =>
        rw [htask] at hrelies
        obtain ⟨⟨hdated, -⟩, hg⟩ := hrelies
        exact le_antisymm h.core.le (hg ▸ hdated.2)
      | invalidating | stopping =>
        rw [htask] at hno
        cases hno
      | _ =>
        rw [htask] at hholds
        cases hholds
  sessions := by
    rintro id (hid | hid)
    · exact h.core.served id hid
    · -- A process that runs belongs to a session that is not done.
      unfold isRunning at hid
      obtain ⟨child, hchild, hrun⟩ := (Option.any_eq_true ..).mp hid
      refine h.core.served id (h.core.kept id child hchild ?_)
      have hvalid := h.core.valid id child hchild
      by_contra hdone
      rw [Bool.not_eq_false] at hdone
      exact (hvalid.running hrun false).2 (hvalid.done hdone)
  limit := by
    intro ids hids
    refine le_trans ?_ h.core.limit
    rw [← List.toFinset_card_of_nodup (h.core.nodup.filter _)]
    refine Finset.card_le_card fun id hid => ?_
    obtain ⟨child, hchild, hdone⟩ := hids id hid
    rw [List.mem_toFinset, List.mem_filter, isDone, hchild, Option.any_some, hdone]
    exact ⟨h.core.kept id child hchild hdone, rfl⟩

/-- In every reachable state the sessions are isolated, and what a state promises of later ones
they keep. -/
theorem logins_isolate_sessions (hr : Runs.Reach step new s) :
    s.Isolated ∧ ∀ t, Runs.Reach step s t → s.Later t := by
  have hinv := inv_of_reach hr
  refine ⟨hinv.isolated, fun t ht => ?_⟩
  obtain ⟨-, hsince⟩ := since_of_reach hinv ht
  exact ⟨hsince.started, fun id hid hna hactive => hna (hsince.inactive id hid hactive)⟩

/-- A session of the first login; it has ended when the second invalidation returns. -/
def sampleLogins : List Event :=
  [.invalidate 0 .signIn, .stopAll 0, .invalidated 0, .authenticated 0 true, .install 0,
    .connect 1 7 .physical, .gate 1, .existing 1,
    .fetched 1 ⟨7, .desktop, true⟩ ⟨5, ⟨true, true, true⟩, false⟩, .lockAuth 1, .start 1 true,
    .launched 5 true, .line 5 (.state .connected (some .direct) none),
    .connect 2 7 .physical, .gate 2, .existing 2,
    .invalidate 3 .signIn, .stopAll 3, .stopped 5, .exit 5, .reap 5 (some true), .finish 5, .close 5,
    .invalidated 3]

theorem logins_isolate_sessions_sample : ∃ s, Runs.Reach step new s ∧ (s.children 5).isSome = true ∧
    s.returned = 2 ∧ s.Isolated ∧ ∀ t, Runs.Reach step s t → s.Later t := by
  have hrun : (Runs.tryRun step new sampleLogins).map (fun s =>
      (s.children 5).isSome && decide (s.returned = 2)) = some true := by
    decide +kernel
  obtain ⟨s, htry, hs⟩ := Option.map_eq_some_iff.mp hrun
  obtain ⟨hchild, hreturned⟩ := Bool.and_eq_true_iff.mp hs
  have hr := Runs.reach_of_tryRun .init htry
  exact ⟨s, hr, hchild, of_decide_eq_true hreturned, logins_isolate_sessions hr⟩

end Sessions

end NebulaDesk
