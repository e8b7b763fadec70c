/-
The invariant of the desktop's sessions, and what the children may do.

Each task holds the locks it is shown with and relies on what those locks protect.  A child, its
task and the cancellation of a token change nothing that a request relies on (`Quiet`).
-/
import NebulaDesk.Desktop.Sessions

namespace NebulaDesk

namespace Sessions

/-! ### The invariant -/

namespace Task

def holdsAuth : Task → Bool
  | .invalidating _ | .stopping .. | .starting .. => true
  | _ => false

def holdsGate : Task → Bool
  | .looking _ | .fetching _ | .locking .. | .starting .. => true
  | _ => false

end Task

/-- A running process has not been waited for, and `done` is the last thing that happens. -/
structure Child.Valid (child : Child) : Prop where
  running : child.running = true → ∀ failed, child.phase ≠ .reaped failed ∧ child.phase ≠ .finished
  done : child.done = true → child.phase = .finished

/-- No session of the resource is active. -/
def Vacant (s : Sessions) (resourceId : ℕ) : Prop :=
  ∀ e ∈ s.registry, e.2.state.active = true → e.2.resourceId ≠ resourceId

/-- The ticket has been issued, and no session has been started with it. -/
def Unused (s : Sessions) (id : ℕ) : Prop := s.children id = none ∧ id ∈ s.issued

/-- The account of a `Connect` is that of its token. -/
def Dated (s : Sessions) (connect : Connect) : Prop :=
  connect.account = connect.generation ∧ connect.generation ≤ s.returned

/-- What a task may rely on. -/
def Relies (s : Sessions) : Task → Prop
  | .invalidating _ => s.returned < s.generation
  | .stopping _ ids => s.returned < s.generation ∧ ∀ id ∈ s.keys, id ∈ ids
  | .authenticating g | .installing g => g ≤ s.returned
  | .gating connect | .looking connect => s.Dated connect
  | .fetching connect => s.Dated connect ∧ s.Vacant connect.resourceId
  | .locking connect resource ticket =>
    s.Dated connect ∧ s.Vacant connect.resourceId ∧ resource.id = connect.resourceId ∧
      s.Unused ticket.sessionId
  | .starting connect resource ticket =>
    (s.Dated connect ∧ s.Vacant connect.resourceId ∧ resource.id = connect.resourceId ∧
      s.Unused ticket.sessionId) ∧ s.generation = connect.generation
  | .idle | .disconnecting _ | .done => True

/-- What holds of the desktop, whatever its tasks do. -/
structure Core (s : Sessions) : Prop where
  le : s.returned ≤ s.generation
  current : s.auth = none → s.returned = s.generation
  account : ∀ a, s.account = some a → a = s.returned
  nodup : s.keys.Nodup
  served : ∀ id ∈ s.keys, ∃ child, s.children id = some child ∧ child.account = s.returned
  kept : ∀ id child, s.children id = some child → child.done = false → id ∈ s.keys
  valid : ∀ id child, s.children id = some child → child.Valid
  limit : (s.keys.filter fun id => !s.isDone id).length ≤ MAX_SESSIONS
  issued : ∀ id child, s.children id = some child → id ∈ s.issued
  resource : ∀ e ∈ s.registry, ∀ e' ∈ s.registry, e.2.state.active = true →
    e'.2.state.active = true → e.2.resourceId = e'.2.resourceId → e.1 = e'.1

/-- Task `c` has the locks it is shown with, and may rely on what it does. -/
structure Sound (s : Sessions) (c : ℕ) (task : Task) : Prop where
  auth : task.holdsAuth = true ↔ s.auth = some c
  gate : task.holdsGate = true ↔ s.connectGate = some c
  relies : s.Relies task

structure Inv (s : Sessions) : Prop where
  core : s.Core
  tasks : ∀ c, s.Sound c (s.tasks c)

variable {s s' t : Sessions} {e : Event} {c d id : ℕ}

theorem inv_new : new.Inv where
  core :=
    { le := le_rfl
      current := fun _ => rfl
      account := nofun
      nodup := .nil
      served := nofun
      kept := nofun
      valid := nofun
      limit := Nat.zero_le _
      issued := nofun
      resource := nofun }
  tasks _ := ⟨⟨nofun, nofun⟩, ⟨nofun, nofun⟩, trivial⟩

variable {task : Task}

theorem Relies.mono (h : s.Relies task) (hreturned : s.returned ≤ t.returned)
    (hauth : task.holdsAuth = true → t.returned = s.returned ∧ t.generation = s.generation ∧
      ∀ id ∈ t.keys, id ∈ s.keys)
    (hgate : task.holdsGate = true → (∀ r, s.Vacant r → t.Vacant r) ∧
      ∀ id, s.Unused id → t.Unused id) : t.Relies task := by
  have hdated : ∀ k, s.Dated k → t.Dated k := fun k hk => ⟨hk.1, hk.2.trans hreturned⟩
  cases task with
  | idle | disconnecting | done => trivial
  | invalidating =>
    obtain ⟨hr, hg, -⟩ := hauth rfl
    rw [Relies, hr, hg]
    exact h
  | stopping =>
    obtain ⟨hr, hg, hkeys⟩ := hauth rfl
    rw [Relies, hr, hg]
    exact ⟨h.1, fun id hid => h.2 id (hkeys id hid)⟩
  | authenticating | installing => exact le_trans h hreturned
  | gating | looking => exact hdated _ h
  | fetching => exact ⟨hdated _ h.1, (hgate rfl).1 _ h.2⟩
  | locking =>
    obtain ⟨hk, hv, hid, hu⟩ := h
    exact ⟨hdated _ hk, (hgate rfl).1 _ hv, hid, (hgate rfl).2 _ hu⟩
  | starting =>
    obtain ⟨⟨hk, hv, hid, hu⟩, hg⟩ := h
    exact ⟨⟨hdated _ hk, (hgate rfl).1 _ hv, hid, (hgate rfl).2 _ hu⟩, (hauth rfl).2.1.trans hg⟩

theorem Sound.free (h : s.Sound d task) (hreturned : s.returned ≤ t.returned)
    (hauth : task.holdsAuth = false) (hgate : task.holdsGate = false) (ha : t.auth ≠ some d)
    (hg : t.connectGate ≠ some d) : t.Sound d task where
  auth := by simp [hauth, ha]
  gate := by simp [hgate, hg]
  relies := h.relies.mono hreturned (by simp [hauth]) (by simp [hgate])

theorem Core.setTask (h : t.Core) : (t.setTask c task).Core :=
  { h with }

theorem Inv.setTask (hcore : t.Core) (hthis : t.Sound c task)
    (hothers : ∀ d, d ≠ c → t.Sound d (t.tasks d)) : (t.setTask c task).Inv where
  core := hcore.setTask
  tasks := by
    intro d
    have hsound : t.Sound d ((t.setTask c task).tasks d) := by
      by_cases hd : d = c
      · subst hd
        simpa [Sessions.setTask] using hthis
      · simpa [Sessions.setTask, hd] using hothers d hd
    exact ⟨hsound.auth, hsound.gate, by
      cases htask : (t.setTask c task).tasks d <;> rw [htask] at hsound <;> exact hsound.relies⟩

/-! ### Children -/

/-- What the children and their tasks, and the cancellation of their tokens, may change. -/
structure Quiet (s t : Sessions) : Prop where
  generation : t.generation = s.generation
  returned : t.returned = s.returned
  account : t.account = s.account
  auth : t.auth = s.auth
  connectGate : t.connectGate = s.connectGate
  tasks : t.tasks = s.tasks
  issued : t.issued = s.issued
  keys : t.keys = s.keys
  views : ∀ e ∈ t.registry, e.2.state.active = true →
    ∃ e' ∈ s.registry, e'.1 = e.1 ∧ e'.2.resourceId = e.2.resourceId ∧ e'.2.state.active = true
  children : ∀ id, t.children id = none ↔ s.children id = none
  child : ∀ id new, t.children id = some new → ∃ old, s.children id = some old ∧
    new.account = old.account ∧ (old.done = true → new.done = true) ∧ (old.Valid → new.Valid)

theorem Quiet.isDone (h : Quiet s t) (hid : t.isDone id = false) : s.isDone id = false := by
  unfold Sessions.isDone at *
  cases hold : s.children id with
  | none => rfl
  | some old =>
    cases hnew : t.children id with
    | none =>
      rw [(h.children id).mp hnew] at hold
      cases hold
    | some new =>
      obtain ⟨old', hold', -, hdone, -⟩ := h.child id new hnew
      obtain rfl := Option.some.inj (hold.symm.trans hold')
      rw [hnew] at hid
      cases hdo : old.done with
      | false => simp [hdo]
      | true => simp [hdone hdo] at hid

theorem Quiet.core (h : Quiet s t) (hs : s.Core) : t.Core where
  le := by
    rw [h.returned, h.generation]
    exact hs.le
  current := by
    rw [h.auth, h.returned, h.generation]
    exact hs.current
  account := by
    rw [h.account, h.returned]
    exact hs.account
  nodup := h.keys ▸ hs.nodup
  served := by
    intro id hid
    rw [h.keys] at hid
    obtain ⟨old, hold, haccount⟩ := hs.served id hid
    cases hnew : t.children id with
    | none =>
      rw [(h.children id).mp hnew] at hold
      cases hold
    | some new =>
      obtain ⟨old', hold', heq, -⟩ := h.child id new hnew
      obtain rfl := Option.some.inj (hold.symm.trans hold')
      exact ⟨new, rfl, by rw [heq, haccount, h.returned]⟩
  kept := by
    intro id new hnew hdone
    obtain ⟨old, hold, -, hmono, -⟩ := h.child id new hnew
    rw [h.keys]
    refine hs.kept id old hold ?_
    by_contra hne
    rw [Bool.not_eq_false] at hne
    rw [hmono hne] at hdone
    cases hdone
  valid := by
    intro id new hnew
    obtain ⟨old, hold, -, -, hvalid⟩ := h.child id new hnew
    exact hvalid (hs.valid id old hold)
  limit := by
    rw [h.keys]
    refine le_trans (List.Sublist.length_le (List.monotone_filter_right _ ?_)) hs.limit
    intro id hid
    rw [Bool.not_eq_true'] at hid ⊢
    exact h.isDone hid
  issued := by
    intro id new hnew
    obtain ⟨old, hold, -⟩ := h.child id new hnew
    rw [h.issued]
    exact hs.issued id old hold
  resource := by
    intro e he e' he' ha ha' heq
    obtain ⟨f, hf, hfid, hfr, hfa⟩ := h.views e he ha
    obtain ⟨f', hf', hfid', hfr', hfa'⟩ := h.views e' he' ha'
    rw [← hfid, ← hfid']
    exact hs.resource f hf f' hf' hfa hfa' (hfr.trans (heq.trans hfr'.symm))

theorem Quiet.vacant (h : Quiet s t) {r : ℕ} (hv : s.Vacant r) : t.Vacant r := by
  intro e he ha
  obtain ⟨f, hf, -, hfr, hfa⟩ := h.views e he ha
  rw [← hfr]
  exact hv f hf hfa

theorem Quiet.sound (h : Quiet s t) (hs : s.Sound d task) : t.Sound d task where
  auth := h.auth ▸ hs.auth
  gate := h.connectGate ▸ hs.gate
  relies := by
    refine hs.relies.mono h.returned.ge (fun _ => ⟨h.returned, h.generation, ?_⟩) fun _ =>
      ⟨fun r hr => h.vacant hr, ?_⟩
    · exact fun id hid => h.keys ▸ hid
    · exact fun id hid => ⟨(h.children id).mpr hid.1, h.issued ▸ hid.2⟩

theorem Quiet.inv (h : Quiet s t) (hs : s.Inv) : t.Inv :=
  ⟨h.core hs.core, fun d => by rw [h.tasks]; exact h.sound (hs.tasks d)⟩

theorem Quiet.refl (s : Sessions) : Quiet s s where
  generation := rfl
  returned := rfl
  account := rfl
  auth := rfl
  connectGate := rfl
  tasks := rfl
  issued := rfl
  keys := rfl
  views := fun e he ha => ⟨e, he, rfl, rfl, ha⟩
  children := fun _ => Iff.rfl
  child := fun _ new hnew => ⟨new, hnew, rfl, fun h => h, fun h => h⟩

theorem quiet_setChild {old new : Child} (hold : s.children id = some old)
    (haccount : new.account = old.account) (hdone : old.done = true → new.done = true)
    (hvalid : old.Valid → new.Valid) : Quiet s (s.setChild id new) where
  __ := Quiet.refl s
  children := by
    intro i
    by_cases hi : i = id
    · subst hi
      simp [setChild, hold]
    · simp [setChild, hi]
  child := by
    intro i new' hnew
    by_cases hi : i = id
    · subst hi
      obtain rfl : new = new' := by simpa [setChild] using hnew
      exact ⟨old, hold, haccount, hdone, hvalid⟩
    · refine ⟨new', by simpa [setChild, hi] using hnew, rfl, fun h => h, fun h => h⟩

theorem quiet_modify {f : Session → Session} (hresource : ∀ v, (f v).resourceId = v.resourceId)
    (hactive : ∀ v, (f v).state.active = true → v.state.active = true) :
    Quiet s (s.modify id f) where
  __ := Quiet.refl s
  keys := by
    unfold keys modify
    rw [List.map_map]
    refine List.map_congr_left fun e _ => ?_
    rw [Function.comp_apply]
    split <;> rfl
  views := by
    intro e he ha
    obtain ⟨e', he', rfl⟩ := List.mem_map.mp he
    refine ⟨e', he', ?_⟩
    split at ha
    · next heq =>
      rw [if_pos heq]
      exact ⟨rfl, (hresource _).symm, hactive _ ha⟩
    · next hne =>
      rw [if_neg hne]
      exact ⟨rfl, rfl, ha⟩

theorem Quiet.trans {u : Sessions} (h : Quiet s t) (h' : Quiet t u) : Quiet s u where
  generation := h'.generation.trans h.generation
  returned := h'.returned.trans h.returned
  account := h'.account.trans h.account
  auth := h'.auth.trans h.auth
  connectGate := h'.connectGate.trans h.connectGate
  tasks := h'.tasks.trans h.tasks
  issued := h'.issued.trans h.issued
  keys := h'.keys.trans h.keys
  views := by
    intro e he ha
    obtain ⟨e', he', hid', hr', ha'⟩ := h'.views e he ha
    obtain ⟨f, hf, hid, hr, hfa⟩ := h.views e' he' ha'
    exact ⟨f, hf, hid.trans hid', hr.trans hr', hfa⟩
  children := fun id => (h'.children id).trans (h.children id)
  child := by
    intro id new hnew
    obtain ⟨mid, hmid, ha', hd', hv'⟩ := h'.child id new hnew
    obtain ⟨old, hold, ha, hd, hv⟩ := h.child id mid hmid
    exact ⟨old, hold, ha'.trans ha, fun hdone => hd' (hd hdone), fun hvalid => hv' (hv hvalid)⟩

theorem quiet_stopAll (ids : List ℕ) : Quiet s (s.stopAll ids) where
  __ := Quiet.refl s
  children := by
    intro i
    show (if i ∈ ids then (s.children i).map _ else s.children i) = none ↔ _
    split
    · exact Option.map_eq_none_iff
    · exact Iff.rfl
  child := by
    intro i new hnew
    have hnew : (if i ∈ ids then (s.children i).map fun child => { child with stop := true }
      else s.children i) = some new := hnew
    split at hnew
    · obtain ⟨old, hold, rfl⟩ := Option.map_eq_some_iff.mp hnew
      exact ⟨old, hold, rfl, fun h => h, fun h => ⟨h.running, h.done⟩⟩
    · exact ⟨new, hnew, rfl, fun h => h, fun h => h⟩

theorem active_of_report {view : Session} {state : State} {path : Option ConnectionPath}
    {error : Option String} (h : (view.report state path error).state.active = true) :
    view.state.active = true := by
  unfold Session.report at h
  split at h
  · next ha => exact ha
  · exact h

theorem quiet_event (event : ChildEvent) : Quiet s (s.event id event).1 := by
  cases event with
  | other => exact .refl s
  | state state path error =>
    exact quiet_modify (fun v => by unfold Session.report; split <;> rfl) fun v => active_of_report

theorem active_of_finish {view : Session} {failed : Bool}
    (h : (view.finish failed).state.active = true) : view.state.active = true := by
  unfold Session.finish at h
  split at h
  · cases failed <;> cases h
  · exact h

theorem children_event (event : ChildEvent) : (s.event id event).1.children = s.children := by
  cases event <;> rfl

theorem quiet_leave {child : Child} (hid : s.children id = some child)
    (hphase : child.phase = .launching ∨ child.phase = .serving) (failed : Bool) :
    Quiet s (s.leave id child failed) := by
  refine quiet_setChild hid rfl (fun h => h) ?_
  intro hvalid
  refine ⟨fun _ _ => ⟨nofun, nofun⟩, fun hdone => ?_⟩
  have := hvalid.done hdone
  rcases hphase with hp | hp <;> rw [hp] at this <;> cases this

theorem quiet_stepChild {child : Child} (hid : s.children id = some child)
    (h : s.stepChild id child e = some s') : Quiet s s' := by
  unfold stepChild at h
  cases e with
  | launched i ok =>
    dsimp only at h
    obtain ⟨hphase, rfl⟩ := Runs.some_of_guard h
    split
    · refine quiet_setChild hid rfl (fun h => h) fun hvalid => ?_
      refine ⟨fun _ _ => ⟨nofun, nofun⟩, fun hdone => ?_⟩
      have hfinished := hvalid.done hdone
      rw [hphase] at hfinished
      cases hfinished
    · exact quiet_leave hid (.inl hphase) true
  | line i event =>
    dsimp only at h
    obtain ⟨hphase, rfl⟩ := Runs.some_of_guard h
    split
    · refine (quiet_event event).trans (quiet_leave ?_ (.inr hphase) false)
      rw [children_event, hid]
    · exact quiet_event event
  | leave i ended =>
    dsimp only at h
    obtain ⟨hphase, rfl⟩ := Runs.some_of_guard h
    exact quiet_leave hid (.inr hphase) _
  | stopped i =>
    dsimp only at h
    obtain ⟨hphase, rfl⟩ := Runs.some_of_guard h
    exact quiet_leave hid (.inr hphase.1) false
  | exit i =>
    dsimp only at h
    obtain ⟨-, rfl⟩ := Runs.some_of_guard h
    exact quiet_setChild hid rfl (fun h => h) fun hvalid => ⟨nofun, hvalid.done⟩
  | reap i success =>
    dsimp only at h
    split at h
    · next failed hphase =>
      obtain ⟨hexit, rfl⟩ := Runs.some_of_guard h
      refine quiet_setChild hid rfl (fun h => h) fun hvalid => ⟨fun hrun => ?_, fun hdone => ?_⟩
      · rw [hexit] at hrun
        cases hrun
      · have hfinished := hvalid.done hdone
        rw [hphase] at hfinished
        cases hfinished
    · cases h
  | kill i =>
    dsimp only at h
    split at h
    · next failed hphase =>
      cases h
      refine quiet_setChild hid rfl (fun h => h) fun hvalid => ⟨nofun, fun hdone => ?_⟩
      have hfinished := hvalid.done hdone
      rw [hphase] at hfinished
      cases hfinished
    · cases h
  | finish i =>
    dsimp only at h
    split at h
    · next failed hphase =>
      cases h
      have hmodify : Quiet s (s.modify id fun view => view.finish failed) :=
        quiet_modify (fun v => by unfold Session.finish; split <;> rfl) fun v => active_of_finish
      refine hmodify.trans (quiet_setChild hid rfl (fun h => h) fun hvalid => ?_)
      refine ⟨fun hrun => ?_, fun _ => rfl⟩
      exact absurd hphase (hvalid.running hrun failed).1
    · cases h
  | close i =>
    dsimp only at h
    obtain ⟨hphase, rfl⟩ := Runs.some_of_guard h
    exact quiet_setChild hid rfl (fun _ => rfl) fun hvalid => ⟨hvalid.running, fun _ => hphase⟩
  | _ => cases h

end Sessions

end NebulaDesk
