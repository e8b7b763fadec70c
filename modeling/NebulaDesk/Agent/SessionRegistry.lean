/-
The agent's registry of sessions (`nebula-agent/src/lib.rs`, `read_tunnel`;
`nebula-agent/src/session.rs`, `serve` and `pump`).

The registry has one entry for a session id, the handle that stops its task.  A handle that is
dropped stops its task too.  A second start of the same id takes the place of the first, and
whichever task ends removes the entry of its id.

* **`registry_tracks`** — as long as no id is started while a task of it has not ended, every
  running task has its handle in the registry, and nobody else drops it;
* **`second_start_stops_both`** — otherwise the second start stops the first task, whose end
  stops the second.
-/
import NebulaDesk.Lib.Runs

namespace NebulaDesk

namespace SessionRegistry

open Runs

/-- The oneshot channel of a task. -/
inductive Handle
  | held
  | sent (reason : String)
  | dropped
deriving DecidableEq

/-- The sender goes out of scope. -/
def Handle.drop : Handle → Handle
  | held => dropped
  | handle => handle

inductive Phase
  /-- `verify_session_authority`, which does not look at the handle. -/
  | verifying
  | establishing
  | pumping
  /-- Served, one way or the other; the entry is still to be removed. -/
  | ending
  | finished
deriving DecidableEq

structure Task where
  session : ℕ
  phase : Phase
  stop : Handle
  /-- A `StopSession` for the id has been processed since the start. -/
  asked : Bool
deriving DecidableEq

/-- A `StopSession` for the id comes. -/
def Task.mark (id : ℕ) (t : Task) : Task := if t.session = id then { t with asked := true } else t

@[simp] theorem Task.mark_phase (id : ℕ) (t : Task) : (t.mark id).phase = t.phase := by
  rw [mark]
  split
  · rfl
  · rfl

theorem Task.mark_asked {id : ℕ} {t : Task} (h : t.session = id) : (t.mark id).asked = true := by
  rw [mark, if_pos h]

/-- Tasks go by their place in the order of their start. -/
structure Registry where
  sessions : ℕ → Option ℕ
  tasks : List Task

def empty : Registry := ⟨fun _ => none, []⟩

inductive Event
  /-- The tunnel delivers a message. -/
  | startSession (id : ℕ)
  | stopSession (id : ℕ) (reason : String)
  /-- The authority of task `n` is verified, or not. -/
  | verified (n : ℕ)
  | refused (n : ℕ)
  /-- The connection of task `n` stands, or fails. -/
  | established (n : ℕ)
  | failed (n : ℕ)
  /-- The media of task `n` end. -/
  | mediaEnded (n : ℕ)
  /-- Task `n` sees that its handle was used or dropped. -/
  | stopped (n : ℕ)
  /-- Task `n` removes the entry of its id. -/
  | finish (n : ℕ)
deriving DecidableEq

namespace Registry

def mapTask (s : Registry) (n : ℕ) (f : Task → Task) : Registry :=
  { s with tasks := s.tasks.modify n f }

/-- A handle that was taken out of the registry goes out of scope. -/
def dropHandle (s : Registry) : Option ℕ → Registry
  | none => s
  | some n => s.mapTask n fun t => { t with stop := t.stop.drop }

def setEntry (s : Registry) (id : ℕ) (entry : Option ℕ) : Registry :=
  { s with sessions := Function.update s.sessions id entry }

/-- The task goes from one of some phases to another. -/
def advance (s : Registry) (n : ℕ) (may : Task → Bool) (phase : Phase) : Option Registry :=
  if (s.tasks[n]?).any may then some (s.mapTask n fun t => { t with phase }) else none

/-- `insert` gives the old handle back, which is dropped, and the task is spawned. -/
def startSession (s : Registry) (id : ℕ) : Registry :=
  let n := s.tasks.length
  let s := (s.dropHandle (s.sessions id)).setEntry id (some n)
  { s with tasks := s.tasks ++ [⟨id, .verifying, .held, false⟩] }

/-- The handle is taken out of the registry and used. -/
def stopSession (s : Registry) (id : ℕ) (reason : String) : Registry :=
  let told := match s.sessions id with
    | some n => (s.setEntry id none).mapTask n fun t => { t with stop := .sent reason }
    | none => s
  { told with tasks := told.tasks.map (Task.mark id) }

/-- The task removes the entry of its id, whoever's it is, and drops it. -/
def finish (s : Registry) (n : ℕ) : Option Registry :=
  match s.tasks[n]? with
  | some t =>
    if t.phase = .ending then
      let s := s.mapTask n fun t => { t with phase := .finished }
      some ((s.dropHandle (s.sessions t.session)).setEntry t.session none)
    else none
  | none => none

def step (s : Registry) : Event → Option Registry
  | .startSession id => some (s.startSession id)
  | .stopSession id reason => some (s.stopSession id reason)
  | .verified n => s.advance n (·.phase = .verifying) .establishing
  | .refused n => s.advance n (·.phase = .verifying) .ending
  | .established n => s.advance n (·.phase = .establishing) .pumping
  | .failed n => s.advance n (·.phase = .establishing) .ending
  | .mediaEnded n => s.advance n (·.phase = .pumping) .ending
  | .stopped n =>
    s.advance n (fun t => (t.phase = .establishing ∨ t.phase = .pumping) ∧ t.stop ≠ .held) .ending
  | .finish n => s.finish n

/-- A start is for an id none of whose tasks is left. -/
def fresh (s : Registry) : Event → Bool
  | .startSession id => s.tasks.all fun t => t.session ≠ id || t.phase = .finished
  | _ => true

/-- The runs in which no id is started twice at a time. -/
def stepFresh (s : Registry) (e : Event) : Option Registry := if s.fresh e then s.step e else none

/-- What the registry is for. -/
structure Tracked (s : Registry) : Prop where
  /-- A running task has its handle in the registry until it is asked to stop. -/
  held : ∀ (n : ℕ) (t : Task), s.tasks[n]? = some t → t.phase ≠ .finished →
    s.sessions t.session = some n ∨ t.asked = true
  /-- Nobody stops a running task but a `StopSession`. -/
  kept : ∀ (n : ℕ) (t : Task), s.tasks[n]? = some t → t.phase ≠ .finished → t.stop ≠ .held →
    t.asked = true
  /-- The end of a task leaves the handles of the others. -/
  others : ∀ n s', s.step (.finish n) = some s' →
    ∀ id m, m ≠ n → s.sessions id = some m → s'.sessions id = some m

/-! ### Tasks and their entries -/

variable {s s' : Registry} {n m id : ℕ} {t : Task}

theorem getElem?_mapTask (f : Task → Task) :
    (s.mapTask n f).tasks[m]? = (s.tasks[m]?).map fun t => if n = m then f t else t := by
  rw [mapTask, List.getElem?_modify]
  rfl

theorem advance_eq_some {may : Task → Bool} {phase : Phase}
    (h : s.advance n may phase = some s') :
    (∃ t, s.tasks[n]? = some t ∧ may t = true) ∧
      s' = s.mapTask n fun t => { t with phase } := by
  unfold advance at h
  split at h
  · next hmay =>
    exact ⟨(Option.any_eq_true _ _).mp hmay, (Option.some.inj h).symm⟩
  · cases h

structure Inv (s : Registry) : Prop where
  held : ∀ (n : ℕ) (t : Task), s.tasks[n]? = some t → t.phase ≠ .finished →
    s.sessions t.session = some n ∨ t.asked = true
  kept : ∀ (n : ℕ) (t : Task), s.tasks[n]? = some t → t.phase ≠ .finished → t.stop ≠ .held →
    t.asked = true
  /-- An entry is the handle of a task of its id. -/
  entry : ∀ (id n : ℕ), s.sessions id = some n →
    ∃ t, s.tasks[n]? = some t ∧ t.session = id ∧ t.phase ≠ .finished
  /-- No id has two tasks. -/
  alone : ∀ (m n : ℕ) (t u : Task), s.tasks[m]? = some t → s.tasks[n]? = some u →
    t.session = u.session → t.phase ≠ .finished → u.phase ≠ .finished → m = n

theorem Inv.empty : Inv empty where
  held n t h := by simp [SessionRegistry.empty] at h
  kept n t h := by simp [SessionRegistry.empty] at h
  entry id n h := by simp [SessionRegistry.empty] at h
  alone m n t u h := by simp [SessionRegistry.empty] at h

/-- How a step may change a task: nobody but a `StopSession` touches the handle of one that is
running. -/
structure Follows (t t' : Task) : Prop where
  session : t'.session = t.session
  running : t'.phase ≠ .finished → t.phase ≠ .finished
  asked : t.asked = true → t'.asked = true
  stop : t'.phase ≠ .finished → t'.stop = t.stop ∨ t'.asked = true

theorem Follows.refl (t : Task) : Follows t t := ⟨rfl, id, id, fun _ => .inl rfl⟩

/-- A step that changes each task by `g` and only takes entries away. -/
theorem Inv.follow (h : Inv s) {g : ℕ → Task → Task}
    (htasks : ∀ m, s'.tasks[m]? = (s.tasks[m]?).map (g m))
    (hg : ∀ m t, s.tasks[m]? = some t → Follows t (g m t))
    (hentry : ∀ id m, s'.sessions id = some m → s.sessions id = some m ∧
      ∀ t, s.tasks[m]? = some t → (g m t).phase ≠ .finished)
    (hheld : ∀ m t, s.tasks[m]? = some t → (g m t).phase ≠ .finished →
      s.sessions t.session = some m → s'.sessions t.session = some m ∨ (g m t).asked = true) :
    Inv s' := by
  have hold : ∀ m t', s'.tasks[m]? = some t' → ∃ t, s.tasks[m]? = some t ∧ g m t = t' := by
    intro m t' ht'
    rw [htasks] at ht'
    exact Option.map_eq_some_iff.mp ht'
  constructor
  case held =>
    intro m t' ht' hrunning
    obtain ⟨t, ht, rfl⟩ := hold m t' ht'
    have hfollows := hg m t ht
    rw [hfollows.session]
    rcases h.held m t ht (hfollows.running hrunning) with hsession | hasked
    · exact hheld m t ht hrunning hsession
    · exact .inr (hfollows.asked hasked)
  case kept =>
    intro m t' ht' hrunning hstop
    obtain ⟨t, ht, rfl⟩ := hold m t' ht'
    have hfollows := hg m t ht
    rcases hfollows.stop hrunning with hsame | hasked
    · rw [hsame] at hstop
      exact hfollows.asked (h.kept m t ht (hfollows.running hrunning) hstop)
    · exact hasked
  case entry =>
    intro id m hsession
    obtain ⟨hbefore, hrunning⟩ := hentry id m hsession
    obtain ⟨t, ht, hid, -⟩ := h.entry id m hbefore
    refine ⟨g m t, by rw [htasks, ht, Option.map_some], ?_, hrunning t ht⟩
    rw [(hg m t ht).session, hid]
  case alone =>
    intro m k t' u' ht' hu' hsame hrunning hrunning'
    obtain ⟨t, ht, rfl⟩ := hold m t' ht'
    obtain ⟨u, hu, rfl⟩ := hold k u' hu'
    rw [(hg m t ht).session, (hg k u hu).session] at hsame
    exact h.alone m k t u ht hu hsame ((hg m t ht).running hrunning)
      ((hg k u hu).running hrunning')

theorem Inv.advance {may : Task → Bool} {phase : Phase} (h : Inv s)
    (hs : s.advance n may phase = some s') (hmay : ∀ t, may t = true → t.phase ≠ .finished)
    (hphase : phase ≠ .finished) : Inv s' := by
  obtain ⟨⟨u, hu, humay⟩, rfl⟩ := advance_eq_some hs
  have hrunning : ∀ m t, s.tasks[m]? = some t → t.phase ≠ .finished →
      (if n = m then { t with phase } else t : Task).phase ≠ .finished := by
    intro m t ht hrunning
    split
    · exact hphase
    · exact hrunning
  refine h.follow (fun m => getElem?_mapTask _) (fun m t ht => ?_) (fun id m hsession => ?_)
    fun m t ht _ hsession => .inl hsession
  · split
    · next heq =>
      obtain rfl := heq
      obtain rfl := Option.some.inj (hu.symm.trans ht)
      exact ⟨rfl, fun _ => hmay u humay, id, fun _ => .inl rfl⟩
    · exact .refl t
  · obtain ⟨t, ht, -, hbefore⟩ := h.entry id m hsession
    refine ⟨hsession, fun t' ht' => ?_⟩
    obtain rfl := Option.some.inj (ht.symm.trans ht')
    exact hrunning m t ht hbefore

theorem getElem?_stopSession (id : ℕ) (reason : String) :
    (s.stopSession id reason).tasks[m]? = (s.tasks[m]?).map fun t =>
      (if s.sessions id = some m then { t with stop := .sent reason } else t).mark id := by
  rw [stopSession]
  dsimp only
  rw [List.getElem?_map]
  cases hsession : s.sessions id with
  | none => simp
  | some n =>
    dsimp only
    rw [getElem?_mapTask, Option.map_map]
    simp only [Function.comp_def, Option.some.injEq]
    rfl

theorem sessions_stopSession (id : ℕ) (reason : String) :
    (s.stopSession id reason).sessions = Function.update s.sessions id none := by
  rw [stopSession]
  cases hsession : s.sessions id with
  | none => exact (Function.update_eq_self_iff.mpr hsession.symm).symm
  | some n => rfl

theorem Inv.stopSession (h : Inv s) (id : ℕ) (reason : String) : Inv (s.stopSession id reason) := by
  refine h.follow (fun m => getElem?_stopSession id reason) (fun m t ht => ?_)
    (fun id' m hsession => ?_) fun m t ht _ hsession => ?_
  · -- The task whose handle is used is one of the id, so it has been asked.
    have hused : s.sessions id = some m → t.session = id := by
      intro hentry
      obtain ⟨u, hu, hid, -⟩ := h.entry id m hentry
      obtain rfl := Option.some.inj (ht.symm.trans hu)
      exact hid
    by_cases hentry : s.sessions id = some m
    · rw [if_pos hentry, Task.mark, if_pos (hused hentry)]
      exact ⟨rfl, fun h => h, fun _ => rfl, fun _ => .inr rfl⟩
    · rw [if_neg hentry, Task.mark]
      split
      · exact ⟨rfl, fun h => h, fun _ => rfl, fun _ => .inl rfl⟩
      · exact .refl t
  · rw [sessions_stopSession, Function.update_apply] at hsession
    split at hsession
    · cases hsession
    · next hne =>
      obtain ⟨t, ht, hid, hrunning⟩ := h.entry id' m hsession
      refine ⟨hsession, fun t' ht' => ?_⟩
      obtain rfl := Option.some.inj (ht.symm.trans ht')
      rw [Task.mark_phase]
      split
      · exact hrunning
      · exact hrunning
  · rw [sessions_stopSession]
    by_cases hid : t.session = id
    · refine .inr (Task.mark_asked ?_)
      split
      · exact hid
      · exact hid
    · exact .inl ((Function.update_of_ne hid _ _).trans hsession)

theorem sessions_of_fresh (h : Inv s) (hfresh : s.fresh (.startSession id) = true) :
    s.sessions id = none := by
  cases hsession : s.sessions id with
  | none => rfl
  | some n =>
    obtain ⟨t, ht, hid, hrunning⟩ := h.entry id n hsession
    have hall := List.all_eq_true.mp hfresh t (List.mem_of_getElem? ht)
    simp [hid, hrunning] at hall

theorem getElem?_concat {tasks : List Task} {new : Task} (h : (tasks ++ [new])[m]? = some t) :
    tasks[m]? = some t ∨ m = tasks.length ∧ t = new := by
  rw [List.getElem?_append] at h
  split at h
  · exact .inl h
  · next hge =>
    obtain ⟨hlt, heq⟩ := List.getElem?_eq_some_iff.mp h
    rw [List.length_singleton] at hlt
    refine .inr ⟨by omega, ?_⟩
    rw [← heq]
    simp

theorem Inv.startSession (h : Inv s) (hfresh : s.fresh (.startSession id) = true) :
    Inv (s.startSession id) := by
  have hnone := sessions_of_fresh h hfresh
  have hstart : s.startSession id = ⟨Function.update s.sessions id (some s.tasks.length),
      s.tasks ++ [⟨id, .verifying, .held, false⟩]⟩ := by
    rw [Registry.startSession, hnone]
    rfl
  have hother : ∀ (m : ℕ) (t : Task), s.tasks[m]? = some t → t.phase ≠ .finished →
      t.session ≠ id := by
    intro m t ht hrunning hid
    have hall := List.all_eq_true.mp hfresh t (List.mem_of_getElem? ht)
    simp [hid, hrunning] at hall
  rw [hstart]
  constructor
  case held =>
    intro m t ht hrunning
    rcases getElem?_concat ht with ht | ⟨rfl, rfl⟩
    · have hid := hother m t ht hrunning
      exact (h.held m t ht hrunning).imp_left (Function.update_of_ne hid _ _).trans
    · exact .inl (Function.update_self _ _ _)
  case kept =>
    intro m t ht hrunning hstop
    rcases getElem?_concat ht with ht | ⟨rfl, rfl⟩
    · exact h.kept m t ht hrunning hstop
    · exact absurd rfl hstop
  case entry =>
    intro id' m hsession
    dsimp only at hsession
    rw [Function.update_apply] at hsession
    split at hsession
    · next heq =>
      cases hsession
      exact ⟨_, List.getElem?_concat_length, heq.symm, Phase.noConfusion⟩
    · obtain ⟨t, ht, hrest⟩ := h.entry id' m hsession
      exact ⟨t, List.getElem?_append_left (List.getElem?_eq_some_iff.mp ht).1 ▸ ht, hrest⟩
  case alone =>
    intro m k t u ht hu hsame hrunning hrunning'
    rcases getElem?_concat ht with ht | ⟨rfl, rfl⟩
    · rcases getElem?_concat hu with hu | ⟨rfl, rfl⟩
      · exact h.alone m k t u ht hu hsame hrunning hrunning'
      · exact absurd hsame (hother m t ht hrunning)
    · rcases getElem?_concat hu with hu | ⟨rfl, rfl⟩
      · exact absurd hsame.symm (hother k u hu hrunning')
      · rfl

theorem entry_of_ending (h : Inv s) (ht : s.tasks[n]? = some t) (hphase : t.phase = .ending)
    (hentry : s.sessions t.session = some m) : m = n := by
  obtain ⟨u, hu, hid, hrunning⟩ := h.entry _ m hentry
  exact h.alone m n u t hu ht hid hrunning (by rw [hphase]; decide)

theorem finish_eq_some (hs : s.finish n = some s') :
    ∃ t, s.tasks[n]? = some t ∧ t.phase = .ending ∧
      s' = ((s.mapTask n fun t => { t with phase := .finished }).dropHandle
        (s.sessions t.session)).setEntry t.session none := by
  unfold Registry.finish at hs
  split at hs
  · next t ht =>
    split at hs
    · next hphase => exact ⟨t, ht, hphase, (Option.some.inj hs).symm⟩
    · cases hs
  · cases hs

theorem getElem?_finish (entry : Option ℕ) :
    (((s.mapTask n fun t => { t with phase := .finished }).dropHandle entry).setEntry id none).tasks[m]?
      = (s.tasks[m]?).map fun t =>
        let t := if n = m then { t with phase := .finished } else t
        if entry = some m then { t with stop := t.stop.drop } else t := by
  cases entry with
  | none =>
    show (s.mapTask n _).tasks[m]? = _
    rw [getElem?_mapTask]
    simp
  | some k =>
    show ((s.mapTask n _).mapTask k _).tasks[m]? = _
    rw [getElem?_mapTask, getElem?_mapTask, Option.map_map]
    simp only [Function.comp_def, Option.some.injEq]

theorem sessions_dropHandle (entry : Option ℕ) : (s.dropHandle entry).sessions = s.sessions := by
  cases entry with
  | none => rfl
  | some n => rfl

theorem Inv.finish (h : Inv s) (hs : s.finish n = some s') : Inv s' := by
  obtain ⟨t, ht, hphase, rfl⟩ := finish_eq_some hs
  have hrunning : t.phase ≠ .finished := by
    rw [hphase]
    decide
  -- Of the task itself nothing is left; of the others nothing changes.
  have hother : ∀ m u, s.tasks[m]? = some u → n ≠ m → s.sessions t.session ≠ some m :=
    fun m u hu hne hentry => hne (entry_of_ending h ht hphase hentry).symm
  refine h.follow (fun m => getElem?_finish _) (fun m u hu => ?_) (fun id m hsession => ?_)
    fun m u hu hleft hsession => ?_
  · dsimp only
    by_cases hm : n = m
    · obtain rfl := hm
      obtain rfl := Option.some.inj (ht.symm.trans hu)
      rw [if_pos rfl]
      split
      · exact ⟨rfl, fun _ => hrunning, fun h => h, fun hleft => absurd rfl hleft⟩
      · exact ⟨rfl, fun _ => hrunning, fun h => h, fun hleft => absurd rfl hleft⟩
    · rw [if_neg hm, if_neg (hother m u hu hm)]
      exact .refl u
  · have hsession' : Function.update s.sessions t.session none id = some m := by
      rw [setEntry, sessions_dropHandle] at hsession
      exact hsession
    rw [Function.update_apply] at hsession'
    split at hsession'
    · cases hsession'
    · next hne =>
      obtain ⟨u, hu, hid, hleft⟩ := h.entry id m hsession'
      have hm : n ≠ m := by
        rintro rfl
        obtain rfl := Option.some.inj (ht.symm.trans hu)
        exact hne hid.symm
      refine ⟨hsession', fun u' hu' => ?_⟩
      obtain rfl := Option.some.inj (hu.symm.trans hu')
      rw [if_neg hm, if_neg (hother m u hu hm)]
      exact hleft
  · have hm : n ≠ m := by
      rintro rfl
      rw [if_pos rfl] at hleft
      split at hleft
      · exact hleft rfl
      · exact hleft rfl
    have hid : u.session ≠ t.session := by
      intro hid
      rw [hid] at hsession
      exact hm (entry_of_ending h ht hphase hsession).symm
    refine .inl ?_
    show Function.update (dropHandle _ _).sessions _ _ _ = _
    rw [sessions_dropHandle]
    exact (Function.update_of_ne hid _ _).trans hsession

theorem Inv.step {e : Event} (h : Inv s) (hs : s.stepFresh e = some s') : Inv s' := by
  unfold stepFresh at hs
  split at hs
  · next hfresh =>
    cases e with
    | startSession id =>
      cases hs
      exact h.startSession hfresh
    | stopSession id reason =>
      cases hs
      exact h.stopSession id reason
    | verified n | refused n | established n | failed n | mediaEnded n =>
      refine h.advance hs (fun t ht => ?_) (by decide)
      rw [of_decide_eq_true ht]
      decide
    | stopped n =>
      refine h.advance hs (fun t ht => ?_) (by decide)
      obtain ⟨hphase | hphase, -⟩ := of_decide_eq_true ht
      · rw [hphase]
        decide
      · rw [hphase]
        decide
    | finish n => exact h.finish hs
  · cases hs

theorem Inv.tracked (h : Inv s) : Tracked s where
  __ := h
  others n s' hs id m hne hentry := by
    obtain ⟨t, ht, hphase, rfl⟩ := finish_eq_some hs
    have hid : id ≠ t.session := by
      rintro rfl
      exact hne (entry_of_ending h ht hphase hentry)
    show Function.update (dropHandle _ _).sessions _ _ _ = _
    rw [sessions_dropHandle]
    exact (Function.update_of_ne hid _ _).trans hentry

/-- **The registry of the agent** has the handle of every running task until it is asked to stop,
in every run that starts no id twice at a time. -/
theorem registry_tracks (hr : Reach stepFresh SessionRegistry.empty s) : Tracked s :=
  (hr.invariant Inv.empty fun _ _ _ h hs => h.step hs).tracked

/-- A session that is stopped and started once more. -/
def restarted : List Event :=
  [.startSession 7, .verified 0, .established 0, .stopSession 7 "bye", .stopped 0, .finish 0,
   .startSession 7, .verified 1]

theorem registry_tracks_restarted :
    ∃ s, tryRun stepFresh SessionRegistry.empty restarted = some s ∧ Tracked s :=
  have hrun : tryRun stepFresh SessionRegistry.empty restarted = some _ := rfl
  ⟨_, hrun, registry_tracks (reach_of_tryRun .init hrun)⟩

def startedTwice : List Event :=
  [.startSession 7, .verified 0, .established 0, .startSession 7, .verified 1, .established 1]

/-- The first task is stopped by the second start, and its end takes the handle of the second,
which is stopped by that. -/
theorem second_start_stops_both :
    ∃ s s', tryRun step SessionRegistry.empty startedTwice = some s ∧
      s.tasks = [⟨7, .pumping, .dropped, false⟩, ⟨7, .pumping, .held, false⟩] ∧
      s.sessions 7 = some 1 ∧ ¬ Tracked s ∧
      tryRun step s [.stopped 0, .finish 0] = some s' ∧
      s'.tasks = [⟨7, .finished, .dropped, false⟩, ⟨7, .pumping, .dropped, false⟩] ∧
      s'.sessions 7 = none ∧ ¬ Tracked s' := by
  refine ⟨_, _, rfl, rfl, rfl, fun h => ?_, rfl, rfl, rfl, fun h => ?_⟩
  · have hasked := h.kept 0 ⟨7, .pumping, .dropped, false⟩ rfl (by decide) (by decide)
    exact Bool.false_ne_true hasked
  · have hasked := h.kept 1 ⟨7, .pumping, .dropped, false⟩ rfl (by decide) (by decide)
    exact Bool.false_ne_true hasked

end Registry

end SessionRegistry

end NebulaDesk
