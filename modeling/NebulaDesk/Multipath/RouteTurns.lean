/-
The routes of a session under any order of events (`ndp-transport/src/multipath.rs`).

`attach`, `peer_ready`, `heartbeat`, `echo` and `fail_path` are called from tasks
of their own; what they share is the lock on the routes, so one step here is one
stretch of code under that lock.  `fail_path` has two of them: having retired the
last path it gives the lock up and takes it again in `stop`.  `step_cases` says
once what a step can do to the routes.
-/
import NebulaDesk.Multipath.Steering
import NebulaDesk.Lib.Runs

namespace NebulaDesk

namespace Multipath

namespace Shared

/-- `fail_path` up to the point where it gives up the lock; the error is there if
it goes on to stop the session because all paths are unavailable. -/
def failLocked (h : Host) (id : ℕ) (error : TransportError) (s : Shared) :
    Shared × Option TransportError :=
  if isLogicalClose error then (s.stop error "peer closed logical session", none)
  else if isLateReplay error then (s, none)
  else if isProtocolFailure error then (s.stop error "multipath protocol failure", none)
  else match s.position id with
    | none => (s, none)
    | some index => match s.routes.paths index with
      | none => (s, none)
      | some path =>
        let s := s.removePath h index path
        if s.routes.active = path.kind then
          if (s.routes.paths path.kind.other).isSome then (s.switch h path.kind.other, none)
          else (s, some error)
        else (s, none)

/-- Both stretches of `fail_path`, one after the other. -/
theorem failPath_eq (h : Host) (id : ℕ) (error : TransportError) (s : Shared) :
    s.failPath h id error =
      match s.failLocked h id error with
      | (s, none) => s
      | (s, some error) => s.stop error "all paths unavailable" := by
  unfold failPath failLocked
  split
  · rfl
  split
  · rfl
  split
  · rfl
  cases s.position id with
  | none => rfl
  | some index =>
    dsimp only
    cases s.routes.paths index with
    | none => rfl
    | some path =>
      dsimp only
      split
      · split
        · rfl
        · rfl
      · rfl

/-- The stretch of `heartbeat` under the lock. -/
def beats (h : Host) (s : Shared) : Shared := (PathKind.all.foldl (beat h) ⟨s, [], []⟩).shared

end Shared

structure RouteState where
  shared : Shared
  /-- The errors of `fail_path` calls that are about to stop the session. -/
  stopping : List TransportError
  /-- The paths of the session by their ids, in the order they were attached. -/
  attached : List (ℕ × Native)
  /-- When the probes made the session switch. -/
  probed : List ℕ
  /-- The last time anyone read the clock. -/
  clock : ℕ

inductive RouteEvent
  | attach (native : Native)
  | peerReady (id : ℕ)
  | heartbeat
  | echo (id nonce : ℕ)
  /-- A failure reported for a path: by its reader, its writers or the probes. -/
  | fail (id : ℕ) (error : TransportError)
  /-- A `fail_path` that found all paths unavailable goes on. -/
  | unavailable
  /-- The session is closed or dropped. -/
  | stop (error : TransportError) (code : ℕ) (reason : String)

namespace RouteState

/-- A session that has just started, over its relay path. -/
def start (relay : Native) (now : ℕ) : RouteState where
  shared := .start relay now
  stopping := []
  attached := [(0, relay)]
  probed := []
  clock := now

/-- What one stretch under the lock leaves. -/
def next (h : Host) (s : RouteState) : RouteEvent → Option RouteState
  | .attach native =>
    match s.shared.attach h native with
    | (t, .error _) => some { s with shared := t }
    | (t, .ok id) => some { s with shared := t, attached := s.attached ++ [(id, native)] }
  | .peerReady id => some { s with shared := s.shared.peerReady h id }
  | .heartbeat => some { s with shared := s.shared.beats h }
  | .echo id nonce =>
    let t := s.shared.echo h id nonce
    some { s with
      shared := t
      probed := if t.routes.active = s.shared.routes.active then s.probed
        else s.probed ++ [h.now] }
  | .fail id error =>
    match s.shared.failLocked h id error with
    | (t, none) => some { s with shared := t }
    | (t, some error) => some { s with shared := t, stopping := s.stopping ++ [error] }
  | .unavailable =>
    match s.stopping with
    | [] => none
    | error :: rest =>
      some { s with shared := s.shared.stop error "all paths unavailable", stopping := rest }
  | .stop error code reason => some { s with shared := s.shared.stopWithCode error code reason }

/-- One step, at a time that is not before the last. -/
def step (s : RouteState) (e : Host × RouteEvent) : Option RouteState :=
  if e.1.now < s.clock then none else next e.1 { s with clock := e.1.now } e.2

variable {s s' : RouteState} {h : Host}

def SamePaths (r r' : Routes) : Prop := ∀ kind, Option.Rel Path.Same (r.paths kind) (r'.paths kind)

/-- What a step leaves alone beside the routes. -/
structure Beside (s s' : RouteState) : Prop where
  shutdown : s'.shared.shutdown = s.shared.shutdown
  stopping : s'.stopping = s.stopping
  attached : s'.attached = s.attached
  probed : s'.probed = s.probed

/-- What a step leaves alone of the routes beside the paths. -/
structure Kept (r r' : Routes) : Prop where
  active : r'.active = r.active
  txEpoch : r'.txEpoch = r.txEpoch
  changedAt : r'.changedAt = r.changedAt
  nextId : r'.nextId = r.nextId

/-- The session has just switched to this path. -/
structure Switched (now : ℕ) (kind : PathKind) (r r' : Routes) : Prop where
  moved : r.active ≠ kind
  active : r'.active = kind
  present : (r'.paths kind).isSome
  txEpoch : r'.txEpoch = r.txEpoch + 1
  changedAt : r'.changedAt = now
  nextId : r'.nextId = r.nextId

/-- What a step can do to the routes. -/
inductive Turn (now : ℕ) (s s' : RouteState) : Prop
  /-- Paths were measured, or nothing happened. -/
  | measured (hbeside : Beside s s') (hkept : Kept s.shared.routes s'.shared.routes)
      (hsame : SamePaths s.shared.routes s'.shared.routes)
  /-- The session was stopped. -/
  | stopped (hshut : s'.shared.shutdown = true) (hkept : Kept s.shared.routes s'.shared.routes)
      (hgone : ∀ kind, s'.shared.routes.paths kind = none) (hattached : s'.attached = s.attached)
      (hprobed : s'.probed = s.probed)
  /-- A path that is not selected was retired. -/
  | retired (kind : PathKind) (hkind : kind ≠ s.shared.routes.active) (hbeside : Beside s s')
      (hkept : Kept s.shared.routes s'.shared.routes)
      (hpaths : s'.shared.routes.paths = Function.update s.shared.routes.paths kind none)
  /-- The selected path was retired in favour of the other. -/
  | failedOver (hbeside : Beside s s')
      (hswitched : Switched now s.shared.routes.active.other s.shared.routes s'.shared.routes)
      (hpaths : s'.shared.routes.paths =
        Function.update s.shared.routes.paths s.shared.routes.active none)
  /-- The last path was retired, and the session is about to stop. -/
  | lost (error : TransportError) (hshut : s'.shared.shutdown = s.shared.shutdown)
      (hkept : Kept s.shared.routes s'.shared.routes)
      (hgone : ∀ kind, s'.shared.routes.paths kind = none)
      (hstopping : s'.stopping = s.stopping ++ [error]) (hattached : s'.attached = s.attached)
      (hprobed : s'.probed = s.probed)
  /-- A direct path was attached. -/
  | attached (native : Native) (hlive : s.shared.shutdown = false)
      (hvacant : s.shared.routes.paths .direct = none)
      (hidentity : ∃ p key, s.shared.routes.paths .relay = some p ∧
        p.native.peerStatic = some key ∧ native.peerStatic = some key)
      (hshut : s'.shared.shutdown = s.shared.shutdown) (hstopping : s'.stopping = s.stopping)
      (hprobed : s'.probed = s.probed)
      (hattached : s'.attached = s.attached ++ [(s.shared.routes.nextId, native)])
      (hroutes : s'.shared.routes = { s.shared.routes with
        nextId := s.shared.routes.nextId + 1
        paths := Function.update s.shared.routes.paths .direct
          (some (Path.new s.shared.routes.nextId .direct native now)) })
  /-- The probes made the session switch. -/
  | preferred (kind : PathKind) (hshut : s'.shared.shutdown = s.shared.shutdown)
      (hstopping : s'.stopping = s.stopping) (hattached : s'.attached = s.attached)
      (hprobed : s'.probed = s.probed ++ [now])
      (hsame : SamePaths s.shared.routes s'.shared.routes)
      (hswitched : Switched now kind s.shared.routes s'.shared.routes)
      (hcooled : s.shared.routes.txEpoch = 0 ∨ now - s.shared.routes.changedAt ≥ cooldown)

theorem Kept.refl (r : Routes) : Kept r r := ⟨rfl, rfl, rfl, rfl⟩

theorem Beside.same_shared (s : RouteState) {t : Shared} (h : t.shutdown = s.shared.shutdown) :
    Beside s { s with shared := t } := ⟨h, rfl, rfl, rfl⟩

theorem SamePaths.refl (r : Routes) : SamePaths r r := Shared.rel_refl r.paths

theorem SamePaths.trans {r r' r'' : Routes} (h : SamePaths r r') (h' : SamePaths r' r'') :
    SamePaths r r'' := by
  intro kind
  have hk := h kind
  have hk' := h' kind
  cases hp : r.paths kind with
  | none =>
    rw [hp] at hk
    cases hq : r'.paths kind with
    | some q =>
      rw [hq] at hk
      cases hk
    | none =>
      rw [hq] at hk'
      exact hk'
  | some p =>
    rw [hp] at hk
    cases hq : r'.paths kind with
    | none =>
      rw [hq] at hk
      cases hk
    | some q =>
      rw [hq] at hk hk'
      cases hr : r''.paths kind with
      | none =>
        rw [hr] at hk'
        cases hk'
      | some o =>
        rw [hr] at hk'
        cases hk with
        | some hpq =>
          cases hk' with
          | some hqo => exact .some (hpq.trans hqo)

theorem SamePaths.to {r r' : Routes} (h : SamePaths r r') {kind : PathKind} {p : Path}
    (hp : r.paths kind = some p) : ∃ q, r'.paths kind = some q ∧ p.Same q := by
  have hk := h kind
  rw [hp] at hk
  cases hq : r'.paths kind with
  | none =>
    rw [hq] at hk
    cases hk
  | some q =>
    rw [hq] at hk
    cases hk with
    | some hpq => exact ⟨q, rfl, hpq⟩

theorem SamePaths.of {r r' : Routes} (h : SamePaths r r') {kind : PathKind} {q : Path}
    (hq : r'.paths kind = some q) : ∃ p, r.paths kind = some p ∧ p.Same q := by
  have hk := h kind
  rw [hq] at hk
  cases hp : r.paths kind with
  | none =>
    rw [hp] at hk
    cases hk
  | some p =>
    rw [hp] at hk
    cases hk with
    | some hpq => exact ⟨p, rfl, hpq⟩

theorem modifyPath_same (t : Shared) (id : ℕ) {f : Path → Path} (hf : ∀ p : Path, p.Same (f p)) :
    (t.modifyPath id f).shutdown = t.shutdown ∧ Kept t.routes (t.modifyPath id f).routes ∧
      SamePaths t.routes (t.modifyPath id f).routes := by
  unfold Shared.modifyPath
  split
  · exact ⟨rfl, ⟨rfl, rfl, rfl, rfl⟩, Shared.rel_refl _⟩
  · rename_i kind hkind
    obtain ⟨p, hp, -⟩ := Shared.position_eq_some hkind
    refine ⟨rfl, ⟨rfl, rfl, rfl, rfl⟩, ?_⟩
    rw [hp]
    exact Shared.rel_update hp (hf p)

theorem beat_same (r : Shared.Round) (kind : PathKind) :
    (Shared.beat h r kind).shared.shutdown = r.shared.shutdown ∧
      Kept r.shared.routes (Shared.beat h r kind).shared.routes ∧
      SamePaths r.shared.routes (Shared.beat h r kind).shared.routes := by
  unfold Shared.beat
  dsimp only
  split
  · exact ⟨rfl, ⟨rfl, rfl, rfl, rfl⟩, Shared.rel_refl _⟩
  · rename_i path hpath
    split
    · exact ⟨rfl, ⟨rfl, rfl, rfl, rfl⟩, Shared.rel_refl _⟩
    split
    · exact ⟨rfl, ⟨rfl, rfl, rfl, rfl⟩, Shared.rel_update hpath ⟨rfl, rfl, rfl⟩⟩
    · exact ⟨rfl, ⟨rfl, rfl, rfl, rfl⟩, Shared.rel_refl _⟩

theorem beats_same (t : Shared) :
    (t.beats h).shutdown = t.shutdown ∧ Kept t.routes (t.beats h).routes ∧
      SamePaths t.routes (t.beats h).routes := by
  obtain ⟨hs, hk, hp⟩ := beat_same ⟨t, [], []⟩ .relay
  obtain ⟨hs', hk', hp'⟩ := beat_same (Shared.beat h ⟨t, [], []⟩ .relay) .direct
  exact ⟨hs'.trans hs, ⟨hk'.active.trans hk.active, hk'.txEpoch.trans hk.txEpoch,
    hk'.changedAt.trans hk.changedAt, hk'.nextId.trans hk.nextId⟩, hp.trans hp'⟩

/-- Where the paths of a state may be. -/
structure Placed (s : RouteState) : Prop where
  seated : ∀ kind p, s.shared.routes.paths kind = some p → p.kind = kind
  gone : s.shared.shutdown = true → ∀ kind, s.shared.routes.paths kind = none

theorem turn_stop (hs : s.Placed) (error : TransportError) (code : ℕ) (reason : String)
    (stopping : List TransportError) (now : ℕ) :
    Turn now s { s with
      shared := s.shared.stopWithCode error code reason
      stopping := stopping } := by
  unfold Shared.stopWithCode
  split
  · rename_i hshut
    exact .stopped hshut (.refl _) (hs.gone hshut) rfl rfl
  · exact .stopped rfl ⟨rfl, rfl, rfl, rfl⟩ (fun _ => rfl) rfl rfl

theorem turn_fail (hs : s.Placed) (id : ℕ) (error : TransportError) :
    ∀ t, next h s (.fail id error) = some t → Turn h.now s t := by
  intro t ht
  simp only [next, Shared.failLocked] at ht
  split at ht
  · rename_i t' heq
    cases ht
    split at heq
    · cases heq
      exact turn_stop hs error 0 _ s.stopping h.now
    split at heq
    · cases heq
      exact .measured (.same_shared s rfl) (.refl _) (.refl _)
    split at heq
    · cases heq
      exact turn_stop hs error 0 _ s.stopping h.now
    split at heq
    · cases heq
      exact .measured (.same_shared s rfl) (.refl _) (.refl _)
    rename_i index hindex
    split at heq
    · cases heq
      exact .measured (.same_shared s rfl) (.refl _) (.refl _)
    rename_i path hpath
    have hkind := hs.seated index path hpath
    subst hkind
    split at heq
    · rename_i hactive
      have hactive' : s.shared.routes.active = path.kind := hactive
      split at heq
      · rename_i hother
        cases heq
        have hne : s.shared.routes.active ≠ path.kind.other := by
          rw [hactive']
          cases path.kind <;> decide
        have hne' : ¬ (s.shared.removePath h path.kind path).routes.active = path.kind.other := hne
        rw [Shared.switch, if_neg hne']
        refine .failedOver ⟨rfl, rfl, rfl, rfl⟩ ?_ ?_
        · rw [hactive']
          exact ⟨hne, rfl, hother, rfl, rfl, rfl⟩
        · rw [hactive']
          rfl
      · cases heq
    · rename_i hactive
      cases heq
      exact .retired path.kind (fun heq => hactive heq.symm) (.same_shared s rfl) ⟨rfl, rfl, rfl, rfl⟩
        rfl
  · rename_i t' error' heq
    cases ht
    split at heq
    · cases heq
    split at heq
    · cases heq
    split at heq
    · cases heq
    split at heq
    · cases heq
    rename_i index hindex
    split at heq
    · cases heq
    rename_i path hpath
    have hkind := hs.seated index path hpath
    subst hkind
    split at heq
    · split at heq
      · cases heq
      · rename_i hother
        obtain ⟨rfl, -⟩ := Prod.mk.inj heq
        refine .lost error' rfl ⟨rfl, rfl, rfl, rfl⟩ ?_ rfl rfl rfl
        -- one place was just emptied, the other was found empty
        intro kind
        by_cases hk : kind = path.kind
        · rw [hk]
          exact Function.update_self ..
        · have hkind : kind = path.kind.other := by
            revert hk
            cases kind <;> cases path.kind <;> decide
          rw [hkind]
          simpa using hother
    · cases heq

/-- A refused path leaves the routes alone; an attached one has the identity of
the relay path. -/
theorem attach_turn (t : Shared) (native : Native) :
    (∃ error, (t.attach h native).2 = .error error ∧ (t.attach h native).1.routes = t.routes ∧
      (t.attach h native).1.shutdown = t.shutdown) ∨
    ((t.attach h native).2 = .ok t.routes.nextId ∧ t.shutdown = false ∧
      t.routes.paths .direct = none ∧
      (∃ p key, t.routes.paths .relay = some p ∧ p.native.peerStatic = some key ∧
        native.peerStatic = some key) ∧
      (t.attach h native).1.shutdown = t.shutdown ∧
      (t.attach h native).1.routes = { t.routes with
        nextId := t.routes.nextId + 1
        paths := Function.update t.routes.paths .direct
          (some (Path.new t.routes.nextId .direct native h.now)) }) := by
  unfold Shared.attach
  dsimp only
  split
  · exact .inl ⟨_, rfl, rfl, rfl⟩
  split
  · exact .inl ⟨_, rfl, rfl, rfl⟩
  split
  · exact .inl ⟨_, rfl, rfl, rfl⟩
  split
  · exact .inl ⟨_, rfl, rfl, rfl⟩
  rename_i hidentity
  split
  · exact .inl ⟨_, rfl, rfl, rfl⟩
  rename_i hlive
  split
  · exact .inl ⟨_, rfl, rfl, rfl⟩
  rename_i hvacant
  split
  · exact .inl ⟨_, rfl, rfl, rfl⟩
  have hdirect : t.routes.paths .direct = none := by
    rw [Bool.or_eq_true, not_or] at hvacant
    simpa using hvacant.1
  refine .inr ⟨rfl, by simpa using hlive, hdirect, ?_, rfl, rfl⟩
  -- the direct path is missing, so the first path is the relay
  rw [Bool.or_eq_true, not_or] at hidentity
  obtain ⟨hsome, heq⟩ := hidentity
  have heq' : ((PathKind.all.filterMap t.routes.paths).head?.bind fun p => p.native.peerStatic) =
      native.peerStatic := by simpa using heq
  cases hrelay : t.routes.paths .relay with
  | none => simp [PathKind.all, hrelay, hdirect] at hsome
  | some p =>
    have hpeer : p.native.peerStatic = native.peerStatic := by
      simpa [PathKind.all, hrelay] using heq'
    have hkey : ¬ p.native.peerStatic.isNone = true := by
      simpa [PathKind.all, hrelay] using hsome
    obtain ⟨key, hkey⟩ := Option.ne_none_iff_exists'.mp (by simpa using hkey)
    exact ⟨p, key, rfl, hkey, hpeer ▸ hkey⟩

theorem turn_attach (native : Native) :
    ∀ t, next h s (.attach native) = some t → Turn h.now s t := by
  intro t ht
  simp only [next] at ht
  rcases attach_turn s.shared native with ⟨error, herror, hroutes, hshut⟩ |
    ⟨hok, hlive, hdirect, hidentity, hshut, hroutes⟩
  · generalize s.shared.attach h native = out at ht herror hroutes hshut
    obtain ⟨u, result⟩ := out
    dsimp only at herror hroutes hshut
    rw [herror] at ht
    cases ht
    refine .measured (.same_shared s hshut) ?_ ?_
    · rw [show Shared.routes u = s.shared.routes from hroutes]
      exact .refl _
    · rw [show Shared.routes u = s.shared.routes from hroutes]
      exact .refl _
  · generalize s.shared.attach h native = out at ht hok hroutes hshut
    obtain ⟨u, result⟩ := out
    dsimp only at hok hroutes hshut
    rw [hok] at ht
    cases ht
    exact .attached native hlive hdirect hidentity hshut rfl rfl rfl hroutes

theorem echo_turn (t : Shared) (id nonce : ℕ) :
    (t.echo h id nonce).shutdown = t.shutdown ∧
      SamePaths t.routes (t.echo h id nonce).routes ∧
      (Kept t.routes (t.echo h id nonce).routes ∨
        ((∃ kind, Switched h.now kind t.routes (t.echo h id nonce).routes) ∧
          (t.routes.txEpoch = 0 ∨ h.now - t.routes.changedAt ≥ cooldown))) := by
  unfold Shared.echo
  split
  · exact ⟨rfl, .refl _, .inl (.refl _)⟩
  split
  · exact ⟨rfl, .refl _, .inl (.refl _)⟩
  rename_i sent _
  obtain ⟨hshut, hkept, hsame⟩ := modifyPath_same t id (f := Shared.measure h.now nonce sent)
    fun p => ⟨rfl, rfl, rfl⟩
  dsimp only
  generalize t.modifyPath id (Shared.measure h.now nonce sent) = u at hshut hkept hsame ⊢
  split
  · exact ⟨hshut, hsame, .inl hkept⟩
  rename_i target htarget
  split
  · rename_i hcooled
    rw [Shared.switch]
    split
    · exact ⟨hshut, hsame, .inl hkept⟩
    · rename_i hne
      refine ⟨hshut, hsame, .inr ⟨⟨target, ?_, rfl, Shared.preferred_present htarget, ?_, rfl,
        hkept.nextId⟩, ?_⟩⟩
      · rw [← hkept.active]
        exact hne
      · show u.routes.txEpoch + 1 = _
        rw [hkept.txEpoch]
      · rw [← hkept.txEpoch, ← hkept.changedAt]
        exact hcooled
  · exact ⟨hshut, hsame, .inl hkept⟩

theorem turn_echo (id nonce : ℕ) : ∀ t, next h s (.echo id nonce) = some t → Turn h.now s t := by
  intro t ht
  cases ht
  obtain ⟨hshut, hsame, hkept | ⟨⟨kind, hswitched⟩, hcooled⟩⟩ := echo_turn s.shared id nonce
  · exact .measured ⟨hshut, rfl, rfl, if_pos hkept.active⟩ hkept hsame
  · refine .preferred kind hshut rfl rfl (if_neg ?_) hsame hswitched hcooled
    rw [hswitched.active]
    exact fun heq => hswitched.moved heq.symm

theorem Placed.clock (hs : s.Placed) (now : ℕ) : Placed { s with clock := now } :=
  ⟨hs.seated, hs.gone⟩

/-- **What a step can do** to the routes. -/
theorem step_cases (hs : s.Placed) {e : Host × RouteEvent} (hstep : step s e = some s') :
    s.clock ≤ e.1.now ∧ s'.clock = e.1.now ∧ Turn e.1.now { s with clock := e.1.now } s' := by
  obtain ⟨h, e⟩ := e
  unfold step at hstep
  split at hstep
  · cases hstep
  rename_i hclock
  have hs' := hs.clock h.now
  refine ⟨Nat.le_of_not_lt hclock, ?_, ?_⟩
  · cases e with
    | attach native =>
      simp only [next] at hstep
      split at hstep <;> cases hstep <;> rfl
    | peerReady id => cases hstep; rfl
    | heartbeat => cases hstep; rfl
    | echo id nonce => cases hstep; rfl
    | fail id error =>
      simp only [next] at hstep
      split at hstep <;> cases hstep <;> rfl
    | unavailable =>
      simp only [next] at hstep
      split at hstep
      · cases hstep
      · cases hstep; rfl
    | stop error code reason => cases hstep; rfl
  · cases e with
    | attach native => exact turn_attach native _ hstep
    | peerReady id =>
      cases hstep
      obtain ⟨hshut, hkept, hsame⟩ := modifyPath_same s.shared id (f := fun path =>
        if path.peerReady then path
        else { path with peerReady := true, lastEcho := h.now, probes := [], lastProbe := none })
        (by intro p; split <;> exact ⟨rfl, rfl, rfl⟩)
      exact .measured ⟨hshut, rfl, rfl, rfl⟩ hkept hsame
    | heartbeat =>
      cases hstep
      obtain ⟨hshut, hkept, hsame⟩ := beats_same s.shared
      exact .measured ⟨hshut, rfl, rfl, rfl⟩ hkept hsame
    | echo id nonce => exact turn_echo id nonce _ hstep
    | fail id error => exact turn_fail hs' id error _ hstep
    | unavailable =>
      simp only [next] at hstep
      split at hstep
      · cases hstep
      · rename_i error rest _
        cases hstep
        exact turn_stop hs' error 0 "all paths unavailable" rest h.now
    | stop error code reason =>
      cases hstep
      exact turn_stop hs' error code reason s.stopping h.now

end RouteState

end Multipath

end NebulaDesk
