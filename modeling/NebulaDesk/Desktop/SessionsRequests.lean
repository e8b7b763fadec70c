/-
The requests of the desktop keep the invariant of its sessions.
-/
import NebulaDesk.Desktop.SessionsInv

namespace NebulaDesk

namespace Sessions

variable {s s' t : Sessions} {e : Event} {c d id : ℕ}

/-! ### Requests -/

theorem Sound.mono {task : Task} (h : s.Sound d task) (hreturned : s.returned ≤ t.returned)
    (ha : t.auth = some d ↔ s.auth = some d) (hg : t.connectGate = some d ↔ s.connectGate = some d)
    (hauth : task.holdsAuth = true → t.returned = s.returned ∧ t.generation = s.generation ∧
      ∀ id ∈ t.keys, id ∈ s.keys)
    (hgate : task.holdsGate = true → (∀ r, s.Vacant r → t.Vacant r) ∧
      ∀ id, s.Unused id → t.Unused id) : t.Sound d task :=
  ⟨h.auth.trans ha.symm, h.gate.trans hg.symm, h.relies.mono hreturned hauth hgate⟩

theorem Inv.auth_ne (h : s.Inv) (hd : s.auth ≠ some d) : (s.tasks d).holdsAuth = false := by
  by_contra hne
  rw [Bool.not_eq_false] at hne
  exact hd ((h.tasks d).auth.mp hne)

theorem Inv.gate_ne (h : s.Inv) (hd : s.connectGate ≠ some d) : (s.tasks d).holdsGate = false := by
  by_contra hne
  rw [Bool.not_eq_false] at hne
  exact hd ((h.tasks d).gate.mp hne)

theorem Inv.next (h : s.Inv) {task : Task} (hthis : s.Sound c task) : (s.setTask c task).Inv :=
  Inv.setTask h.core hthis fun d _ => h.tasks d

theorem Inv.next_free (h : s.Inv) {task : Task} (ha : (s.tasks c).holdsAuth = false)
    (hg : (s.tasks c).holdsGate = false) (ha' : task.holdsAuth = false)
    (hg' : task.holdsGate = false) (hrelies : s.Relies task) : (s.setTask c task).Inv := by
  refine h.next ⟨?_, ?_, hrelies⟩
  · rw [ha', ← (h.tasks c).auth, ha]
  · rw [hg', ← (h.tasks c).gate, hg]

theorem Inv.giveUp (h : s.Inv) (ha : (s.tasks c).holdsAuth = false)
    (hg : (s.tasks c).holdsGate = true) : (s.giveUp c).Inv := by
  have hgate := (h.tasks c).gate.mp hg
  have hcore : Core { s with connectGate := none } := { h.core with }
  refine Inv.setTask hcore ⟨?_, ⟨nofun, nofun⟩, trivial⟩ ?_
  · show false = true ↔ s.auth = some c
    rw [← (h.tasks c).auth, ha]
  · intro d hd
    have hne : (s.tasks d).holdsGate = false :=
      h.gate_ne (by rw [hgate]; exact fun heq => hd (Option.some.inj heq).symm)
    refine ⟨(h.tasks d).auth, ?_, (h.tasks d).relies.mono le_rfl ?_ ?_⟩
    · simp [hne]
    · exact fun _ => ⟨rfl, rfl, fun _ h => h⟩
    · simp [hne]

variable {purpose : Purpose}

theorem inv_invalidate (h : s.Inv) (hc : s.tasks c = .idle) (hauth : s.auth = none) :
    ({ s with generation := s.generation + 1, auth := some c }.setTask c
      (.invalidating purpose)).Inv := by
  have hcore : Core { s with generation := s.generation + 1, auth := some c } :=
    { h.core with
      le := h.core.le.trans (Nat.le_succ _)
      current := nofun }
  refine Inv.setTask hcore ⟨⟨fun _ => rfl, fun _ => rfl⟩, ?_, ?_⟩ ?_
  · rw [← show _ ↔ s.connectGate = some c from (h.tasks c).gate, hc]
    rfl
  · exact Nat.lt_succ_of_le h.core.le
  · intro d hd
    have hne := h.auth_ne (d := d) (by rw [hauth]; nofun)
    refine (h.tasks d).mono le_rfl ?_ Iff.rfl (by simp [hne]) fun _ => ⟨fun _ h => h, fun _ h => h⟩
    rw [hauth]
    exact ⟨fun heq => absurd (Option.some.inj heq).symm hd, nofun⟩

theorem inv_stopAll (h : s.Inv) (hc : s.tasks c = .invalidating purpose) :
    ((s.stopAll s.keys).setTask c (.stopping purpose s.keys)).Inv := by
  have hq : Quiet s (s.stopAll s.keys) := quiet_stopAll _
  have hthis := h.tasks c
  rw [hc] at hthis
  refine Inv.setTask (hq.core h.core) ⟨hthis.auth, hthis.gate, hthis.relies, fun _ h => h⟩ ?_
  exact fun d _ => hq.sound (h.tasks d)

/-- Every session that `stop_all` waited for is done, and there is no other. -/
theorem inv_invalidated {ids : List ℕ} (h : s.Inv)
    (hc : s.tasks c = .stopping purpose ids) (hdone : ids.all s.isDone = true) :
    ({ s with returned := s.generation, account := none, auth := none, registry := [] }.setTask c
      (purpose.next s.generation)).Inv := by
  have hthis := h.tasks c
  rw [hc] at hthis
  obtain ⟨hlt, hkeys⟩ := hthis.relies
  have hauth : s.auth = some c := hthis.auth.mp rfl
  have hcore : Core { s with
      returned := s.generation, account := none, auth := none, registry := [] } :=
    { h.core with
      le := le_rfl
      current := fun _ => rfl
      account := nofun
      nodup := .nil
      served := nofun
      kept := by
        intro id child hid hlive
        have hall := List.all_eq_true.mp hdone id (hkeys id (h.core.kept id child hid hlive))
        rw [isDone, hid] at hall
        rw [Option.any_some, hlive] at hall
        cases hall
      limit := Nat.zero_le _
      resource := nofun }
  have hgate : s.connectGate ≠ some c := fun heq => by
    have := hthis.gate.mpr heq
    cases this
  refine Inv.setTask hcore ?_ ?_
  · cases purpose with
    | signIn => exact ⟨⟨nofun, nofun⟩, ⟨nofun, fun h => absurd h hgate⟩, le_rfl⟩
    | signOut => exact ⟨⟨nofun, nofun⟩, ⟨nofun, fun h => absurd h hgate⟩, trivial⟩
  · intro d hd
    have hne := h.auth_ne (by rw [hauth]; exact fun heq => hd (Option.some.inj heq).symm)
    refine (h.tasks d).mono hlt.le ?_ Iff.rfl (by simp [hne]) fun _ => ⟨fun _ _ => nofun, ?_⟩
    swap
    · exact fun _ h => h
    rw [hauth]
    exact ⟨nofun, fun heq => absurd (Option.some.inj heq).symm hd⟩

theorem inv_install (h : s.Inv) (hc : s.tasks c = .installing s.generation)
    (hauth : s.auth = none) :
    ({ s with account := some s.generation }.setTask c .done).Inv := by
  have hcore : Core { s with account := some s.generation } :=
    { h.core with
      account := fun a ha => by rw [← Option.some.inj ha, h.core.current hauth] }
  have hthis := h.tasks c
  rw [hc] at hthis
  refine Inv.setTask hcore ⟨hthis.auth, hthis.gate, trivial⟩ fun d _ => ?_
  exact (h.tasks d).mono le_rfl Iff.rfl Iff.rfl (fun _ => ⟨rfl, rfl, fun _ h => h⟩) fun _ =>
    ⟨fun _ h => h, fun _ h => h⟩

variable {connect : Connect} {resource : Resource} {ticket : Ticket} {account : ℕ}
   {view : Session}

theorem inv_gate (h : s.Inv) (hc : s.tasks c = .gating connect) (hgate : s.connectGate = none) :
    ({ s with connectGate := some c }.setTask c (.looking connect)).Inv := by
  have hcore : Core { s with connectGate := some c } := { h.core with }
  have hthis := h.tasks c
  rw [hc] at hthis
  refine Inv.setTask hcore ⟨hthis.auth, ⟨fun _ => rfl, fun _ => rfl⟩, hthis.relies⟩ ?_
  intro d hd
  have hne := h.gate_ne (d := d) (by rw [hgate]; nofun)
  refine (h.tasks d).mono le_rfl Iff.rfl ?_ (fun _ => ⟨rfl, rfl, fun _ h => h⟩) (by simp [hne])
  rw [hgate]
  exact ⟨fun heq => absurd (Option.some.inj heq).symm hd, nofun⟩

theorem vacant_of_existing {r : ℕ} (h : (s.existing r).isSome = false) : s.Vacant r := by
  rw [Option.isSome_eq_false_iff, Option.isNone_iff_eq_none, existing, List.find?_eq_none] at h
  intro e he ha hr
  refine h e he ?_
  simp [hr, ha]

theorem inv_looked (h : s.Inv) (hc : s.tasks c = .looking connect)
    (hnone : (s.existing connect.resourceId).isSome = false) :
    (s.setTask c (.fetching connect)).Inv := by
  have hthis := h.tasks c
  rw [hc] at hthis
  exact h.next ⟨hthis.auth, hthis.gate, hthis.relies, vacant_of_existing hnone⟩

theorem inv_fetched (h : s.Inv)
    (hc : s.tasks c = .fetching connect) (hid : resource.id = connect.resourceId)
    (hnew : ticket.sessionId ∉ s.issued) :
    ({ s with issued := ticket.sessionId :: s.issued }.setTask c
      (.locking connect resource ticket)).Inv := by
  have hcore : Core { s with issued := ticket.sessionId :: s.issued } :=
    { h.core with issued := fun id child hc => .tail _ (h.core.issued id child hc) }
  have hthis := h.tasks c
  rw [hc] at hthis
  have hunused : s.children ticket.sessionId = none := by
    cases hchild : s.children ticket.sessionId with
    | none => rfl
    | some child => exact absurd (h.core.issued _ child hchild) hnew
  refine Inv.setTask hcore ⟨hthis.auth, hthis.gate, hthis.relies.1, hthis.relies.2, hid, hunused,
    .head _⟩ ?_
  intro d _
  exact (h.tasks d).mono le_rfl Iff.rfl Iff.rfl (fun _ => ⟨rfl, rfl, fun _ h => h⟩) fun _ =>
    ⟨fun _ h => h, fun _ h => ⟨h.1, .tail _ h.2⟩⟩

theorem inv_lockAuth (h : s.Inv)
    (hc : s.tasks c = .locking connect resource ticket) (hauth : s.auth = none)
    (hg : s.generation = connect.generation) :
    ({ s with auth := some c }.setTask c (.starting connect resource ticket)).Inv := by
  have hcore : Core { s with auth := some c } := { h.core with current := nofun }
  have hthis := h.tasks c
  rw [hc] at hthis
  refine Inv.setTask hcore ⟨⟨fun _ => rfl, fun _ => rfl⟩, hthis.gate, hthis.relies, hg⟩ ?_
  intro d hd
  have hne := h.auth_ne (d := d) (by rw [hauth]; nofun)
  refine (h.tasks d).mono le_rfl ?_ Iff.rfl (by simp [hne]) fun _ => ⟨fun _ h => h, fun _ h => h⟩
  rw [hauth]
  exact ⟨fun heq => absurd (Option.some.inj heq).symm hd, nofun⟩

/-! ### `start` -/

/-- The entries of the sessions that are not done. -/
def retain (s : Sessions) : Sessions :=
  { s with registry := s.registry.filter fun e => !s.isDone e.1 }

theorem keys_retain : s.retain.keys = s.keys.filter fun id => !s.isDone id := by
  unfold keys retain
  rw [List.filter_map]
  rfl

theorem Core.retain (h : s.Core) : s.retain.Core :=
  { h with
    nodup := by
      rw [keys_retain]
      exact h.nodup.filter _
    served := by
      intro id hid
      rw [keys_retain] at hid
      exact h.served id (List.mem_filter.mp hid).1
    kept := by
      intro id child hid hlive
      rw [keys_retain]
      refine List.mem_filter.mpr ⟨h.kept id child hid hlive, ?_⟩
      have hchild : s.children id = some child := hid
      rw [isDone, hchild, Option.any_some, hlive]
      rfl
    limit := by
      rw [keys_retain]
      exact (List.filter_sublist).length_le.trans h.limit
    resource := by
      intro e he e' he'
      exact h.resource e (List.mem_filter.mp he).1 e' (List.mem_filter.mp he').1 }

/-- The new session. -/
def insert (s : Sessions) (id account : ℕ) (view : Session) : Sessions :=
  { s with
    registry := (id, view) :: s.registry.filter (·.1 ≠ id)
    children := Function.update s.children id (some
      { account := account, phase := .launching, running := true, stop := false, done := false }) }

theorem registry_insert (hid : id ∉ s.keys) :
    (s.insert id account view).registry = (id, view) :: s.registry := by
  unfold insert
  rw [List.filter_eq_self.mpr]
  intro e he
  rw [decide_eq_true_eq]
  rintro rfl
  exact hid (List.mem_map_of_mem he)

theorem children_insert (h : d ≠ id) :
    (s.insert id account view).children d = s.children d := Function.update_of_ne h ..

theorem children_insert_self :
    (s.insert id account view).children id = some ⟨account, .launching, true, false, false⟩ :=
  Function.update_self ..

theorem Core.insert (h : s.Core) (hunused : s.Unused id)
    (hvacant : s.Vacant view.resourceId) (haccount : account = s.returned)
    (hlimit : (s.keys.filter fun id => !s.isDone id).length < MAX_SESSIONS) :
    (s.insert id account view).Core := by
  have hid : id ∉ s.keys := by
    intro hmem
    obtain ⟨child, hchild, -⟩ := h.served id hmem
    rw [hunused.1] at hchild
    cases hchild
  have hkeys : (s.insert id account view).keys = id :: s.keys := by
    rw [keys, registry_insert hid]
    rfl
  have hne : ∀ i ∈ s.keys, i ≠ id := by
    rintro i hi rfl
    exact hid hi
  refine ⟨h.le, h.current, h.account, ?_, ?_, ?_, ?_, ?_, ?_, ?_⟩
  · rw [hkeys]
    exact List.nodup_cons.mpr ⟨hid, h.nodup⟩
  · intro i hi
    rw [hkeys] at hi
    rcases List.mem_cons.mp hi with rfl | hi
    · exact ⟨_, children_insert_self, haccount⟩
    · rw [children_insert (hne i hi)]
      exact h.served i hi
  · intro i child hchild hlive
    rw [hkeys]
    by_cases hi : i = id
    · rw [hi]
      exact .head _
    · rw [children_insert hi] at hchild
      exact .tail _ (h.kept i child hchild hlive)
  · intro i child hchild
    by_cases hi : i = id
    · subst hi
      rw [children_insert_self] at hchild
      cases hchild
      exact ⟨fun _ _ => ⟨nofun, nofun⟩, nofun⟩
    · rw [children_insert hi] at hchild
      exact h.valid i child hchild
  · have hsame : ∀ i ∈ s.keys, (s.insert id account view).isDone i = s.isDone i := by
      intro i hi
      rw [isDone, children_insert (hne i hi), isDone]
    rw [hkeys, List.filter_cons, List.filter_congr fun i hi => by rw [hsame i hi]]
    split
    · exact hlimit
    · exact hlimit.le
  · intro i child hchild
    by_cases hi : i = id
    · rw [hi]
      exact hunused.2
    · rw [children_insert hi] at hchild
      exact h.issued i child hchild
  · intro e he e' he' ha ha' heq
    rw [registry_insert hid] at he he'
    rcases List.mem_cons.mp he with rfl | he
    · rcases List.mem_cons.mp he' with rfl | he'
      · rfl
      · exact absurd heq.symm (hvacant e' he' ha')
    · rcases List.mem_cons.mp he' with rfl | he'
      · exact absurd heq (hvacant e he ha)
      · exact h.resource e he e' he' ha ha' heq

/-- What `start` does. -/
theorem start_cases (s : Sessions) (account : ℕ) (resource : Resource) (ticket : Ticket)
    (profile : KeyboardProfile) (spawned : Bool) :
    (s.start account resource ticket profile spawned).1 = s ∨
      (s.start account resource ticket profile spawned).1 = s.retain ∨
      ((s.keys.filter fun id => !s.isDone id).length < MAX_SESSIONS ∧
        (s.start account resource ticket profile spawned).1 =
          s.retain.insert ticket.sessionId account
            { resourceId := resource.id, state := .connecting, path := none, error := none }) := by
  unfold start
  split
  · exact .inl rfl
  · split
    · exact .inl rfl
    · next hlimit =>
      dsimp only
      split
      · exact .inr (.inl rfl)
      · refine .inr (.inr ⟨?_, rfl⟩)
        rw [not_le] at hlimit
        unfold keys
        rw [List.filter_map, List.length_map]
        exact hlimit

theorem vacant_retain {r : ℕ} (h : s.Vacant r) : s.retain.Vacant r :=
  fun e he => h e (List.mem_filter.mp he).1

theorem Core.start (h : s.Core)
    (profile : KeyboardProfile) (spawned : Bool) (hunused : s.Unused ticket.sessionId)
    (hvacant : s.Vacant resource.id) (haccount : account = s.returned) :
    (s.start account resource ticket profile spawned).1.Core := by
  obtain heq | heq | ⟨hlimit, heq⟩ := s.start_cases account resource ticket profile spawned
  · rw [heq]
    exact h
  · rw [heq]
    exact h.retain
  · rw [heq]
    refine h.retain.insert hunused (vacant_retain hvacant) haccount ?_
    rw [keys_retain, List.filter_filter]
    exact lt_of_le_of_lt (List.Sublist.length_le
      (List.monotone_filter_right _ fun i hi => (Bool.and_eq_true_iff.mp hi).2)) hlimit

/-- What `start` leaves alone. -/
theorem start_frame (s : Sessions) (account : ℕ) (resource : Resource) (ticket : Ticket)
    (profile : KeyboardProfile) (spawned : Bool) :
    (s.start account resource ticket profile spawned).1 = { s with
      registry := (s.start account resource ticket profile spawned).1.registry
      children := (s.start account resource ticket profile spawned).1.children } := by
  obtain heq | heq | ⟨-, heq⟩ := s.start_cases account resource ticket profile spawned <;>
    rw [heq] <;> rfl

theorem inv_start {spawned : Bool}
    (h : s.Inv) (hc : s.tasks c = .starting connect resource ticket) :
    ({ (s.start connect.account resource ticket connect.profile spawned).1 with
      auth := none }.giveUp c).Inv := by
  have hthis := h.tasks c
  rw [hc] at hthis
  obtain ⟨⟨⟨haccount, hle⟩, hvacant, hid, hunused⟩, hg⟩ := hthis.relies
  have hreturned : s.returned = s.generation := le_antisymm h.core.le (hg ▸ hle)
  have hauth := hthis.auth.mp rfl
  have hgate := hthis.gate.mp rfl
  have hcore := h.core.start connect.profile spawned hunused (hid ▸ hvacant)
    (haccount.trans (hg.symm.trans hreturned.symm))
  have hframe := s.start_frame connect.account resource ticket connect.profile spawned
  generalize (s.start connect.account resource ticket connect.profile spawned).1 = u at hcore hframe
  have hret : u.returned = s.returned := by rw [hframe]
  have hgen : u.generation = s.generation := by rw [hframe]
  have htasks : u.tasks = s.tasks := by rw [hframe]
  have hback : Core { u with auth := none, connectGate := none } :=
    { hcore with current := fun _ => by rw [hret, hgen, hreturned] }
  refine Inv.setTask hback ⟨⟨nofun, nofun⟩, ⟨nofun, nofun⟩, trivial⟩ ?_
  intro d hd
  have hne : ∀ {lock : Option ℕ}, lock = some c → lock ≠ some d := by
    rintro _ rfl heq
    exact hd (Option.some.inj heq).symm
  show Sound _ d (u.tasks d)
  rw [htasks]
  exact (h.tasks d).free hret.ge (h.auth_ne (hne hauth)) (h.gate_ne (hne hgate)) nofun nofun

theorem inv_stepRequest (h : s.Inv) (hs : s.stepRequest e = some s') : s'.Inv := by
  have hauth : ∀ c, (s.tasks c).holdsAuth = false → s.auth ≠ some c := by
    intro c hc heq
    rw [← (h.tasks c).auth, hc] at heq
    cases heq
  cases e with
  | invalidate c purpose =>
    obtain ⟨hc, rfl⟩ := Runs.some_of_guard hs
    exact inv_invalidate h hc.1 hc.2
  | stopAll c =>
    simp only [stepRequest] at hs
    split at hs
    · next purpose hc =>
      cases hs
      exact inv_stopAll h hc
    · cases hs
  | invalidated c =>
    simp only [stepRequest] at hs
    split at hs
    · next purpose ids hc =>
      obtain ⟨hdone, rfl⟩ := Runs.some_of_guard hs
      exact inv_invalidated h hc hdone
    · cases hs
  | authenticated c ok =>
    simp only [stepRequest] at hs
    split at hs
    · next g hc =>
      cases hs
      have hrelies := (h.tasks c).relies
      rw [hc] at hrelies
      split
      · exact h.next_free (by rw [hc]; rfl) (by rw [hc]; rfl) rfl rfl hrelies
      · exact h.next_free (by rw [hc]; rfl) (by rw [hc]; rfl) rfl rfl trivial
    · cases hs
  | install c =>
    simp only [stepRequest] at hs
    split at hs
    · next g hc =>
      split at hs
      · next hfree =>
        split at hs
        · next hg =>
          cases hs
          subst hg
          exact inv_install h hc hfree
        · cases hs
          exact h.next_free (by rw [hc]; rfl) (by rw [hc]; rfl) rfl rfl trivial
      · cases hs
    · cases hs
  | connect c resourceId profile =>
    simp only [stepRequest] at hs
    split at hs
    · next hc =>
      split at hs
      · cases hs
        exact h.next_free (by rw [hc.1]; rfl) (by rw [hc.1]; rfl) rfl rfl trivial
      · next a ha =>
        cases hs
        have hcurrent := h.core.current hc.2
        refine h.next_free (by rw [hc.1]; rfl) (by rw [hc.1]; rfl) rfl rfl ⟨?_, hcurrent.ge⟩
        exact (h.core.account a ha).trans hcurrent
    · cases hs
  | gate c =>
    simp only [stepRequest] at hs
    split at hs
    · next connect hc =>
      obtain ⟨hfree, rfl⟩ := Runs.some_of_guard hs
      exact inv_gate h hc hfree.1
    · cases hs
  | existing c =>
    simp only [stepRequest] at hs
    split at hs
    · next connect hc =>
      split at hs
      · cases hs
        exact h.giveUp (by rw [hc]; rfl) (by rw [hc]; rfl)
      · next hnone =>
        cases hs
        exact inv_looked h hc (Bool.eq_false_of_not_eq_true hnone)
    · cases hs
  | fetched c resource ticket =>
    simp only [stepRequest] at hs
    split at hs
    · next connect hc =>
      split at hs
      · next hg =>
        split at hs
        · cases hs
          exact h.giveUp (by rw [hc]; rfl) (by rw [hc]; rfl)
        · next hok =>
          cases hs
          rw [not_or, not_not] at hok
          exact inv_fetched h hc hok.1 hg.2
      · cases hs
    · cases hs
  | unfetched c =>
    simp only [stepRequest] at hs
    split at hs
    · next connect hc =>
      cases hs
      exact h.giveUp (by rw [hc]; rfl) (by rw [hc]; rfl)
    · cases hs
  | cancelled c =>
    simp only [stepRequest] at hs
    split at hs
    · next connect hc =>
      obtain ⟨-, rfl⟩ := Runs.some_of_guard hs
      exact h.next_free (by rw [hc]; rfl) (by rw [hc]; rfl) rfl rfl trivial
    · next connect hc =>
      obtain ⟨-, rfl⟩ := Runs.some_of_guard hs
      exact h.giveUp (by rw [hc]; rfl) (by rw [hc]; rfl)
    · cases hs
  | lockAuth c =>
    simp only [stepRequest] at hs
    split at hs
    · next connect resource ticket hc =>
      split at hs
      · next hfree =>
        split at hs
        · cases hs
          exact h.giveUp (by rw [hc]; rfl) (by rw [hc]; rfl)
        · next hg =>
          cases hs
          exact inv_lockAuth h hc hfree (not_not.mp hg)
      · cases hs
    · cases hs
  | start c spawned =>
    simp only [stepRequest] at hs
    split at hs
    · next connect resource ticket hc =>
      cases hs
      exact inv_start h hc
    · cases hs
  | disconnect c id =>
    simp only [stepRequest] at hs
    split at hs
    · next hc =>
      split at hs
      · cases hs
        exact ((quiet_stopAll [id]).inv h).next_free (by rw [quiet_stopAll [id] |>.tasks, hc]; rfl)
          (by rw [quiet_stopAll [id] |>.tasks, hc]; rfl) rfl rfl trivial
      · cases hs
        exact h.next_free (by rw [hc]; rfl) (by rw [hc]; rfl) rfl rfl trivial
    · cases hs
  | disconnected c =>
    simp only [stepRequest] at hs
    split at hs
    · next id hc =>
      obtain ⟨-, rfl⟩ := Runs.some_of_guard hs
      exact h.next_free (by rw [hc]; rfl) (by rw [hc]; rfl) rfl rfl trivial
    · cases hs
  | _ => cases hs

theorem step_cases (hs : s.step e = some s') : s.stepRequest e = some s' ∨
    ∃ id child, s.children id = some child ∧ s.stepChild id child e = some s' := by
  cases e <;> first
    | exact .inl hs
    | exact .inr ⟨_, (Option.bind_eq_some_iff.mp hs).imp fun _ h => h⟩

theorem Inv.step (h : s.Inv) (hs : s.step e = some s') : s'.Inv := by
  rcases step_cases hs with hrequest | ⟨id, child, hid, hchild⟩
  · exact inv_stepRequest h hrequest
  · exact (quiet_stepChild hid hchild).inv h

theorem inv_of_reach (hr : Runs.Reach step new s) : s.Inv :=
  hr.invariant inv_new fun _ _ _ h hs => h.step hs

end Sessions

end NebulaDesk
