/-
Which surfaces keep a live capture (`nebula-agent/src/application.rs`).

A capture that is not suspended delivers under an odd epoch.  A refresh keeps that up except where
a capture is taken over to a new generation: it is paused, and only a scheduled retry resumes it.

* **`reconcile_upsert`** — where the announcements of a snapshot come from;
* **`attend_triple`** — what one turn of the loop over the live surfaces leaves of a surface;
* **`surfaces_shown`** — in every run that takes captures over only where a retry is scheduled,
  a refresh leaves every available surface with a capture that delivers or with a retry.
-/
import NebulaDesk.Agent.SurfaceRuntime

namespace NebulaDesk

open Runs
open Cmd (Triple)
open Std (ExtTreeMap)

namespace Surfaces

variable {st st' : Surfaces}

/-! ### The announcements of a snapshot -/

theorem retire_message {leaf : ℕ} {message : ApplicationMessage}
    (h : st.retire leaf = (.ok message, st')) : message = .surfaceRemove leaf := by
  unfold retire at h
  split at h
  · cases h
  · split at h
    · cases h
    · cases h
      rfl

theorem retireAll_messages {fuel : ℕ} {removed : List ℕ} {messages sent : List ApplicationMessage}
    (h : retireAll fuel st removed messages = (.ok sent, st')) {info : SurfaceInfo}
    (hinfo : .surfaceUpsert info ∈ sent) : .surfaceUpsert info ∈ messages := by
  induction fuel generalizing st removed messages with
  | zero =>
    obtain ⟨rfl, rfl⟩ := by simpa [retireAll] using h
    exact hinfo
  | succ fuel ih =>
    unfold retireAll at h
    split at h
    · obtain ⟨rfl, rfl⟩ := by simpa using h
      exact hinfo
    · split at h
      · cases h
      · next leaf _ =>
        split at h
        · cases h
        · next message st₁ hretire =>
          rcases List.mem_append.mp (ih h) with hmem | hmem
          · exact hmem
          · obtain rfl := retire_message hretire
            simp at hmem

variable {sent : List ApplicationMessage}

theorem announce_upsert (hinv : st.Inv) {surface : NativeSurface}
    (h : st.announce surface = (.ok sent, st')) :
    (∀ p q : ℕ, st.native[p]? = some q → st'.native[p]? = some q) ∧
      ∀ info, .surfaceUpsert info ∈ sent →
        st'.native[surface.nativeId]? = some info.surfaceId ∧
          info.geometryGeneration = surface.geometryGeneration ∧
          info.minimized = surface.minimized := by
  unfold announce at h
  dsimp only at h
  split at h
  · cases h
  · next id st₁ hallocate =>
    obtain ⟨-, -, -, hid, hkept, -⟩ := allocate_ok hinv hallocate
    split at h
    · cases h
    · split at h
      · obtain ⟨rfl, rfl⟩ := by simpa using h
        exact ⟨hkept, fun _ hinfo => nomatch hinfo⟩
      · obtain ⟨rfl, rfl⟩ := by simpa using h
        refine ⟨hkept, fun info hinfo => ?_⟩
        obtain rfl := by simpa using hinfo
        exact ⟨hid, rfl, rfl⟩

theorem announceAll_upsert (hinv : st.Inv) {fuel : ℕ} {pending : List NativeSurface}
    {messages sent : List ApplicationMessage}
    (h : announceAll fuel st pending messages = (.ok sent, st')) :
    (∀ p q : ℕ, st.native[p]? = some q → st'.native[p]? = some q) ∧
      ∀ info, .surfaceUpsert info ∈ sent → .surfaceUpsert info ∈ messages ∨
        ∃ surface ∈ pending, st'.native[surface.nativeId]? = some info.surfaceId ∧
          info.geometryGeneration = surface.geometryGeneration ∧
          info.minimized = surface.minimized := by
  induction fuel generalizing st pending messages with
  | zero =>
    obtain ⟨rfl, rfl⟩ := by simpa [announceAll] using h
    exact ⟨fun _ _ hp => hp, fun _ hinfo => .inl hinfo⟩
  | succ fuel ih =>
    unfold announceAll at h
    split at h
    · obtain ⟨rfl, rfl⟩ := by simpa using h
      exact ⟨fun _ _ hp => hp, fun _ hinfo => .inl hinfo⟩
    · split at h
      · cases h
      · next position hposition =>
        split at h
        · obtain ⟨rfl, rfl⟩ := by simpa using h
          exact ⟨fun _ _ hp => hp, fun _ hinfo => .inl hinfo⟩
        · next surface hsurface =>
          split at h
          · cases h
          · next more st₁ hannounce =>
            obtain ⟨hkept₁, hfirst⟩ := announce_upsert hinv hannounce
            have hinv₁ := (round_announce hinv surface (known_of_findIdx hposition hsurface)).inv
            rw [hannounce] at hinv₁
            obtain ⟨hkept, hrest⟩ := ih hinv₁ h
            refine ⟨fun p q hp => hkept p q (hkept₁ p q hp), fun info hinfo => ?_⟩
            rcases hrest info hinfo with hbefore | ⟨other, hother, hfrom⟩
            · rcases List.mem_append.mp hbefore with hbefore | hnow
              · exact .inl hbefore
              · -- later rounds keep the id
                obtain ⟨hid, hsame⟩ := hfirst info hnow
                exact .inr ⟨surface, List.mem_of_getElem? hsurface, hkept _ _ hid, hsame⟩
            · exact .inr ⟨other, List.mem_of_mem_eraseIdx hother, hfrom⟩

theorem reconcile_upsert (hinv : st.Inv) {snapshot : List NativeSurface}
    (h : st.reconcile snapshot = (.ok sent, st')) :
    (snapshot.map (·.nativeId)).Nodup ∧
      ∀ info, .surfaceUpsert info ∈ sent → ∃ surface ∈ snapshot,
        st'.native[surface.nativeId]? = some info.surfaceId ∧
          info.geometryGeneration = surface.geometryGeneration ∧
          info.minimized = surface.minimized := by
  unfold reconcile at h
  split at h
  · cases h
  split at h
  · cases h
  dsimp only at h
  split at h
  · cases h
  next hcard =>
  split at h
  · cases h
  split at h
  · cases h
  next messages st₁ hretire =>
  refine ⟨?_, fun info hinfo => ?_⟩
  · have hnodup := Multiset.toFinset_card_eq_card_iff_nodup
      (m := ((snapshot.map (·.nativeId) : List ℕ) : Multiset ℕ)) |>.mp
    exact Multiset.coe_nodup.mp (hnodup (by simpa using hcard))
  · obtain ⟨rest, hround, -⟩ := round_retireAll hinv _ _ []
    rw [hretire] at hround
    rcases (announceAll_upsert hround.inv h).2 info hinfo with hbefore | hsurface
    · exact nomatch retireAll_messages hretire hbefore
    · exact hsurface

theorem native_of_given (hinv : st.Inv) {snapshot : List NativeSurface}
    (h : st.reconcile snapshot = (.ok sent, st')) {id window : ℕ} (hgiven : ∃ w, st.GivenTo id w)
    (hwindow : st'.native[window]? = some id) : st.native[window]? = some id := by
  have hround := round_reconcile hinv snapshot
  rw [h] at hround
  have hsame : ∀ w, st.GivenTo id w → w = window := by
    intro w hw
    rcases hround.owners id w hw with hnative | ⟨-, hnobody⟩
    · exact hround.inv.injective _ _ id hnative hwindow
    · exact absurd hwindow (hnobody window)
  obtain ⟨w, hw⟩ := hgiven
  rcases hw with hnative | ⟨hlt, hnobody⟩
  · rw [← hsame w (.inl hnative)]
    exact hnative
  · -- then it would have been given to every window
    have hnext := hsame (window + 1) (.inr ⟨hlt, hnobody⟩)
    omega

end Surfaces

namespace Capture

def Delivers (c : Capture) : Prop := c.deliveryEpoch % 2 = 1

theorem delivers_new (generation : ℕ) : (Capture.new generation).Delivers := by
  show (generation * 2 ^ 32 + 1) % 2 = 1
  omega

theorem delivers_resume (now : ℕ) (c : Capture) : (c.resume now).Delivers := by
  unfold Delivers resume
  split
  · show (c.deliveryEpoch + 1) % 2 ^ 64 % 2 = 1
    omega
  · omega

theorem deliveryEpoch_stalled (now : ℕ) (c : Capture) :
    (c.warmResumeStalled now).2.deliveryEpoch = c.deliveryEpoch := by
  unfold warmResumeStalled
  split
  · rfl
  · split
    · rfl
    · rfl

end Capture

namespace Runtime

/-! ### One surface -/

/-- Its capture delivers or a retry is scheduled, if it has a capture. -/
def Ready (id : ℕ) (r : Runtime) : Prop :=
  ∀ c, r.captures[id]? = some c → c.capture.Delivers ∨ r.retry.contains id = true

/-- It has a capture that delivers or a retry. -/
def Served (id : ℕ) (r : Runtime) : Prop :=
  (∃ c, r.captures[id]? = some c ∧ c.capture.Delivers) ∨ r.retry.contains id = true

/-- Everything but the capture and the retry of a surface is as it was. -/
structure Beside (id : ℕ) (r s : Runtime) : Prop where
  surfaces : s.surfaces = r.surfaces
  captures : ∀ other : ℕ, other ≠ id → s.captures[other]? = r.captures[other]?
  retry : ∀ other : ℕ, other ≠ id → s.retry.contains other = r.retry.contains other

theorem Beside.refl (id : ℕ) (r : Runtime) : Beside id r r := ⟨rfl, fun _ _ => rfl, fun _ _ => rfl⟩

theorem Beside.trans {id : ℕ} {r s t : Runtime} (h : Beside id r s) (h' : Beside id s t) :
    Beside id r t where
  surfaces := h'.surfaces.trans h.surfaces
  captures other hne := (h'.captures other hne).trans (h.captures other hne)
  retry other hne := (h'.retry other hne).trans (h.retry other hne)

variable {r s : Runtime} {id : ℕ}

theorem getElem?_setCapture (id other : ℕ) (c : SurfaceCapture) (r : Runtime) :
    (r.setCapture id c).captures[other]? = if id = other then some c else r.captures[other]? := by
  simp [setCapture, ExtTreeMap.getElem?_insert]

theorem getElem?_setCapture_self (id : ℕ) (c : SurfaceCapture) (r : Runtime) :
    (r.setCapture id c).captures[id]? = some c := by
  rw [getElem?_setCapture, if_pos rfl]

theorem getElem?_removeCapture (id other : ℕ) (r : Runtime) :
    (r.removeCapture id).captures[other]? =
      if id = other then none else r.captures[other]? := by
  simp [removeCapture, ExtTreeMap.getElem?_erase]

theorem contains_setRetry (id other due : ℕ) (r : Runtime) :
    (r.setRetry id due).retry.contains other =
      if id = other then true else r.retry.contains other := by
  by_cases h : id = other
  · simp [setRetry, h]
  · simp [setRetry, ExtTreeMap.contains_insert, h]

theorem contains_removeRetry (id other : ℕ) (r : Runtime) :
    (r.removeRetry id).retry.contains other =
      if id = other then false else r.retry.contains other := by
  by_cases h : id = other
  · simp [removeRetry, h]
  · simp [removeRetry, ExtTreeMap.contains_erase, h]

theorem beside_setCapture (id : ℕ) (c : SurfaceCapture) (r : Runtime) :
    Beside id r (r.setCapture id c) :=
  ⟨rfl, fun other hne => by rw [getElem?_setCapture, if_neg (Ne.symm hne)], fun _ _ => rfl⟩

theorem beside_removeCapture (id : ℕ) (r : Runtime) : Beside id r (r.removeCapture id) :=
  ⟨rfl, fun other hne => by rw [getElem?_removeCapture, if_neg (Ne.symm hne)], fun _ _ => rfl⟩

theorem beside_setRetry (id due : ℕ) (r : Runtime) : Beside id r (r.setRetry id due) :=
  ⟨rfl, fun _ _ => rfl, fun other hne => by
    rw [contains_setRetry, if_neg (Ne.symm hne)]⟩

theorem beside_removeRetry (id : ℕ) (r : Runtime) : Beside id r (r.removeRetry id) :=
  ⟨rfl, fun _ _ => rfl, fun other hne => by
    rw [contains_removeRetry, if_neg (Ne.symm hne)]⟩

/-! #### The parts of a turn -/

variable {P : Runtime → Prop} {snapshot : List NativeSurface} {w : RefreshInput}

theorem send_triple (event : WorkerEvent)
    (hP : ∀ s room events, P s → P { s with room := room, events := events }) :
    Triple P (send event) (fun _ => P) fun _ _ => True := by
  intro s hs
  unfold send
  split
  · exact ⟨fun _ ha => (nomatch ha), fun _ _ => trivial⟩
  · exact ⟨fun _ _ => hP s _ _ hs, fun _ he => nomatch he⟩

theorem nativeOf_triple (id : ℕ) :
    Triple P (nativeOf id)
      (fun native s => P s ∧ ∃ surface, s.surfaces.live[id]? = some surface ∧
        surface.nativeId = native) fun _ _ => True := by
  refine Triple.get (fun s native hs hnative => ⟨hs, ?_⟩) fun _ _ _ _ => trivial
  cases hlive : s.surfaces.live[id]? with
  | none =>
    rw [hlive] at hnative
    cases hnative
  | some surface =>
    rw [hlive] at hnative
    exact ⟨surface, rfl, Except.ok.inj hnative⟩

theorem scheduled_triple (id : ℕ) :
    Triple P (scheduled id) (fun found s => P s ∧ s.retry.contains id = found) fun _ _ => True :=
  Triple.get (fun _ _ hs hfound => ⟨hs, Except.ok.inj hfound⟩) fun _ _ _ _ => trivial

theorem sendIf_triple (c : Bool) (event : WorkerEvent)
    (hP : ∀ s room events, P s → P { s with room := room, events := events }) :
    Triple P (sendIf c event) (fun _ => P) fun _ _ => True :=
  Triple.ite (fun _ => send_triple event hP) fun _ => Triple.pure fun _ hs => hs

theorem Beside.queue (h : Beside id r s) (room : ℕ) (events : List WorkerEvent) :
    Beside id r { s with room := room, events := events } :=
  { h with }

theorem suspend_triple (now id : ℕ) (r : Runtime) :
    Triple (Beside id r) (suspend now id)
      (fun _ s => Beside id r s ∧ s.retry.contains id = true) fun _ _ => True := by
  refine Triple.bind (Q := fun _ => Beside id r) (Triple.modify fun s hs => ?_) fun _ => ?_
  · split
    · exact hs
    · exact hs.trans (beside_setCapture id _ s)
  refine Triple.bind (scheduled_triple id) fun found => ?_
  refine Triple.bind ((sendIf_triple (!found) (.surfaceFailed id)
    fun s room events hs => hs.queue room events).consequence (fun _ hs => hs.1) (fun _ _ hs => hs)
    fun _ _ hs => hs) fun _ => ?_
  refine Triple.modify fun s hs => ⟨hs.trans (beside_setRetry id now s), ?_⟩
  rw [contains_setRetry, if_pos rfl]

theorem announceRetried_triple (slot : Option SurfaceCapture) (φ : Prop) (surface : SurfaceInfo) :
    Triple (fun s => Beside id r s ∧ s.captures[id]? = slot ∧ (s.retry.contains id = false → φ))
      (announceRetried id surface)
      (fun retried s => (retried = false → φ) ∧ Beside id r s ∧ s.captures[id]? = slot)
      fun _ _ => True := by
  refine Triple.bind (Q := fun found s => (found = false → φ) ∧ Beside id r s ∧
    s.captures[id]? = slot) (Triple.get (fun s found hs hfound => ?_) fun _ _ _ _ => trivial)
    fun found => ?_
  · cases hfound
    exact ⟨hs.2.2, hs.1, hs.2.1⟩
  refine Triple.bind (Q := fun _ s => (found = false → φ) ∧ Beside id r s ∧
    s.captures[id]? = slot) (Triple.modify fun s hs => ?_) fun _ => ?_
  · exact ⟨hs.1, hs.2.1.trans (beside_removeRetry id s), hs.2.2⟩
  exact Triple.bind (sendIf_triple found _
    fun s room events hs => ⟨hs.1, hs.2.1.queue room events, hs.2.2⟩)
    fun _ => Triple.pure fun _ hs => hs

theorem startCapture_triple (b : ApplicationBackend) (surface : SurfaceInfo) :
    Triple (Beside id r) (startCapture b id surface)
      (fun result s => Beside id r s ∧
        (result = .ok () → ∃ c, s.captures[id]? = some c ∧ c.capture.Delivers))
      fun _ _ => True := by
  have hfails : ∀ e : String, Triple (Beside id r)
      (pure (Except.error e) : Refresh (Except String Unit))
      (fun result s => Beside id r s ∧
        (result = .ok () → ∃ c, s.captures[id]? = some c ∧ c.capture.Delivers))
      fun _ _ => True := fun e => Triple.pure fun s hs => ⟨hs, fun he => nomatch he⟩
  refine Triple.bind ((nativeOf_triple id).consequence (fun _ hs => hs) (fun _ _ hs => hs.1)
    fun _ _ hs => hs) fun native => ?_
  split
  · exact hfails _
  · refine Triple.bind
      (Triple.get (fun _ _ hs _ => hs) fun _ _ _ _ => trivial) fun bitrate => ?_
    split
    · exact hfails _
    · refine Triple.bind (Q := fun _ s => Beside id r s ∧
        ∃ c, s.captures[id]? = some c ∧ c.capture.Delivers) (Triple.modify fun s hs => ?_)
        fun _ => Triple.pure fun s hs => ⟨hs.1, fun _ => hs.2⟩
      exact ⟨hs.trans (beside_setCapture id _ s), _, getElem?_setCapture_self id _ s,
        Capture.delivers_new _⟩

/-- What a turn leaves of a surface. -/
structure Attended (id : ℕ) (minimized : Bool) (r s : Runtime) : Prop where
  beside : Beside id r s
  ready : Ready id s
  served : minimized = false → Served id s

theorem Attended.of_retry {minimized : Bool} (h : Beside id r s)
    (hretry : s.retry.contains id = true) : Attended id minimized r s :=
  ⟨h, fun _ _ => .inr hretry, fun _ => .inr hretry⟩

theorem Attended.of_capture {minimized : Bool} {c : SurfaceCapture} (h : Beside id r s)
    (hc : s.captures[id]? = some c) (hdelivers : c.capture.Delivers) :
    Attended id minimized r s where
  beside := h
  ready c' hc' := by
    obtain rfl := Option.some.inj (hc.symm.trans hc')
    exact .inl hdelivers
  served _ := .inl ⟨c, hc, hdelivers⟩

theorem tryStart_triple (b : ApplicationBackend) (now : ℕ) (surface : SurfaceInfo) :
    Triple (fun s => Beside id r s ∧ s.captures[id]? = none) (tryStart b now id surface)
      (fun _ s => Attended id surface.minimized r s) fun _ _ => True := by
  refine Triple.bind (Q := fun waiting s => (Beside id r s ∧ s.captures[id]? = none) ∧
    (waiting = true → s.retry.contains id = true))
    (Triple.get (fun s waiting hs hwaiting => ⟨hs, ?_⟩) fun _ _ _ _ => trivial) fun waiting => ?_
  · rintro rfl
    obtain ⟨due, hdue, -⟩ := (Option.any_eq_true _ _).mp (Except.ok.inj hwaiting)
    exact ExtTreeMap.contains_eq_isSome_getElem?.trans (by rw [hdue]; rfl)
  refine Triple.ite (fun hskip => Triple.pure fun s hs => ?_) fun _ => ?_
  · cases hmin : surface.minimized with
    | false =>
      rw [hmin, Bool.false_or] at hskip
      exact .of_retry hs.1.1 (hs.2 hskip)
    | true =>
      refine ⟨hs.1.1, fun c hc => ?_, fun h => nomatch h⟩
      rw [hs.1.2] at hc
      cases hc
  · refine Triple.bind ((startCapture_triple b surface).consequence (fun _ hs => hs.1.1)
      (fun _ _ hs => hs) fun _ _ hs => hs) fun result => ?_
    cases result with
    | ok u =>
      intro s ⟨hs, hstarted⟩
      obtain ⟨c, hc, hdelivers⟩ := hstarted rfl
      refine Triple.bind (announceRetried_triple (some c) True surface)
        (fun _ => Triple.pure fun t ht => ?_) s ⟨hs, hc, fun _ => trivial⟩
      exact .of_capture ht.2.1 ht.2.2 hdelivers
    | error e =>
      refine Triple.bind ((scheduled_triple id).consequence (fun _ hs => hs.1) (fun _ _ hs => hs.1)
        fun _ _ hs => hs) fun found => ?_
      refine Triple.bind (sendIf_triple (!found) _ fun s room events hs => hs.queue room events)
        fun _ => Triple.modify fun s hs => ?_
      exact .of_retry (hs.trans (beside_setRetry id _ s)) (by rw [contains_setRetry, if_pos rfl])

theorem ready_removeCapture (hs : Beside id r s) :
    Beside id r (s.removeCapture id) ∧ Ready id (s.removeCapture id) := by
  refine ⟨hs.trans (beside_removeCapture id s), fun c hc => ?_⟩
  rw [getElem?_removeCapture, if_pos rfl] at hc
  cases hc

theorem ready_dropUnproven (hs : Beside id r s) (hready : Ready id s) :
    Beside id r (dropUnproven id s) ∧ Ready id (dropUnproven id s) := by
  unfold dropUnproven
  split
  · exact ready_removeCapture hs
  · exact ⟨hs, hready⟩

theorem ready_dropStalled (now : ℕ) (hs : Beside id r s) (hready : Ready id s) :
    Beside id r (dropStalled now id s) ∧ Ready id (dropStalled now id s) := by
  unfold dropStalled
  split
  · exact ⟨hs, hready⟩
  · next c hc =>
    split
    · exact ready_removeCapture hs
    · refine ⟨hs.trans (beside_setCapture id _ s), fun c' hc' => ?_⟩
      rw [getElem?_setCapture_self] at hc'
      cases hc'
      -- the deadline is not the epoch
      refine (hready c hc).imp (fun hdelivers => ?_) fun hretry => hretry
      unfold Capture.Delivers
      rw [Capture.deliveryEpoch_stalled]
      exact hdelivers

/-- **One turn** of the loop over the live surfaces: a surface that is unavailable gets a retry,
and one that is available is served if it was ready. -/
theorem attend_triple (w : RefreshInput) {surface : NativeSurface} {info : SurfaceInfo}
    (hlive : r.surfaces.live[id]? = some surface)
    (hregistry : r.surfaces.registry.live[id]? = some info)
    (hready : surface.nativeId ∉ w.unavailable → Ready id r) :
    Triple (fun s => s = r) (attend w id) (fun _ s => Attended id info.minimized r s)
      fun _ _ => True := by
  have hnative : Triple (fun s => s = r) (nativeOf id)
      (fun native s => native = surface.nativeId ∧ s = r) fun _ _ => True :=
    (nativeOf_triple id).consequence (fun _ hs => hs) (fun native s hs => by
      obtain ⟨rfl, found, hfound, rfl⟩ := hs
      exact ⟨by rw [Option.some.inj (hlive.symm.trans hfound)], rfl⟩) fun _ _ hs => hs
  refine Triple.bind hnative fun native => Triple.of_pure fun heq => ?_
  subst heq
  refine Triple.ite (fun _ => ?_) fun havailable => ?_
  · exact (suspend_triple _ id r).consequence (fun s hs => hs ▸ .refl id r)
      (fun _ s hs => .of_retry hs.1 hs.2) fun _ _ hs => hs
  refine Triple.bind (Q := fun found s => found = info ∧ s = r)
    (Triple.get (fun s found hs hfound => ?_) fun _ _ _ _ => trivial) fun found =>
    Triple.of_pure fun heq => ?_
  · subst hs
    rw [hregistry] at hfound
    exact ⟨(Except.ok.inj hfound).symm, rfl⟩
  subst heq
  refine Triple.bind (Q := fun _ s => Beside id r s ∧ Ready id s) (Triple.modify fun s hs => ?_)
    fun _ => ?_
  · subst hs
    obtain ⟨hproven, hready'⟩ := ready_dropUnproven (.refl id s) (hready havailable)
    exact ready_dropStalled _ hproven hready'
  refine Triple.bind (Q := fun slot s => (Beside id r s ∧ Ready id s) ∧ s.captures[id]? = slot)
    (Triple.get (fun s slot hs hslot => ⟨hs, Except.ok.inj hslot⟩) fun _ _ _ _ => trivial)
    fun slot => ?_
  cases slot with
  | none =>
    exact (tryStart_triple w.toApplicationBackend _ found).consequence (fun _ hs => ⟨hs.1.1, hs.2⟩)
      (fun _ _ hs => hs) fun _ _ hs => hs
  | some c =>
    -- without a retry it delivers already
    refine Triple.bind ((announceRetried_triple (some c) c.capture.Delivers found).consequence
      (fun s hs => ⟨hs.1.1, hs.2, fun hnone => ?_⟩) (fun _ _ hs => hs) fun _ _ hs => hs)
      fun retried => Triple.ite (fun _ => Triple.modify fun s hs => ?_) fun hkept =>
        Triple.pure fun s hs => ?_
    · exact (hs.1.2 c hs.2).resolve_right (by rw [hnone]; exact Bool.false_ne_true)
    · exact .of_capture (hs.2.1.trans (beside_setCapture id _ s)) (getElem?_setCapture_self id _ s)
        (Capture.delivers_resume (w.now id) c.capture)
    · exact .of_capture hs.2.1 hs.2.2 (hs.1 (Bool.eq_false_iff.mpr hkept))

/-! ### What changed -/

/-- Where a change of a snapshot comes from. -/
def Sourced (snapshot : List NativeSurface) (st : Surfaces) : ApplicationMessage → Prop
  | .surfaceUpsert info => ∃ surface ∈ snapshot,
      st.native[surface.nativeId]? = some info.surfaceId ∧
        info.geometryGeneration = surface.geometryGeneration ∧
        info.minimized = surface.minimized
  | .surfaceRemove id => st.live[id]? = none
  | _ => True

def Unavailable (w : RefreshInput) (st : Surfaces) (id : ℕ) : Prop :=
  ∃ surface, st.live[id]? = some surface ∧ surface.nativeId ∈ w.unavailable

/-- What holds while the changes of a snapshot are followed, from `r`. -/
structure Following (w : RefreshInput) (snapshot : List NativeSurface) (r s : Runtime) : Prop where
  surfaces : s.surfaces = r.surfaces
  captured : ∀ (id : ℕ) (c : SurfaceCapture), s.captures[id]? = some c →
    ∃ c₀, r.captures[id]? = some c₀ ∧ (c.capture.generation = c₀.capture.generation ∨
      ∃ surface ∈ snapshot, r.surfaces.native[surface.nativeId]? = some id ∧
        c.capture.generation = surface.geometryGeneration)
  retry : ∀ (id : ℕ) surface, r.surfaces.live[id]? = some surface →
    s.retry.contains id = r.retry.contains id
  ready : ∀ id, Ready id s ∨ Unavailable w r.surfaces id

/-- The captures that may be taken over. -/
def Resumable (w : RefreshInput) (snapshot : List NativeSurface) (r : Runtime) : Prop :=
  ∀ surface ∈ snapshot, ∀ (id : ℕ) (c : SurfaceCapture),
    r.surfaces.native[surface.nativeId]? = some id → r.captures[id]? = some c →
    c.capture.generation ≠ surface.geometryGeneration → surface.minimized = false →
    w.canResumeCapture surface.nativeId c.capture.generation surface.geometryGeneration = true →
    r.retry.contains id = true ∨ surface.nativeId ∈ w.unavailable

theorem Following.queue (h : Following w snapshot r s) (room : ℕ) (events : List WorkerEvent) :
    Following w snapshot r { s with room := room, events := events } :=
  { h with }

theorem Following.removeCapture
    (h : Following w snapshot r s) (id : ℕ) : Following w snapshot r (s.removeCapture id) where
  __ := h
  captured other c hc := by
    rw [getElem?_removeCapture] at hc
    split at hc
    · cases hc
    · exact h.captured other c hc
  ready other := by
    refine (h.ready other).imp_left fun hready c hc => ?_
    rw [getElem?_removeCapture] at hc
    split at hc
    · cases hc
    · exact hready c hc

theorem Following.removeRetry
    (h : Following w snapshot r s) {id : ℕ} (hgone : r.surfaces.live[id]? = none)
    (hnone : s.captures[id]? = none) : Following w snapshot r (s.removeRetry id) where
  __ := h
  retry other surface hlive := by
    have hne : id ≠ other := by
      rintro rfl
      rw [hgone] at hlive
      cases hlive
    rw [contains_removeRetry, if_neg hne]
    exact h.retry other surface hlive
  ready other := by
    refine (h.ready other).imp_left fun hready c hc => ?_
    have hne : id ≠ other := by
      rintro rfl
      exact nomatch hnone.symm.trans hc
    rw [contains_removeRetry, if_neg hne]
    exact hready c hc

theorem Following.follow (h : Following w snapshot r s) (hinv : r.surfaces.Inv)
    (hnodup : (snapshot.map (·.nativeId)).Nodup) (hresumable : Resumable w snapshot r)
    {info : SurfaceInfo} (hinfo : Sourced snapshot r.surfaces (.surfaceUpsert info))
    {live : NativeSurface} (hlive : r.surfaces.live[info.surfaceId]? = some live) :
    Following w snapshot r (follow w.toApplicationBackend live.nativeId info s) := by
  obtain ⟨surface, hmem, hid, hgeneration, hminimized⟩ := hinfo
  have hnative : live.nativeId = surface.nativeId :=
    hinv.injective _ _ _ (hinv.windows _ live hlive) hid
  unfold Runtime.follow
  split
  · exact h
  next c hc =>
  dsimp only
  split
  · exact h.removeCapture _
  next hrestart =>
  split
  · next hchanged =>
    obtain ⟨c₀, hc₀, hsame⟩ := h.captured _ c hc
    -- the capture is paused, and resumed by the loop over the live surfaces
    refine ⟨h.surfaces, fun id c' hc' => ?_, h.retry, fun id => ?_⟩
    · rw [getElem?_setCapture] at hc'
      split at hc'
      · next heq =>
        subst heq
        cases hc'
        exact ⟨c₀, hc₀, .inr ⟨surface, hmem, hid, hgeneration⟩⟩
      · exact h.captured id c' hc'
    · by_cases heq : info.surfaceId = id
      · subst heq
        have htaken : c.capture.generation = c₀.capture.generation := by
          rcases hsame with hsame | ⟨other, hother, hotherId, hcurrent⟩
          · exact hsame
          · have hwindow := hinv.injective _ _ _ hotherId hid
            obtain rfl := List.inj_on_of_nodup_map hnodup hother hmem hwindow
            exact absurd (hcurrent.trans hgeneration.symm) hchanged
        rw [hminimized, hnative, htaken, hgeneration] at hrestart
        rw [htaken, hgeneration] at hchanged
        simp only [ne_eq, hchanged, not_false_eq_true, decide_true, Bool.true_and, Bool.or_eq_true,
          Bool.not_eq_true', not_or, Bool.not_eq_true, Bool.not_eq_false] at hrestart
        rcases hresumable surface hmem _ c₀ hid hc₀ hchanged hrestart.1 hrestart.2 with
          hretry | hunavailable
        · refine .inl fun _ _ => .inr ?_
          exact (h.retry _ live hlive).trans hretry
        · exact .inr ⟨live, hlive, hnative ▸ hunavailable⟩
      · refine (h.ready id).imp_left fun hready c' hc' => ?_
        rw [getElem?_setCapture, if_neg heq] at hc'
        exact hready c' hc'
  · exact h

theorem apply_triple (hinv : r.surfaces.Inv)
    (hnodup : (snapshot.map (·.nativeId)).Nodup) (hresumable : Resumable w snapshot r)
    {change : ApplicationMessage} (hchange : Sourced snapshot r.surfaces change) :
    Triple (Following w snapshot r) (apply w.toApplicationBackend change)
      (fun _ => Following w snapshot r) fun _ _ => True := by
  refine Triple.bind ?_ fun _ =>
    send_triple _ fun s room events hs => hs.queue room events
  cases change with
  | surfaceRemove id =>
    refine Triple.modify fun s hs => (hs.removeCapture id).removeRetry hchange ?_
    rw [getElem?_removeCapture, if_pos rfl]
  | surfaceUpsert info =>
    refine Triple.bind (nativeOf_triple info.surfaceId) fun native => Triple.modify fun s hs => ?_
    obtain ⟨hs, live, hlive, rfl⟩ := hs
    exact hs.follow hinv hnodup hresumable hchange (hs.surfaces ▸ hlive)
  | _ => exact Triple.pure fun _ hs => hs

theorem applyAll_triple (hinv : r.surfaces.Inv)
    (hnodup : (snapshot.map (·.nativeId)).Nodup) (hresumable : Resumable w snapshot r)
    {changes : List ApplicationMessage}
    (hchanges : ∀ change ∈ changes, Sourced snapshot r.surfaces change) :
    Triple (Following w snapshot r) (changes.forM (apply w.toApplicationBackend))
      (fun _ => Following w snapshot r) fun _ _ => True := by
  refine (Triple.forM (I := fun rest s =>
    (∀ change ∈ rest, Sourced snapshot r.surfaces change) ∧ Following w snapshot r s)
    (fun change rest => Triple.of_pure fun hrest => ?_) changes).consequence
    (fun _ hs => ⟨hchanges, hs⟩) (fun _ _ hs => hs.2) fun _ _ hs => hs
  exact (apply_triple hinv hnodup hresumable (hrest change List.mem_cons_self)).consequence
    (fun _ hs => hs) (fun _ _ hs => ⟨fun other h => hrest other (List.mem_cons_of_mem _ h), hs⟩)
    fun _ _ hs => hs

/-! ### The loop over the live surfaces -/

/-- What holds with some of the surfaces left. -/
structure Attending (w : RefreshInput) (r : Runtime) (rest : List ℕ) (s : Runtime) : Prop where
  surfaces : s.surfaces = r.surfaces
  given : ∀ (id : ℕ) (c : SurfaceCapture), s.captures[id]? = some c →
    ∃ window, r.surfaces.GivenTo id window
  ready : ∀ id, Ready id s ∨ (id ∈ rest ∧ Unavailable w r.surfaces id)
  shown : ∀ (id : ℕ) surface, r.surfaces.live[id]? = some surface → id ∉ rest →
    surface.minimized = false → surface.nativeId ∉ w.unavailable → Served id s

theorem attending_step (hinv : r.surfaces.Inv) (id : ℕ) (rest : List ℕ) :
    Triple (Attending w r (id :: rest)) (attend w id) (fun _ => Attending w r rest)
      fun _ _ => True := by
  intro s hs
  cases hlive : r.surfaces.live[id]? with
  | none =>
    have hnone : nativeOf id s = (.error (.panic "no entry found for key"), s) := by
      unfold nativeOf Cmd.get
      dsimp only
      rw [hs.surfaces, hlive]
    unfold attend
    rw [Cmd.bind_error hnone]
    exact ⟨fun _ ha => (by cases ha), fun _ _ => trivial⟩
  | some surface =>
    have hregistry : s.surfaces.registry.live[id]? = some (r.surfaces.infoOf id surface) := by
      rw [hs.surfaces, hinv.mirror, hlive]
      rfl
    have hready : surface.nativeId ∉ w.unavailable → Ready id s := by
      intro havailable
      rcases hs.ready id with hready | ⟨-, other, hother, hunavailable⟩
      · exact hready
      · obtain rfl := Option.some.inj (hlive.symm.trans hother)
        exact absurd hunavailable havailable
    refine (attend_triple w (by rw [hs.surfaces, hlive]) hregistry hready).consequence
      (fun _ h => h) (fun _ t ht => ?_) (fun _ _ h => h) s rfl
    refine ⟨ht.beside.surfaces.trans hs.surfaces, fun other c hc => ?_, fun other => ?_, ?_⟩
    · by_cases heq : other = id
      · subst heq
        exact ⟨_, .inl (hinv.windows _ surface hlive)⟩
      · rw [ht.beside.captures other heq] at hc
        exact hs.given other c hc
    · by_cases heq : other = id
      · subst heq
        exact .inl ht.ready
      · refine (hs.ready other).imp (fun hready c hc => ?_) fun h => ⟨?_, h.2⟩
        · rw [ht.beside.captures other heq] at hc
          rw [ht.beside.retry other heq]
          exact hready c hc
        · exact (List.mem_cons.mp h.1).resolve_left heq
    · intro other found hfound hrest hmin havailable
      by_cases heq : other = id
      · subst heq
        obtain rfl := Option.some.inj (hlive.symm.trans hfound)
        exact ht.served hmin
      · have hserved := hs.shown other found hfound
          (fun hmem => hrest ((List.mem_cons.mp hmem).resolve_left heq)) hmin havailable
        unfold Served at hserved ⊢
        rw [ht.beside.captures other heq, ht.beside.retry other heq]
        exact hserved

/-! ### A refresh -/

/-- What holds between the refreshes. -/
structure Kept (r : Runtime) : Prop where
  surfaces : r.surfaces.Inv
  given : ∀ (id : ℕ) (c : SurfaceCapture), r.captures[id]? = some c →
    ∃ window, r.surfaces.GivenTo id window
  ready : ∀ id, Ready id r

/-- Every live surface that is neither minimized nor unavailable has a capture that delivers, or a
retry is scheduled. -/
def Shown (w : RefreshInput) (r : Runtime) : Prop :=
  ∀ (id : ℕ) surface, r.surfaces.live[id]? = some surface → surface.minimized = false →
    surface.nativeId ∉ w.unavailable → Served id r

theorem kept_start (bitrate : ℕ) : Kept (start bitrate) where
  surfaces := Surfaces.inv_new
  given id c hc := by simp [start] at hc
  ready id c hc := by simp [start] at hc

theorem resumable_of_resumes (h : snapshot.all (resumes w r) = true) : Resumable w snapshot r := by
  intro surface hmem id c hid hc hchanged hmin hresume
  have hsurface := List.all_eq_true.mp h surface hmem
  unfold resumes at hsurface
  rw [hid] at hsurface
  dsimp only at hsurface
  rw [hc] at hsurface
  simpa [hchanged, hmin, hresume] using hsurface

theorem sourced_of_reconcile {st st' : Surfaces} (hinv : st.Inv)
    {sent : List ApplicationMessage} (h : st.reconcile snapshot = (.ok sent, st')) :
    ∀ change ∈ sent, Sourced snapshot st' change := by
  have hround := Surfaces.round_reconcile hinv snapshot
  rw [h] at hround
  obtain ⟨hfeed, -⟩ := hround.sent sent rfl
  intro change hchange
  cases change with
  | surfaceUpsert info => exact (Surfaces.reconcile_upsert hinv h).2 info hchange
  | surfaceRemove id =>
    show st'.live[id]? = none
    by_contra hlive
    obtain ⟨surface, hsurface⟩ := Option.ne_none_iff_exists'.mp hlive
    have hmem : id ∈ st'.registry.live := by
      rw [SurfaceRegistry.mem_live, hround.inv.mirror, hsurface]
      exact ⟨_, rfl⟩
    exact SurfaceRegistry.not_removed_of_feed hinv.registry hfeed hmem hchange
  | _ => trivial

/-- **A refresh** that takes captures over only where a retry is scheduled. -/
theorem refresh_triple (hresumes : resumesAll w r = true) (hr : Kept r) :
    Triple (fun s => s = r) (refresh w) (fun _ s => Kept s ∧ Shown w s) fun _ _ => True := by
  refine Triple.bind (Q := fun _ s => s = { r with room := w.room })
    (Triple.modify fun s hs => hs ▸ rfl) fun _ => ?_
  refine Triple.bind (Q := fun snapshot s => w.snapshot = .ok snapshot ∧
    s = { r with room := w.room }) (Triple.ofExcept (fun snapshot s h hs => ⟨?_, hs⟩)
    fun _ _ _ _ => trivial) fun snapshot => Triple.of_pure fun hsnapshot => ?_
  · cases hw : w.snapshot with
    | error e =>
      rw [hw] at h
      cases h
    | ok found =>
      rw [hw] at h
      exact congrArg Except.ok (Except.ok.inj h)
  have hall : snapshot.all (resumes w r) = true := by
    unfold resumesAll at hresumes
    rwa [hsnapshot] at hresumes
  cases hreconcile : r.surfaces.reconcile snapshot with
  | mk result st =>
    refine Triple.bind (Q := fun changes s => result = .ok changes ∧
      s = { r with room := w.room, surfaces := st }) (fun s hs => ?_) fun changes =>
      Triple.of_pure fun hresult => ?_
    · subst hs
      unfold reconcile
      rw [hreconcile]
      exact ⟨fun changes h => ⟨h, rfl⟩, fun _ _ => trivial⟩
    subst hresult
    have hround := Surfaces.round_reconcile hr.surfaces snapshot
    rw [hreconcile] at hround
    obtain ⟨hnodup, -⟩ := Surfaces.reconcile_upsert hr.surfaces hreconcile
    -- an id that has a capture is the id of the same window as before
    have hresumable : Resumable w snapshot { r with room := w.room, surfaces := st } := by
      intro surface hmem id c hid hc
      exact resumable_of_resumes hall surface hmem id c
        (Surfaces.native_of_given hr.surfaces hreconcile (hr.given id c hc) hid) hc
    have hstart : Following w snapshot { r with room := w.room, surfaces := st }
        { r with room := w.room, surfaces := st } :=
      ⟨rfl, fun _ c hc => ⟨c, hc, .inl rfl⟩, fun _ _ _ => rfl, fun id => .inl (hr.ready id)⟩
    refine Triple.bind ((applyAll_triple hround.inv hnodup hresumable
      (sourced_of_reconcile hr.surfaces hreconcile)).consequence (fun s hs => hs ▸ hstart)
      (fun _ _ hs => hs) fun _ _ hs => hs) fun _ => ?_
    refine Triple.bind (Q := fun ids s =>
      Attending w { r with room := w.room, surfaces := st } ids s)
      (Triple.get (fun s ids hs hids => ?_) fun _ _ _ _ => trivial) fun ids =>
      (Triple.forM (attending_step hround.inv) ids).consequence (fun _ hs => hs)
        (fun _ s hs => ?_) fun _ _ hs => hs
    · cases hids
      have hkeys : ∀ (id : ℕ) surface, st.live[id]? = some surface → id ∈ s.surfaces.live.keys := by
        intro id surface hlive
        rw [ExtTreeMap.mem_keys, hs.surfaces, ExtTreeMap.mem_iff_isSome_getElem?, hlive]
        rfl
      refine ⟨hs.surfaces, fun id c hc => ?_, fun id => ?_, fun id surface hlive hrest => ?_⟩
      · obtain ⟨c₀, hc₀, -⟩ := hs.captured id c hc
        obtain ⟨window, hwindow⟩ := hr.given id c₀ hc₀
        exact ⟨window, hround.owners id window hwindow⟩
      · refine (hs.ready id).imp_right fun hun => ⟨?_, hun⟩
        obtain ⟨surface, hlive, -⟩ := hun
        exact hkeys id surface hlive
      · exact absurd (hkeys id surface hlive) hrest
    · have hsame : s.surfaces = st := hs.surfaces
      refine ⟨⟨hsame ▸ hround.inv, fun id c hc => ?_, fun id => ?_⟩, fun id surface hlive => ?_⟩
      · rw [hsame]
        exact hs.given id c hc
      · exact (hs.ready id).resolve_right fun hun => nomatch hun.1
      · exact hs.shown id surface (hsame ▸ hlive) (fun hmem => nomatch hmem)

/-! ### Runs -/

theorem after_ok {command : Refresh Unit} {r' : Runtime} (h : r.after command = some r') :
    command r = (.ok (), r') := by
  unfold after at h
  split at h
  · next found heq =>
    cases h
    exact heq
  · cases h

theorem kept_reap (finished : List ℕ) (now : ℕ) :
    Triple Kept (reap finished now) (fun _ => Kept) fun _ _ => True := by
  refine Triple.bind (Triple.get (fun _ _ hs _ => hs) fun _ _ _ _ => trivial)
    fun ended => ?_
  refine Triple.bind (Triple.forM (I := fun _ => Kept) (fun id _ => send_triple _
    fun s room events hs => { hs with }) ended) fun _ => ?_
  refine Triple.forM (I := fun _ => Kept) (fun id _ => Triple.modify fun s hs => ?_) ended
  refine ⟨hs.surfaces, fun other c hc => ?_, fun other c hc => ?_⟩
  · have hc : (s.removeCapture id).captures[other]? = some c := hc
    rw [getElem?_removeCapture] at hc
    split at hc
    · cases hc
    · exact hs.given other c hc
  · have hc : (s.removeCapture id).captures[other]? = some c := hc
    rw [getElem?_removeCapture] at hc
    split at hc
    · cases hc
    · next hne =>
      rw [contains_setRetry, if_neg hne]
      exact hs.ready other c hc

theorem Kept.noteFrame (h : Kept r) (id : ℕ) (frame : EncodedFrame) (epoch : ℕ) :
    Kept (r.noteFrame id frame epoch) := by
  unfold Runtime.noteFrame
  split
  · exact h
  next c hc =>
  refine ⟨h.surfaces, fun other c' hc' => ?_, fun other c' hc' => ?_⟩
  · rw [getElem?_setCapture] at hc'
    split at hc'
    · next heq => exact heq ▸ h.given id c hc
    · exact h.given other c' hc'
  · rw [getElem?_setCapture] at hc'
    split at hc'
    · next heq =>
      subst heq
      cases hc'
      -- a frame leaves the epoch alone
      refine (h.ready id c hc).imp_left fun hdelivers => ?_
      show (c.capture.noteFrame frame epoch).deliveryEpoch % 2 = 1
      unfold Capture.noteFrame
      split
      · exact hdelivers
      · exact hdelivers
    · exact h.ready other c' hc'

theorem kept_of_reach {bitrate : ℕ} (hr : Reach stepResuming (start bitrate) r) : Kept r := by
  refine hr.invariant (kept_start bitrate) fun s s' action hs hstep => ?_
  cases action with
  | refresh w =>
    obtain ⟨hresumes, hstep⟩ := Option.ite_none_right_eq_some.mp hstep
    obtain ⟨hok, -⟩ := refresh_triple hresumes hs s rfl
    rw [after_ok hstep] at hok
    exact (hok () rfl).1
  | reap finished now room =>
    obtain ⟨hok, -⟩ := kept_reap finished now { s with room := room }
      { hs with }
    rw [after_ok hstep] at hok
    exact hok () rfl
  | frame id frame epoch =>
    cases hstep
    exact hs.noteFrame id frame epoch

/-- In every run that takes captures over to new generations only where they are suspended or a
retry is scheduled, a refresh of that kind leaves every live surface that is neither minimized nor
unavailable with a capture that delivers, or with a retry. -/
theorem surfaces_shown {bitrate : ℕ} (hr : Reach stepResuming (start bitrate) r)
    {w : RefreshInput} (hresumes : resumesAll w r = true) {r' : Runtime}
    (hok : refresh w r = (.ok (), r')) : Shown w r' := by
  obtain ⟨hdone, -⟩ := refresh_triple hresumes (kept_of_reach hr) r rfl
  rw [hok] at hdone
  exact (hdone () rfl).2

/-- One window, at this generation, of a backend whose captures can be resumed. -/
def sampleInput (generation : ℕ) (unavailable : Finset ℕ) : RefreshInput where
  snapshot := .ok [⟨100, none, [], 640, 480, ⟨0x3f800000⟩, generation, false, false⟩]
  unavailable := unavailable
  canResumeCapture _ old new := old + 1 = new
  video _ := .ok ⟨true, fun _ => .ok ()⟩
  now _ := 0
  room := 8

/-- A window that was unavailable comes back at the next generation. -/
theorem surfaces_shown_resumed :
    ∃ r r', Reach stepResuming (start 4000000) r ∧
      refresh (sampleInput 2 ∅) r = (.ok (), r') ∧ Shown (sampleInput 2 ∅) r' := by
  have hrun : ((tryRun stepResuming (start 4000000)
      [.refresh (sampleInput 1 ∅), .refresh (sampleInput 1 {100})]).map
        fun r => (resumesAll (sampleInput 2 ∅) r, (r.after (refresh (sampleInput 2 ∅))).isSome)) =
      some (true, true) := by
    decide +kernel
  obtain ⟨r, htry, hat⟩ := Option.map_eq_some_iff.mp hrun
  obtain ⟨r', hr'⟩ := Option.isSome_iff_exists.mp (congrArg Prod.snd hat)
  have hr := reach_of_tryRun .init htry
  exact ⟨r, r', hr, after_ok hr', surfaces_shown hr (congrArg Prod.fst hat) (after_ok hr')⟩

/-- A window that is there all the time comes to a new generation: its capture is paused, and
nothing is scheduled. -/
theorem surface_frozen :
    ∃ r r', Reach step (start 4000000) r ∧
      refresh (sampleInput 2 ∅) r = (.ok (), r') ∧ ¬ Shown (sampleInput 2 ∅) r' := by
  have hrun : ((tryRun step (start 4000000) [.refresh (sampleInput 1 ∅)]).bind fun r =>
      (r.after (refresh (sampleInput 2 ∅))).map fun r' =>
        (r'.captures[0]?.map (·.capture.deliveryEpoch % 2), r'.retry.contains 0,
          r'.surfaces.live[0]?.map fun s => (s.minimized, s.nativeId))) =
      some (some 0, false, some (false, 100)) := by
    decide +kernel
  obtain ⟨r, htry, hsecond⟩ := Option.bind_eq_some_iff.mp hrun
  obtain ⟨r', hafter, hat⟩ := Option.map_eq_some_iff.mp hsecond
  simp only [Prod.mk.injEq] at hat
  obtain ⟨hepoch, hretry, hlive⟩ := hat
  refine ⟨r, r', reach_of_tryRun .init htry, after_ok hafter, fun hshown => ?_⟩
  obtain ⟨surface, hsurface, hsame⟩ := Option.map_eq_some_iff.mp hlive
  obtain ⟨hmin, hnative⟩ := Prod.mk.inj hsame
  rcases hshown 0 surface hsurface hmin (Finset.notMem_empty _) with ⟨c, hc, hdelivers⟩ | hfound
  · rw [hc] at hepoch
    have hodd : c.capture.deliveryEpoch % 2 = 1 := hdelivers
    have heven : c.capture.deliveryEpoch % 2 = 0 := Option.some.inj hepoch
    omega
  · rw [hretry] at hfound
    cases hfound

end Runtime

end NebulaDesk
