/-
What routing can change.

`Shared.Steers` is what every function that runs under the routes' lock can do at
most: the record counters stay as they are, a path that is dropped is closed, and
as long as the session is not stopped and the epoch has not grown the selected
path is the same.  Everything that is proved about records uses only this.
-/
import NebulaDesk.Multipath.Routes

namespace NebulaDesk

namespace Multipath

def Path.Same (p q : Path) : Prop := q.id = p.id ∧ q.kind = p.kind ∧ q.native = p.native

theorem Path.Same.rfl' (p : Path) : p.Same p := ⟨rfl, rfl, rfl⟩

theorem Path.Same.trans {p q r : Path} (h : p.Same q) (h' : q.Same r) : p.Same r :=
  ⟨h'.1.trans h.1, h'.2.1.trans h.2.1, h'.2.2.trans h.2.2⟩

namespace Shared

/-- Every path sits at the index of its kind, and one is selected until the
session is stopped. -/
structure Steady (s : Shared) : Prop where
  seated : ∀ kind p, s.routes.paths kind = some p → p.kind = kind
  present : s.shutdown = false → (s.routes.paths s.routes.active).isSome
  gone : s.shutdown = true → ∀ kind, s.routes.paths kind = none

/-- `conn` is closed among `calls`. -/
def Closes (calls : List NativeCall) (conn : ℕ) : Prop :=
  ∃ code reason, NativeCall.close conn code reason ∈ calls

/-- What routing can do at most.  `P` holds of the errors it may stop with. -/
structure Steers (P : TransportError → Prop) (s s' : Shared) : Prop where
  steady : s'.Steady
  acknowledged : s'.acknowledged = s.acknowledged
  allocated : s'.allocated = s.allocated
  received : s'.received = s.received
  maxRecord : s'.maxRecord = s.maxRecord
  epoch : s.routes.txEpoch ≤ s'.routes.txEpoch
  live : s'.shutdown = false → s.shutdown = false
  terminal : s'.terminal = s.terminal ∨ ∃ error, P error ∧ s'.terminal = some error
  kept : s'.shutdown = false → s'.routes.txEpoch = s.routes.txEpoch → s'.selected = s.selected
  known : ∀ kind q, s'.routes.paths kind = some q → ∃ p, s.routes.paths kind = some p ∧ p.Same q
  calls : ∃ new, s'.calls = s.calls ++ new ∧
    (∀ kind p, s.routes.paths kind = some p →
      (∃ q, s'.routes.paths kind = some q ∧ p.Same q) ∨ Closes new p.native.conn) ∧
    ∀ conn payload, .datagram conn payload ∈ new →
      ∃ kind nonce, kind.Fits nonce ∧ payload = internalPayload kind nonce s.received

variable {P : TransportError → Prop} {s s' s'' : Shared} {h : Host} {id : ℕ}

theorem Steers.refl (hs : s.Steady) : Steers P s s where
  steady := hs
  acknowledged := rfl
  allocated := rfl
  received := rfl
  maxRecord := rfl
  epoch := le_rfl
  live := fun h => h
  terminal := .inl rfl
  kept := fun _ _ => rfl
  known := fun _ q hq => ⟨q, hq, .rfl' q⟩
  calls := ⟨[], by simp, fun _ p hp => .inl ⟨p, hp, .rfl' p⟩, by simp⟩

theorem Steers.trans (h1 : Steers P s s') (h2 : Steers P s' s'') : Steers P s s'' where
  steady := h2.steady
  acknowledged := h2.acknowledged.trans h1.acknowledged
  allocated := h2.allocated.trans h1.allocated
  received := h2.received.trans h1.received
  maxRecord := h2.maxRecord.trans h1.maxRecord
  epoch := h1.epoch.trans h2.epoch
  live := fun h => h1.live (h2.live h)
  terminal := by
    rcases h2.terminal with h | h
    · rw [h]
      exact h1.terminal
    · exact .inr h
  kept := by
    intro hlive heq
    have hle := h1.epoch
    have hle' := h2.epoch
    have hmid : s'.routes.txEpoch = s.routes.txEpoch := by omega
    rw [h2.kept hlive (by omega), h1.kept (h2.live hlive) hmid]
  known := by
    intro kind q hq
    obtain ⟨p, hp, hpq⟩ := h2.known kind q hq
    obtain ⟨o, ho, hop⟩ := h1.known kind p hp
    exact ⟨o, ho, hop.trans hpq⟩
  calls := by
    obtain ⟨new1, e1, g1, d1⟩ := h1.calls
    obtain ⟨new2, e2, g2, d2⟩ := h2.calls
    refine ⟨new1 ++ new2, by rw [e2, e1, List.append_assoc], ?_, ?_⟩
    · intro kind p hp
      rcases g1 kind p hp with ⟨q, hq, hpq⟩ | ⟨code, reason, hc⟩
      · rcases g2 kind q hq with ⟨r, hr, hqr⟩ | ⟨code, reason, hc⟩
        · exact .inl ⟨r, hr, hpq.trans hqr⟩
        · rw [hpq.2.2] at hc
          exact .inr ⟨code, reason, List.mem_append_right _ hc⟩
      · exact .inr ⟨code, reason, List.mem_append_left _ hc⟩
    · intro conn payload hmem
      rcases List.mem_append.mp hmem with hmem | hmem
      · exact d1 conn payload hmem
      · rw [← h1.received]
        exact d2 conn payload hmem

theorem Steers.foldl {α : Type} {f : Shared → α → Shared}
    (hf : ∀ s a, s.Steady → Steers P s (f s a)) (hs : s.Steady) (as : List α) :
    Steers P s (as.foldl f s) := by
  induction as generalizing s with
  | nil => exact .refl hs
  | cons a as ih => exact (hf s a hs).trans (ih (hf s a hs).steady)

theorem selected_eq_some {y : Selected} : s.selected = some y ↔
    ∃ p, s.routes.paths s.routes.active = some p ∧
      y = ⟨p.id, p.kind, s.routes.txEpoch, p.native⟩ := by
  unfold selected
  cases s.routes.paths s.routes.active with
  | none => simp
  | some p => simp [eq_comm]

variable {error : TransportError}

theorem stopped_steers (hlive : s.shutdown = false) (hP : P error)
    (code : ℕ) (reason : String) : Steers P s (s.stopWithCode error code reason) := by
  unfold stopWithCode
  rw [hlive, if_neg Bool.false_ne_true]
  exact
    { steady := ⟨by simp, by simp, by simp⟩
      acknowledged := rfl
      allocated := rfl
      received := rfl
      maxRecord := rfl
      epoch := le_rfl
      live := by simp
      terminal := .inr ⟨error, hP, rfl⟩
      kept := by simp
      known := by simp
      calls := by
        refine ⟨_, rfl, fun kind p hp => .inr ⟨codeLogicalClose ||| code, reason, ?_⟩, ?_⟩
        · refine List.mem_map_of_mem (List.mem_filterMap.mpr ⟨kind, ?_, hp⟩)
          cases kind <;> simp [PathKind.all]
        · intro conn payload hmem
          obtain ⟨p, -, hp⟩ := List.mem_map.mp hmem
          cases hp }

theorem stopWithCode_steers (hs : s.Steady) (hP : P error) (code : ℕ)
    (reason : String) : Steers P s (s.stopWithCode error code reason) := by
  by_cases hlive : s.shutdown = true
  · rw [stopWithCode, if_pos hlive]
    exact .refl hs
  · exact stopped_steers (by simpa using hlive) hP code reason

theorem steers_of_same (hs : s.Steady) (r : Routes) (c : PathState)
    (hactive : r.active = s.routes.active) (hepoch : r.txEpoch = s.routes.txEpoch)
    (hpaths : ∀ kind, Option.Rel Path.Same (s.routes.paths kind) (r.paths kind)) :
    Steers P s { s with routes := r, changes := c } := by
  have hto : ∀ kind p, s.routes.paths kind = some p → ∃ q, r.paths kind = some q ∧ p.Same q := by
    intro kind p hp
    have hrel := hpaths kind
    rw [hp] at hrel
    cases hq : r.paths kind with
    | none =>
      rw [hq] at hrel
      cases hrel
    | some q =>
      rw [hq] at hrel
      cases hrel with
      | some hpq => exact ⟨q, rfl, hpq⟩
  have hfrom : ∀ kind q, r.paths kind = some q → ∃ p, s.routes.paths kind = some p ∧ p.Same q := by
    intro kind q hq
    have hrel := hpaths kind
    rw [hq] at hrel
    cases hp : s.routes.paths kind with
    | none =>
      rw [hp] at hrel
      cases hrel
    | some p =>
      rw [hp] at hrel
      cases hrel with
      | some hpq => exact ⟨p, rfl, hpq⟩
  refine
    { steady := ⟨fun kind q hq => ?_, fun hlive => ?_, fun hstop kind => ?_⟩
      acknowledged := rfl
      allocated := rfl
      received := rfl
      maxRecord := rfl
      epoch := hepoch.ge
      live := fun h => h
      terminal := .inl rfl
      kept := fun hlive _ => ?_
      known := hfrom
      calls := ⟨[], by simp, fun kind p hp => .inl (hto kind p hp), by simp⟩ }
  · obtain ⟨p, hp, hpq⟩ := hfrom kind q hq
    rw [hpq.2.1]
    exact hs.seated kind p hp
  · obtain ⟨p, hp⟩ := Option.isSome_iff_exists.mp (hs.present hlive)
    obtain ⟨q, hq, -⟩ := hto _ p hp
    simp only [hactive, hq, Option.isSome_some]
  · cases hq : r.paths kind with
    | none => rfl
    | some q =>
      obtain ⟨p, hp, -⟩ := hfrom kind q hq
      rw [hs.gone hstop kind] at hp
      cases hp
  · obtain ⟨p, hp⟩ := Option.isSome_iff_exists.mp (hs.present hlive)
    obtain ⟨q, hq, hid, hkind, hnative⟩ := hto _ p hp
    have hleft : s.selected = some ⟨p.id, p.kind, s.routes.txEpoch, p.native⟩ :=
      selected_eq_some.mpr ⟨p, hp, rfl⟩
    rw [hleft]
    refine selected_eq_some.mpr ⟨q, ?_, ?_⟩
    · simpa only [hactive] using hq
    · simp only [hepoch, hid, hkind, hnative]

variable {kind : PathKind}

theorem rel_update {p q : Path} {paths : PathKind → Option Path}
    (hp : paths kind = some p) (hpq : p.Same q) (k : PathKind) :
    Option.Rel Path.Same (paths k) (Function.update paths kind (some q) k) := by
  by_cases hk : k = kind
  · subst hk
    rw [Function.update_self, hp]
    exact .some hpq
  · rw [Function.update_of_ne hk]
    cases paths k with
    | none => exact .none
    | some p => exact .some (.rfl' p)

theorem rel_refl (paths : PathKind → Option Path) (k : PathKind) :
    Option.Rel Path.Same (paths k) (paths k) := by
  cases paths k with
  | none => exact .none
  | some p => exact .some (.rfl' p)

theorem position_eq_some (h : s.position id = some kind) :
    ∃ p, s.routes.paths kind = some p ∧ p.id = id := by
  have := List.find?_some h
  rw [Option.any_eq_true _ _] at this
  obtain ⟨p, hp, hid⟩ := this
  exact ⟨p, hp, by simpa using hid⟩

theorem modifyPath_steers (hs : s.Steady) {f : Path → Path} (hf : ∀ p : Path, p.Same (f p)) :
    Steers P s (s.modifyPath id f) := by
  unfold modifyPath
  split
  · exact .refl hs
  · rename_i kind hkind
    obtain ⟨p, hp, -⟩ := position_eq_some hkind
    rw [hp]
    exact steers_of_same hs
      { s.routes with paths := Function.update s.routes.paths kind (some (f p)) } s.changes rfl rfl
      (rel_update hp (hf p))

theorem switched_steers (hne : s.routes.active ≠ kind)
    (hseated : ∀ kind p, s.routes.paths kind = some p → p.kind = kind)
    (hkind : s.shutdown = false → (s.routes.paths kind).isSome)
    (hgone : s.shutdown = true → ∀ kind, s.routes.paths kind = none) :
    Steers P s (s.switch h kind) := by
  unfold switch
  rw [if_neg hne]
  exact
    { steady := ⟨hseated, hkind, hgone⟩
      acknowledged := rfl
      allocated := rfl
      received := rfl
      maxRecord := rfl
      epoch := Nat.le_succ _
      live := fun h => h
      terminal := .inl rfl
      kept := fun _ heq => absurd heq (Nat.succ_ne_self _)
      known := fun _ q hq => ⟨q, hq, .rfl' q⟩
      calls := ⟨[], by simp [publish], fun _ p hp => .inl ⟨p, hp, .rfl' p⟩, by simp⟩ }

theorem switch_steers (hs : s.Steady) (hkind : s.shutdown = false → (s.routes.paths kind).isSome) :
    Steers P s (s.switch h kind) := by
  by_cases hne : s.routes.active = kind
  · rw [switch, if_pos hne]
    exact .refl hs
  · exact switched_steers hne hs.seated hkind hs.gone

/-- Without one of its paths, a session that has another one selected, or that
has stopped, is only steered. -/
theorem removePath_steers {index : PathKind} {p : Path} {t : Shared}
    (hp : s.routes.paths index = some p) (ht : Steers P (s.removePath h index p) t)
    (hmoved : t.shutdown = false → t.routes.txEpoch = s.routes.txEpoch → t.selected = s.selected) :
    Steers P s t where
  __ := ht
  kept := hmoved
  known := by
    intro kind q hq
    obtain ⟨o, ho, hoq⟩ := ht.known kind q hq
    by_cases hk : kind = index
    · subst hk
      simp [removePath] at ho
    · simp only [removePath, Function.update_of_ne hk] at ho
      exact ⟨o, ho, hoq⟩
  calls := by
    obtain ⟨new, hnew, hgone, hdata⟩ := ht.calls
    refine ⟨.close p.native.conn codePathFailed "path unavailable" :: new, ?_, ?_, ?_⟩
    · rw [hnew]
      simp [removePath]
    · intro kind q hq
      by_cases hk : kind = index
      · subst hk
        obtain rfl := Option.some.inj (hp.symm.trans hq)
        exact .inr ⟨_, _, List.mem_cons_self⟩
      · rcases hgone kind q (by simpa only [removePath, Function.update_of_ne hk] using hq) with
          hkept | ⟨code, reason, hc⟩
        · exact .inl hkept
        · exact .inr ⟨code, reason, List.mem_cons_of_mem _ hc⟩
    · intro conn payload hmem
      rcases List.mem_cons.mp hmem with hmem | hmem
      · cases hmem
      · exact hdata conn payload hmem

/-- Retiring a failed path: another one takes over, or the session stops. -/
theorem failPath_steers (hs : s.Steady) (hP : P error) : Steers P s (s.failPath h id error) := by
  unfold failPath
  split
  · exact stopWithCode_steers hs hP 0 _
  split
  · exact .refl hs
  split
  · exact stopWithCode_steers hs hP 0 _
  split
  · exact .refl hs
  rename_i index hindex
  obtain ⟨p, hp, -⟩ := position_eq_some hindex
  simp only [hp]
  have hkind : p.kind = index := hs.seated index p hp
  have hlive : s.shutdown = false := by
    by_contra hstop
    rw [hs.gone (by simpa using hstop) index] at hp
    cases hp
  have hseated : ∀ kind q, (s.removePath h index p).routes.paths kind = some q → q.kind = kind := by
    intro kind q hq
    by_cases hk : kind = index
    · subst hk
      simp [removePath] at hq
    · exact hs.seated kind q (by simpa only [removePath, Function.update_of_ne hk] using hq)
  have hgone : (s.removePath h index p).shutdown = true →
      ∀ kind, (s.removePath h index p).routes.paths kind = none := by
    intro hstop
    rw [show s.shutdown = true from hstop] at hlive
    cases hlive
  by_cases hactive : s.routes.active = p.kind
  · rw [if_pos (show (s.removePath h index p).routes.active = p.kind from hactive)]
    split
    · -- The other path takes over under a new epoch.
      rename_i hother
      have hne : (s.removePath h index p).routes.active ≠ p.kind.other := by
        rw [show (s.removePath h index p).routes.active = p.kind from hactive]
        cases p.kind <;> decide
      refine removePath_steers hp (switched_steers hne hseated (fun _ => hother) hgone) ?_
      intro _ heq
      rw [switch, if_neg hne] at heq
      exact absurd heq (Nat.succ_ne_self _)
    · -- No path is left.
      refine removePath_steers hp
        (stopped_steers (s := s.removePath h index p) hlive hP 0 "all paths unavailable") ?_
      intro hstop
      simp [stop, stopWithCode, removePath, hlive] at hstop
  · -- The standby path is gone; the selected one stays.
    have hne : s.routes.active ≠ index := by rwa [hkind] at hactive
    rw [if_neg (show ¬ (s.removePath h index p).routes.active = p.kind from hactive)]
    have hpaths : (s.removePath h index p).routes.paths s.routes.active =
        s.routes.paths s.routes.active := by
      simp only [removePath, Function.update_of_ne hne]
    refine removePath_steers hp (.refl ⟨hseated, fun hl => ?_, hgone⟩) fun _ _ => ?_
    · show ((s.removePath h index p).routes.paths s.routes.active).isSome
      rw [hpaths]
      exact hs.present hl
    · show ((s.removePath h index p).routes.paths s.routes.active).map _ = _
      rw [hpaths]
      rfl

theorem call_steers (hs : s.Steady) (c : NativeCall)
    (hc : ∀ conn payload, c = .datagram conn payload →
      ∃ kind nonce, InternalKind.Fits kind nonce ∧ payload = internalPayload kind nonce s.received) :
    Steers P s (s.call c) where
  __ := Steers.refl hs
  steady := { hs with }
  calls := ⟨_, rfl, fun _ p hp => .inl ⟨p, hp, .rfl' p⟩,
    fun conn payload hmem => hc conn payload (List.mem_singleton.mp hmem).symm⟩

theorem internal_steers (hdatagram : ∀ error, P (.datagram error)) (hs : s.Steady) {kind : InternalKind}
    {nonce : Option ℕ} (hfits : kind.Fits nonce) : Steers P s (s.internal h id kind nonce) := by
  unfold internal
  split
  · exact .refl hs
  split
  · refine call_steers hs _ fun conn payload heq => ?_
    cases heq
    exact ⟨kind, nonce, hfits, rfl⟩
  · exact failPath_steers hs (hdatagram _)

theorem peerReady_steers (hs : s.Steady) : Steers P s (s.peerReady h id) := by
  refine modifyPath_steers hs fun p => ?_
  split
  · exact .rfl' p
  · exact ⟨rfl, rfl, rfl⟩

theorem beat_steers {r : Round} (hr : r.shared.Steady) (kind : PathKind) :
    Steers P r.shared (beat h r kind).shared := by
  have hnext := steers_of_same (P := P) hr { r.shared.routes with
    nextProbe := (r.shared.routes.nextProbe + 1) % 2 ^ 64 } r.shared.changes rfl rfl
    (rel_refl r.shared.routes.paths)
  unfold beat
  dsimp only
  split
  · exact hnext
  · rename_i path hpath
    split
    · exact hnext
    split
    · exact steers_of_same hr { r.shared.routes with
        nextProbe := (r.shared.routes.nextProbe + 1) % 2 ^ 64
        paths := Function.update r.shared.routes.paths kind (some
          { path with
            lastProbe := some h.now
            probes := (path.probes ++ [(r.shared.routes.nextProbe, h.now)]).drop
              ((path.probes ++ [(r.shared.routes.nextProbe, h.now)]).length - 8) }) }
        r.shared.changes rfl rfl (rel_update hpath ⟨rfl, rfl, rfl⟩)
    · exact hnext

theorem heartbeat_steers (hcarrier : ∀ error, P (.connection error))
    (hdatagram : ∀ error, P (.datagram error)) (hs : s.Steady) : Steers P s (s.heartbeat h) := by
  have hround : Steers P s (PathKind.all.foldl (beat h) ⟨s, [], []⟩).shared := by
    have h1 := beat_steers (P := P) (h := h) (r := ⟨s, [], []⟩) hs .relay
    exact h1.trans (beat_steers h1.steady .direct)
  unfold heartbeat
  dsimp only
  have hexpired := hround.trans (Steers.foldl
    (f := fun s id => s.failPath h id (.connection .timedOut))
    (fun s id hs => failPath_steers hs (hcarrier _)) hround.steady
    (PathKind.all.foldl (beat h) ⟨s, [], []⟩).expired)
  have hprobe : ∀ (s : Shared) (p : ℕ × ℕ), s.Steady →
      Steers P s (s.internal h p.1 .probe (some p.2)) :=
    fun s p hs => internal_steers hdatagram hs rfl
  exact hexpired.trans (Steers.foldl hprobe hexpired.steady _)

theorem preferred_present (h' : s.preferred h = some kind) : (s.routes.paths kind).isSome := by
  unfold preferred at h'
  split at h'
  · rename_i relay direct hrelay hdirect
    cases kind <;> simp [*]
  · cases h'

theorem echo_steers (hs : s.Steady) (nonce : ℕ) : Steers P s (s.echo h id nonce) := by
  unfold echo
  split
  · exact .refl hs
  split
  · exact .refl hs
  rename_i sent _
  have hm : Steers P s (s.modifyPath id (measure h.now nonce sent)) :=
    modifyPath_steers hs fun p => ⟨rfl, rfl, rfl⟩
  dsimp only
  split
  · exact hm
  rename_i target htarget
  split
  · exact hm.trans (switch_steers hm.steady fun _ => preferred_present htarget)
  · exact hm

theorem publish_steers (hs : s.Steady) (kind : PathKind) : Steers P s (s.publish kind) :=
  steers_of_same hs s.routes _ rfl rfl (rel_refl s.routes.paths)

/-- An attached path is the only one of its connection and new in its place. -/
structure Attached (h : Host) (native : Native) (s s' : Shared) (id : ℕ) : Prop where
  eq : s' = ({ s with routes := { s.routes with nextId := id + 1 } } : Shared).setPath .direct
    (some (Path.new id .direct native h.now))
  fresh : ∀ kind p, s.routes.paths kind = some p → p.native.conn ≠ native.conn
  opened : h.closed native.conn = false
  live : s.shutdown = false
  vacant : s.routes.paths .direct = none

namespace Attached

variable {native : Native}

theorem direct (ha : Attached h native s s' id) :
    s'.routes.paths .direct = some (Path.new id .direct native h.now) := by
  rw [ha.eq]
  simp [setPath]

theorem relay (ha : Attached h native s s' id) : s'.routes.paths .relay = s.routes.paths .relay := by
  rw [ha.eq]
  simp [setPath]

theorem active (ha : Attached h native s s' id) (hs : s.Steady) :
    s'.routes.active = .relay ∧ s.routes.active = .relay := by
  have hrelay : s.routes.active = .relay := by
    cases hk : s.routes.active with
    | relay => rfl
    | direct =>
      have := hs.present ha.live
      rw [hk, ha.vacant] at this
      cases this
  refine ⟨?_, hrelay⟩
  rw [ha.eq]
  exact hrelay

theorem steady (ha : Attached h native s s' id) (hs : s.Steady) : s'.Steady := by
  have hlive : s'.shutdown = false := by
    rw [ha.eq]
    exact ha.live
  refine ⟨fun kind p hp => ?_, fun _ => ?_, fun hstop => ?_⟩
  · cases kind with
    | relay =>
      rw [ha.relay] at hp
      exact hs.seated .relay p hp
    | direct =>
      rw [ha.direct] at hp
      cases hp
      rfl
  · have := hs.present ha.live
    rwa [(ha.active hs).2, ← ha.relay, ← (ha.active hs).1] at this
  · rw [hstop] at hlive
    cases hlive

theorem selected (ha : Attached h native s s' id) (hs : s.Steady) : s'.selected = s.selected := by
  have hepoch : s'.routes.txEpoch = s.routes.txEpoch := by rw [ha.eq]; rfl
  unfold Shared.selected
  rw [(ha.active hs).1, (ha.active hs).2, ha.relay, hepoch]

end Attached

theorem reject_steers (hs : s.Steady) (native : Native) (reason : String) :
    Steers P s (s.reject native reason).1 :=
  call_steers hs _ fun _ _ heq => by cases heq

theorem attach_cases (hs : s.Steady) (native : Native) :
    (Steers P s (s.attach h native).1 ∧ ∃ error, (s.attach h native).2 = .error error) ∨
      ∃ id, (s.attach h native).2 = .ok id ∧ Attached h native s (s.attach h native).1 id := by
  unfold attach
  dsimp only
  split
  · exact .inl ⟨.refl hs, _, rfl⟩
  rename_i hfresh
  split
  · exact .inl ⟨reject_steers hs _ _, _, rfl⟩
  split
  · exact .inl ⟨reject_steers hs _ _, _, rfl⟩
  rename_i hopen
  split
  · exact .inl ⟨reject_steers hs _ _, _, rfl⟩
  split
  · exact .inl ⟨reject_steers hs _ _, _, rfl⟩
  rename_i hlive
  split
  · exact .inl ⟨reject_steers hs _ _, _, rfl⟩
  rename_i hvacant
  split
  · exact .inl ⟨reject_steers hs _ _, _, rfl⟩
  refine .inr ⟨_, rfl, rfl, ?_, by simpa using hopen, by simpa using hlive, ?_⟩
  · intro kind p hp hconn
    refine hfresh (List.any_eq_true.mpr ⟨p, List.mem_filterMap.mpr ⟨kind, ?_, hp⟩, ?_⟩)
    · cases kind <;> simp [PathKind.all]
    · simpa using hconn
  · rw [Bool.or_eq_true, not_or] at hvacant
    simpa using hvacant.1

theorem disconnectDirect_steers (hclosed : P .closed) (hs : s.Steady) :
    Steers P s (s.disconnectDirect h).1 := by
  unfold disconnectDirect
  split
  · exact .refl hs
  · exact failPath_steers hs hclosed

end Shared

end Multipath

end NebulaDesk
