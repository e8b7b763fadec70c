/-
The route invariant (`ndp-transport/src/multipath.rs`).

`route_state` is about every state a session reaches under attachments,
readiness, heartbeats, echoes, failures and stops in any order, and about the
step each of them takes from there.
-/
import NebulaDesk.Multipath.RouteTurns

namespace NebulaDesk

namespace Multipath

open Runs

namespace RouteState

/-- What holds of the routes of a session that began on `relay`. -/
structure Inv (relay : Native) (s : RouteState) : Prop where
  placed : s.Placed
  present : s.shared.shutdown = false → s.stopping = [] →
    (s.shared.routes.paths s.shared.routes.active).isSome
  ended : s.stopping ≠ [] → ∀ kind, s.shared.routes.paths kind = none
  relayId : ∀ p, s.shared.routes.paths .relay = some p → p.id = 0
  directId : ∀ p, s.shared.routes.paths .direct = some p → 0 < p.id
  listed : ∀ kind p, s.shared.routes.paths kind = some p → (p.id, p.native) ∈ s.attached
  ids : s.attached.Pairwise (·.1 < ·.1)
  below : ∀ a ∈ s.attached, a.1 < s.shared.routes.nextId
  positive : 0 < s.shared.routes.nextId
  identity : ∀ a ∈ s.attached, a.2.peerStatic = relay.peerStatic
  spaced : s.probed.Pairwise fun t t' => t + cooldown ≤ t'
  last : ∀ t ∈ s.probed, t ≤ s.shared.routes.changedAt ∧ s.shared.routes.txEpoch ≠ 0
  clock : s.shared.routes.changedAt ≤ s.clock

variable {relay : Native} {s s' : RouteState} {now : ℕ}

theorem inv_start (relay : Native) (now : ℕ) : (start relay now).Inv relay := by
  have hpaths : ∀ kind p, (start relay now).shared.routes.paths kind = some p →
      kind = .relay ∧ p = Path.new 0 .relay relay now := by
    intro kind p hp
    cases kind with
    | relay => exact ⟨rfl, (Option.some.inj hp).symm⟩
    | direct => cases hp
  constructor
  · constructor
    · intro kind p hp
      obtain ⟨rfl, rfl⟩ := hpaths kind p hp
      rfl
    · intro hshut
      cases hshut
  · intro _ _
    rfl
  · intro hne
    exact absurd rfl hne
  · intro p hp
    obtain ⟨-, rfl⟩ := hpaths _ p hp
    rfl
  · intro p hp
    cases hp
  · intro kind p hp
    obtain ⟨-, rfl⟩ := hpaths kind p hp
    exact List.mem_singleton.mpr rfl
  · exact List.pairwise_singleton _ _
  · intro a ha
    rw [List.mem_singleton.mp ha]
    exact Nat.one_pos
  · exact Nat.one_pos
  · intro a ha
    rw [List.mem_singleton.mp ha]
  · exact List.Pairwise.nil
  · nofun
  · exact le_rfl

/-- The paths after the step are paths from before it, measured or not. -/
def Older (s s' : RouteState) : Prop :=
  ∀ kind q, s'.shared.routes.paths kind = some q →
    ∃ p, s.shared.routes.paths kind = some p ∧ p.Same q

variable {kind : PathKind}

theorem older_of_update
    (h : s'.shared.routes.paths = Function.update s.shared.routes.paths kind none) :
    Older s s' := by
  intro k q hq
  rw [h] at hq
  by_cases hk : k = kind
  · rw [hk, Function.update_self] at hq
    cases hq
  · rw [Function.update_of_ne hk] at hq
    exact ⟨q, hq, .rfl' q⟩

theorem older_of_gone (h : ∀ kind, s'.shared.routes.paths kind = none) : Older s s' := by
  intro kind q hq
  rw [h kind] at hq
  cases hq

/-- A step that attaches nothing: what is left to show is where the selection
points, and when the session switched. -/
theorem Inv.of_older (h : s.Inv relay) (holder : Older s s')
    (hattached : s'.attached = s.attached)
    (hnext : s'.shared.routes.nextId = s.shared.routes.nextId)
    (hshut : s'.shared.shutdown = true → ∀ kind, s'.shared.routes.paths kind = none)
    (hpresent : s'.shared.shutdown = false → s'.stopping = [] →
      (s'.shared.routes.paths s'.shared.routes.active).isSome)
    (hended : s'.stopping ≠ [] → ∀ kind, s'.shared.routes.paths kind = none)
    (hspaced : s'.probed.Pairwise fun t t' => t + cooldown ≤ t')
    (hlast : ∀ t ∈ s'.probed, t ≤ s'.shared.routes.changedAt ∧ s'.shared.routes.txEpoch ≠ 0)
    (hclock : s'.shared.routes.changedAt ≤ s'.clock) : s'.Inv relay := by
  refine ⟨⟨?_, hshut⟩, hpresent, hended, ?_, ?_, ?_, ?_, ?_, ?_, ?_, hspaced, hlast, hclock⟩
  · intro kind q hq
    obtain ⟨p, hp, -, hkind, -⟩ := holder kind q hq
    rw [hkind]
    exact h.placed.seated kind p hp
  · intro q hq
    obtain ⟨p, hp, hid, -, -⟩ := holder _ q hq
    rw [hid]
    exact h.relayId p hp
  · intro q hq
    obtain ⟨p, hp, hid, -, -⟩ := holder _ q hq
    rw [hid]
    exact h.directId p hp
  · intro kind q hq
    obtain ⟨p, hp, hid, -, hnative⟩ := holder kind q hq
    rw [hid, hnative, hattached]
    exact h.listed kind p hp
  · rw [hattached]
    exact h.ids
  · rw [hattached, hnext]
    exact h.below
  · rw [hnext]
    exact h.positive
  · rw [hattached]
    exact h.identity

theorem Inv.of_kept (h : s.Inv relay) (holder : Older s s')
    (hattached : s'.attached = s.attached) (hprobed : s'.probed = s.probed)
    (hkept : Kept s.shared.routes s'.shared.routes)
    (hshut : s'.shared.shutdown = true → ∀ kind, s'.shared.routes.paths kind = none)
    (hpresent : s'.shared.shutdown = false → s'.stopping = [] →
      (s'.shared.routes.paths s'.shared.routes.active).isSome)
    (hended : s'.stopping ≠ [] → ∀ kind, s'.shared.routes.paths kind = none)
    (hclock : s.clock ≤ s'.clock) : s'.Inv relay := by
  refine h.of_older holder hattached hkept.nextId hshut hpresent hended ?_ ?_ ?_
  · rw [hprobed]
    exact h.spaced
  · rw [hprobed, hkept.changedAt, hkept.txEpoch]
    exact h.last
  · rw [hkept.changedAt]
    exact le_trans h.clock hclock

theorem Inv.of_switched (h : s.Inv relay) (holder : Older s s')
    (hattached : s'.attached = s.attached) (hshut : s'.shared.shutdown = s.shared.shutdown)
    (hstopping : s'.stopping = s.stopping)
    (hswitched : Switched now kind s.shared.routes s'.shared.routes) (hnow : s.clock ≤ now)
    (hclock : s'.clock = now)
    (hspaced : s'.probed.Pairwise fun t t' => t + cooldown ≤ t')
    (hprobed : ∀ t ∈ s'.probed, t ∈ s.probed ∨ t = now) : s'.Inv relay := by
  have hgone : (∀ k, s.shared.routes.paths k = none) →
      ∀ k, s'.shared.routes.paths k = none := by
    intro hnone k
    cases hq : s'.shared.routes.paths k with
    | none => rfl
    | some q =>
      obtain ⟨p, hp, -⟩ := holder k q hq
      rw [hnone k] at hp
      cases hp
  refine h.of_older holder hattached hswitched.nextId ?_ ?_ ?_ hspaced ?_ ?_
  · intro hs
    rw [hshut] at hs
    exact hgone (h.placed.gone hs)
  · intro _ _
    rw [hswitched.active]
    exact hswitched.present
  · intro hne
    rw [hstopping] at hne
    exact hgone (h.ended hne)
  · intro t ht
    rw [hswitched.changedAt, hswitched.txEpoch]
    refine ⟨?_, Nat.succ_ne_zero _⟩
    rcases hprobed t ht with hold | rfl
    · exact le_trans (h.last t hold).1 (le_trans h.clock hnow)
    · exact le_rfl
  · rw [hswitched.changedAt, hclock]

theorem inv_turn (h : s.Inv relay) (hclock : s.clock = now) (hclock' : s'.clock = now)
    (ht : Turn now s s') : s'.Inv relay := by
  have hle : s.clock ≤ s'.clock := by rw [hclock, hclock']
  cases ht with
  | measured hbeside hkept hsame =>
    have holder : Older s s' := fun kind q hq => hsame.of hq
    refine h.of_kept holder hbeside.attached hbeside.probed hkept ?_ ?_ ?_ hle
    · intro hs kind
      rw [hbeside.shutdown] at hs
      cases hq : s'.shared.routes.paths kind with
      | none => rfl
      | some q =>
        obtain ⟨p, hp, -⟩ := holder kind q hq
        rw [h.placed.gone hs kind] at hp
        cases hp
    · intro hlive hnone
      rw [hbeside.shutdown] at hlive
      rw [hbeside.stopping] at hnone
      obtain ⟨p, hp⟩ := Option.isSome_iff_exists.mp (h.present hlive hnone)
      obtain ⟨q, hq, -⟩ := hsame.to hp
      rw [hkept.active, hq]
      rfl
    · intro hne kind
      rw [hbeside.stopping] at hne
      cases hq : s'.shared.routes.paths kind with
      | none => rfl
      | some q =>
        obtain ⟨p, hp, -⟩ := holder kind q hq
        rw [h.ended hne kind] at hp
        cases hp
  | stopped hshut hkept hgone hattached hprobed =>
    refine h.of_kept (older_of_gone hgone) hattached hprobed hkept (fun _ => hgone) ?_
      (fun _ => hgone) hle
    intro hlive
    rw [hshut] at hlive
    cases hlive
  | retired kind hkind hbeside hkept hpaths =>
    refine h.of_kept (older_of_update hpaths) hbeside.attached hbeside.probed hkept ?_ ?_ ?_ hle
    · intro hs k
      rw [hbeside.shutdown] at hs
      rw [hpaths, funext (h.placed.gone hs)]
      by_cases hk : k = kind
      · rw [hk, Function.update_self]
      · rw [Function.update_of_ne hk]
    · intro hlive hnone
      rw [hbeside.shutdown] at hlive
      rw [hbeside.stopping] at hnone
      rw [hkept.active, hpaths, Function.update_of_ne (Ne.symm hkind)]
      exact h.present hlive hnone
    · intro hne k
      rw [hbeside.stopping] at hne
      rw [hpaths, funext (h.ended hne)]
      by_cases hk : k = kind
      · rw [hk, Function.update_self]
      · rw [Function.update_of_ne hk]
  | failedOver hbeside hswitched hpaths =>
    refine h.of_switched (older_of_update hpaths) hbeside.attached hbeside.shutdown hbeside.stopping
      hswitched hclock.le hclock' ?_ ?_
    · rw [hbeside.probed]
      exact h.spaced
    · intro t ht
      rw [hbeside.probed] at ht
      exact .inl ht
  | lost error hshut hkept hgone hstopping hattached hprobed =>
    refine h.of_kept (older_of_gone hgone) hattached hprobed hkept (fun _ => hgone) ?_
      (fun _ => hgone) hle
    intro _ hnone
    rw [hstopping] at hnone
    simp at hnone
  | attached native hlive hvacant hidentity hshut hstopping hprobed hattached hroutes =>
    obtain ⟨p, key, hp, hkey, hnative⟩ := hidentity
    have hpaths : s'.shared.routes.paths = Function.update s.shared.routes.paths .direct
        (some (Path.new s.shared.routes.nextId .direct native now)) := by
      rw [hroutes]
    have hrelay : s'.shared.routes.paths .relay = s.shared.routes.paths .relay := by
      rw [hpaths, Function.update_of_ne (by decide)]
    have hdirect : s'.shared.routes.paths .direct =
        some (Path.new s.shared.routes.nextId .direct native now) := by
      rw [hpaths, Function.update_self]
    have hopen : s.stopping = [] := by
      by_contra hne
      rw [h.ended hne .relay] at hp
      cases hp
    refine ⟨⟨?_, ?_⟩, ?_, ?_, ?_, ?_, ?_, ?_, ?_, ?_, ?_, ?_, ?_, ?_⟩
    · intro kind q hq
      cases kind with
      | relay =>
        rw [hrelay] at hq
        exact h.placed.seated _ q hq
      | direct =>
        rw [hdirect] at hq
        cases hq
        rfl
    · intro hs
      rw [hshut, hlive] at hs
      cases hs
    · intro _ _
      have hactive : s'.shared.routes.active = s.shared.routes.active := by rw [hroutes]
      rw [hactive]
      -- the selected path is not the direct one, which was missing
      cases hk : s.shared.routes.active with
      | relay => rw [hrelay, hp]; rfl
      | direct => rw [hdirect]; rfl
    · intro hne
      rw [hstopping, hopen] at hne
      exact absurd rfl hne
    · intro q hq
      rw [hrelay] at hq
      exact h.relayId q hq
    · intro q hq
      rw [hdirect] at hq
      cases hq
      exact h.positive
    · intro kind q hq
      rw [hattached]
      cases kind with
      | relay =>
        rw [hrelay] at hq
        exact List.mem_append_left _ (h.listed _ q hq)
      | direct =>
        rw [hdirect] at hq
        cases hq
        exact List.mem_append_right _ (List.mem_singleton.mpr rfl)
    · rw [hattached, List.pairwise_append]
      refine ⟨h.ids, List.pairwise_singleton _ _, ?_⟩
      intro a ha b hb
      rw [List.mem_singleton.mp hb]
      exact h.below a ha
    · intro a ha
      rw [hattached] at ha
      rw [hroutes]
      rcases List.mem_append.mp ha with hold | hnew
      · exact Nat.lt_succ_of_lt (h.below a hold)
      · rw [List.mem_singleton.mp hnew]
        exact Nat.lt_succ_self _
    · rw [hroutes]
      exact Nat.succ_pos _
    · intro a ha
      rw [hattached] at ha
      rcases List.mem_append.mp ha with hold | hnew
      · exact h.identity a hold
      · rw [List.mem_singleton.mp hnew]
        have hfirst := h.identity _ (h.listed _ p hp)
        exact hnative.trans (hkey.symm.trans hfirst)
    · rw [hprobed]
      exact h.spaced
    · rw [hprobed, hroutes]
      exact h.last
    · rw [hroutes]
      exact le_trans h.clock hle
  | preferred kind hshut hstopping hattached hprobed hsame hswitched hcooled =>
    refine h.of_switched (fun kind q hq => hsame.of hq) hattached hshut hstopping hswitched hclock.le
      hclock' ?_ ?_
    · rw [hprobed, List.pairwise_append]
      refine ⟨h.spaced, List.pairwise_singleton _ _, ?_⟩
      intro t ht t' ht'
      rw [List.mem_singleton.mp ht']
      obtain ⟨hle, hepoch⟩ := h.last t ht
      rcases hcooled with hzero | hcool
      · exact absurd hzero hepoch
      · have hpos : 0 < cooldown := by decide
        omega
    · intro t ht
      rw [hprobed] at ht
      rcases List.mem_append.mp ht with hold | hnew
      · exact .inl hold
      · exact .inr (List.mem_singleton.mp hnew)

theorem Inv.tick (h : s.Inv relay) (hnow : s.clock ≤ now) : Inv relay { s with clock := now } :=
  { h with placed := h.placed.clock now, clock := le_trans h.clock hnow }

theorem inv_reach {start' : ℕ} (hr : Reach step (start relay start') s) : s.Inv relay := by
  refine hr.invariant (inv_start relay start') ?_
  intro s s' e h hstep
  obtain ⟨hnow, hclock, hturn⟩ := step_cases h.placed hstep
  exact inv_turn (h.tick hnow) rfl hclock hturn

/-! ### The theorem -/

/-- Neither stopped nor about to be. -/
def Settled (s : RouteState) : Prop := s.shared.shutdown = false ∧ s.stopping = []

structure WellRouted (relay : Native) (s : RouteState) : Prop where
  /-- The active index points to a path. -/
  active : s.Settled → (s.shared.routes.paths s.shared.routes.active).isSome
  /-- Each path sits at the index of its kind. -/
  seated : ∀ kind p, s.shared.routes.paths kind = some p → p.kind = kind
  /-- Ids are unique. -/
  unique : ∀ kind kind' p p', s.shared.routes.paths kind = some p →
    s.shared.routes.paths kind' = some p' → p.id = p'.id → kind = kind'
  /-- Every path was attached, with ids that increase. -/
  listed : ∀ kind p, s.shared.routes.paths kind = some p → (p.id, p.native) ∈ s.attached
  increasing : s.attached.Pairwise (·.1 < ·.1)
  /-- All of them have the identity of the first. -/
  identity : ∀ a ∈ s.attached, a.2.peerStatic = relay.peerStatic
  /-- Switches that the probes made are apart. -/
  spaced : s.probed.Pairwise fun t t' => t + cooldown ≤ t'

/-- What one event does to the routes. -/
structure Advances (relay : Native) (s : RouteState) (e : RouteEvent) (s' : RouteState) :
    Prop where
  /-- The epoch counts the changes of the active path. -/
  epoch : s'.Settled → ∀ p p',
    s.shared.routes.paths s.shared.routes.active = some p →
    s'.shared.routes.paths s'.shared.routes.active = some p' →
      s'.shared.routes.txEpoch = s.shared.routes.txEpoch + if p'.id = p.id then 0 else 1
  /-- A failure of any path but the active one leaves the selection as it is. -/
  standby : ∀ id error, e = .fail id error →
    (∀ p, s.shared.routes.paths s.shared.routes.active = some p → p.id ≠ id) →
      s'.shared.routes.active = s.shared.routes.active ∧
        s'.shared.routes.txEpoch = s.shared.routes.txEpoch ∧
        (s'.shared.shutdown = false → s'.shared.selected = s.shared.selected)
  /-- A path is attached to a running session only, with the identity of the first. -/
  attached : s'.attached = s.attached ∨ ∃ id native, s'.attached = s.attached ++ [(id, native)] ∧
    s.Settled ∧ relay.peerStatic.isSome ∧ native.peerStatic = relay.peerStatic

theorem Inv.id_ne (h : s.Inv relay) {kind kind' : PathKind} {p p' : Path}
    (hp : s.shared.routes.paths kind = some p) (hp' : s.shared.routes.paths kind' = some p')
    (hne : kind ≠ kind') : p.id ≠ p'.id := by
  cases kind with
  | relay =>
    cases kind' with
    | relay => exact absurd rfl hne
    | direct =>
      have h0 := h.relayId p hp
      have h1 := h.directId p' hp'
      omega
  | direct =>
    cases kind' with
    | direct => exact absurd rfl hne
    | relay =>
      have h0 := h.relayId p' hp'
      have h1 := h.directId p hp
      omega

theorem Inv.wellRouted (h : s.Inv relay) : s.WellRouted relay where
  active := fun hs => h.present hs.1 hs.2
  seated := h.placed.seated
  unique := by
    intro kind kind' p p' hp hp' heq
    by_contra hne
    exact h.id_ne hp hp' hne heq
  __ := h
  increasing := h.ids

theorem Inv.switched_id_ne (h : s.Inv relay) (holder : Older s s')
    (hswitched : Switched now kind s.shared.routes s'.shared.routes) {p p' : Path}
    (hp : s.shared.routes.paths s.shared.routes.active = some p)
    (hp' : s'.shared.routes.paths s'.shared.routes.active = some p') : p'.id ≠ p.id := by
  rw [hswitched.active] at hp'
  obtain ⟨q, hq, hid, -, -⟩ := holder kind p' hp'
  rw [hid]
  exact h.id_ne hq hp (Ne.symm hswitched.moved)

theorem Inv.epoch_turn (h : s.Inv relay) (hs' : s'.Settled) (ht : Turn now s s') {p p' : Path}
    (hp : s.shared.routes.paths s.shared.routes.active = some p)
    (hp' : s'.shared.routes.paths s'.shared.routes.active = some p') :
    s'.shared.routes.txEpoch = s.shared.routes.txEpoch + if p'.id = p.id then 0 else 1 := by
  cases ht with
  | measured hbeside hkept hsame =>
    rw [hkept.active] at hp'
    obtain ⟨q, hq, hid, -, -⟩ := hsame.of hp'
    rw [hp] at hq
    rw [← Option.some.inj hq] at hid
    rw [if_pos hid, hkept.txEpoch]
    rfl
  | stopped hshut =>
    rw [hs'.1] at hshut
    cases hshut
  | retired kind hkind hbeside hkept hpaths =>
    rw [hkept.active, hpaths, Function.update_of_ne (Ne.symm hkind), hp] at hp'
    rw [← Option.some.inj hp', if_pos rfl, hkept.txEpoch]
    rfl
  | failedOver hbeside hswitched hpaths =>
    rw [if_neg (h.switched_id_ne (older_of_update hpaths) hswitched hp hp'), hswitched.txEpoch]
  | lost error hshut hkept hgone hstopping =>
    rw [hgone] at hp'
    cases hp'
  | attached native hlive hvacant hidentity hshut hstopping hprobed hattached hroutes =>
    -- the direct place was vacant, so the relay is selected
    have hactive : s.shared.routes.active ≠ .direct := by
      intro heq
      rw [heq, hvacant] at hp
      cases hp
    have hpaths : s'.shared.routes.paths s'.shared.routes.active =
        s.shared.routes.paths s.shared.routes.active := by
      rw [hroutes]
      exact Function.update_of_ne hactive _ _
    rw [hpaths, hp] at hp'
    rw [← Option.some.inj hp', if_pos rfl, hroutes]
    rfl
  | preferred kind hshut hstopping hattached hprobed hsame hswitched hcooled =>
    rw [if_neg (h.switched_id_ne (fun kind q hq => hsame.of hq) hswitched hp hp'),
      hswitched.txEpoch]

theorem stop_selection (t : Shared) (error : TransportError) (code : ℕ) (reason : String) :
    (t.stopWithCode error code reason).routes.active = t.routes.active ∧
      (t.stopWithCode error code reason).routes.txEpoch = t.routes.txEpoch ∧
      ((t.stopWithCode error code reason).shutdown = false →
        (t.stopWithCode error code reason).selected = t.selected) := by
  unfold Shared.stopWithCode
  split
  · exact ⟨rfl, rfl, fun _ => rfl⟩
  · exact ⟨rfl, rfl, nofun⟩

theorem failLocked_standby {t : Shared} {h : Host} {id : ℕ}
    (hseated : ∀ kind p, t.routes.paths kind = some p → p.kind = kind)
    (hid : ∀ p, t.routes.paths t.routes.active = some p → p.id ≠ id) (error : TransportError) :
    let t' := (t.failLocked h id error).1
    t'.routes.active = t.routes.active ∧ t'.routes.txEpoch = t.routes.txEpoch ∧
      (t'.shutdown = false → t'.selected = t.selected) := by
  unfold Shared.failLocked
  split
  · exact stop_selection t error 0 _
  split
  · exact ⟨rfl, rfl, fun _ => rfl⟩
  split
  · exact stop_selection t error 0 _
  split
  · exact ⟨rfl, rfl, fun _ => rfl⟩
  rename_i index hindex
  obtain ⟨path, hpath, hpid⟩ := Shared.position_eq_some hindex
  have hkind := hseated index path hpath
  subst hkind
  have hne : t.routes.active ≠ path.kind := by
    intro heq
    rw [← heq] at hpath
    exact hid path hpath hpid
  rw [hpath]
  dsimp only
  rw [if_neg (show ¬ (t.removePath h path.kind path).routes.active = path.kind from hne)]
  refine ⟨rfl, rfl, fun _ => ?_⟩
  unfold Shared.selected
  rw [show (t.removePath h path.kind path).routes.paths
    (t.removePath h path.kind path).routes.active = t.routes.paths t.routes.active from
      Function.update_of_ne hne _ _]
  rfl

theorem Inv.advances (h : s.Inv relay) {host : Host} {e : RouteEvent}
    (hstep : step s (host, e) = some s') : Advances relay s e s' := by
  obtain ⟨hnow, -, hturn⟩ := step_cases h.placed hstep
  constructor
  · intro hs' p p' hp hp'
    exact (h.tick hnow).epoch_turn hs' hturn hp hp'
  · rintro id error rfl hid
    have hlocked := failLocked_standby (h := host) h.placed.seated hid error
    unfold step at hstep
    split at hstep
    · cases hstep
    · simp only [next] at hstep
      generalize s.shared.failLocked host id error = out at hlocked hstep
      obtain ⟨t, pending⟩ := out
      cases pending with
      | none | some error =>
        cases hstep
        exact hlocked
  · cases hturn with
    | measured hbeside => exact .inl hbeside.attached
    | stopped _ _ _ hattached => exact .inl hattached
    | retired _ _ hbeside => exact .inl hbeside.attached
    | failedOver hbeside => exact .inl hbeside.attached
    | lost _ _ _ _ _ hattached => exact .inl hattached
    | preferred _ _ _ hattached => exact .inl hattached
    | attached native hlive hvacant hidentity hshut hstopping hprobed hattached hroutes =>
      obtain ⟨p, key, hp, hkey, hnative⟩ := hidentity
      have hfirst : p.native.peerStatic = relay.peerStatic := h.identity _ (h.listed _ p hp)
      refine .inr ⟨_, native, hattached, ⟨hlive, ?_⟩, ?_, ?_⟩
      · by_contra hne
        rw [show s.shared.routes.paths .relay = none from h.ended hne .relay] at hp
        cases hp
      · rw [← hfirst, hkey]
        rfl
      · rw [← hfirst, hkey]
        exact hnative

/-- **Route state.**  In every state a session reaches, and for every event that
happens there. -/
theorem route_state (relay : Native) (now : ℕ) {s : RouteState}
    (hr : Reach step (start relay now) s) :
    s.WellRouted relay ∧
      ∀ host e s', step s (host, e) = some s' → Advances relay s e s' := by
  have h := inv_reach hr
  exact ⟨h.wellRouted, fun host e s' hstep => h.advances hstep⟩

/-- Native sessions with one peer. -/
def samplePath (conn : ℕ) : Native := ⟨conn, false, some 1200, some [7], 1024⟩

def sampleHost (now : ℕ) : Host := ⟨now, fun _ => false, fun _ => none, fun _ _ => false⟩

/-- A direct path is attached, the relay fails, and its failure is reported again. -/
def sampleEvents : List (Host × RouteEvent) :=
  [(sampleHost 1, .attach (samplePath 1)), (sampleHost 2, .fail 0 .closed),
    (sampleHost 3, .fail 0 .closed)]

theorem route_state_failover :
    ((tryRun step (start (samplePath 0) 0) sampleEvents).map fun s =>
      (s.shared.routes.active, s.shared.routes.txEpoch)) = some (.direct, 1) ∧
    ∀ s, tryRun step (start (samplePath 0) 0) sampleEvents = some s →
      s.WellRouted (samplePath 0) := by
  refine ⟨by decide +kernel, ?_⟩
  intro s hs
  exact (route_state (samplePath 0) 0 (reach_of_tryRun .init hs)).1

/-- Between the two stretches of `fail_path` the session is not stopped and its
active index points nowhere. -/
theorem active_path_missing :
    ∃ s, Reach step (start (samplePath 0) 0) s ∧ s.shared.shutdown = false ∧
      s.shared.routes.paths s.shared.routes.active = none := by
  refine ⟨_, .step (sampleHost 1, .fail 0 .closed) .init rfl, rfl, ?_⟩
  decide +kernel

end RouteState

end Multipath

end NebulaDesk
