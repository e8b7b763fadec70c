/-
What the two sides of a session are told (`nebula-relay/src/rendezvous.rs`,
`nebula-relay/src/lib.rs`).

The side that arrives second takes the slot of the first and ignores whether its
notification was received.  The first side may have stopped waiting by then, or
may see its connection close before it looks at the notification; one side is
then told that the pipe is up and the other is rejected (`late_peer_rejected`).
`relay_peers_agree` says that both sides are told the same in every run without
such a step (`attended`).
-/
import NebulaDesk.Relay.RendezvousRuns

namespace NebulaDesk

/-- The task is still in its `select!`. -/
def Task.listens : Task → Bool
  | .waiting _ _ => true
  | _ => false

namespace Relay

variable {codec : PairCodec} {key : PairKey} {r r' : Relay} {a : RelayEvent} {c : ℕ}
  {t : PairToken} {token : String}

def sessionOf (codec : PairCodec) (key : PairKey) (p : Presentation) : Option SessionId :=
  match key.verify codec p.now p.token with
  | .ok t => some t.session
  | .error _ => none

/-- Whenever the two sides of a session are the only connections that presented
a token for it and `join` has returned to both, it returned `spliced` to one if
and only if it did to the other. -/
def PeersAgree (codec : PairCodec) (key : PairKey) (r : Relay) : Prop :=
  ∀ c d t u outcome outcome', r.tasks c = .returned t outcome → r.tasks d = .returned u outcome' →
    u.session = t.session → u.side = t.side.peer →
    (∀ p ∈ r.presented, sessionOf codec key p = some t.session →
      p.connection = c ∨ p.connection = d) →
    (outcome = .spliced ↔ outcome' = .spliced)

/-- No slot is taken whose owner has stopped waiting, and no connection closes
between the notification of its task and the task's next look at it. -/
def attended (r : Relay) : RelayEvent → Bool
  | .join c =>
    match r.tasks c with
    | .joining t =>
      match r.waiting t.session with
      | some peer => peer.side ≠ t.side.peer || (r.tasks peer.connection).listens
      | none => true
    | _ => true
  | .closed c =>
    match r.tasks c with
    | .waiting _ true => false
    | _ => true
  | _ => true

def stepAttended (codec : PairCodec) (key : PairKey) (r : Relay) (a : RelayEvent) : Option Relay :=
  if r.attended a then r.step codec key a else none

/-- The task was told of its splice, or will be. -/
def Told (task : Task) : Prop := ∃ t, task = .waiting t true ∨ task = .returned t .spliced

/-- Both sides of every splice know of it. -/
def AllTold (r : Relay) : Prop := ∀ sp ∈ r.splices, ∀ side, Told (r.tasks (sp.on side))

theorem AllTold.setTask (h : AllTold r) {task : Task} (htask : Told (r.tasks c) → Told task) :
    AllTold (r.setTask c task) := by
  intro sp hsp side
  have hsp' := h sp hsp side
  rcases eq_or_ne (sp.on side) c with heq | hne
  · rw [heq, setTask_self]
    exact htask (heq ▸ hsp')
  · rw [setTask_of_ne _ hne]
    exact hsp'

theorem AllTold.untold (h : AllTold r) {task : Task} (hwaiting : ∀ t, r.tasks c ≠ .waiting t true)
    (hreturned : ∀ t, r.tasks c ≠ .returned t .spliced) : AllTold (r.setTask c task) := by
  refine h.setTask ?_
  rintro ⟨t, ht | ht⟩
  · exact absurd ht (hwaiting t)
  · exact absurd ht (hreturned t)

theorem AllTold.splice (h : AllTold r) (hi : Inv codec key r) {peer : Waiting}
    (htask : r.tasks c = .joining t) (hslot : r.waiting t.session = some peer)
    (hside : peer.side = t.side.peer) (hatt : r.attended (.join c) = true) :
    AllTold { (r.setSlot t.session none) with
      tasks := Function.update
        (Function.update r.tasks peer.connection (r.tasks peer.connection).notify) c
        (.returned t .spliced)
      splices := r.splices ++ [.join t.session t.side c peer.connection] } := by
  obtain ⟨hfree, hnew⟩ := hi.free htask
  have hne : peer.connection ≠ c := hfree _ _ hslot
  -- The owner of the slot is in its `select!`, so it will find the notification.
  have hlistens : (r.tasks peer.connection).listens = true := by
    simp only [attended, htask, hslot, hside, ne_eq, not_true_eq_false, decide_false,
      Bool.false_or] at hatt
    exact hatt
  have hpeer : Told (r.tasks peer.connection).notify := by
    cases htask' : r.tasks peer.connection with
    | waiting u ready => exact ⟨u, .inl rfl⟩
    | _ =>
      rw [htask'] at hlistens
      cases hlistens
  intro sp hsp side
  show Told (Function.update
    (Function.update r.tasks peer.connection (r.tasks peer.connection).notify) c
    (.returned t .spliced) (sp.on side))
  rcases List.mem_append.mp hsp with hsp | hsp
  · rw [Function.update_of_ne (hnew sp hsp side),
      Function.update_of_ne (hi.unparked sp hsp side _ _ hslot).symm]
    exact h sp hsp side
  · obtain rfl := List.mem_singleton.mp hsp
    rcases side_cases side t.side with rfl | rfl
    · rw [Splice.join_on, Function.update_self]
      exact ⟨t, .inr rfl⟩
    · rw [Splice.join_on_peer, Function.update_of_ne hne, Function.update_self]
      exact hpeer

theorem allTold_step (h : AllTold r) (hi : Inv codec key r) (hatt : r.attended a = true)
    (hs : Steps codec key r a r') : AllTold r' := by
  cases hs with
  | mint now session side => exact h
  | letIn htask _ _ => exact h.untold (by simp [htask]) (by simp [htask])
  | refuse htask => exact h.untold (by simp [htask]) (by simp [htask])
  | splice htask hslot hside => exact h.splice hi htask hslot hside hatt
  | duplicate htask => exact h.untold (by simp [htask]) (by simp [htask])
  | park htask _ => exact h.untold (by simp [htask]) (by simp [htask])
  | @wake c t htask => exact h.setTask fun _ => ⟨t, .inr rfl⟩
  | orphan htask _ => exact h.untold (by simp [htask]) (by simp [htask])
  | timeout htask => exact h.untold (by simp [htask]) (by simp [htask])
  | @closed c t ready htask =>
    have hready : ready = false := by
      cases ready
      · rfl
      · simp [attended, htask] at hatt
    exact h.untold (by simp [htask, hready]) (by simp [htask])
  | vacate htask _ => exact h.untold (by simp [htask]) (by simp [htask])
  | leave htask _ => exact h.untold (by simp [htask]) (by simp [htask])

theorem allTold_reach (hr : Runs.Reach (stepAttended codec key) start r) :
    Inv codec key r ∧ Leaves r ∧ AllTold r := by
  refine hr.invariant (P := fun s => Inv codec key s ∧ Leaves s ∧ AllTold s) ⟨inv_start, ?_, ?_⟩ ?_
  · intro c t h
    cases h
  · intro sp hsp
    cases hsp
  · intro s s' a ⟨h, hl, ht⟩ hs
    unfold stepAttended at hs
    split at hs
    · next hatt =>
      have hsteps := step_cases hs
      exact ⟨inv_step h hl hsteps, leaves_step hl hsteps, allTold_step ht h hatt hsteps⟩
    · cases hs

/-- Who was told `spliced` has a counterpart, of the same session, that is not
told otherwise. -/
theorem told_together (h : Inv codec key r) (ht : AllTold r) {d : ℕ} {u : PairToken}
    {outcome : Outcome} (hc : r.tasks c = .returned t .spliced)
    (hd : r.tasks d = .returned u outcome)
    (honly : ∀ p ∈ r.presented, sessionOf codec key p = some t.session →
      p.connection = c ∨ p.connection = d) : outcome = .spliced := by
  obtain ⟨sp, hsp, hsession, hon⟩ := h.returned c t hc
  obtain ⟨v, hv, hvsession, hvside⟩ := h.members sp hsp t.side.peer
  obtain ⟨-, p, hp, hpc, hverify⟩ := h.admitted _ v (Task.token_of_joined hv)
  have hsessionOf : sessionOf codec key p = some t.session := by
    rw [sessionOf, hverify, ← hsession, ← hvsession]
  have hpeer : sp.on t.side.peer = d := by
    rcases honly p hp hsessionOf with heq | heq
    · -- One connection is not both sides of a splice.
      rw [hpc] at heq
      rw [heq, hc] at hv
      cases hv
      exact absurd hvside.symm (Side.peer_ne _)
    · rw [← hpc, heq]
  obtain ⟨w, hw | hw⟩ := ht sp hsp t.side.peer
  · rw [hpeer, hd] at hw
    cases hw
  · rw [hpeer, hd] at hw
    cases hw
    rfl

/-- In every run whose steps are all attended the two sides of a session are told
the same, and nobody who was spliced is rejected. -/
theorem relay_peers_agree (codec : PairCodec) (key : PairKey) (r : Relay)
    (hr : Runs.Reach (stepAttended codec key) start r) :
    PeersAgree codec key r ∧ ∀ sp ∈ r.splices, ∀ side t outcome,
      r.tasks (sp.on side) = .returned t outcome → outcome.ack = .spliced := by
  obtain ⟨h, -, ht⟩ := allTold_reach hr
  constructor
  · intro c d t u outcome outcome' hc hd hsession hside honly
    constructor
    · rintro rfl
      exact told_together h ht hc hd honly
    · rintro rfl
      refine told_together h ht hd hc ?_
      intro p hp hp'
      exact (honly p hp (hsession ▸ hp')).symm
  · intro sp hsp side t outcome hout
    obtain ⟨u, hu | hu⟩ := ht sp hsp side
    · rw [hout] at hu
      cases hu
    · rw [hout] at hu
      cases hu
      rfl

/-- An attended run in which both sides are told `spliced`. -/
theorem relay_peers_agree_spliced :
    ∃ r, Runs.Reach (stepAttended sampleCodec sampleKey) start r ∧
      r.tasks 1 = .returned ⟨sampleSession, .client, 1030⟩ .spliced ∧
      r.tasks 2 = .returned ⟨sampleSession, .agent, 1030⟩ .spliced ∧
      PeersAgree sampleCodec sampleKey r := by
  have hrun : (Runs.tryRun (stepAttended sampleCodec sampleKey) start
      (sampleArrivals ++ [.join 1, .join 2, .wake 1])).map (fun r => (r.tasks 1, r.tasks 2)) =
        some (.returned ⟨sampleSession, .client, 1030⟩ .spliced,
          .returned ⟨sampleSession, .agent, 1030⟩ .spliced) := by
    decide +kernel
  obtain ⟨r, htry, hout⟩ := Option.map_eq_some_iff.mp hrun
  obtain ⟨hclient, hagent⟩ := Prod.mk.inj hout
  have hr := Runs.reach_of_tryRun .init htry
  exact ⟨r, hr, hclient, hagent, (relay_peers_agree sampleCodec sampleKey r hr).1⟩

/-- The agent joins after the client's timer fired and before the client gave its
slot up: the agent is told that the pipe is up, and the client is rejected. -/
theorem late_peer_rejected :
    ∃ r, Runs.Reach (step sampleCodec sampleKey) start r ∧ ¬ PeersAgree sampleCodec sampleKey r := by
  have hrun : (Runs.tryRun (step sampleCodec sampleKey) start
      (sampleArrivals ++ [.join 1, .timeout 1, .join 2, .giveUp 1])).map
        (fun r => (r.tasks 1, r.tasks 2, r.presented)) =
        some (.returned ⟨sampleSession, .client, 1030⟩ .timedOut,
          .returned ⟨sampleSession, .agent, 1030⟩ .spliced,
          [⟨1, sampleToken .client, 1001⟩, ⟨2, sampleToken .agent, 1002⟩]) := by
    decide +kernel
  obtain ⟨r, htry, hout⟩ := Option.map_eq_some_iff.mp hrun
  obtain ⟨hclient, hrest⟩ := Prod.mk.inj hout
  obtain ⟨hagent, hpresented⟩ := Prod.mk.inj hrest
  refine ⟨r, Runs.reach_of_tryRun .init htry, ?_⟩
  intro hagree
  have honly : ∀ p ∈ r.presented, sessionOf sampleCodec sampleKey p = some sampleSession →
      p.connection = 1 ∨ p.connection = 2 := by
    rw [hpresented]
    simp
  have hiff := hagree 1 2 _ _ _ _ hclient hagent rfl rfl honly
  exact absurd (hiff.mpr rfl) (by decide)

end Relay

end NebulaDesk
