/-
Runs of a relay (`nebula-relay/src/rendezvous.rs`).

`Inv` is what holds between two steps: who may own a slot, who has been spliced,
and that every task past its hello was admitted with a minted token.
`relay_pairing_safety` reads off what every run of a relay splices and parks.
-/
import NebulaDesk.Relay.RendezvousTurns

namespace NebulaDesk

namespace Relay

variable {codec : PairCodec} {key : PairKey} {r r' : Relay} {a : RelayEvent} {c : ℕ}
  {t : PairToken} {token : String}

/-! ### The invariant -/

/-- The connection presented this token, unexpired, and it was minted. -/
def Admitted (codec : PairCodec) (key : PairKey) (r : Relay) (c : ℕ) (t : PairToken) : Prop :=
  t ∈ r.minted ∧ ∃ p ∈ r.presented, p.connection = c ∧ key.verify codec p.now p.token = .ok t

/-- The connection is the side of a splice that its token is for. -/
def Spliced (r : Relay) (c : ℕ) (t : PairToken) : Prop :=
  ∃ sp ∈ r.splices, sp.session = t.session ∧ sp.on t.side = c

/-- The task may still own a slot. -/
def Holds (task : Task) (t : PairToken) : Prop :=
  task = .waiting t false ∨ ∃ outcome, task = .leaving t outcome

variable {task : Task}

theorem holds_unique {u : PairToken} (ht : Holds task t) (hu : Holds task u) : t = u := by
  rcases ht with rfl | ⟨outcome, rfl⟩
  · rcases hu with hu | ⟨o, hu⟩ <;> cases hu
    rfl
  · rcases hu with hu | ⟨o, hu⟩ <;> cases hu
    rfl

theorem side_cases (side other : Side) : side = other ∨ side = other.peer := by
  cases side <;> cases other <;> decide

structure Inv (codec : PairCodec) (key : PairKey) (r : Relay) : Prop where
  admitted : ∀ c t, (r.tasks c).token = some t → Admitted codec key r c t
  parked : ∀ session w, r.waiting session = some w →
    ∃ t, Holds (r.tasks w.connection) t ∧ t.session = session ∧ t.side = w.side
  waits : ∀ c t, r.tasks c = .waiting t false → r.waiting t.session = some ⟨t.side, c⟩
  ready : ∀ c t, r.tasks c = .waiting t true → Spliced r c t
  returned : ∀ c t, r.tasks c = .returned t .spliced → Spliced r c t
  members : ∀ sp ∈ r.splices, ∀ side, ∃ t, (r.tasks (sp.on side)).joined = some t ∧
    t.session = sp.session ∧ t.side = side
  -- A connection that was spliced has left its slot.
  unparked : ∀ sp ∈ r.splices, ∀ side session w, r.waiting session = some w →
    w.connection ≠ sp.on side
  once : r.splices.Pairwise fun sp sq => ∀ side side', sp.on side ≠ sq.on side'

theorem inv_start : Inv codec key start where
  admitted := by
    intro c t h
    cases h
  parked := by
    intro session w h
    cases h
  waits := by
    intro c t h
    cases h
  ready := by
    intro c t h
    cases h
  returned := by
    intro c t h
    cases h
  members := by
    intro sp h
    cases h
  unparked := by
    intro sp h
    cases h
  once := List.Pairwise.nil

theorem Inv.move (h : Inv codec key r) {slots : SessionId → Option Waiting}
    (hsub : ∀ session w, slots session = some w → r.waiting session = some w)
    (hkeep : ∀ session w, r.waiting session = some w → w.connection ≠ c → slots session = some w)
    (hholds : ∀ session w, slots session = some w → w.connection = c →
      ∀ t, Holds (r.tasks c) t → Holds task t)
    (hwaits : ∀ t, task ≠ .waiting t false)
    (hspliced : ∀ t, task = .waiting t true ∨ task = .returned t .spliced → Spliced r c t)
    (hjoined : ∀ t, (r.tasks c).joined = some t → task.joined = some t)
    (htoken : ∀ t, task.token = some t → Admitted codec key r c t) :
    Inv codec key (setTask { r with waiting := slots } c task) where
  admitted := by
    intro d t hd
    rcases eq_or_ne d c with rfl | hne
    · rw [setTask_self] at hd
      exact htoken t hd
    · rw [setTask_of_ne task hne] at hd
      exact h.admitted d t hd
  parked := by
    intro session w hw
    obtain ⟨t, hholds', hsession, hside⟩ := h.parked session w (hsub session w hw)
    refine ⟨t, ?_, hsession, hside⟩
    by_cases hc : w.connection = c
    · rw [hc] at hholds'
      rw [hc, setTask_self]
      exact hholds session w hw hc t hholds'
    · rw [setTask_of_ne task hc]
      exact hholds'
  waits := by
    intro d t hd
    rcases eq_or_ne d c with rfl | hne
    · rw [setTask_self] at hd
      exact absurd hd (hwaits t)
    · rw [setTask_of_ne task hne] at hd
      exact hkeep _ _ (h.waits d t hd) hne
  ready := by
    intro d t hd
    rcases eq_or_ne d c with rfl | hne
    · rw [setTask_self] at hd
      exact hspliced t (.inl hd)
    · rw [setTask_of_ne task hne] at hd
      exact h.ready d t hd
  returned := by
    intro d t hd
    rcases eq_or_ne d c with rfl | hne
    · rw [setTask_self] at hd
      exact hspliced t (.inr hd)
    · rw [setTask_of_ne task hne] at hd
      exact h.returned d t hd
  members := by
    intro sp hsp side
    obtain ⟨t, ht, hrest⟩ := h.members sp hsp side
    refine ⟨t, ?_, hrest⟩
    by_cases hc : sp.on side = c
    · rw [hc] at ht
      rw [hc, setTask_self]
      exact hjoined t ht
    · rw [setTask_of_ne task hc]
      exact ht
  unparked := by
    intro sp hsp side session w hw
    exact h.unparked sp hsp side session w (hsub session w hw)
  once := h.once

/-- One task moves on; the table stays. -/
theorem Inv.setTask (h : Inv codec key r)
    (hholds : ∀ t, Holds (r.tasks c) t → Holds task t) (hwaits : ∀ t, task ≠ .waiting t false)
    (hspliced : ∀ t, task = .waiting t true ∨ task = .returned t .spliced → Spliced r c t)
    (hjoined : ∀ t, (r.tasks c).joined = some t → task.joined = some t)
    (htoken : ∀ t, task.token = some t → Admitted codec key r c t) :
    Inv codec key (r.setTask c task) :=
  h.move (fun _ _ hw => hw) (fun _ _ hw _ => hw) (fun _ _ _ _ => hholds) hwaits hspliced hjoined
    htoken

theorem Inv.mono (h : Inv codec key r) {minted : List PairToken} {presented : List Presentation}
    (hminted : r.minted ⊆ minted) (hpresented : r.presented ⊆ presented) :
    Inv codec key { r with minted := minted, presented := presented } where
  admitted := by
    intro c t ht
    obtain ⟨hm, p, hp, hrest⟩ := h.admitted c t ht
    exact ⟨hminted hm, p, hpresented hp, hrest⟩
  __ := h

theorem mem_minted (hmac : r.unforged codec key token = true) {now : UInt64}
    (hverify : key.verify codec now token = .ok t) : t ∈ r.minted := by
  rw [unforged, (PairKey.verify_ok hverify).1] at hmac
  obtain ⟨u, hu, hbody⟩ := List.mem_map.mp (of_decide_eq_true hmac)
  exact PairToken.body_inj hbody ▸ hu

theorem Inv.letIn (h : Inv codec key r) {now : UInt64} (htask : r.tasks c = .hello)
    (hmac : r.unforged codec key token = true) (hverify : key.verify codec now token = .ok t) :
    Inv codec key
      (Relay.setTask { r with presented := r.presented ++ [⟨c, token, now⟩] } c (.joining t)) := by
  refine (h.mono (List.Subset.refl _) (List.subset_append_left _ _)).setTask ?_ ?_ ?_ ?_ ?_
  · intro u hu
    simp [Holds, htask] at hu
  · simp
  · simp
  · intro u hu
    rw [htask] at hu
    cases hu
  · intro u hu
    cases hu
    exact ⟨mem_minted hmac hverify, ⟨c, token, now⟩, by simp, rfl, hverify⟩

theorem Inv.refuse (h : Inv codec key r) {now : UInt64} {e : TokenError}
    (htask : r.tasks c = .hello) :
    Inv codec key
      (Relay.setTask { r with presented := r.presented ++ [⟨c, token, now⟩] } c (.refused e)) := by
  refine (h.mono (List.Subset.refl _) (List.subset_append_left _ _)).setTask ?_ ?_ ?_ ?_ ?_
  · intro u hu
    simp [Holds, htask] at hu
  · simp
  · simp
  · intro u hu
    rw [htask] at hu
    cases hu
  · intro u hu
    cases hu

theorem Inv.free (h : Inv codec key r) (htask : r.tasks c = .joining t) :
    (∀ session w, r.waiting session = some w → w.connection ≠ c) ∧
      ∀ sp ∈ r.splices, ∀ side, sp.on side ≠ c := by
  constructor
  · intro session w hw hc
    obtain ⟨u, hu, -⟩ := h.parked session w hw
    rw [hc, htask] at hu
    simp [Holds] at hu
  · intro sp hsp side hc
    obtain ⟨u, hu, -⟩ := h.members sp hsp side
    rw [hc, htask] at hu
    cases hu

theorem Inv.duplicate (h : Inv codec key r) (htask : r.tasks c = .joining t) :
    Inv codec key (r.setTask c (.returned t .duplicate)) := by
  refine h.setTask ?_ ?_ ?_ ?_ ?_
  · intro u hu
    simp [Holds, htask] at hu
  · simp
  · simp
  · intro u hu
    rw [htask] at hu
    cases hu
  · intro u hu
    cases hu
    exact h.admitted c t (by rw [htask]; rfl)

theorem Inv.park (h : Inv codec key r) (htask : r.tasks c = .joining t)
    (hslot : r.waiting t.session = none) :
    Inv codec key ((r.setSlot t.session (some ⟨t.side, c⟩)).setTask c (.waiting t false)) := by
  obtain ⟨hfree, hnew⟩ := h.free htask
  -- Every slot is an old one or the new one.
  have hslots : ∀ session w, (r.setSlot t.session (some ⟨t.side, c⟩)).waiting session = some w →
      r.waiting session = some w ∨ (session = t.session ∧ w = ⟨t.side, c⟩) := by
    intro session w hw
    rcases eq_or_ne session t.session with rfl | hne
    · rw [setSlot_self] at hw
      exact .inr ⟨rfl, (Option.some.inj hw).symm⟩
    · rw [setSlot_of_ne _ hne] at hw
      exact .inl hw
  constructor
  · intro d u hu
    rcases eq_or_ne d c with rfl | hne
    · rw [setTask_self] at hu
      cases hu
      exact h.admitted d t (by rw [htask]; rfl)
    · rw [setTask_of_ne _ hne] at hu
      exact h.admitted d u hu
  · intro session w hw
    rcases hslots session w hw with hold | ⟨rfl, rfl⟩
    · obtain ⟨u, hu, hrest⟩ := h.parked session w hold
      refine ⟨u, ?_, hrest⟩
      rw [setTask_of_ne _ (hfree session w hold)]
      exact hu
    · refine ⟨t, ?_, rfl, rfl⟩
      rw [setTask_self]
      exact .inl rfl
  · intro d u hu
    rcases eq_or_ne d c with rfl | hne
    · rw [setTask_self] at hu
      cases hu
      exact setSlot_self _
    · rw [setTask_of_ne _ hne] at hu
      have hd := h.waits d u hu
      have hsession : u.session ≠ t.session := by
        intro heq
        rw [heq, hslot] at hd
        cases hd
      rw [setTask_waiting, setSlot_of_ne _ hsession]
      exact hd
  · intro d u hu
    rcases eq_or_ne d c with rfl | hne
    · rw [setTask_self] at hu
      cases hu
    · rw [setTask_of_ne _ hne] at hu
      exact h.ready d u hu
  · intro d u hu
    rcases eq_or_ne d c with rfl | hne
    · rw [setTask_self] at hu
      cases hu
    · rw [setTask_of_ne _ hne] at hu
      exact h.returned d u hu
  · intro sp hsp side
    obtain ⟨u, hu, hrest⟩ := h.members sp hsp side
    refine ⟨u, ?_, hrest⟩
    rw [setTask_of_ne _ (hnew sp hsp side)]
    exact hu
  · intro sp hsp side session w hw
    rcases hslots session w hw with hold | ⟨rfl, rfl⟩
    · exact h.unparked sp hsp side session w hold
    · exact (hnew sp hsp side).symm
  · exact h.once

theorem Inv.splice (h : Inv codec key r) {peer : Waiting} (htask : r.tasks c = .joining t)
    (hslot : r.waiting t.session = some peer) (hside : peer.side = t.side.peer) :
    Inv codec key
      { (r.setSlot t.session none) with
        tasks := Function.update
          (Function.update r.tasks peer.connection (r.tasks peer.connection).notify) c
          (.returned t .spliced)
        splices := r.splices ++ [.join t.session t.side c peer.connection] } := by
  obtain ⟨hfree, hnew⟩ := h.free htask
  have hne : peer.connection ≠ c := hfree _ _ hslot
  obtain ⟨u, hu, husession, huside⟩ := h.parked _ _ hslot
  set tasks := Function.update
    (Function.update r.tasks peer.connection (r.tasks peer.connection).notify) c
    (.returned t .spliced) with htasks
  have hself : tasks c = .returned t .spliced := Function.update_self ..
  have hpeer : tasks peer.connection = (r.tasks peer.connection).notify := by
    rw [htasks, Function.update_of_ne hne, Function.update_self]
  have hother : ∀ d, d ≠ c → d ≠ peer.connection → tasks d = r.tasks d := by
    intro d hc hp
    rw [htasks, Function.update_of_ne hc, Function.update_of_ne hp]
  -- The tokens of the tasks stay, and those that had their turn had it.
  have htoken : ∀ d, (tasks d).token = (r.tasks d).token := by
    intro d
    by_cases hc : d = c
    · rw [hc, hself, htask]
      rfl
    · by_cases hp : d = peer.connection
      · rw [hp, hpeer, Task.notify_token]
      · rw [hother d hc hp]
  have hjoined : ∀ d, d ≠ c → (tasks d).joined = (r.tasks d).joined := by
    intro d hc
    by_cases hp : d = peer.connection
    · rw [hp, hpeer, Task.notify_joined]
    · rw [hother d hc hp]
  have hpeerJoined : (tasks peer.connection).joined = some u := by
    rw [hpeer, Task.notify_joined]
    rcases hu with hu | ⟨outcome, hu⟩
    · rw [hu]
      rfl
    · rw [hu]
      rfl
  have hslots : ∀ session w, (r.setSlot t.session none).waiting session = some w →
      r.waiting session = some w ∧ w.connection ≠ peer.connection := by
    intro session w hw
    rcases eq_or_ne session t.session with rfl | hsession
    · rw [setSlot_self] at hw
      cases hw
    · rw [setSlot_of_ne _ hsession] at hw
      refine ⟨hw, ?_⟩
      intro heq
      obtain ⟨v, hv, hvsession, -⟩ := h.parked _ _ hw
      rw [heq] at hv
      have huv : v = u := holds_unique hv hu
      exact hsession (by rw [← hvsession, huv, husession])
  have hjoin : Spliced { r with splices := r.splices ++ [.join t.session t.side c peer.connection] }
      c t := ⟨_, List.mem_append_right _ (List.mem_singleton_self _), by simp, by simp⟩
  have hjoinPeer : Spliced
      { r with splices := r.splices ++ [.join t.session t.side c peer.connection] }
      peer.connection u :=
    ⟨_, List.mem_append_right _ (List.mem_singleton_self _), by simp [husession],
      by rw [huside, hside, Splice.join_on_peer]⟩
  have hspliced : ∀ {d v}, Spliced r d v → Spliced
      { r with splices := r.splices ++ [.join t.session t.side c peer.connection] } d v := by
    rintro d v ⟨sp, hsp, hrest⟩
    exact ⟨sp, List.mem_append_left _ hsp, hrest⟩
  constructor
  · intro d v hv
    exact h.admitted d v ((htoken d).symm.trans hv)
  · intro session w hw
    obtain ⟨hold, hp⟩ := hslots session w hw
    obtain ⟨v, hv, hrest⟩ := h.parked session w hold
    refine ⟨v, ?_, hrest⟩
    show Holds (tasks w.connection) v
    rw [hother _ (hfree _ _ hold) hp]
    exact hv
  · intro d v hv
    replace hv : tasks d = .waiting v false := hv
    have hc : d ≠ c := by
      rintro rfl
      rw [hself] at hv
      cases hv
    have hp : d ≠ peer.connection := by
      rintro rfl
      rw [hpeer] at hv
      rcases hu with hu | ⟨outcome, hu⟩
      · rw [hu] at hv
        cases hv
      · rw [hu] at hv
        cases hv
    rw [hother d hc hp] at hv
    have hd := h.waits d v hv
    have hsession : v.session ≠ t.session := by
      intro heq
      rw [heq, hslot] at hd
      exact hp (by rw [Option.some.inj hd])
    show (r.setSlot t.session none).waiting v.session = _
    rw [setSlot_of_ne _ hsession]
    exact hd
  · intro d v hv
    replace hv : tasks d = .waiting v true := hv
    by_cases hc : d = c
    · rw [hc, hself] at hv
      cases hv
    · by_cases hp : d = peer.connection
      · have hvu : some v = some u := by
          rw [← hpeerJoined, ← hp, hv]
          rfl
        rw [Option.some.inj hvu, hp]
        exact hjoinPeer
      · rw [hother d hc hp] at hv
        exact hspliced (h.ready d v hv)
  · intro d v hv
    replace hv : tasks d = .returned v .spliced := hv
    by_cases hc : d = c
    · rw [hc, hself] at hv
      cases hv
      rw [hc]
      exact hjoin
    · by_cases hp : d = peer.connection
      · have hvu : some v = some u := by
          rw [← hpeerJoined, ← hp, hv]
          rfl
        rw [Option.some.inj hvu, hp]
        exact hjoinPeer
      · rw [hother d hc hp] at hv
        exact hspliced (h.returned d v hv)
  · intro sp hsp side
    show ∃ v, (tasks (sp.on side)).joined = some v ∧ _
    rcases List.mem_append.mp hsp with hsp | hsp
    · rw [hjoined _ (hnew sp hsp side)]
      exact h.members sp hsp side
    · obtain rfl := List.mem_singleton.mp hsp
      rcases side_cases side t.side with rfl | rfl
      · rw [Splice.join_on, hself, Splice.join_session]
        exact ⟨t, rfl, rfl, rfl⟩
      · rw [Splice.join_on_peer, hpeerJoined, Splice.join_session]
        exact ⟨u, rfl, husession, huside.trans hside⟩
  · intro sp hsp side session w hw
    obtain ⟨hold, hp⟩ := hslots session w hw
    rcases List.mem_append.mp hsp with hsp | hsp
    · exact h.unparked sp hsp side session w hold
    · obtain rfl := List.mem_singleton.mp hsp
      rcases side_cases side t.side with rfl | rfl
      · rw [Splice.join_on]
        exact hfree _ _ hold
      · rw [Splice.join_on_peer]
        exact hp
  · refine List.pairwise_append.mpr ⟨h.once, List.pairwise_singleton _ _, ?_⟩
    intro sp hsp sq hsq side side'
    obtain rfl := List.mem_singleton.mp hsq
    rcases side_cases side' t.side with rfl | rfl
    · rw [Splice.join_on]
      exact hnew sp hsp side
    · rw [Splice.join_on_peer]
      exact (h.unparked sp hsp side _ _ hslot).symm

theorem Inv.leaving (h : Inv codec key r) {ready : Bool} (htask : r.tasks c = .waiting t ready)
    (outcome : Outcome) : Inv codec key (r.setTask c (.leaving t outcome)) := by
  refine h.setTask ?_ ?_ ?_ ?_ ?_
  · rintro u (hu | ⟨o, hu⟩)
    · rw [htask] at hu
      cases hu
      exact .inr ⟨outcome, rfl⟩
    · rw [htask] at hu
      cases hu
  · simp
  · simp
  · intro u hu
    rw [htask] at hu
    exact hu
  · intro u hu
    exact h.admitted c u (by rw [htask]; exact hu)

theorem Inv.wake (h : Inv codec key r) (htask : r.tasks c = .waiting t true) :
    Inv codec key (r.setTask c (.returned t .spliced)) := by
  refine h.setTask ?_ ?_ ?_ ?_ ?_
  · rintro u (hu | ⟨o, hu⟩)
    · rw [htask] at hu
      cases hu
    · rw [htask] at hu
      cases hu
  · simp
  · rintro u (hu | hu)
    · cases hu
    · cases hu
      exact h.ready c t htask
  · intro u hu
    rw [htask] at hu
    exact hu
  · intro u hu
    exact h.admitted c u (by rw [htask]; exact hu)

/-- `join` returns what ended its wait, with its slot empty. -/
theorem Inv.giveUp (h : Inv codec key r) {outcome : Outcome} (htask : r.tasks c = .leaving t outcome)
    (hout : outcome ≠ .spliced) {slots : SessionId → Option Waiting}
    (hsub : ∀ session w, slots session = some w → r.waiting session = some w)
    (hkeep : ∀ session w, r.waiting session = some w → w.connection ≠ c → slots session = some w)
    (hgone : ∀ session w, slots session = some w → w.connection ≠ c) :
    Inv codec key (Relay.setTask { r with waiting := slots } c (.returned t outcome)) := by
  refine h.move hsub hkeep ?_ ?_ ?_ ?_ ?_
  · intro session w hw hc
    exact absurd hc (hgone session w hw)
  · simp
  · rintro u (hu | hu)
    · cases hu
    · cases hu
      exact absurd rfl hout
  · intro u hu
    rw [htask] at hu
    exact hu
  · intro u hu
    exact h.admitted c u (by rw [htask]; exact hu)

/-- A task that leaves was not told it is spliced. -/
def Leaves (r : Relay) : Prop := ∀ c t, r.tasks c ≠ .leaving t .spliced

theorem Leaves.setTask (h : Leaves r) (htask : ∀ t, task ≠ .leaving t .spliced) :
    Leaves (r.setTask c task) := by
  intro d t hd
  rcases eq_or_ne d c with rfl | hne
  · rw [setTask_self] at hd
    exact htask t hd
  · rw [setTask_of_ne _ hne] at hd
    exact h d t hd

theorem notify_ne_leaving (h : ∀ t, task ≠ .leaving t .spliced) (t : PairToken) :
    task.notify ≠ .leaving t .spliced := by
  cases task with
  | waiting u ready => simp [Task.notify]
  | _ => exact h t

theorem leaves_step (h : Leaves r) (hs : Steps codec key r a r') : Leaves r' := by
  cases hs with
  | mint now session side => exact h
  | letIn _ _ _ => exact h.setTask (by simp)
  | refuse _ => exact h.setTask (by simp)
  | @splice c t peer htask hslot hside =>
    intro d u hd
    replace hd : Function.update
      (Function.update r.tasks peer.connection (r.tasks peer.connection).notify) c
      (.returned t .spliced) d = .leaving u .spliced := hd
    rw [Function.update_apply] at hd
    split at hd
    · cases hd
    · rw [Function.update_apply] at hd
      split at hd
      · exact notify_ne_leaving (h peer.connection) u hd
      · exact h d u hd
  | duplicate _ => exact h.setTask (by simp)
  | park _ _ => exact h.setTask (by simp)
  | wake _ => exact h.setTask (by simp)
  | orphan _ _ => exact h.setTask (by simp)
  | timeout _ => exact h.setTask (by simp)
  | closed _ => exact h.setTask (by simp)
  | vacate _ _ => exact h.setTask (by simp)
  | leave _ _ => exact h.setTask (by simp)

theorem Inv.slot_of_leaving (h : Inv codec key r) {outcome : Outcome}
    (htask : r.tasks c = .leaving t outcome) {session : SessionId} {w : Waiting}
    (hw : r.waiting session = some w) (hc : w.connection = c) :
    r.waiting t.session = some ⟨t.side, c⟩ ∧ session = t.session := by
  obtain ⟨u, hu, hsession, hside⟩ := h.parked session w hw
  rw [hc] at hu
  obtain rfl := holds_unique hu (.inr ⟨outcome, htask⟩)
  refine ⟨?_, hsession.symm⟩
  rw [hsession, hw, hside, ← hc]

/-- **Step lemma.** -/
theorem inv_step (h : Inv codec key r) (hl : Leaves r) (hs : Steps codec key r a r') :
    Inv codec key r' := by
  cases hs with
  | mint now session side => exact h.mono (List.subset_append_left _ _) (List.Subset.refl _)
  | letIn htask hmac hverify => exact h.letIn htask hmac hverify
  | refuse htask => exact h.refuse htask
  | splice htask hslot hside => exact h.splice htask hslot hside
  | duplicate htask => exact h.duplicate htask
  | park htask hslot => exact h.park htask hslot
  | wake htask => exact h.wake htask
  | orphan htask hslot => exact h.leaving htask .abandoned
  | timeout htask => exact h.leaving htask .timedOut
  | closed htask => exact h.leaving htask .abandoned
  | @vacate c t outcome htask hslot =>
    refine h.giveUp htask (fun hout => hl c t (hout ▸ htask)) ?_ ?_ ?_
    · intro session w hw
      rcases eq_or_ne session t.session with rfl | hne
      · rw [Function.update_self] at hw
        cases hw
      · rwa [Function.update_of_ne hne] at hw
    · intro session w hw hc
      rcases eq_or_ne session t.session with rfl | hne
      · rw [hslot] at hw
        exact absurd (by rw [← Option.some.inj hw]) hc
      · rwa [Function.update_of_ne hne]
    · intro session w hw hc
      rcases eq_or_ne session t.session with rfl | hne
      · rw [Function.update_self] at hw
        cases hw
      · rw [Function.update_of_ne hne] at hw
        exact hne (h.slot_of_leaving htask hw hc).2
  | @leave c t outcome htask hslot =>
    refine h.giveUp htask (fun hout => hl c t (hout ▸ htask)) (fun _ _ hw => hw)
      (fun _ _ hw _ => hw) ?_
    intro session w hw hc
    exact hslot (h.slot_of_leaving htask hw hc).1

/-- **Run lemma.** -/
theorem inv_reach (hr : Runs.Reach (step codec key) start r) : Inv codec key r ∧ Leaves r := by
  refine hr.invariant (P := fun s => Inv codec key s ∧ Leaves s) ⟨inv_start, ?_⟩ ?_
  · intro c t h
    cases h
  · intro s s' a ⟨h, hl⟩ hs
    exact ⟨inv_step h hl (step_cases hs), leaves_step hl (step_cases hs)⟩

theorem removed_by (hs : Steps codec key r a r') {session : SessionId}
    {w : Waiting} (hw : r.waiting session = some w) (hgone : r'.waiting session ≠ some w) :
    a = .giveUp w.connection ∨
      ∃ sp, r'.splices = r.splices ++ [sp] ∧ sp.session = session ∧ sp.on w.side = w.connection := by
  cases hs with
  | mint _ _ _ => exact absurd hw hgone
  | letIn _ _ _ => exact absurd hw hgone
  | refuse _ => exact absurd hw hgone
  | @splice c t peer htask hslot hside =>
    rcases eq_or_ne session t.session with rfl | hne
    · obtain rfl : peer = w := Option.some.inj (hslot.symm.trans hw)
      refine .inr ⟨_, rfl, by simp, ?_⟩
      rw [hside, Splice.join_on_peer]
    · exact absurd ((setSlot_of_ne none hne).trans hw) hgone
  | duplicate _ => exact absurd hw hgone
  | @park c t htask hslot =>
    have hne : session ≠ t.session := by
      rintro rfl
      rw [hslot] at hw
      cases hw
    exact absurd ((setSlot_of_ne _ hne).trans hw) hgone
  | wake _ => exact absurd hw hgone
  | orphan _ _ => exact absurd hw hgone
  | timeout _ => exact absurd hw hgone
  | closed _ => exact absurd hw hgone
  | @vacate c t outcome htask hslot =>
    rcases eq_or_ne session t.session with rfl | hne
    · obtain rfl : _ = w := Option.some.inj (hslot.symm.trans hw)
      exact .inl rfl
    · exact absurd ((setSlot_of_ne none hne).trans hw) hgone
  | leave _ _ => exact absurd hw hgone

/-- The connection presented an unexpired token that was minted for this side of
the session. -/
def Authorised (codec : PairCodec) (key : PairKey) (r : Relay) (c : ℕ) (session : SessionId)
    (side : Side) : Prop :=
  ∃ p ∈ r.presented, ∃ expiresAt, p.connection = c ∧ p.now < expiresAt ∧
    key.verify codec p.now p.token = .ok ⟨session, side, expiresAt⟩ ∧
    (⟨session, side, expiresAt⟩ : PairToken) ∈ r.minted

theorem Inv.authorised (h : Inv codec key r) {sp : Splice} (hsp : sp ∈ r.splices) (side : Side) :
    Authorised codec key r (sp.on side) sp.session side := by
  obtain ⟨t, ht, rfl', rfl⟩ := h.members sp hsp side
  obtain ⟨hm, p, hp, hc, hverify⟩ := h.admitted _ t (Task.token_of_joined ht)
  have heq : (⟨sp.session, t.side, t.expiresAt⟩ : PairToken) = t := by rw [← rfl']
  exact ⟨p, hp, t.expiresAt, hc, (PairKey.verify_ok hverify).2, by rw [heq, hverify], by rwa [heq]⟩

/-- In every run of a relay: a splice joins a connection that presented an
unexpired client token with one that presented an unexpired agent token minted
for the same session; no connection is in two splices; a session has one parked
entry at most, whose owner is still in `join`; and an entry is taken out of the
table by its owner or by the splice that uses it. -/
theorem relay_pairing_safety (codec : PairCodec) (key : PairKey) (r : Relay)
    (hr : Runs.Reach (step codec key) start r) :
    (∀ sp ∈ r.splices, Authorised codec key r sp.client sp.session .client ∧
      Authorised codec key r sp.agent sp.session .agent ∧ sp.client ≠ sp.agent) ∧
    (r.splices.Pairwise fun sp sq => ∀ side side', sp.on side ≠ sq.on side') ∧
    (∀ session session' w w', r.waiting session = some w → r.waiting session' = some w' →
      (w.connection = w'.connection ↔ session = session')) ∧
    (∀ session w, r.waiting session = some w → ∃ t : PairToken, t.session = session ∧
      t.side = w.side ∧ (r.tasks w.connection = .waiting t false ∨
        ∃ outcome, r.tasks w.connection = .leaving t outcome)) ∧
    ∀ a r', r.step codec key a = some r' → ∀ session w, r.waiting session = some w →
      r'.waiting session ≠ some w → a = .giveUp w.connection ∨
        ∃ sp, r'.splices = r.splices ++ [sp] ∧ sp.session = session ∧
          sp.on w.side = w.connection := by
  obtain ⟨h, -⟩ := inv_reach hr
  refine ⟨?_, h.once, ?_, ?_, ?_⟩
  · intro sp hsp
    refine ⟨h.authorised hsp .client, h.authorised hsp .agent, ?_⟩
    intro heq
    obtain ⟨t, ht, -, hside⟩ := h.members sp hsp .client
    obtain ⟨u, hu, -, hside'⟩ := h.members sp hsp .agent
    have heq' : sp.on .client = sp.on .agent := heq
    rw [heq', hu] at ht
    rw [Option.some.inj ht, hside] at hside'
    cases hside'
  · intro session session' w w' hw hw'
    constructor
    · intro heq
      obtain ⟨t, ht, hsession, -⟩ := h.parked session w hw
      obtain ⟨u, hu, hsession', -⟩ := h.parked session' w' hw'
      rw [heq] at ht
      rw [← hsession, ← hsession', holds_unique ht hu]
    · rintro rfl
      rw [Option.some.inj (hw.symm.trans hw')]
  · intro session w hw
    obtain ⟨t, ht, hsession, hside⟩ := h.parked session w hw
    exact ⟨t, hsession, hside, ht⟩
  · intro a r' hs session w hw hgone
    exact removed_by (step_cases hs) hw hgone

/-- Both sides of a session present themselves. -/
def sampleArrivals : List RelayEvent :=
  [.mint 1000 sampleSession .client, .mint 1000 sampleSession .agent,
    .present 1 (sampleToken .client) 1001, .present 2 (sampleToken .agent) 1002]

/-- The agent finds the client parked, and both are told so. -/
theorem relay_pairing_safety_spliced :
    ∃ r, Runs.Reach (step sampleCodec sampleKey) start r ∧ r.splices = [⟨sampleSession, 1, 2⟩] ∧
      Authorised sampleCodec sampleKey r 1 sampleSession .client ∧
      Authorised sampleCodec sampleKey r 2 sampleSession .agent := by
  have hrun : (Runs.tryRun (step sampleCodec sampleKey) start
      (sampleArrivals ++ [.join 1, .join 2, .wake 1])).map (·.splices) =
        some [⟨sampleSession, 1, 2⟩] := by
    decide +kernel
  obtain ⟨r, htry, hsplices⟩ := Option.map_eq_some_iff.mp hrun
  have hr := Runs.reach_of_tryRun .init htry
  obtain ⟨hclient, hagent, -⟩ :=
    (relay_pairing_safety sampleCodec sampleKey r hr).1 ⟨sampleSession, 1, 2⟩ (by simp [hsplices])
  exact ⟨r, hr, hsplices, hclient, hagent⟩

end Relay

end NebulaDesk
