/-
The order of numbers, routes and epochs (`nebula-agent/src/platform/macos/capture.rs`,
`nebula-agent/src/platform/linux/capture.rs`, `nebula-agent/src/session.rs`).

Frames are sent under growing numbers and along growing routes, and whatever is
on its way is from the current epoch or an earlier one.  Each step of the pump
that has more than one outcome is taken apart here, once.
-/
import NebulaDesk.Agent.VideoPump

namespace NebulaDesk

namespace VideoPump

variable {p p' : VideoPump} {e : PumpEvent}

/-- The frame whose send has not begun. -/
def held (p : VideoPump) : Option Coded :=
  match p.sending with
  | some (.waiting frame _) => some frame
  | _ => none

/-- The number of the next frame to be sent. -/
def number (p : VideoPump) : ℕ :=
  match p.sending with
  | some (.waiting _ (some n)) => n
  | _ => p.next

/-- The frame belongs to the current epoch. -/
def isLive (p : VideoPump) (x : Coded) : Bool := p.current x.stamp

/-! ### What a step does -/

theorem step_take {refused : Bool} (h : p.step (.take refused) = some p') :
    p.sending = none ∧ ∃ frame rest, p.queue = frame :: rest ∧
      ((p.isLive frame = false ∧ p' = { p with queue := rest }) ∨
        (p.heard ≠ p.stamp ∧ p.isLive frame = true ∧
          p' = { p with queue := rest, heard := p.stamp }) ∨
        (p.isLive frame = true ∧ p' = { p with
          queue := rest
          sending := some (.waiting frame (if p.application then some p.next else none))
          next := if p.application then p.next + 1 else p.next
          heard := p.stamp })) := by
  rw [step] at h
  split at h
  · rename_i frame rest hsending hqueue
    refine ⟨hsending, frame, rest, hqueue, ?_⟩
    split at h
    · rename_i hstale
      exact .inl ⟨by simpa [isLive] using hstale, (Option.some.inj h).symm⟩
    · rename_i hcurrent
      have hcurrent : p.isLive frame = true := by simpa [isLive] using hcurrent
      right
      split at h
      · rename_i happ
        split at h
        · split at h
          · cases h
          · rename_i hheard
            exact .inl ⟨hheard, hcurrent, (Option.some.inj h).symm⟩
        · right
          refine ⟨hcurrent, ?_⟩
          rw [if_pos happ, if_pos happ]
          exact (Option.some.inj h).symm
      · rename_i happ
        right
        refine ⟨hcurrent, ?_⟩
        rw [if_neg happ, if_neg happ]
        exact (Option.some.inj h).symm
  · cases h

/-- The source without the frame that came out of its encoder. -/
def popped (p : VideoPump) (rest : List Submitted) : VideoSource :=
  { p.source with pending := rest, produced := p.source.produced + 1 }

theorem step_output {keyframe empty full : Bool}
    (h : p.step (.output keyframe empty full) = some p') :
    ∃ first rest, p.source.pending = first :: rest ∧
      (first.forced = true → keyframe = true ∧ empty = false) ∧
      ((empty = true ∧ p' = { p with source := { p.source with pending := rest } }) ∨
        (empty = false ∧ p.source.broken = true ∧ p' = { p with source := p.popped rest }) ∨
        (empty = false ∧ (p.source.broken = true → keyframe = true) ∧
          p.current first.stamp = true ∧ p' = { p with
            source := { p.popped rest with broken := p.source.broken && !keyframe }
            queue := p.queue ++
              [⟨p.source.encoder, p.source.produced, keyframe, first.stamp⟩] }) ∨
        (empty = false ∧ (p.current first.stamp = false ∨ full = true) ∧ p' = { p with
            source := { p.popped rest with
              requested := true
              broken := p.source.kind = .linux || p.source.broken } })) := by
  rw [step, output] at h
  split at h
  · cases h
  rename_i first rest hpending
  refine ⟨first, rest, hpending, ?_⟩
  split at h
  · cases h
  rename_i hforced
  refine ⟨by intro hf; simpa [hf] using hforced, ?_⟩
  split at h
  · cases h
  dsimp only at h
  split at h
  · rename_i hempty
    exact .inl ⟨hempty, (Option.some.inj h).symm⟩
  rename_i hempty
  have hempty : empty = false := by simpa using hempty
  right
  split at h
  · rename_i hbroken
    exact .inl ⟨hempty, (Bool.and_eq_true_iff.mp hbroken).1, (Option.some.inj h).symm⟩
  rename_i hkept
  right
  split at h
  · rename_i hsent
    refine .inl ⟨hempty, ?_, (Bool.and_eq_true_iff.mp hsent).1, (Option.some.inj h).symm⟩
    intro hb
    simpa [hb] using hkept
  · rename_i hlost
    refine .inr ⟨hempty, ?_, (Option.some.inj h).symm⟩
    cases hcurrent : p.current first.stamp
    · exact .inl rfl
    · right
      simpa [hcurrent] using hlost

/-! ### Numbers, routes and epochs only grow -/

/-- The frame has been taken: it is being sent or was sent. -/
def Taken (p : VideoPump) (x : Coded) : Prop := p.held = some x ∨ ∃ a ∈ p.sent, a.frame = x

structure Ordered (p : VideoPump) : Prop where
  increasing : p.sent.Pairwise (·.number < ·.number)
  below : ∀ a ∈ p.sent, a.number < p.number
  routes : ∀ a ∈ p.sent, a.route ≤ p.route
  numbered : ∀ frame number, p.sending = some (.waiting frame number) →
    (p.application = true ∧ number = some p.number ∧ p.next = p.number + 1) ∨
      (p.application = false ∧ number = none)
  queued : ∀ x ∈ p.queue, x.stamp ≤ p.stamp
  taken : ∀ x, p.Taken x → x.stamp ≤ p.heard
  heardLe : p.heard ≤ p.stamp
  sorted : p.source.pending.Pairwise (·.stamp ≤ ·.stamp)
  pendingLe : ∀ s ∈ p.source.pending, s.stamp ≤ p.stamp

theorem ordered_start (application : Bool) (kind : SourceKind) :
    (start application kind).Ordered where
  increasing := .nil
  below := nofun
  routes := nofun
  numbered := nofun
  queued := nofun
  taken := by rintro x (h | ⟨a, ha, -⟩) <;> contradiction
  heardLe := Nat.zero_le 1
  sorted := .nil
  pendingLe := nofun

theorem number_le_next (h : p.Ordered) : p.number ≤ p.next := by
  unfold number
  split
  · rename_i frame n hsending
    obtain ⟨-, hn, hnext⟩ | ⟨-, hnone⟩ := h.numbered _ _ hsending
    · cases hn
      omega
    · cases hnone
  · exact le_rfl

theorem number_of_held_eq_none (hheld : p.held = none) : p.number = p.next := by
  unfold number
  unfold held at hheld
  split
  · rename_i frame n hsending
    rw [hsending] at hheld
    cases hheld
  · rfl

theorem Ordered.of_source (h : p.Ordered) {v : VideoSource} {asking : Bool}
    (hsorted : v.pending.Pairwise (·.stamp ≤ ·.stamp)) (hle : ∀ s ∈ v.pending, s.stamp ≤ p.stamp) :
    ({ p with source := v, asking := asking } : VideoPump).Ordered :=
  { h with sorted := hsorted, pendingLe := hle }

theorem Ordered.of_dropped (h : p.Ordered) {queue : List Coded} {asking : Bool}
    (hsub : queue ⊆ p.queue) :
    ({ p with sending := none, queue := queue, asking := asking } : VideoPump).Ordered :=
  { h with
    below := by
      intro a ha
      exact lt_of_lt_of_le (h.below a ha) (number_le_next h)
    numbered := nofun
    queued := by
      intro x hx
      exact h.queued x (hsub hx)
    taken := by
      rintro x (hx | hx)
      · cases hx
      · exact h.taken x (.inr hx) }

theorem Ordered.of_queue (h : p.Ordered) {queue : List Coded} (hsub : queue ⊆ p.queue) :
    ({ p with queue := queue } : VideoPump).Ordered :=
  { h with
    queued := by
      intro x hx
      exact h.queued x (hsub hx) }

theorem Ordered.pending_append (h : p.Ordered) (forced : Bool) :
    (p.source.pending ++ [(⟨forced, p.stamp⟩ : Submitted)]).Pairwise (·.stamp ≤ ·.stamp) ∧
    ∀ s ∈ p.source.pending ++ [⟨forced, p.stamp⟩], s.stamp ≤ p.stamp := by
  constructor
  · rw [List.pairwise_append]
    refine ⟨h.sorted, List.pairwise_singleton _ _, ?_⟩
    intro s hs t ht
    obtain rfl := List.mem_singleton.mp ht
    exact h.pendingLe s hs
  · intro s hs
    rw [List.mem_append, List.mem_singleton] at hs
    obtain hs | rfl := hs
    · exact h.pendingLe s hs
    · exact le_rfl

/-- What `submit` does to the source: nothing enters the encoder, or an image of
the current epoch does, forced if a keyframe was wanted. -/
theorem submit_cases (image : Option ℕ) (rejected : Bool) :
    (∃ v, p.source.submit p.current image rejected = v ∧ v.pending = p.source.pending ∧
      v.encoder = p.source.encoder ∧ v.produced = p.source.produced ∧
      v.broken = p.source.broken ∧
      ((p.source.requested = true ∨ p.source.forceKey = true) →
        v.requested = true ∨ v.forceKey = true)) ∨
    (∃ v, p.source.submit p.current image rejected = v ∧
      v.pending = p.source.pending ++ [⟨p.source.requested || p.source.forceKey, p.stamp⟩] ∧
      v.encoder = p.source.encoder ∧ v.produced = p.source.produced ∧
      v.broken = p.source.broken ∧ p.current p.stamp = true) := by
  unfold VideoSource.submit VideoSource.select
  split
  · rename_i v hselect
    left
    refine ⟨v, rfl, ?_⟩
    split at hselect
    · obtain rfl := (Prod.mk.inj hselect).2
      exact ⟨rfl, rfl, rfl, rfl, id⟩
    · dsimp only at hselect
      split at hselect
      · obtain rfl := (Prod.mk.inj hselect).2
        exact ⟨rfl, rfl, rfl, rfl, id⟩
      · cases (Prod.mk.inj hselect).1
  · rename_i frame force v hselect
    split at hselect
    · cases (Prod.mk.inj hselect).1
    · dsimp only at hselect
      split at hselect
      · cases (Prod.mk.inj hselect).1
      · obtain ⟨hframe, rfl⟩ := Prod.mk.inj hselect
        obtain ⟨rfl, rfl⟩ := Prod.mk.inj (Option.some.inj hframe)
        split
        · left
          exact ⟨_, rfl, rfl, rfl, rfl, rfl, fun _ => .inl rfl⟩
        · rename_i hkept
          right
          rename_i image' _ _
          have hcurrent : p.current image' = true := by
            cases hc : p.current image'
            · simp [hc] at hkept
            · rfl
          have hstamp : image' = p.stamp := by
            exact of_decide_eq_true (Bool.and_eq_true_iff.mp hcurrent).1
          subst hstamp
          exact ⟨_, rfl, rfl, rfl, rfl, rfl, hcurrent⟩

theorem Ordered.poll (h : p.Ordered) {frame : Coded} {number : Option ℕ}
    (hsending : p.sending = some (.waiting frame number)) :
    number.getD p.next = p.number ∧
    ({ p with
        sending := some .started
        sent := p.sent ++ [⟨number.getD p.next, p.route, frame⟩]
        next := if number.isNone then p.next + 1 else p.next } : VideoPump).Ordered ∧
    (if number.isNone then p.next + 1 else p.next) = p.number + 1 := by
  have hheld : p.held = some frame := by rw [held, hsending]
  have hnumber : number.getD p.next = p.number ∧
      (if number.isNone then p.next + 1 else p.next) = p.number + 1 := by
    obtain ⟨-, rfl, hnext⟩ | ⟨-, rfl⟩ := h.numbered _ _ hsending
    · exact ⟨rfl, hnext⟩
    · have hnext : p.number = p.next := by rw [VideoPump.number, hsending]
      rw [hnext]
      exact ⟨rfl, rfl⟩
  obtain ⟨hn, hnext⟩ := hnumber
  refine ⟨hn, ?_, hnext⟩
  rw [hn, hnext]
  refine { h with
    increasing := ?_, below := ?_, routes := ?_, numbered := nofun, taken := ?_ }
  · rw [List.pairwise_append]
    refine ⟨h.increasing, List.pairwise_singleton _ _, ?_⟩
    intro a ha b hb
    obtain rfl := List.mem_singleton.mp hb
    exact h.below a ha
  · intro a ha
    show a.number < p.number + 1
    rw [List.mem_append, List.mem_singleton] at ha
    obtain ha | rfl := ha
    · exact Nat.lt_succ_of_lt (h.below a ha)
    · exact Nat.lt_succ_self _
  · intro a ha
    rw [List.mem_append, List.mem_singleton] at ha
    obtain ha | rfl := ha
    · exact h.routes a ha
    · exact le_rfl
  · rintro x (hx | ⟨a, ha, rfl⟩)
    · cases hx
    · rw [List.mem_append, List.mem_singleton] at ha
      obtain ha | rfl := ha
      · exact h.taken _ (.inr ⟨a, ha, rfl⟩)
      · exact h.taken _ (.inl hheld)

theorem ordered_step_take {refused : Bool} (h : p.Ordered)
    (hs : p.step (.take refused) = some p') : p'.Ordered := by
  obtain ⟨hsending, frame, rest, hqueue, htake⟩ := step_take hs
  have hnumber : p.number = p.next := number_of_held_eq_none (by rw [held, hsending])
  have hrest : rest ⊆ p.queue := by
    rw [hqueue]
    exact List.subset_cons_self frame rest
  have hframe : frame.stamp ≤ p.stamp := h.queued frame (by rw [hqueue]; exact List.mem_cons_self)
  have htaken : ∀ x, p.Taken x → x.stamp ≤ p.stamp := fun x hx => (h.taken x hx).trans h.heardLe
  obtain ⟨-, rfl⟩ | ⟨-, -, rfl⟩ | ⟨-, rfl⟩ := htake
  · exact h.of_queue hrest
  · exact { h.of_queue hrest with taken := htaken, heardLe := le_rfl }
  · -- the number is given now, or when the send begins
    have hnext : ∀ a ∈ p.sent, a.number < p.next := fun a ha => hnumber ▸ h.below a ha
    have hgiven : ({ p with
        queue := rest
        sending := some (.waiting frame (if p.application then some p.next else none))
        next := if p.application then p.next + 1 else p.next
        heard := p.stamp } : VideoPump).number = p.next := by
      cases happ : p.application <;> rfl
    refine { h.of_queue hrest with
      below := ?_, numbered := ?_, taken := ?_, heardLe := le_rfl }
    · rw [hgiven]
      exact hnext
    · intro frame' number' heq
      rw [hgiven]
      cases heq
      cases happ : p.application
      · exact .inr ⟨rfl, rfl⟩
      · exact .inl ⟨rfl, rfl, rfl⟩
    · rintro x (hx | hx)
      · cases hx
        exact hframe
      · exact htaken x (.inr hx)

theorem ordered_step_output {keyframe empty full : Bool} (h : p.Ordered)
    (hs : p.step (.output keyframe empty full) = some p') : p'.Ordered := by
  obtain ⟨first, rest, hpending, -, hout⟩ := step_output hs
  have hsorted := h.sorted
  have hle := h.pendingLe
  rw [hpending] at hsorted hle
  have hrest := (List.pairwise_cons.mp hsorted).2
  have hrestLe : ∀ s ∈ rest, s.stamp ≤ p.stamp := fun s hs => hle s (List.mem_cons_of_mem _ hs)
  obtain ⟨-, rfl⟩ | ⟨-, -, rfl⟩ | ⟨-, -, -, rfl⟩ | ⟨-, -, rfl⟩ := hout
  · exact h.of_source hrest hrestLe
  · exact h.of_source hrest hrestLe
  · refine { h with sorted := hrest, pendingLe := hrestLe, queued := ?_ }
    intro x hx
    rw [List.mem_append, List.mem_singleton] at hx
    obtain hx | rfl := hx
    · exact h.queued x hx
    · exact hle first List.mem_cons_self
  · exact h.of_source hrest hrestLe

theorem Ordered.of_stamp (h : p.Ordered) {v : VideoSource} {stamp : ℕ} (hlt : p.stamp < stamp)
    (hpending : v.pending.Sublist p.source.pending) :
    ({ p with source := v, stamp := stamp } : VideoPump).Ordered :=
  { h with
    queued := fun x hx => (h.queued x hx).trans hlt.le
    heardLe := h.heardLe.trans hlt.le
    sorted := h.sorted.sublist hpending
    pendingLe := fun s hs => (h.pendingLe s (hpending.subset hs)).trans hlt.le }

theorem ordered_step (h : p.Ordered) (hs : p.step e = some p') : p'.Ordered := by
  cases e with
  | submit image rejected =>
    rw [step] at hs
    obtain ⟨-, rfl⟩ := Runs.some_of_guard hs
    obtain ⟨v, hv, hpending, -⟩ | ⟨v, hv, hpending, -⟩ := submit_cases image rejected
    · rw [hv]
      exact h.of_source (hpending ▸ h.sorted) (hpending ▸ h.pendingLe)
    · rw [hv]
      obtain ⟨hsorted, hle⟩ := h.pending_append (p.source.requested || p.source.forceKey)
      exact h.of_source (hpending ▸ hsorted) (hpending ▸ hle)
  | replace =>
    rw [step] at hs
    obtain ⟨-, rfl⟩ := Runs.some_of_guard hs
    exact h.of_source .nil nofun
  | signal =>
    rw [step] at hs
    obtain ⟨-, rfl⟩ := Runs.some_of_guard hs
    have hpending : p.source.signal.pending = p.source.pending := by
      unfold VideoSource.signal
      split <;> rfl
    exact h.of_source (hpending ▸ h.sorted) (hpending ▸ h.pendingLe)
  | enter =>
    rw [step] at hs
    obtain ⟨-, rfl⟩ := Runs.some_of_guard hs
    obtain ⟨hsorted, hle⟩ := h.pending_append p.source.forceKey
    exact h.of_source hsorted hle
  | output keyframe empty full => exact ordered_step_output h hs
  | take refused => exact ordered_step_take h hs
  | poll =>
    rw [step] at hs
    split at hs
    · rename_i frame number hsending
      cases hs
      exact (h.poll hsending).2.1
    · cases hs
  | finish | cancel =>
    rw [step] at hs
    obtain ⟨-, rfl⟩ := Runs.some_of_guard hs
    exact h.of_dropped (List.Subset.refl _)
  | stale index =>
    rw [step] at hs
    split at hs
    · cases hs
    · obtain ⟨-, rfl⟩ := Runs.some_of_guard hs
      exact h.of_queue (List.eraseIdx_subset)
  | switch =>
    cases hs
    exact { h with routes := fun a ha => (h.routes a ha).trans (Nat.le_succ _) }
  | pathChange count =>
    rw [step] at hs
    obtain ⟨-, rfl⟩ := Runs.some_of_guard hs
    exact h.of_dropped (List.drop_subset _ _)
  | request =>
    cases hs
    exact h.of_source h.sorted h.pendingLe
  | transition stamp =>
    rw [step] at hs
    obtain ⟨hlt, rfl⟩ := Runs.some_of_guard hs
    exact h.of_stamp (of_decide_eq_true (Bool.and_eq_true_iff.mp hlt).2) (List.Sublist.refl _)
  | restart stamp =>
    rw [step] at hs
    obtain ⟨hlt, rfl⟩ := Runs.some_of_guard hs
    exact h.of_stamp (of_decide_eq_true (Bool.and_eq_true_iff.mp hlt).2) (List.nil_sublist _)

end VideoPump

end NebulaDesk
