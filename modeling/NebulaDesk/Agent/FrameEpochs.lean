/-
Frames carry the right generation (`nebula-agent/src/media.rs`,
`nebula-agent/src/application.rs`).

The delivery epoch only grows, so a sink that has fallen behind stays behind, and
its high half is the generation of whatever was captured under it.  Both hold as
long as the count in the low half does not carry into the generation: a pause
adds one to the whole number.
-/
import NebulaDesk.Agent.FrameSink

namespace NebulaDesk

open Runs

namespace Delivery

variable {s s' : Delivery} {e : DeliveryEvent}

/-- A pause that carries out of the low half. -/
def carries (s : Delivery) : DeliveryEvent → Bool
  | .pause => s.capture.deliveryEpoch % 2 ^ 32 = 2 ^ 32 - 1
  | _ => false

def stepWithin (s : Delivery) (e : DeliveryEvent) : Option Delivery :=
  if s.carries e then none else s.step e

/-- This frame was captured, and stamped with this epoch. -/
def Stamped (s : Delivery) (shot : Shot) (epoch : ℕ) : Prop :=
  (∃ sink : FrameSink, (shot, sink) ∈ s.images ∧ sink.epoch = some epoch) ∨
    (shot, epoch) ∈ s.sending ∨ (shot, epoch) ∈ s.queue ∨ s.forwarding = some (shot, epoch) ∨
    ∃ f ∈ s.delivered, f.shot = shot ∧ f.epoch = epoch

structure Inv (s : Delivery) : Prop where
  bound : s.capture.generation < 2 ^ 32
  high : s.capture.deliveryEpoch / 2 ^ 32 = s.capture.generation
  application : ∀ p ∈ s.images, p.2.output = .application
  stamped : ∀ shot epoch, s.Stamped shot epoch →
    epoch ≤ s.capture.deliveryEpoch ∧ epoch / 2 ^ 32 = shot.generation
  -- a source without provenance is never resumed
  unfrozen : ∀ p ∈ s.images, p.2.epoch = none → s.preserves = false ∧
    (s.capture.deliveryEpoch % 2 = 1 → p.1.generation = s.capture.generation)
  labelled : ∀ f ∈ s.delivered, f.generation = f.shot.generation

variable {generation : ℕ}

theorem inv_start (preserves : Bool) (h : generation < 2 ^ 32) :
    (start preserves generation).Inv where
  bound := h
  high := by
    show epochOf generation 1 / 2 ^ 32 = generation
    unfold epochOf
    omega
  application := nofun
  stamped := by
    rintro shot epoch (⟨_, hmem, _⟩ | hmem | hmem | hmem | ⟨_, hmem, _⟩) <;> cases hmem
  unfrozen := nofun
  labelled := nofun

/-! ### The epoch -/

theorem pause_epoch (h : s.Inv) (hcarry : s.capture.deliveryEpoch % 2 ^ 32 ≠ 2 ^ 32 - 1) :
    s.capture.pause.deliveryEpoch =
      s.capture.deliveryEpoch + (if s.capture.deliveryEpoch % 2 = 1 then 1 else 0) ∧
    s.capture.pause.deliveryEpoch / 2 ^ 32 = s.capture.generation ∧
    s.capture.pause.deliveryEpoch % 2 = 0 := by
  have hbound := h.bound
  have hhigh := h.high
  unfold Capture.pause
  split
  · rename_i hodd
    rw [if_pos (by omega)]
    show (s.capture.deliveryEpoch + 1) % 2 ^ 64 = _ ∧
      (s.capture.deliveryEpoch + 1) % 2 ^ 64 / 2 ^ 32 = _ ∧
      (s.capture.deliveryEpoch + 1) % 2 ^ 64 % 2 = 0
    omega
  · rename_i heven
    rw [if_neg (by omega)]
    omega

theorem resume_epoch (h : s.Inv) (now : ℕ) :
    (s.capture.resume now).deliveryEpoch =
      s.capture.deliveryEpoch + (if s.capture.deliveryEpoch % 2 = 0 then 1 else 0) ∧
    (s.capture.resume now).deliveryEpoch / 2 ^ 32 = s.capture.generation := by
  have hbound := h.bound
  have hhigh := h.high
  unfold Capture.resume
  split
  · rename_i heven
    show (s.capture.deliveryEpoch + 1) % 2 ^ 64 = _ ∧
      (s.capture.deliveryEpoch + 1) % 2 ^ 64 / 2 ^ 32 = _
    omega
  · omega

theorem retag_epoch (h : s.Inv) (hlt : s.capture.generation < generation) :
    s.capture.deliveryEpoch < (s.capture.retag generation).deliveryEpoch ∧
      (s.capture.retag generation).deliveryEpoch / 2 ^ 32 = generation ∧
      (s.capture.retag generation).deliveryEpoch % 2 = s.capture.deliveryEpoch % 2 := by
  have hhigh := h.high
  show s.capture.deliveryEpoch < epochOf generation (s.capture.deliveryEpoch % 2 ^ 32) ∧
    epochOf generation (s.capture.deliveryEpoch % 2 ^ 32) / 2 ^ 32 = generation ∧
    epochOf generation (s.capture.deliveryEpoch % 2 ^ 32) % 2 = s.capture.deliveryEpoch % 2
  unfold epochOf
  omega

theorem pause_generation (c : Capture) : c.pause.generation = c.generation := by
  unfold Capture.pause
  split <;> rfl

theorem resume_generation (c : Capture) (now : ℕ) : (c.resume now).generation = c.generation := by
  unfold Capture.resume
  split <;> rfl

theorem noteFrame_rest (c : Capture) (frame : EncodedFrame) (epoch : ℕ) :
    (c.noteFrame frame epoch).deliveryEpoch = c.deliveryEpoch ∧
      (c.noteFrame frame epoch).generation = c.generation := by
  unfold Capture.noteFrame
  split
  · exact ⟨rfl, rfl⟩
  · exact ⟨rfl, rfl⟩

/-! ### One step -/

/-- A step of the worker: only the capture changes. -/
theorem Inv.worker (h : s.Inv) {c : Capture} (hbound : c.generation < 2 ^ 32)
    (hhigh : c.deliveryEpoch / 2 ^ 32 = c.generation)
    (hle : s.capture.deliveryEpoch ≤ c.deliveryEpoch)
    (hodd : s.preserves = false → c.deliveryEpoch % 2 = 1 →
      s.capture.deliveryEpoch % 2 = 1 ∧ c.generation = s.capture.generation) :
    Inv { s with capture := c } where
  bound := hbound
  high := hhigh
  __ := h
  stamped := by
    intro shot epoch hstamped
    obtain ⟨hepoch, hgeneration⟩ := h.stamped shot epoch hstamped
    exact ⟨le_trans hepoch hle, hgeneration⟩
  unfrozen := by
    intro p hp hnone
    obtain ⟨hpreserves, hgeneration⟩ := h.unfrozen p hp hnone
    refine ⟨hpreserves, ?_⟩
    intro hc
    obtain ⟨hs, hsame⟩ := hodd hpreserves hc
    exact (hgeneration hs).trans hsame.symm

/-- A step of the frames: nothing is stamped but with the epoch of the moment. -/
theorem Inv.frames (h : s.Inv) (hepoch : s'.capture.deliveryEpoch = s.capture.deliveryEpoch)
    (hgeneration : s'.capture.generation = s.capture.generation)
    (hpreserves : s'.preserves = s.preserves) (himages : s'.images = s.images)
    (hstamped : ∀ shot epoch, s'.Stamped shot epoch → s.Stamped shot epoch ∨
      (epoch = s.capture.deliveryEpoch ∧ shot.generation = s.capture.generation))
    (hlabelled : ∀ f ∈ s'.delivered, f.generation = f.shot.generation) : s'.Inv where
  bound := by
    rw [hgeneration]
    exact h.bound
  high := by
    rw [hepoch, hgeneration]
    exact h.high
  application := by
    rw [himages]
    exact h.application
  stamped := by
    intro shot epoch hs
    rw [hepoch]
    rcases hstamped shot epoch hs with hold | ⟨rfl, hshot⟩
    · exact h.stamped shot epoch hold
    · exact ⟨le_rfl, by rw [h.high, hshot]⟩
  unfrozen := by
    rw [himages, hpreserves, hepoch, hgeneration]
    exact h.unfrozen
  labelled := hlabelled

theorem Inv.offered (h : s.Inv) {index : ℕ} {shot : Shot} {sink : FrameSink}
    (himage : s.images[index]? = some (shot, sink)) {epoch : ℕ}
    (hepoch : (sink.forFrame s.capture.deliveryEpoch).epoch = some epoch)
    (hcurrent : (sink.forFrame s.capture.deliveryEpoch).isCurrent s.capture.deliveryEpoch = true) :
    s.Stamped shot epoch ∨
      (epoch = s.capture.deliveryEpoch ∧ shot.generation = s.capture.generation) := by
  have hmem := List.mem_of_getElem? himage
  have happ := h.application _ hmem
  cases hsink : sink.epoch with
  | some e =>
    have hsame : sink.forFrame s.capture.deliveryEpoch = sink := by
      unfold FrameSink.forFrame
      rw [hsink]
    rw [hsame] at hepoch
    exact .inl (.inl ⟨sink, hmem, hepoch⟩)
  | none =>
    right
    have hfrozen : sink.forFrame s.capture.deliveryEpoch =
        { sink with epoch := some s.capture.deliveryEpoch } := by
      unfold FrameSink.forFrame
      rw [hsink, show sink.output = .application from happ]
    rw [hfrozen] at hepoch hcurrent
    rw [show sink.output = .application from happ] at hcurrent
    obtain ⟨hodd, -⟩ := Bool.and_eq_true_iff.mp hcurrent
    have hodd' : s.capture.deliveryEpoch % 2 ≠ 0 := of_decide_eq_true hodd
    exact ⟨(Option.some.inj hepoch).symm, (h.unfrozen _ hmem hsink).2 (by omega)⟩

theorem inv_step (h : s.Inv) (hstep : s.stepWithin e = some s') :
    s'.Inv ∧ s.capture.deliveryEpoch ≤ s'.capture.deliveryEpoch := by
  unfold stepWithin at hstep
  split at hstep
  · cases hstep
  rename_i hcarry
  cases e with
  | pause =>
    cases hstep
    have hcarry' : s.capture.deliveryEpoch % 2 ^ 32 ≠ 2 ^ 32 - 1 := by simpa [carries] using hcarry
    obtain ⟨hepoch, hhigh, heven⟩ := pause_epoch h hcarry'
    have hle : s.capture.deliveryEpoch ≤ s.capture.pause.deliveryEpoch := by omega
    refine ⟨h.worker ?_ ?_ hle ?_, hle⟩
    · rw [pause_generation]
      exact h.bound
    · rw [pause_generation]
      exact hhigh
    · intro _ hodd
      omega
  | resume now =>
    obtain ⟨hpreserves, rfl⟩ := Runs.some_of_guard hstep
    obtain ⟨hepoch, hhigh⟩ := resume_epoch h now
    have hle : s.capture.deliveryEpoch ≤ (s.capture.resume now).deliveryEpoch := by omega
    refine ⟨h.worker ?_ ?_ hle ?_, hle⟩
    · rw [resume_generation]
      exact h.bound
    · rw [resume_generation]
      exact hhigh
    · intro hfalse
      rw [hpreserves] at hfalse
      cases hfalse
  | retag generation =>
    simp only [step] at hstep
    split at hstep
    · rename_i hguard
      obtain ⟨heven, hlt, hbound⟩ := hguard
      cases hstep
      obtain ⟨hgrow, hhigh, hparity⟩ := retag_epoch h hlt
      refine ⟨h.worker hbound hhigh hgrow.le ?_, hgrow.le⟩
      intro _ hodd
      omega
    · cases hstep
  | image frame =>
    cases hstep
    refine ⟨⟨h.bound, h.high, ?_, ?_, ?_, h.labelled⟩, le_rfl⟩
    · intro p hp
      rcases List.mem_append.mp hp with hold | hnew
      · exact h.application p hold
      · rw [List.mem_singleton.mp hnew]
        split
        · rfl
        · rfl
    · intro shot epoch hs
      rcases hs with ⟨sink, hmem, hepoch⟩ | hs
      · rcases List.mem_append.mp hmem with hold | hnew
        · exact h.stamped shot epoch (.inl ⟨sink, hold, hepoch⟩)
        · obtain ⟨rfl, rfl⟩ := Prod.mk.inj (List.mem_singleton.mp hnew)
          split at hepoch
          · cases hepoch
            exact ⟨le_rfl, h.high⟩
          · cases hepoch
      · exact h.stamped shot epoch (.inr hs)
    · intro p hp hnone
      rcases List.mem_append.mp hp with hold | hnew
      · exact h.unfrozen p hold hnone
      · rw [List.mem_singleton.mp hnew] at hnone ⊢
        dsimp only at hnone ⊢
        split at hnone
        · cases hnone
        · rename_i hpreserves
          exact ⟨by simpa using hpreserves, fun _ => rfl⟩
  | offer index =>
    simp only [step] at hstep
    split at hstep
    · cases hstep
    rename_i shot sink himage
    split at hstep
    · rename_i epoch hcurrent hepoch
      cases hstep
      obtain ⟨hnote, hnote'⟩ := noteFrame_rest s.capture shot.frame epoch
      refine ⟨h.frames hnote hnote' rfl rfl ?_ h.labelled, hnote.ge⟩
      have hoffered := h.offered himage hepoch hcurrent
      rintro shot' epoch' (hs | hs | hs)
      · exact .inl (.inl hs)
      · rcases List.mem_append.mp hs with hold | hnew
        · exact .inl (.inr (.inl hold))
        · obtain ⟨rfl, rfl⟩ := Prod.mk.inj (List.mem_singleton.mp hnew)
          exact hoffered
      · exact .inl (.inr (.inr hs))
    · cases hstep
      exact ⟨h, le_rfl⟩
  | enqueue index full =>
    simp only [step] at hstep
    split at hstep
    · cases hstep
    rename_i entry hentry
    cases hstep
    refine ⟨h.frames rfl rfl rfl rfl ?_ h.labelled, le_rfl⟩
    rintro shot epoch (hs | hs | hs | hs)
    · exact .inl (.inl hs)
    · exact .inl (.inr (.inl (List.mem_of_mem_eraseIdx hs)))
    · split at hs
      · exact .inl (.inr (.inr (.inl hs)))
      · rcases List.mem_append.mp hs with hold | hnew
        · exact .inl (.inr (.inr (.inl hold)))
        · rw [← List.mem_singleton.mp hnew] at hentry
          exact .inl (.inr (.inl (List.mem_of_getElem? hentry)))
    · exact .inl (.inr (.inr (.inr hs)))
  | receive =>
    simp only [step] at hstep
    split at hstep
    · rename_i shot epoch rest hforward hqueue
      split at hstep
      · cases hstep
        refine ⟨h.frames rfl rfl rfl rfl ?_ h.labelled, le_rfl⟩
        rintro shot' epoch' (hs | hs | hs | hs)
        · exact .inl (.inl hs)
        · exact .inl (.inr (.inl hs))
        · exact .inl (.inr (.inr (.inl (by rw [hqueue]; exact List.mem_cons_of_mem _ hs))))
        · exact .inl (.inr (.inr (.inr hs)))
      · cases hstep
        refine ⟨h.frames rfl rfl rfl rfl ?_ h.labelled, le_rfl⟩
        rintro shot' epoch' (hs | hs | hs | hs | hs)
        · exact .inl (.inl hs)
        · exact .inl (.inr (.inl hs))
        · exact .inl (.inr (.inr (.inl (by rw [hqueue]; exact List.mem_cons_of_mem _ hs))))
        · refine .inl (.inr (.inr (.inl ?_)))
          rw [hqueue, ← Option.some.inj hs]
          exact List.mem_cons_self
        · exact .inl (.inr (.inr (.inr (.inr hs))))
    · cases hstep
  | permit =>
    simp only [step] at hstep
    split at hstep
    · cases hstep
    rename_i shot epoch hforward
    have hstamp := h.stamped shot epoch (.inr (.inr (.inr (.inl hforward))))
    split at hstep
    · rename_i hcurrent
      cases hstep
      refine ⟨h.frames rfl rfl rfl rfl ?_ ?_, le_rfl⟩
      · rintro shot' epoch' (hs | hs | hs | hs | ⟨f, hf, rfl, rfl⟩)
        · exact .inl (.inl hs)
        · exact .inl (.inr (.inl hs))
        · exact .inl (.inr (.inr (.inl hs)))
        · cases hs
        · rcases List.mem_append.mp hf with hold | hnew
          · exact .inl (.inr (.inr (.inr (.inr ⟨f, hold, rfl, rfl⟩))))
          · rw [List.mem_singleton.mp hnew]
            exact .inl (.inr (.inr (.inr (.inl hforward))))
      · intro f hf
        rcases List.mem_append.mp hf with hold | hnew
        · exact h.labelled f hold
        · rw [List.mem_singleton.mp hnew]
          show epoch / 2 ^ 32 % 2 ^ 32 = shot.generation
          have hbound := h.bound
          have hhigh := h.high
          rw [hcurrent] at hhigh
          rw [hstamp.2] at hhigh ⊢
          omega
    · cases hstep
      refine ⟨h.frames rfl rfl rfl rfl ?_ h.labelled, le_rfl⟩
      rintro shot' epoch' (hs | hs | hs | hs | hs)
      · exact .inl (.inl hs)
      · exact .inl (.inr (.inl hs))
      · exact .inl (.inr (.inr (.inl hs)))
      · cases hs
      · exact .inl (.inr (.inr (.inr (.inr hs))))

/-! ### Runs -/

theorem inv_reach {preserves : Bool} (hgeneration : generation < 2 ^ 32)
    (hr : Reach stepWithin (start preserves generation) s) : s.Inv :=
  hr.invariant (inv_start preserves hgeneration) fun _ _ _ h hstep => (inv_step h hstep).1

theorem epoch_mono (h : s.Inv) (hr : Reach stepWithin s s') :
    s.capture.deliveryEpoch ≤ s'.capture.deliveryEpoch := by
  have hboth : s'.Inv ∧ s.capture.deliveryEpoch ≤ s'.capture.deliveryEpoch := by
    refine hr.invariant (P := fun t => t.Inv ∧
      s.capture.deliveryEpoch ≤ t.capture.deliveryEpoch) ⟨h, le_rfl⟩ ?_
    rintro t t' a ⟨ht, hle⟩ hstep
    obtain ⟨ht', hle'⟩ := inv_step ht hstep
    exact ⟨ht', le_trans hle hle'⟩
  exact hboth.2

/-- The step is a transition: a pause of a capture that delivers, a resume of one
that does not, or a new generation. -/
def transition (s : Delivery) : DeliveryEvent → Bool
  | .pause => s.capture.deliveryEpoch % 2 = 1
  | .resume _ => s.capture.deliveryEpoch % 2 = 0
  | .retag _ => true
  | _ => false

/-- The event pauses delivery, or changes the generation. -/
def Ends : DeliveryEvent → Prop
  | .pause => True
  | .retag _ => True
  | _ => False

theorem transition_grows (h : s.Inv) (hstep : s.stepWithin e = some s')
    (ht : s.transition e = true) : s.capture.deliveryEpoch < s'.capture.deliveryEpoch := by
  unfold stepWithin at hstep
  split at hstep
  · cases hstep
  rename_i hcarry
  cases e with
  | pause =>
    cases hstep
    have hodd : s.capture.deliveryEpoch % 2 = 1 := of_decide_eq_true ht
    obtain ⟨hepoch, -, -⟩ := pause_epoch h (by simpa [carries] using hcarry)
    rw [if_pos hodd] at hepoch
    exact hepoch ▸ Nat.lt_succ_self _
  | resume now =>
    obtain ⟨-, rfl⟩ := Runs.some_of_guard hstep
    have heven : s.capture.deliveryEpoch % 2 = 0 := of_decide_eq_true ht
    obtain ⟨hepoch, -⟩ := resume_epoch h now
    rw [if_pos heven] at hepoch
    exact hepoch ▸ Nat.lt_succ_self _
  | retag generation =>
    obtain ⟨hguard, rfl⟩ := Runs.some_of_guard hstep
    exact (retag_epoch h hguard.2.1).1
  | image frame => cases ht
  | offer index => cases ht
  | enqueue index full => cases ht
  | receive => cases ht
  | permit => cases ht

/-- After a pause or a new generation, what was stamped before is out of date for
good. -/
theorem stale_forever (h : s.Inv) (hends : Ends e) (hstep : s.stepWithin e = some s')
    {s'' : Delivery} (hr : Reach stepWithin s' s'') {epoch : ℕ}
    (hepoch : epoch ≤ s.capture.deliveryEpoch) :
    ¬ (epoch % 2 = 1 ∧ s''.capture.deliveryEpoch = epoch) := by
  rintro ⟨hodd, heq⟩
  obtain ⟨h', hle⟩ := inv_step h hstep
  have hle' := epoch_mono h' hr
  -- so the epoch has not moved since: the step was a pause that found it even
  cases ht : s.transition e with
  | true =>
    have hlt := transition_grows h hstep ht
    omega
  | false =>
    cases e with
    | pause =>
      have heven : ¬ s.capture.deliveryEpoch % 2 = 1 := of_decide_eq_false ht
      omega
    | retag generation => cases ht
    | resume now => exact hends
    | image frame => exact hends
    | offer index => exact hends
    | enqueue index full => exact hends
    | receive => exact hends
    | permit => exact hends

/-- **Frames carry the right generation**, in every run in which no pause carries
out of the count: the epoch grows with every transition, nothing frozen before a
pause or a new generation is ever current again, and every frame handed to the
session carries the generation it was captured under. -/
theorem frame_epochs (preserves : Bool) (generation : ℕ) (hgeneration : generation < 2 ^ 32)
    {s : Delivery} (hr : Reach stepWithin (start preserves generation) s) :
    (∀ e s', s.stepWithin e = some s' → s.transition e = true →
      s.capture.deliveryEpoch < s'.capture.deliveryEpoch) ∧
    (∀ e s' s'', Ends e → s.stepWithin e = some s' → Reach stepWithin s' s'' →
      (∀ shot sink, (shot, sink) ∈ s.images → sink.epoch ≠ none →
        sink.isCurrent s''.capture.deliveryEpoch = false) ∧
      ∀ f ∈ s.delivered, f.isCurrent s''.capture.deliveryEpoch = false) ∧
    ∀ f ∈ s.delivered, f.generation = f.shot.generation := by
  have h := inv_reach hgeneration hr
  refine ⟨fun e s' => transition_grows h, ?_, h.labelled⟩
  intro e s' s'' hends hstep hr'
  have hstale : ∀ shot epoch, s.Stamped shot epoch →
      (decide (epoch % 2 ≠ 0) && decide (s''.capture.deliveryEpoch = epoch)) = false := by
    intro shot epoch hs
    have hnot := stale_forever h hends hstep hr' (h.stamped shot epoch hs).1
    rw [Bool.and_eq_false_iff, decide_eq_false_iff_not, decide_eq_false_iff_not]
    by_cases hcurrent : s''.capture.deliveryEpoch = epoch
    · left
      intro hodd
      exact hnot ⟨by omega, hcurrent⟩
    · exact .inr hcurrent
  constructor
  · intro shot sink hmem hfrozen
    obtain ⟨epoch, hepoch⟩ := Option.ne_none_iff_exists'.mp hfrozen
    unfold FrameSink.isCurrent
    rw [show sink.output = .application from h.application _ hmem, hepoch]
    exact hstale shot epoch (.inl ⟨sink, hmem, hepoch⟩)
  · intro f hf
    exact hstale f.shot f.epoch (.inr (.inr (.inr (.inr ⟨f, hf, rfl, rfl⟩))))

def sampleFrame : EncodedFrame := ⟨true, 0, [1]⟩

/-- An image goes all the way. -/
def sampleDelivery : List DeliveryEvent :=
  [.pause, .resume 0, .image sampleFrame, .offer 0, .enqueue 0 false, .receive, .permit]

theorem frame_epochs_delivered :
    ((tryRun stepWithin (start true 7) sampleDelivery).map (·.delivered.map (·.generation))) =
      some [7] ∧
    ∀ s, tryRun stepWithin (start true 7) sampleDelivery = some s →
      ∀ f ∈ s.delivered, f.generation = f.shot.generation := by
  refine ⟨by decide +kernel, ?_⟩
  intro s hs
  exact (frame_epochs true 7 (by decide) (reach_of_tryRun .init hs)).2.2

/-- A capture of generation one after so many pauses and resumes. -/
def afterCycles (n : ℕ) : Delivery :=
  { start true 1 with capture :=
      { deliveryEpoch := 2 ^ 32 + 1 + 2 * n
        producedKeyframe := 0
        resumeDeadline :=
          if n = 0 then none else some (2 ^ 32 + 1 + 2 * n, 0 + warmResumeFrameDeadline)
        generation := 1 } }

theorem pause_of_odd {c : Capture} (h : c.deliveryEpoch % 2 = 1)
    (hlt : c.deliveryEpoch + 1 < 2 ^ 64) :
    c.pause = { c with deliveryEpoch := c.deliveryEpoch + 1 } := by
  unfold Capture.pause
  rw [if_pos (by omega), Nat.mod_eq_of_lt hlt]

theorem resume_of_even {c : Capture} (now : ℕ) (h : c.deliveryEpoch % 2 = 0)
    (hlt : c.deliveryEpoch + 1 < 2 ^ 64) :
    c.resume now = { c with
      deliveryEpoch := c.deliveryEpoch + 1
      resumeDeadline := some (c.deliveryEpoch + 1, now + warmResumeFrameDeadline) } := by
  unfold Capture.resume
  rw [if_pos h, Nat.mod_eq_of_lt hlt]

theorem reach_afterCycles (n : ℕ) (hn : n ≤ 2 ^ 31) : Reach step (start true 1) (afterCycles n) := by
  induction n with
  | zero => exact .init
  | succ n ih =>
    have hodd : (afterCycles n).capture.deliveryEpoch % 2 = 1 := by
      show (2 ^ 32 + 1 + 2 * n) % 2 = 1
      omega
    have hlt : (afterCycles n).capture.deliveryEpoch + 1 < 2 ^ 64 := by
      show 2 ^ 32 + 1 + 2 * n + 1 < 2 ^ 64
      omega
    have hpause : step (afterCycles n) .pause = some { afterCycles n with
        capture := { (afterCycles n).capture with deliveryEpoch := 2 ^ 32 + 1 + 2 * n + 1 } } := by
      rw [step, pause_of_odd hodd hlt]
      rfl
    refine ((ih (by omega)).step .pause hpause).step (.resume 0) ?_
    rw [step]
    rw [resume_of_even 0 (by dsimp only; omega) (by dsimp only; omega)]
    rfl

/-- After 2^31 pauses and resumes the count has carried: an image captured under
generation one is handed over as one of generation two. -/
theorem carried_generation :
    ∃ s, Reach step (start true 1) s ∧ ∃ f ∈ s.delivered, f.generation ≠ f.shot.generation := by
  have hrun : (tryRun step (afterCycles (2 ^ 31))
      [.image sampleFrame, .offer 0, .enqueue 0 false, .receive, .permit]).map (·.delivered) =
      some [⟨2, ⟨sampleFrame, 1⟩, 2 * 2 ^ 32 + 1⟩] := by
    decide +kernel
  obtain ⟨s, hs, hdelivered⟩ := Option.map_eq_some_iff.mp hrun
  refine ⟨s, reach_of_tryRun (reach_afterCycles (2 ^ 31) le_rfl) hs,
    ⟨2, ⟨sampleFrame, 1⟩, 2 * 2 ^ 32 + 1⟩, ?_, by decide⟩
  rw [hdelivered]
  exact List.mem_singleton.mpr rfl

end Delivery

end NebulaDesk
