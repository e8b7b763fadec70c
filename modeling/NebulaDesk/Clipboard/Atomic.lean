/-
Switching the clipboard off is atomic.

`Ledger` follows the file gestures: those received, those queued and the one
pending are those the worker decided on, in order.  Together with the coherence
of worker and owner it gives `disable_atomic`.
-/
import NebulaDesk.Clipboard.Coherent

namespace NebulaDesk

namespace ClipboardWorker

open ClipboardSync

variable {host : Host} {w w' : ClipboardWorker} {history : List Note}

/-! ### File gestures -/

/-- The gestures received, queued and pending are those decided on. -/
structure Ledger (history : List Note) (w : ClipboardWorker) : Prop where
  room : w.outbound.length ≤ capacity
  ended : w.phase = .ended → w.dropped = true
  files : w.dropped = false →
    gestures (received history) ++ (gestures w.outbound ++ gestures w.pending.toList) =
      gestures (decided history)

@[simp] theorem decided_append (before more : List Note) :
    decided (before ++ more) = decided before ++ decided more := List.filterMap_append

@[simp] theorem received_append (before more : List Note) :
    received (before ++ more) = received before ++ received more := List.filterMap_append

@[simp] theorem gestures_append (as bs : List ClipboardAction) :
    gestures (as ++ bs) = gestures as ++ gestures bs := List.filter_append _ _

theorem gestures_filter (as : List ClipboardAction) :
    gestures (as.filter ClipboardAction.isFiles) = gestures as := by
  simp [gestures, List.filter_filter]

theorem gestures_of_not_files {a : ClipboardAction} (h : a.isFiles = false) :
    gestures [a] = [] := by
  simp [gestures, h]

theorem Ledger.resync (host : Host) (h : Ledger history w) (wx : Weather) :
    Ledger history (w.resync host wx) := by
  unfold ClipboardWorker.resync
  split
  · exact h
  · refine { h with files := ?_ }
    intro hd
    have hkeep : gestures (w.pending.filter ClipboardAction.isFiles).toList =
        gestures w.pending.toList := by
      cases hp : w.pending with
      | none => rfl
      | some a =>
        cases hf : a.isFiles with
        | false => simp [Option.filter, hf, gestures]
        | true => simp [Option.filter, hf]
    show gestures (received history) ++ (gestures w.outbound ++
      gestures (w.pending.filter ClipboardAction.isFiles).toList) = _
    rw [hkeep]
    exact h.files hd

theorem Ledger.retry (h : Ledger history w) (hr : w.retry = some w') : Ledger history w' := by
  unfold ClipboardWorker.retry at hr
  split at hr
  · cases hr
    exact h
  · rename_i action hp
    split at hr
    · cases hr
    · split at hr
      · rename_i hroom
        cases hr
        refine { h with room := ?_, files := ?_ }
        · simp only [List.length_append, List.length_singleton]
          omega
        · intro hd
          have hfiles := h.files hd
          rw [hp] at hfiles
          simpa [gestures] using hfiles
      · cases hr
        exact h

theorem Ledger.post (h : Ledger history w) {a : ClipboardAction}
    {n : Note} (hreceived : received [n] = []) (hdecided : decided [n] = [a])
    (hgesture : a.isFiles = true → w.pending = none) : Ledger (history ++ [n]) (w.post a) := by
  unfold ClipboardWorker.post
  split
  · rename_i hd
    refine ⟨h.room, fun _ => hd, ?_⟩
    intro hfalse
    cases hd.symm.trans hfalse
  · split
    · rename_i hroom
      refine ⟨?_, h.ended, ?_⟩
      · simp only [List.length_append, List.length_singleton]
        omega
      · intro hd
        simp only [decided_append, received_append, hreceived, hdecided, gestures_append,
          ← h.files hd]
        cases ha : a.isFiles with
        | false =>
          rw [gestures_of_not_files ha]
          simp [gestures]
        | true => simp [hgesture ha, gestures]
    · split
      · rename_i hpending
        refine ⟨h.room, h.ended, ?_⟩
        intro hd
        have hnot : a.isFiles = false := by
          by_contra hf
          rw [hgesture (by simpa using hf)] at hpending
          cases hpending
        simp only [decided_append, received_append, hreceived, hdecided, gestures_append,
          gestures_of_not_files hnot, ← h.files hd]
        simp [gestures]
      · rename_i hpending
        refine ⟨h.room, h.ended, ?_⟩
        intro hd
        have hnone : gestures w.pending.toList = [] := by
          cases hp : w.pending with
          | none => rfl
          | some b =>
            rw [hp] at hpending
            exact gestures_of_not_files (by simpa using hpending)
        simp only [decided_append, received_append, hreceived, hdecided, gestures_append,
          ← h.files hd, hnone]
        simp [gestures]

theorem Ledger.setEnabled (h : Ledger history w) (hd : w.dropped = false) (enabled : Bool) :
    Ledger history (w.setEnabled enabled) := by
  unfold ClipboardWorker.setEnabled
  split
  · exact h
  · have hlive : ¬ w.phase = .ended := by
      intro hend
      cases (h.ended hend).symm.trans hd
    have hlen : (w.outbound.filter ClipboardAction.isFiles).length ≤ capacity :=
      le_trans (List.length_filter_le _ _) h.room
    have hout : (if w.phase = .ended then [] else
        requeue (w.outbound.filter ClipboardAction.isFiles)) =
        w.outbound.filter ClipboardAction.isFiles := by
      rw [if_neg hlive, requeue_eq hlen]
    rw [hout]
    refine ⟨hlen, h.ended, ?_⟩
    intro _
    rw [gestures_filter]
    exact h.files hd

theorem resync_kept (host : Host) (w : ClipboardWorker) (wx : Weather) :
    (w.resync host wx).settings = w.settings ∧ (w.resync host wx).dropped = w.dropped ∧
      (w.resync host wx).outbound = w.outbound := by
  unfold resync
  split
  · exact ⟨rfl, rfl, rfl⟩
  · exact ⟨rfl, rfl, rfl⟩

/-- **Every step keeps the account of the gestures.** -/
theorem Ledger.step (h : Ledger history w) (hc : Coherent history w) {act : Act}
    (hs : w.step host act = some w') : Ledger (history ++ (note host w act w').toList) w' := by
  cases act with
  | take =>
    simp only [ClipboardWorker.step] at hs
    split at hs
    · cases hs
      simp only [note, Option.toList_none, List.append_nil]
      exact ⟨h.room, (by simp), h.files⟩
    · cases hs
  | timeout =>
    obtain ⟨-, rfl⟩ := Runs.some_of_guard hs
    simp only [note, Option.toList_none, List.append_nil]
    exact ⟨h.room, (by simp), h.files⟩
  | disconnect =>
    obtain ⟨hguard, rfl⟩ := Runs.some_of_guard hs
    simp only [note, Option.toList_none, List.append_nil]
    exact ⟨h.room, fun _ => hguard.2.2, h.files⟩
  | enter wx =>
    simp only [ClipboardWorker.step] at hs
    split at hs
    · rename_i message hphase
      cases hs
      simp only [note, Option.toList_none, List.append_nil]
      unfold ClipboardWorker.enter
      cases hr : (w.resync host wx).retry with
      | none =>
        -- a retry fails only when the owner is gone
        have hdropped : w.dropped = true := by
          have hsame := (resync_kept host w wx).2.1
          unfold ClipboardWorker.retry at hr
          split at hr
          · cases hr
          · split at hr
            · rename_i hd
              exact hsame.symm.trans hd
            · split at hr
              all_goals cases hr
        exact ⟨h.room, fun _ => hdropped, h.files⟩
      | some t =>
        have ht := (h.resync host wx).retry hr
        exact ⟨ht.room, (by simp), ht.files⟩
    · cases hs
  | serve wx =>
    simp only [ClipboardWorker.step] at hs
    split at hs
    · rename_i message hphase
      cases hs
      have hH := handle_handles host hc wx hphase
      have hnote : note host w (.serve wx) (w.serve (w.handle host wx message)) =
          noteHandled w.settings (w.handle host wx message) := by
        simp only [note, hphase]
      rw [hnote]
      generalize w.handle host wx message = H at hH
      unfold ClipboardWorker.serve noteHandled
      cases ha : H.action with
      | some a =>
        have hidle : Ledger history
            { w with sync := H.sync, requested := asked H.requested a, phase := .idle } :=
          ⟨h.room, (by simp), h.files⟩
        exact hidle.post rfl rfl
          (hH.gesture a ha)
      | none =>
        cases hw : H.wrote with
        | none =>
          simp only [Option.toList_none, List.append_nil]
          exact ⟨h.room, (by simp), h.files⟩
        | some p =>
          refine ⟨h.room, (by simp), ?_⟩
          intro hd
          simpa [decided, received] using h.files hd
    · cases hs
  | deliver m =>
    obtain ⟨-, rfl⟩ := Runs.some_of_unless hs
    simp only [note, ClipboardWorker.deliver]
    split
    · refine ⟨h.room, h.ended, ?_⟩
      intro hd
      simpa [decided, received] using h.files hd
    · simpa using h
  | setEnabled enabled =>
    obtain ⟨hfree, rfl⟩ := Runs.some_of_unless hs
    simp only [Bool.or_eq_true, not_or, Bool.not_eq_true] at hfree
    simp only [note, Option.toList_none, List.append_nil]
    exact h.setEnabled hfree.2 enabled
  | recv =>
    simp only [ClipboardWorker.step] at hs
    split at hs
    · cases hs
    · rename_i a rest hout
      cases hs
      have hroom := h.room
      rw [hout, List.length_cons] at hroom
      have hnote : note host w .recv { w with outbound := rest } = some (.emitted w.settings a) := by
        rw [note, hout]
        rfl
      rw [hnote]
      refine ⟨by dsimp only; omega, h.ended, ?_⟩
      intro hd
      have hfiles := h.files hd
      rw [hout, show a :: rest = [a] ++ rest from rfl, gestures_append] at hfiles
      have hemitted : received [Note.emitted w.settings a] = [a] := rfl
      have hnothing : decided [Note.emitted w.settings a] = [] := rfl
      simp only [Option.toList_some, received_append, decided_append, hemitted, hnothing,
        List.append_nil, gestures_append, List.append_assoc]
      simpa only [List.append_assoc] using hfiles
  | drop =>
    obtain ⟨-, rfl⟩ := Runs.some_of_unless hs
    refine ⟨Nat.zero_le _, fun _ => rfl, ?_⟩
    intro hd
    cases hd
  | copy x =>
    cases hs
    simp only [note, Option.toList_none, List.append_nil]
    exact { h with }

/-! ### Every gesture comes through -/

/-- What the worker does by itself, and what the owner does to receive. -/
def Act.goesOn : Act → Bool
  | .take | .timeout | .disconnect | .enter _ | .serve _ | .recv => true
  | .deliver _ | .setEnabled _ | .drop | .copy _ => false

/-- The steps of a while in which the setting stays as it is and the peer is silent. -/
def goOn (host : Host) (w : ClipboardWorker) (act : Act) : Option ClipboardWorker :=
  if act.goesOn then w.step host act else none

theorem step_of_goOn {act : Act} (h : w.goOn host act = some w') : w.step host act = some w' :=
  (Option.ite_none_right_eq_some.mp h).2

theorem retry_settings (h : w.retry = some w') : w'.settings = w.settings := by
  unfold retry at h
  split at h
  · cases h
    rfl
  · split at h
    · cases h
    · split at h
      all_goals
        cases h
        rfl

theorem post_settings (a : ClipboardAction) (w : ClipboardWorker) :
    (w.post a).settings = w.settings := by
  unfold post
  split_ifs <;> rfl

theorem goOn_settings {act : Act} (h : w.goOn host act = some w') : w'.settings = w.settings := by
  obtain ⟨hgoes, hs⟩ := Option.ite_none_right_eq_some.mp h
  cases act with
  | deliver | setEnabled | drop | copy => cases hgoes
  | take | recv =>
    simp only [step] at hs
    split at hs
    all_goals
      cases hs
      try rfl
  | timeout | disconnect =>
    obtain ⟨-, rfl⟩ := Runs.some_of_guard hs
    rfl
  | enter wx =>
    simp only [step] at hs
    split at hs
    · cases hs
      unfold enter
      cases hr : (w.resync host wx).retry with
      | none => rfl
      | some t => exact (retry_settings hr).trans (resync_kept host w wx).1
    · cases hs
  | serve wx =>
    simp only [step] at hs
    split at hs
    · rename_i message hphase
      cases hs
      generalize w.handle host wx message = H
      unfold serve
      cases H.action with
      | none => rfl
      | some a => exact post_settings a _
    · cases hs

theorem exists_drained (host : Host) (w : ClipboardWorker) :
    ∃ notes, Runs.Observed (goOn host) (note host) w { w with outbound := [] } notes := by
  generalize hq : w.outbound = queue
  induction queue generalizing w with
  | nil =>
    refine ⟨[], ?_⟩
    rw [← hq]
    exact .init
  | cons a rest ih =>
    have hstep : w.goOn host .recv = some { w with outbound := rest } := by
      simp only [goOn, Act.goesOn, if_true, step, hq]
    obtain ⟨notes, hrun⟩ := ih { w with outbound := rest } rfl
    exact ⟨_, (Runs.Observed.init.step _ hstep).trans hrun⟩

/-- Nothing is queued and nothing is pending. -/
def Settled (w : ClipboardWorker) : Prop :=
  w.outbound = [] ∧ w.pending = none ∧ w.dropped = false

theorem exists_settled_took (host : Host) (hd : w.dropped = false) {message : Option (ℕ × ClipboardInbound)}
    (hphase : w.phase = .took message) :
    ∃ t notes, Runs.Observed (goOn host) (note host) w t notes ∧ Settled t := by
  obtain ⟨first, hfirst⟩ := exists_drained host w
  have henter : ∃ t, ({ w with outbound := [] } : ClipboardWorker).goOn host (.enter Weather.calm) =
      some t ∧ t.pending = none ∧ t.dropped = false := by
    refine ⟨({ w with outbound := [] } : ClipboardWorker).enter host Weather.calm message, ?_, ?_⟩
    · simp only [goOn, Act.goesOn, if_true, step, hphase]
    · obtain ⟨-, hdropped, hout⟩ := resync_kept host { w with outbound := [] } Weather.calm
      have hdv := hdropped.trans hd
      unfold enter
      generalize ({ w with outbound := [] } : ClipboardWorker).resync host Weather.calm = v at hout hdv
      unfold retry
      cases hp : v.pending with
      | none => exact ⟨hp, hdv⟩
      | some a =>
        have hroom : v.outbound.length < capacity := by
          rw [show v.outbound = [] from hout]
          decide
        dsimp only
        rw [if_neg (by simp [hdv]), if_pos hroom]
        exact ⟨rfl, hdv⟩
  obtain ⟨t, hstep, hpending, hdt⟩ := henter
  obtain ⟨last, hlast⟩ := exists_drained host t
  exact ⟨_, _, (hfirst.trans (Runs.Observed.init.step _ hstep)).trans hlast, rfl, hpending, hdt⟩

theorem exists_settled_idle (host : Host) (hd : w.dropped = false) (hphase : w.phase = .idle) :
    ∃ t notes, Runs.Observed (goOn host) (note host) w t notes ∧ Settled t := by
  have hnext : ∃ act t message, w.goOn host act = some t ∧ t.phase = .took message ∧
      t.dropped = false := by
    cases hin : w.inbound with
    | nil =>
      refine ⟨.timeout, { w with phase := .took none }, none, ?_, rfl, hd⟩
      simp only [goOn, Act.goesOn, step, hphase, hin, hd, and_self, if_true]
    | cons m rest =>
      refine ⟨.take, { w with inbound := rest, phase := .took (some m) }, some m, ?_, rfl, hd⟩
      simp only [goOn, Act.goesOn, if_true, step, hphase, hin]
  obtain ⟨act, t, message, hstep, htook, hdt⟩ := hnext
  obtain ⟨u, notes, hrun, hsettled⟩ := exists_settled_took host hdt htook
  exact ⟨u, _, (Runs.Observed.init.step _ hstep).trans hrun, hsettled⟩

theorem exists_settled_retried (host : Host) (hd : w.dropped = false)
    {message : Option (ℕ × ClipboardInbound)} (hphase : w.phase = .retried message) :
    ∃ t notes, Runs.Observed (goOn host) (note host) w t notes ∧ Settled t := by
  have hstep : w.goOn host (.serve Weather.calm) =
      some (w.serve (w.handle host Weather.calm message)) := by
    simp only [goOn, Act.goesOn, if_true, step, hphase]
  have hidle : (w.serve (w.handle host Weather.calm message)).dropped = false ∧
      (w.serve (w.handle host Weather.calm message)).phase = .idle := by
    generalize w.handle host Weather.calm message = H
    unfold serve
    cases H.action with
    | none => exact ⟨hd, rfl⟩
    | some a =>
      dsimp only
      unfold post
      rw [if_neg (by simp [hd])]
      split
      · exact ⟨hd, rfl⟩
      · split
        · exact ⟨hd, rfl⟩
        · exact ⟨hd, rfl⟩
  obtain ⟨t, notes, hrun, hsettled⟩ := exists_settled_idle host hidle.1 hidle.2
  exact ⟨t, _, (Runs.Observed.init.step _ hstep).trans hrun, hsettled⟩

theorem exists_settled (host : Host) (hd : w.dropped = false) (hlive : w.phase ≠ .ended) :
    ∃ t notes, Runs.Observed (goOn host) (note host) w t notes ∧ Settled t := by
  cases hphase : w.phase with
  | idle => exact exists_settled_idle host hd hphase
  | took message => exact exists_settled_took host hd hphase
  | retried message => exact exists_settled_retried host hd hphase
  | ended => exact absurd hphase hlive

/-! ### Runs of worker and owner -/

theorem coherent_spawn (host : Host) (clipboard : Desktop) (enabled filesEnabled : Bool)
    (wx : Weather) : Coherent [] (spawnWithFiles host clipboard enabled filesEnabled wx) := by
  have hp := primed host ((withFileTransfer clipboard enabled filesEnabled).under wx)
  exact
    { behind := le_rfl
      agree := fun _ => hp.enabled
      current := fun _ => rfl
      off := fun _ => hp.outgoing
      queue := by
        intro a ha
        cases ha
      pending := by
        intro a ha
        cases ha
      requested := by
        intro r hr
        cases hr
      held := by
        intro id c hout
        cases hp.outgoing.symm.trans hout
      inbound := by
        intro revision m hm
        cases hm
      message := by
        rintro revision m (hm | hm)
        all_goals cases hm }

theorem kept_of_observed {clipboard : Desktop} {enabled filesEnabled : Bool} {wx : Weather}
    (hr : Runs.Observed (step host) (note host)
      (spawnWithFiles host clipboard enabled filesEnabled wx) w history) :
    Coherent history w ∧ Ledger history w ∧ Runs.Each Lawful history := by
  refine hr.invariant (P := fun w history =>
    Coherent history w ∧ Ledger history w ∧ Runs.Each Lawful history) ?_ ?_
  · exact ⟨coherent_spawn host clipboard enabled filesEnabled wx, ⟨Nat.zero_le _, nofun, fun _ => rfl⟩,
      Runs.each_nil _⟩
  · rintro w w' history act ⟨hc, hl, he⟩ hs
    refine ⟨hc.step hs, hl.step hc hs, ?_⟩
    cases hn : note host w act w' with
    | none => simpa using he
    | some n => exact he.snoc (hc.lawful hn)

/-- **Disabling the clipboard is atomic.**  Text and images are emitted or
written only while the setting is on, and only what was computed and received
under its present revision; file gestures are received in the order the worker
decided on them, each once, and all of them come through while the setting stays
as it is. -/
theorem disable_atomic {clipboard : Desktop} {enabled filesEnabled : Bool} {wx : Weather}
    (hr : Runs.Observed (step host) (note host)
      (spawnWithFiles host clipboard enabled filesEnabled wx) w history) :
    Runs.Each Lawful history ∧
      (w.dropped = false →
        gestures (received history) ++ (gestures w.outbound ++ gestures w.pending.toList) =
          gestures (decided history) ∧
        ∃ t notes, Runs.Observed (goOn host) (note host) w t notes ∧ t.settings = w.settings ∧
          gestures (decided history) <+: gestures (received (history ++ notes))) := by
  obtain ⟨hc, hl, he⟩ := kept_of_observed hr
  refine ⟨he, ?_⟩
  intro hd
  refine ⟨hl.files hd, ?_⟩
  have hlive : w.phase ≠ .ended := by
    intro hend
    cases (hl.ended hend).symm.trans hd
  obtain ⟨t, notes, hrun, hout, hpending, hdt⟩ := exists_settled host hd hlive
  have hsame : t.settings = w.settings :=
    hrun.invariant (P := fun t _ => t.settings = w.settings) rfl
      fun _ _ _ _ hkept hs => (goOn_settings hs).trans hkept
  refine ⟨t, notes, hrun, hsame, ?_⟩
  have hstep := hrun.mono fun _ _ _ => step_of_goOn
  have hfiles := (kept_of_observed (hr.trans hstep)).2.1.files hdt
  rw [hout, hpending] at hfiles
  have hall : gestures (received (history ++ notes)) = gestures (decided (history ++ notes)) := by
    simpa [gestures] using hfiles
  rw [hall, decided_append, gestures_append]
  exact List.prefix_append _ _

/-! ### Switching off with a full queue -/

/-- A clipboard with a copied file, a moment after the worker looked. -/
def sampleGesture : LocalCopy := ⟨none, some [⟨none, true, [.normal ['a']]⟩]⟩

/-- A file is copied and noticed, the setting is switched off, and the gesture
is received. -/
def sampleActs : List Act :=
  [.copy sampleGesture, .timeout, .enter Weather.calm, .serve Weather.calm,
    .setEnabled false, .recv]

def sampleNotes : List Note :=
  [.computed 0 (.files [⟨none, true, [.normal ['a']]⟩]) none,
    .emitted ⟨false, 1⟩ (.files [⟨none, true, [.normal ['a']]⟩])]

theorem disable_atomic_gesture :
    (∃ w, Runs.Observed (step sampleHost) (note sampleHost)
      (spawnWithFiles sampleHost sampleDesktop true true Weather.calm) w sampleNotes) ∧
      Runs.Each Lawful sampleNotes := by
  have hrun : (Runs.tryObserve (step sampleHost) (note sampleHost)
      (spawnWithFiles sampleHost sampleDesktop true true Weather.calm) sampleActs).map Prod.snd =
        some sampleNotes := by decide +kernel
  obtain ⟨⟨w, notes⟩, htry, rfl⟩ := Option.map_eq_some_iff.mp hrun
  have hr := Runs.observed_of_tryObserve .init htry
  exact ⟨⟨w, hr⟩, (disable_atomic hr).1⟩

end ClipboardWorker

end NebulaDesk
