/-
What becomes of a local copy the worker has noticed (`nebula-agent/src/clipboard.rs`).

An action that finds the queue full is kept for the next iteration in a slot of its own.  The
clipboard is not polled while something is in the slot, and a file gesture in it is not replaced; an
offer in it is replaced by the answer to what the peer sends meanwhile.

* **`latest_offer_kept`** — in every run in which no message is answered while an offer is kept and
  the queue is full, the latest offer has been queued or is kept;
* **`offer_overwritten`** — a run in which an offer is lost.
-/
import NebulaDesk.Clipboard.Worker

namespace NebulaDesk

namespace ClipboardWorker

open ClipboardSync Runs

variable {host : Host}

/-- A worker, and since the setting last changed: the latest offer it polled, and what it queued. -/
structure Announcing where
  worker : ClipboardWorker
  offered : Option ClipboardOffer
  queued : List ClipboardAction

/-- The offer among the results of an iteration. -/
def offerOf : Option ClipboardAction → Option ClipboardOffer
  | some (.offer o) => some o
  | _ => none

namespace Announcing

def spawn (host : Host) (clipboard : Desktop) (enabled filesEnabled : Bool) (wx : Weather) :
    Announcing :=
  ⟨spawnWithFiles host clipboard enabled filesEnabled wx, none, []⟩

/-- What the worker appended to the queue in becoming `w`. -/
def note (a : Announcing) (w : ClipboardWorker) (offered : Option ClipboardOffer) : Announcing :=
  ⟨w, offered, a.queued ++ w.outbound.drop a.worker.outbound.length⟩

def step (host : Host) (a : Announcing) (act : Act) : Option Announcing :=
  (a.worker.step host act).map fun w =>
    match act, a.worker.phase with
    | .enter _, _ => a.note w a.offered
    | .serve wx, .retried message =>
      a.note w ((offerOf (a.worker.handle host wx message).action).or a.offered)
    -- what was offered before is void
    | .setEnabled enabled, _ =>
      if a.worker.settings.enabled = enabled then { a with worker := w } else ⟨w, none, []⟩
    | _, _ => { a with worker := w }

/-- The latest offer has been handed on, or is kept for the next iteration. -/
def Announced (a : Announcing) : Prop :=
  ∀ o ∈ a.offered, .offer o ∈ a.queued ∨ a.worker.pending = some (.offer o)

end Announcing

/-- Whether a message of the peer gets an answer. -/
def answers (w : ClipboardWorker) : ℕ × ClipboardInbound → Bool
  | (revision, message) =>
    revision = w.revision && w.settings.enabled &&
      match message with
      | .offer o => (onOffer o w.sync).isSome
      | .request r => (onRequest r w.sync).isSome
      | .data _ _ => false

/-- An offer is kept, and the queue has no room. -/
def crowded (w : ClipboardWorker) : Bool :=
  (offerOf w.pending).isSome && decide (capacity ≤ w.outbound.length)

/-- No message is answered while an offer is kept and the queue is full. -/
def calm (w : ClipboardWorker) : Act → Bool
  | .serve _ =>
    match w.phase with
    | .retried (some message) => !(w.crowded && w.answers message)
    | _ => true
  | _ => true

theorem offerOf_onOffer (o : ClipboardOffer) (s : ClipboardSync Desktop) :
    offerOf (onOffer o s) = none := by
  unfold onOffer
  split
  · rfl
  · split
    · rfl
    · cases o.formats.find? fun f => f = .text || f = .png <;> rfl

theorem offerOf_onRequest (r : ClipboardRequest) (s : ClipboardSync Desktop) :
    offerOf (onRequest r s) = none := by
  unfold onRequest
  split
  · rfl
  · split
    · rfl
    · split <;> rfl

theorem handle_message (wx : Weather) (w : ClipboardWorker) (message : ℕ × ClipboardInbound) :
    offerOf (w.handle host wx (some message)).action = none ∧
      ((w.handle host wx (some message)).action.isSome = true ↔ w.answers message = true) := by
  obtain ⟨revision, message⟩ := message
  unfold handle answers
  by_cases hskip : (revision ≠ w.revision || !w.settings.enabled) = true
  · simp only [hskip, if_true]
    have hdead : (revision = w.revision && w.settings.enabled) = false := by
      simpa [Bool.or_eq_true, or_iff_not_imp_left] using hskip
    simp [offerOf, hdead]
  · have hlive : (revision = w.revision && w.settings.enabled) = true := by
      simpa using hskip
    simp only [hskip, hlive, Bool.true_and, if_false, Bool.false_eq_true]
    cases message with
    | offer o => exact ⟨offerOf_onOffer o w.sync, Iff.rfl⟩
    | request r => exact ⟨offerOf_onRequest r w.sync, Iff.rfl⟩
    | data header bytes =>
      dsimp only
      split <;> exact ⟨rfl, Iff.rfl⟩

variable {w : ClipboardWorker}

theorem handle_nothing (wx : Weather)
    (h : (w.handle host wx none).action.isSome = true) : w.pending = none := by
  unfold handle at h
  by_contra hpending
  rw [if_neg hpending] at h
  cases h

/-- What `serve` does to the slot and the queue. -/
theorem serve_cases (h : Handled) (w : ClipboardWorker) :
    (h.action = none ∧ (w.serve h).pending = w.pending ∧ (w.serve h).outbound = w.outbound) ∨
      (w.serve h).dropped = true ∨
      ∃ action, h.action = some action ∧
        (w.outbound.length < capacity ∧ (w.serve h).pending = w.pending ∧
            (w.serve h).outbound = w.outbound ++ [action] ∨
          capacity ≤ w.outbound.length ∧ (w.serve h).outbound = w.outbound ∧
            ((w.serve h).pending = w.pending ∧ w.pending.any ClipboardAction.isFiles = true ∨
              (w.serve h).pending = some action)) := by
  unfold serve
  cases haction : h.action with
  | none => exact .inl ⟨rfl, rfl, rfl⟩
  | some action =>
    right
    unfold post
    dsimp only
    split
    · next hdropped => exact .inl hdropped
    · right
      refine ⟨action, rfl, ?_⟩
      split
      · next hroom => exact .inl ⟨hroom, rfl, rfl⟩
      · next hfull =>
        right
        split
        · next hfiles => exact ⟨Nat.le_of_not_lt hfull, rfl, .inl ⟨rfl, hfiles⟩⟩
        · exact ⟨Nat.le_of_not_lt hfull, rfl, .inr rfl⟩

theorem serve_rest (h : Handled) (w : ClipboardWorker) :
    (w.serve h).revision = w.revision ∧ (w.serve h).settings = w.settings ∧
      (w.serve h).dropped = w.dropped := by
  unfold serve
  cases h.action with
  | none => exact ⟨rfl, rfl, rfl⟩
  | some action =>
    dsimp only
    unfold post
    split
    · exact ⟨rfl, rfl, rfl⟩
    · split
      · exact ⟨rfl, rfl, rfl⟩
      · split <;> exact ⟨rfl, rfl, rfl⟩

/-- What `enter` does to them, under settings already followed. -/
theorem enter_cases (wx : Weather) (message : Option (ℕ × ClipboardInbound))
    (hrevision : w.revision = w.settings.revision) :
    (w.enter host wx message).dropped = true ∨
      (w.enter host wx message).pending = w.pending ∧
        (w.enter host wx message).outbound = w.outbound ∨
      ∃ action, w.pending = some action ∧ (w.enter host wx message).pending = none ∧
        (w.enter host wx message).outbound = w.outbound ++ [action] := by
  have hresync : w.resync host wx = w := if_pos hrevision
  unfold enter
  rw [hresync]
  unfold retry
  cases hpending : w.pending with
  | none => exact .inr (.inl ⟨hpending, rfl⟩)
  | some action =>
    dsimp only
    by_cases hdropped : w.dropped = true
    · exact .inl (by simp [hdropped])
    · rw [if_neg hdropped]
      by_cases hroom : w.outbound.length < capacity
      · rw [if_pos hroom]
        exact .inr (.inr ⟨action, rfl, rfl, rfl⟩)
      · rw [if_neg hroom]
        exact .inr (.inl ⟨hpending, rfl⟩)

theorem enter_current (wx : Weather) (message : Option (ℕ × ClipboardInbound)) (w : ClipboardWorker)
    (h : (w.enter host wx message).locked = true ∨ w.revision = w.settings.revision) :
    (w.enter host wx message).revision = (w.enter host wx message).settings.revision := by
  have hresync : (w.resync host wx).revision = (w.resync host wx).settings.revision := by
    unfold resync
    split
    · assumption
    · rfl
  unfold enter at h ⊢
  cases hretry : retry (w.resync host wx) with
  | none =>
    rw [hretry] at h
    rcases h with h | h
    · cases h
    · exact h
  | some w' =>
    unfold retry at hretry
    split at hretry
    · cases hretry
      exact hresync
    · split at hretry
      · cases hretry
      · split at hretry <;> cases hretry <;> exact hresync

theorem enter_dropped (wx : Weather) (message : Option (ℕ × ClipboardInbound))
    (w : ClipboardWorker) : (w.enter host wx message).dropped = w.dropped := by
  have hresync : (w.resync host wx).dropped = w.dropped := by
    unfold resync
    split <;> rfl
  unfold enter
  cases hretry : retry (w.resync host wx) with
  | none => rfl
  | some w' =>
    unfold retry at hretry
    split at hretry
    · cases hretry
      exact hresync
    · split at hretry
      · cases hretry
      · split at hretry <;> cases hretry <;> exact hresync

/-! ### Runs -/

namespace Announcing

variable {a a' : Announcing}

/-- Offers are of the present setting, and the latest is not lost. -/
structure Inv (a : Announcing) : Prop where
  current : a.worker.locked = true ∨ a.offered.isSome = true →
    a.worker.revision = a.worker.settings.revision
  kept : a.worker.dropped = false → a.Announced

theorem inv_spawn (host : Host) (clipboard : Desktop) (enabled filesEnabled : Bool)
    (wx : Weather) : (spawn host clipboard enabled filesEnabled wx).Inv where
  current := by rintro (h | h) <;> cases h
  kept := fun _ o ho => nomatch ho

theorem Inv.same (h : a.Inv) {w : ClipboardWorker} (hpending : w.pending = a.worker.pending)
    (hsettings : w.settings = a.worker.settings) (hrevision : w.revision = a.worker.revision)
    (hlocked : w.locked = true → a.worker.locked = true)
    (hdropped : w.dropped = false → a.worker.dropped = false) :
    ({ a with worker := w } : Announcing).Inv where
  current := by
    intro hcurrent
    rw [hrevision, hsettings]
    exact h.current (hcurrent.imp_left hlocked)
  kept := by
    intro hopen o ho
    rw [hpending]
    exact h.kept (hdropped hopen) o ho

theorem Announced.note (h : a.Announced) {w : ClipboardWorker}
    (hpending : ∀ o, a.worker.pending = some (.offer o) →
      w.pending = some (.offer o) ∨ .offer o ∈ w.outbound.drop a.worker.outbound.length) :
    (a.note w a.offered).Announced := by
  intro o ho
  rcases h o ho with hqueued | hkept
  · exact .inl (List.mem_append_left _ hqueued)
  · rcases hpending o hkept with hkept | hqueued
    · exact .inr hkept
    · exact .inl (List.mem_append_right _ hqueued)

theorem Inv.enter (h : a.Inv) (wx : Weather) (message : Option (ℕ × ClipboardInbound)) :
    (a.note (a.worker.enter host wx message) a.offered).Inv where
  current := fun hcurrent =>
    enter_current wx message a.worker (hcurrent.imp_right fun hsome => h.current (.inr hsome))
  kept := by
    intro hopen
    have hopen : (a.worker.enter host wx message).dropped = false := hopen
    cases hoffered : a.offered with
    | none =>
      intro o ho
      cases ho
    | some o =>
      rw [← hoffered]
      have hkept := h.kept ((enter_dropped wx message a.worker).symm.trans hopen)
      refine hkept.note fun o' ho' => ?_
      rcases enter_cases wx message (h.current (.inr (by simp [hoffered]))) with
        hgone | ⟨hpending, -⟩ | ⟨action, hpending, -, hqueue⟩
      · rw [hgone] at hopen
        cases hopen
      · exact .inl (hpending.trans ho')
      · right
        obtain rfl : action = .offer o' := Option.some.inj (hpending.symm.trans ho')
        rw [hqueue, List.drop_left]
        exact List.mem_singleton_self _

theorem Inv.serve (h : a.Inv) (wx : Weather) {message : Option (ℕ × ClipboardInbound)}
    (hphase : a.worker.phase = .retried message) (hcalm : a.worker.calm (.serve wx) = true) :
    (a.note (a.worker.serve (a.worker.handle host wx message))
      ((offerOf (a.worker.handle host wx message).action).or a.offered)).Inv where
  current := by
    intro _
    obtain ⟨hrevision, hsettings, -⟩ := serve_rest (a.worker.handle host wx message) a.worker
    show (a.worker.serve _).revision = (a.worker.serve _).settings.revision
    rw [hrevision, hsettings]
    exact h.current (.inl (by simp [locked, hphase]))
  kept := by
    intro hopen
    have hopen : (a.worker.serve (a.worker.handle host wx message)).dropped = false := hopen
    have hkept := h.kept ((serve_rest (a.worker.handle host wx message) a.worker).2.2.symm.trans
      hopen)
    rcases serve_cases (a.worker.handle host wx message) a.worker with
      ⟨hnone, hpending, -⟩ | hgone | ⟨action, haction, hcases⟩
    · rw [hnone]
      exact hkept.note fun o ho => .inl (hpending.trans ho)
    · rw [hgone] at hopen
      cases hopen
    · cases message with
      | some m =>
        -- an answer: it takes the slot only if that is free of offers
        obtain ⟨hoffer, hanswers⟩ := handle_message wx a.worker m
        rw [hoffer]
        refine hkept.note fun o ho => ?_
        rcases hcases with ⟨-, hpending, -⟩ | ⟨hfull, -, ⟨hpending, -⟩ | -⟩
        · exact .inl (hpending.trans ho)
        · exact .inl (hpending.trans ho)
        · have hcrowded : a.worker.crowded = true := by simp [crowded, ho, offerOf, hfull]
          have hanswered := hanswers.mp (by rw [haction]; rfl)
          simp [calm, hphase, hcrowded, hanswered] at hcalm
      | none =>
        -- a poll: the slot was free
        have hfree := handle_nothing wx (by rw [haction]; rfl)
        intro o ho
        rw [haction] at ho
        rcases hcases with ⟨-, -, hqueue⟩ | ⟨-, -, ⟨-, hfiles⟩ | hpending⟩
        · cases action with
          | offer o' =>
            obtain rfl : o' = o := Option.some.inj ho
            refine .inl (List.mem_append_right _ ?_)
            rw [hqueue, List.drop_left]
            exact List.mem_singleton_self _
          | _ =>
            rcases hkept o ho with hqueued | hslot
            · exact .inl (List.mem_append_left _ hqueued)
            · rw [hfree] at hslot
              cases hslot
        · rw [hfree] at hfiles
          cases hfiles
        · cases action with
          | offer o' =>
            obtain rfl : o' = o := Option.some.inj ho
            exact .inr hpending
          | _ =>
            rcases hkept o ho with hqueued | hslot
            · exact .inl (List.mem_append_left _ hqueued)
            · rw [hfree] at hslot
              cases hslot

theorem Inv.deliver (h : a.Inv) (m : ClipboardInbound) :
    ({ a with worker := a.worker.deliver m } : Announcing).Inv := by
  unfold ClipboardWorker.deliver
  split
  · exact h.same rfl rfl rfl id id
  · exact h

theorem Inv.setEnabled (h : a.Inv) (hlocked : a.worker.locked = false) (enabled : Bool) :
    (if a.worker.settings.enabled = enabled then
      { a with worker := a.worker.setEnabled enabled }
      else ⟨a.worker.setEnabled enabled, none, []⟩ : Announcing).Inv := by
  unfold ClipboardWorker.setEnabled
  split
  · exact h
  · refine ⟨fun hcurrent => ?_, fun _ o ho => nomatch ho⟩
    rcases hcurrent with hcurrent | hcurrent
    · exact absurd (hlocked.symm.trans hcurrent) Bool.false_ne_true
    · cases hcurrent

theorem Inv.step (h : a.Inv) {act : Act} (hcalm : a.worker.calm act = true)
    (hstep : a.step host act = some a') : a'.Inv := by
  obtain ⟨w, hw, rfl⟩ := Option.map_eq_some_iff.mp hstep
  cases act with
  | take =>
    simp only [ClipboardWorker.step] at hw
    split at hw
    · cases hw
      exact h.same rfl rfl rfl (fun hlocked => nomatch hlocked) id
    · cases hw
  | timeout | disconnect =>
    obtain ⟨-, heq⟩ := Option.ite_none_right_eq_some.mp hw
    cases heq
    exact h.same rfl rfl rfl (fun hlocked => nomatch hlocked) id
  | enter wx =>
    simp only [ClipboardWorker.step] at hw
    split at hw
    · next message _ =>
      cases hw
      exact h.enter wx message
    · cases hw
  | serve wx =>
    simp only [ClipboardWorker.step] at hw
    split at hw
    · next message hphase =>
      cases hw
      rw [hphase]
      exact h.serve wx hphase hcalm
    · cases hw
  | deliver m =>
    obtain ⟨-, heq⟩ := Option.ite_none_left_eq_some.mp hw
    cases heq
    exact h.deliver m
  | setEnabled enabled =>
    obtain ⟨hfree, heq⟩ := Option.ite_none_left_eq_some.mp hw
    cases heq
    exact h.setEnabled (Bool.or_eq_false_iff.mp (Bool.eq_false_iff.mpr hfree)).1 enabled
  | recv =>
    simp only [ClipboardWorker.step] at hw
    split at hw
    · cases hw
    · cases hw
      exact h.same rfl rfl rfl id id
  | drop =>
    obtain ⟨-, heq⟩ := Option.ite_none_left_eq_some.mp hw
    cases heq
    exact h.same rfl rfl rfl id fun hopen => nomatch hopen
  | copy x =>
    cases hw
    exact h.same rfl rfl rfl id id

/-- A step in which no message is answered while an offer is kept and the queue is full. -/
def stepCalm (host : Host) (a : Announcing) (act : Act) : Option Announcing :=
  if a.worker.calm act then a.step host act else none

theorem inv_of_reach {clipboard : Desktop} {enabled filesEnabled : Bool} {wx : Weather}
    (hr : Reach (stepCalm host) (spawn host clipboard enabled filesEnabled wx) a) : a.Inv := by
  refine hr.invariant (inv_spawn host clipboard enabled filesEnabled wx) fun s s' act h hs => ?_
  obtain ⟨hcalm, hstep⟩ := Option.ite_none_right_eq_some.mp hs
  exact h.step hcalm hstep

end Announcing

/-- In every run in which no message is answered while an offer is kept and the queue is full, as
long as the owner listens, the latest offer since the setting last changed has been queued or is
kept. -/
theorem latest_offer_kept {clipboard : Desktop} {enabled filesEnabled : Bool} {wx : Weather}
    {a : Announcing}
    (hr : Reach (Announcing.stepCalm host)
      (Announcing.spawn host clipboard enabled filesEnabled wx) a)
    (hopen : a.worker.dropped = false) {o : ClipboardOffer} (ho : a.offered = some o) :
    .offer o ∈ a.queued ∨ a.worker.pending = some (.offer o) :=
  (Announcing.inv_of_reach hr).kept hopen o ho

/-- A local program copies one byte of text, which the worker notices. -/
def noticed (byte : UInt8) : List Act :=
  [.copy ⟨some ⟨.text, [byte]⟩, none⟩, .timeout, .enter Weather.calm, .serve Weather.calm]

def nineCopies : List Act :=
  [1, 2, 3, 4, 5, 6, 7, 8, 9].flatMap noticed

theorem latest_offer_kept_ninth :
    ∃ a, Reach (Announcing.stepCalm sampleHost)
        (Announcing.spawn sampleHost sampleDesktop true false Weather.calm) a ∧
      (.offer ⟨9, [.text], 1⟩ ∈ a.queued ∨ a.worker.pending = some (.offer ⟨9, [.text], 1⟩)) := by
  have hrun : ((tryRun (Announcing.stepCalm sampleHost)
      (Announcing.spawn sampleHost sampleDesktop true false Weather.calm) nineCopies).map
        fun a => (a.worker.dropped, a.offered)) = some (false, some ⟨9, [.text], 1⟩) := by
    decide +kernel
  obtain ⟨a, htry, hat⟩ := Option.map_eq_some_iff.mp hrun
  have hr := reach_of_tryRun .init htry
  exact ⟨a, hr, latest_offer_kept hr (congrArg Prod.fst hat) (congrArg Prod.snd hat)⟩

/-- The peer copies something too before there is room in the queue: the request for it takes the
place of the offer, which nobody receives. -/
theorem offer_overwritten :
    ((tryRun (Announcing.step sampleHost)
        (Announcing.spawn sampleHost sampleDesktop true false Weather.calm)
        (nineCopies ++ [.deliver (.offer ⟨1, [.text], 3⟩), .take, .enter Weather.calm,
          .serve Weather.calm])).map fun a =>
      (a.worker.dropped, a.worker.settings.enabled, a.offered, a.worker.pending,
        a.queued.contains (.offer ⟨9, [.text], 1⟩))) =
    some (false, true, some ⟨9, [.text], 1⟩, some (.request ⟨1, .text⟩), false) := by
  decide +kernel

end ClipboardWorker

end NebulaDesk
