/-
What worker and owner of a clipboard agree on.

`Coherent` is their invariant: whatever the worker keeps — an offer it holds
out, a request it made, an action it could not queue — it came to under its own
revision, and what waits in the queue was computed under the current one.
`handle_handles` is the specification of handling one message under the lock.
-/
import NebulaDesk.Clipboard.Worker

namespace NebulaDesk

namespace ClipboardWorker

open ClipboardSync

variable {host : Host} {w w' : ClipboardWorker} {history : List Note}

/-- An action that is no file gesture was computed under this revision. -/
def Rooted (history : List Note) (revision : ℕ) (enabled : Bool) (a : ClipboardAction) : Prop :=
  a.isFiles = true ∨ enabled = true ∧ ∃ held, .computed revision a held ∈ history

structure Coherent (history : List Note) (w : ClipboardWorker) : Prop where
  behind : w.revision ≤ w.settings.revision
  agree : w.revision = w.settings.revision → w.sync.enabled = w.settings.enabled
  current : w.locked = true → w.revision = w.settings.revision
  off : w.sync.enabled = false → w.sync.outgoing = none
  queue : ∀ a ∈ w.outbound, Rooted history w.settings.revision w.settings.enabled a
  pending : ∀ a, w.pending = some a → Rooted history w.revision w.sync.enabled a
  requested : ∀ r, w.requested = some r →
    ∃ held, .computed w.revision (.request r) held ∈ history
  held : ∀ id c, w.sync.outgoing = some (id, c) →
    ∃ o, .computed w.revision (.offer o) (some (id, c)) ∈ history
  inbound : ∀ revision m, (revision, m) ∈ w.inbound → .delivered revision m ∈ history
  message : ∀ revision m,
    w.phase = .took (some (revision, m)) ∨ w.phase = .retried (some (revision, m)) →
      .delivered revision m ∈ history

variable {a : ClipboardAction}

theorem Rooted.mono {revision : ℕ} {enabled : Bool} {more : List Note}
    (h : Rooted history revision enabled a) : Rooted (history ++ more) revision enabled a := by
  rcases h with h | ⟨hen, held, hm⟩
  · exact .inl h
  · exact .inr ⟨hen, held, List.mem_append_left _ hm⟩

theorem Coherent.mono {more : List Note} (h : Coherent history w) :
    Coherent (history ++ more) w where
  __ := h
  queue := fun a ha => (h.queue a ha).mono
  pending := fun a ha => (h.pending a ha).mono
  requested := fun r hr => (h.requested r hr).imp fun _ hm => List.mem_append_left _ hm
  held := fun id c hc => (h.held id c hc).imp fun _ hm => List.mem_append_left _ hm
  inbound := fun revision m hm => List.mem_append_left _ (h.inbound revision m hm)
  message := fun revision m hm => List.mem_append_left _ (h.message revision m hm)

/-! ### The worker's steps -/

theorem resync_sync (host : Host) (s : ClipboardSync Desktop) (enabled : Bool) :
    (ClipboardSync.setEnabled host (Desktop.access host) enabled
        (ClipboardSync.setEnabled host (Desktop.access host) false s)).enabled = enabled ∧
      ((s.enabled = false → s.outgoing = none) →
        (ClipboardSync.setEnabled host (Desktop.access host) enabled
          (ClipboardSync.setEnabled host (Desktop.access host) false s)).outgoing = none) := by
  -- first off, whatever it was
  have hoff : (ClipboardSync.setEnabled host (Desktop.access host) false s).enabled = false ∧
      ((s.enabled = false → s.outgoing = none) →
        (ClipboardSync.setEnabled host (Desktop.access host) false s).outgoing = none) := by
    cases hen : s.enabled with
    | false =>
      have hsame : ClipboardSync.setEnabled host (Desktop.access host) false s = s := if_pos hen
      rw [hsame]
      exact ⟨hen, fun h => h rfl⟩
    | true =>
      rw [setEnabled_off hen]
      exact ⟨rfl, fun _ => rfl⟩
  generalize ClipboardSync.setEnabled host (Desktop.access host) false s = t at hoff ⊢
  cases enabled with
  | false =>
    have hsame : ClipboardSync.setEnabled host (Desktop.access host) false t = t := if_pos hoff.1
    rw [hsame]
    exact hoff
  | true =>
    rw [setEnabled_on hoff.1]
    have hp := primed host { t with enabled := true, outgoing := none, known := none }
    exact ⟨hp.enabled, fun _ => hp.outgoing⟩

theorem Coherent.resync (host : Host) (h : Coherent history w) (wx : Weather) :
    Coherent history (w.resync host wx) ∧
      (w.resync host wx).revision = (w.resync host wx).settings.revision := by
  unfold ClipboardWorker.resync
  by_cases hsame : w.revision = w.settings.revision
  · rw [if_pos hsame]
    exact ⟨h, hsame⟩
  · rw [if_neg hsame]
    obtain ⟨hen, hout⟩ := resync_sync host (w.sync.under wx) w.settings.enabled
    have hnone := hout h.off
    refine ⟨?_, rfl⟩
    exact
      { behind := le_rfl
        agree := fun _ => hen
        current := fun _ => rfl
        off := fun _ => hnone
        queue := h.queue
        pending := by
          intro a ha
          exact .inl (Option.filter_eq_some_iff.mp ha).2
        requested := by
          intro r hr
          cases hr
        held := by
          intro id c hc
          rw [hnone] at hc
          cases hc
        inbound := h.inbound
        message := h.message }

theorem Coherent.retry (h : Coherent history w) (hcur : w.revision = w.settings.revision)
    (hr : w.retry = some w') : Coherent history w' ∧ w'.revision = w'.settings.revision := by
  unfold ClipboardWorker.retry at hr
  split at hr
  · cases hr
    exact ⟨h, hcur⟩
  · rename_i action hp
    split at hr
    · cases hr
    · split at hr
      · cases hr
        refine ⟨{ h with queue := ?_, pending := ?_ }, hcur⟩
        · intro a ha
          rcases List.mem_append.mp ha with ha | ha
          · exact h.queue a ha
          · obtain rfl := List.mem_singleton.mp ha
            have hroot := h.pending a hp
            rwa [hcur, h.agree hcur] at hroot
        · intro a ha
          cases ha
      · cases hr
        exact ⟨h, hcur⟩

theorem Coherent.enter (h : Coherent history w) (wx : Weather)
    {message : Option (ℕ × ClipboardInbound)} (hphase : w.phase = .took message) :
    Coherent history (w.enter host wx message) := by
  obtain ⟨hsync, hcur⟩ := h.resync host wx
  unfold ClipboardWorker.enter
  cases hr : (w.resync host wx).retry with
  | none =>
    refine { h with current := ?_, message := ?_ }
    · intro hl
      cases hl
    · rintro revision m (hm | hm)
      all_goals cases hm
  | some t =>
    obtain ⟨ht, htcur⟩ := hsync.retry hcur hr
    refine { ht with current := fun _ => htcur, message := ?_ }
    rintro revision m (hm | hm)
    · cases hm
    · cases hm
      exact h.message revision m (.inl hphase)

structure Handles (history : List Note) (w : ClipboardWorker) (H : Handled) : Prop where
  enabled : H.sync.enabled = w.sync.enabled
  off : H.sync.enabled = false → H.sync.outgoing = none
  held : ∀ id c, H.sync.outgoing = some (id, c) →
    w.sync.outgoing = some (id, c) ∨ ∃ o, H.action = some (.offer o)
  requested : H.requested = none ∨ H.requested = w.requested
  action : ∀ a, H.action = some a →
    Lawful history (.computed w.settings.revision a H.sync.outgoing) ∧
      (a.isFiles = true ∨ w.sync.enabled = true)
  wrote : ∀ header bytes, H.wrote = some (header, bytes) →
    H.action = none ∧ Lawful history (.wrote w.settings header bytes)
  gesture : ∀ a, H.action = some a → a.isFiles = true → w.pending = none

theorem Handles.nothing (h : Coherent history w) :
    Handles history w ⟨none, w.sync, w.requested, none⟩ where
  enabled := rfl
  off := h.off
  held := fun _ _ hc => .inl hc
  requested := .inr rfl
  action := by
    intro a ha
    cases ha
  wrote := by
    intro header bytes hb
    cases hb
  gesture := by
    intro a ha
    cases ha

theorem Handles.answer (h : Coherent history w) {a : Option ClipboardAction}
    (ha : ∀ action, a = some action → action.isFiles = false ∧ w.sync.enabled = true ∧
      Lawful history (.computed w.settings.revision action w.sync.outgoing)) :
    Handles history w ⟨a, w.sync, w.requested, none⟩ where
  enabled := rfl
  off := h.off
  held := fun _ _ hc => .inl hc
  requested := .inr rfl
  action := fun action haction => ⟨(ha action haction).2.2, .inr (ha action haction).2.1⟩
  wrote := by
    intro header bytes hb
    cases hb
  gesture := by
    intro action haction hfiles
    rw [(ha action haction).1] at hfiles
    cases hfiles

theorem Handles.poll (h : Coherent history w) (hpending : w.pending = none) {wx : Weather}
    {a : Option ClipboardAction} {s : ClipboardSync Desktop}
    (hp : Polled host (w.sync.under wx) a s) :
    Handles history w ⟨a, s, w.requested, none⟩ := by
  rcases hp.outcome with hq | ⟨c, hc⟩
  · have hfiles : ∀ action, a = some action → ∃ files, action = .files files := by
      rintro action rfl
      rcases hq.action with hn | ⟨files, hn⟩
      · cases hn
      · exact ⟨files, Option.some.inj hn⟩
    refine ⟨hp.enabled, ?_, ?_, .inr rfl, ?_, ?_, fun _ _ _ => hpending⟩
    · intro hoff
      have hold := h.off (hp.enabled.symm.trans hoff)
      rcases hq.outgoing with hnone | hsame
      · exact hnone
      · exact hsame.trans hold
    · intro id c hout
      rcases hq.outgoing with hnone | hsame
      · rw [hnone] at hout
        cases hout
      · exact .inl (hsame.symm.trans hout)
    · intro action ha
      obtain ⟨files, rfl⟩ := hfiles action ha
      exact ⟨trivial, .inl rfl⟩
    · intro header bytes hb
      cases hb
  · have hen : w.sync.enabled = true := hc.enabled
    refine ⟨hp.enabled, ?_, ?_, .inr rfl, ?_, ?_, fun _ _ _ => hpending⟩
    · intro hoff
      rw [hp.enabled] at hoff
      cases hoff.symm.trans hen
    · intro id c' _
      exact .inr ⟨_, hc.action⟩
    · intro action ha
      obtain rfl := Option.some.inj (hc.action.symm.trans ha)
      exact ⟨⟨c, hc.outgoing⟩, .inr hen⟩
    · intro header bytes hb
      cases hb

theorem Handles.data (h : Coherent history w) {wx : Weather} {header : ClipboardDataHeader}
    {bytes : List UInt8} (hen : w.settings.enabled = true)
    (hcur : w.revision = w.settings.revision)
    (hdelivered : .delivered w.settings.revision (.data header bytes) ∈ history)
    (hreq : w.requested = some ⟨header.offerId, header.format⟩)
    {r : Except String Unit} {s : ClipboardSync Desktop}
    (ht : Taken host header bytes (w.sync.under wx) r s) :
    Handles history w ⟨none, s, none, if r = .ok () then some (header, bytes) else none⟩ := by
  have hsync : s.enabled = w.sync.enabled ∧ (s.outgoing = none ∨ s.outgoing = w.sync.outgoing) := by
    cases ht with
    | refused => exact ⟨rfl, .inr rfl⟩
    | failed => exact ⟨rfl, .inr rfl⟩
    | written => exact ⟨rfl, .inl rfl⟩
  refine ⟨hsync.1, ?_, ?_, .inl rfl, ?_, ?_, ?_⟩
  · intro hoff
    rcases hsync.2 with hnone | hsame
    · exact hnone
    · exact hsame.trans (h.off (hsync.1.symm.trans hoff))
  · intro id c hout
    rcases hsync.2 with hnone | hsame
    · rw [hnone] at hout
      cases hout
    · exact .inl (hsame.symm.trans hout)
  · intro a ha
    cases ha
  · intro header' bytes' hwrote
    split at hwrote
    · cases hwrote
      refine ⟨rfl, hen, hdelivered, ?_⟩
      rw [← hcur]
      exact h.requested _ hreq
    · cases hwrote
  · intro a ha
    cases ha

/-- **Specification of `handle`**, under the lock. -/
theorem handle_handles (host : Host) (h : Coherent history w) (wx : Weather)
    {message : Option (ℕ × ClipboardInbound)} (hphase : w.phase = .retried message) :
    Handles history w (w.handle host wx message) := by
  have hcur : w.revision = w.settings.revision := h.current (by rw [locked, hphase])
  rcases message with _ | ⟨revision, m⟩
  · unfold handle
    dsimp only
    split
    · rename_i hpending
      exact Handles.poll h hpending (polled host _)
    · exact Handles.nothing h
  · have hdelivered := h.message revision m (.inr hphase)
    unfold handle
    dsimp only
    split
    · exact Handles.nothing h
    · rename_i hfresh
      simp only [ne_eq, decide_not, Bool.or_eq_true, Bool.not_eq_true', decide_eq_false_iff_not,
        not_or, not_not, Bool.not_eq_false] at hfresh
      obtain ⟨rfl, hen⟩ := hfresh
      rw [hcur] at hdelivered
      cases m with
      | offer o =>
        refine Handles.answer h ?_
        intro action ha
        obtain ⟨hon, format, rfl⟩ := onOffer_eq_some ha
        exact ⟨rfl, hon, o, hdelivered, rfl⟩
      | request r =>
        refine Handles.answer h ?_
        intro action ha
        obtain ⟨hon, c, hout, hformat, rfl⟩ := onRequest_eq_some ha
        obtain ⟨o, hm⟩ := h.held _ _ hout
        rw [hcur] at hm
        refine ⟨rfl, hon, ?_, o, hm⟩
        show .delivered w.settings.revision (.request ⟨r.offerId, c.format⟩) ∈ history
        rw [hformat]
        exact hdelivered
      | data header bytes =>
        dsimp only
        split
        · rename_i hreq
          exact Handles.data h hen hcur hdelivered hreq (taken host header bytes _)
        · exact Handles.nothing h

/-- The worker takes over what handling came to; what it asked for or holds out
has just been noted. -/
theorem Coherent.adopt {H : Handled} {requested : Option ClipboardRequest} {n : Option Note}
    (h : Coherent history w) (hH : Handles history w H)
    (hcur : w.revision = w.settings.revision)
    (hnote : ∀ a, H.action = some a → n = some (.computed w.settings.revision a H.sync.outgoing))
    (hreq : requested = H.requested ∨ ∃ r, requested = some r ∧ H.action = some (.request r)) :
    Coherent (history ++ n.toList)
      { w with sync := H.sync, requested := requested, phase := .idle } := by
  have hmono : Coherent (history ++ n.toList) w := h.mono
  have hmem : ∀ a, H.action = some a →
      .computed w.revision a H.sync.outgoing ∈ history ++ n.toList := by
    intro a ha
    rw [hnote a ha, hcur]
    exact List.mem_append_right _ (List.mem_singleton_self _)
  exact
    { behind := h.behind
      agree := fun hrev => hH.enabled.trans (h.agree hrev)
      current := fun hl => by cases hl
      off := hH.off
      queue := hmono.queue
      pending := by
        intro a ha
        have hroot := hmono.pending a ha
        rwa [← hH.enabled] at hroot
      requested := by
        intro r hr
        rcases hreq with hsame | ⟨r', hsome, ha⟩
        · rw [hsame] at hr
          rcases hH.requested with hnone | hkept
          · rw [hnone] at hr
            cases hr
          · exact hmono.requested r (hkept.symm.trans hr)
        · obtain rfl := Option.some.inj (hsome.symm.trans hr)
          exact ⟨_, hmem _ ha⟩
      held := by
        intro id c hout
        rcases hH.held id c hout with hold | ⟨o, ha⟩
        · exact hmono.held id c hold
        · refine ⟨o, ?_⟩
          have := hmem _ ha
          rwa [show H.sync.outgoing = some (id, c) from hout] at this
      inbound := hmono.inbound
      message := by
        rintro revision m (hm | hm)
        all_goals cases hm }

theorem Coherent.post (h : Coherent history w)
    (hroot : Rooted history w.settings.revision w.settings.enabled a)
    (hcur : w.revision = w.settings.revision) : Coherent history (w.post a) := by
  unfold ClipboardWorker.post
  split
  · refine { h with current := ?_, message := ?_ }
    · intro hl
      cases hl
    · rintro revision m (hm | hm)
      all_goals cases hm
  · split
    · refine { h with queue := ?_ }
      intro b hb
      rcases List.mem_append.mp hb with hb | hb
      · exact h.queue b hb
      · obtain rfl := List.mem_singleton.mp hb
        exact hroot
    · split
      · exact h
      · refine { h with pending := ?_ }
        intro b hb
        cases hb
        rwa [← hcur, ← h.agree hcur] at hroot

theorem Coherent.serve (h : Coherent history w) {H : Handled} (hH : Handles history w H)
    (hcur : w.revision = w.settings.revision) :
    Coherent (history ++ (noteHandled w.settings H).toList) (w.serve H) := by
  cases ha : H.action with
  | none =>
    have hserve : w.serve H = { w with sync := H.sync, requested := H.requested, phase := .idle } := by
      rw [ClipboardWorker.serve, ha]
    rw [hserve]
    refine h.adopt hH hcur ?_ (.inl rfl)
    intro a ha'
    cases ha.symm.trans ha'
  | some a =>
    have hserve : w.serve H = ClipboardWorker.post a
        { w with sync := H.sync, requested := asked H.requested a, phase := .idle } := by
      rw [ClipboardWorker.serve, ha]
    have hnote : noteHandled w.settings H =
        some (.computed w.settings.revision a H.sync.outgoing) := by
      rw [noteHandled, ha]
    rw [hserve]
    refine Coherent.post (h.adopt hH hcur ?_ ?_) ?_ hcur
    · intro a' ha'
      obtain rfl := Option.some.inj (ha.symm.trans ha')
      exact hnote
    · cases a with
      | request r => exact .inr ⟨r, rfl, ha⟩
      | offer o => exact .inl rfl
      | data header bytes => exact .inl rfl
      | files paths => exact .inl rfl
    · rcases (hH.action a ha).2 with hfiles | hen
      · exact .inl hfiles
      · refine .inr ⟨(h.agree hcur).symm.trans hen, H.sync.outgoing, ?_⟩
        rw [hnote]
        exact List.mem_append_right _ (List.mem_singleton_self _)

/-! ### The owner's steps -/

theorem requeue_eq {actions : List ClipboardAction} (h : actions.length ≤ capacity) :
    requeue actions = actions := by
  have hfold : ∀ rest queue : List ClipboardAction, (queue ++ rest).length ≤ capacity →
      rest.foldl (fun queue a => if queue.length < capacity then queue ++ [a] else queue) queue =
        queue ++ rest := by
    intro rest
    induction rest with
    | nil =>
      intro queue _
      simp
    | cons a rest ih =>
      intro queue hlen
      have hroom : queue.length < capacity := by
        simp only [List.length_append, List.length_cons] at hlen
        omega
      rw [List.foldl_cons, if_pos hroom, ih _ (by simpa using hlen)]
      simp
  exact hfold actions [] h

theorem mem_requeue {actions : List ClipboardAction} (h : a ∈ requeue actions) : a ∈ actions := by
  have hfold : ∀ rest queue : List ClipboardAction,
      a ∈ rest.foldl (fun queue a => if queue.length < capacity then queue ++ [a] else queue) queue →
        a ∈ queue ∨ a ∈ rest := by
    intro rest
    induction rest with
    | nil =>
      intro queue hm
      exact .inl hm
    | cons b rest ih =>
      intro queue hm
      rw [List.foldl_cons] at hm
      rcases ih _ hm with hm | hm
      · split at hm
        · rcases List.mem_append.mp hm with hm | hm
          · exact .inl hm
          · exact .inr (List.mem_cons.mpr (.inl (List.mem_singleton.mp hm)))
        · exact .inl hm
      · exact .inr (List.mem_cons_of_mem _ hm)
  rcases hfold actions [] h with hm | hm
  · cases hm
  · exact hm

theorem Coherent.setEnabled (h : Coherent history w) (hlock : w.locked = false) (enabled : Bool) :
    Coherent history (w.setEnabled enabled) := by
  unfold ClipboardWorker.setEnabled
  split
  · exact h
  · have hbehind := h.behind
    refine { h with behind := ?_, agree := ?_, current := ?_, queue := ?_ }
    · exact Nat.le_succ_of_le hbehind
    · intro hrev
      have hrev' : w.revision = w.settings.revision + 1 := hrev
      omega
    · intro hl
      cases hlock.symm.trans hl
    · intro a ha
      split at ha
      · cases ha
      · exact .inl (List.mem_filter.mp (mem_requeue ha)).2

/-- **Every step keeps the worker coherent.** -/
theorem Coherent.step (h : Coherent history w) {act : Act} (hs : w.step host act = some w') :
    Coherent (history ++ (note host w act w').toList) w' := by
  cases act with
  | take =>
    simp only [ClipboardWorker.step] at hs
    split at hs
    · rename_i message rest hphase hin
      cases hs
      refine Coherent.mono { h with current := ?_, inbound := ?_, message := ?_ }
      · intro hl
        cases hl
      · intro revision m hm
        exact h.inbound revision m (by rw [hin]; exact List.mem_cons_of_mem _ hm)
      · rintro revision m (hm | hm)
        · cases hm
          exact h.inbound revision m (by rw [hin]; exact List.mem_cons_self)
        · cases hm
    · cases hs
  | timeout | disconnect =>
    obtain ⟨-, rfl⟩ := Runs.some_of_guard hs
    refine Coherent.mono { h with current := ?_, message := ?_ }
    · intro hl
      cases hl
    · rintro revision m (hm | hm)
      all_goals cases hm
  | enter wx =>
    simp only [ClipboardWorker.step] at hs
    split at hs
    · rename_i message hphase
      cases hs
      exact (h.enter wx hphase).mono
    · cases hs
  | serve wx =>
    simp only [ClipboardWorker.step] at hs
    split at hs
    · rename_i message hphase
      cases hs
      have hcur := h.current (by rw [locked, hphase])
      have hnote : note host w (.serve wx) (w.serve (w.handle host wx message)) =
          noteHandled w.settings (w.handle host wx message) := by
        simp only [note, hphase]
      rw [hnote]
      exact h.serve (handle_handles host h wx hphase) hcur
    · cases hs
  | deliver m =>
    obtain ⟨-, rfl⟩ := Runs.some_of_unless hs
    simp only [note, ClipboardWorker.deliver]
    split
    · refine { h.mono with inbound := ?_ }
      intro revision m' hm
      rcases List.mem_append.mp hm with hm | hm
      · exact List.mem_append_left _ (h.inbound revision m' hm)
      · obtain ⟨rfl, rfl⟩ := Prod.mk.inj (List.mem_singleton.mp hm)
        exact List.mem_append_right _ (List.mem_singleton_self _)
    · exact h.mono
  | setEnabled enabled =>
    obtain ⟨hfree, rfl⟩ := Runs.some_of_unless hs
    have hlock : w.locked = false := by
      simp only [Bool.or_eq_true, not_or, Bool.not_eq_true] at hfree
      exact hfree.1
    exact (h.setEnabled hlock enabled).mono
  | recv =>
    simp only [ClipboardWorker.step] at hs
    split at hs
    · cases hs
    · rename_i a rest hout
      cases hs
      refine Coherent.mono { h with queue := ?_ }
      intro b hb
      exact h.queue b (by rw [hout]; exact List.mem_cons_of_mem _ hb)
  | drop =>
    obtain ⟨-, rfl⟩ := Runs.some_of_unless hs
    refine Coherent.mono { h with queue := ?_ }
    intro b hb
    cases hb
  | copy x =>
    cases hs
    exact Coherent.mono { h with }

theorem Coherent.lawful (h : Coherent history w) {act : Act} {n : Note}
    (hn : note host w act w' = some n) : Lawful history n := by
  cases act with
  | serve wx =>
    simp only [note] at hn
    split at hn
    · rename_i message hphase
      have hH := handle_handles host h wx hphase
      generalize w.handle host wx message = H at hn hH
      unfold noteHandled at hn
      split at hn
      · rename_i a ha
        cases hn
        exact (hH.action a ha).1
      · rename_i header bytes _ hwrote
        cases hn
        exact (hH.wrote header bytes hwrote).2
      · cases hn
    · cases hn
  | deliver m =>
    obtain ⟨-, rfl⟩ := Runs.some_of_guard hn
    trivial
  | recv =>
    obtain ⟨a, ha, rfl⟩ := Option.map_eq_some_iff.mp hn
    exact h.queue a (List.mem_of_mem_head? ha)
  | take => cases hn
  | timeout => cases hn
  | disconnect => cases hn
  | enter wx => cases hn
  | setEnabled enabled => cases hn
  | drop => cases hn
  | copy x => cases hn

end ClipboardWorker

end NebulaDesk
