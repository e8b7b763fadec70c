/-
The clipboard worker thread and its owner.

The worker takes one message at a time, or times out, and then does the rest of
an iteration under the settings lock.  The owner delivers messages, switches the
setting under the same lock, and receives actions from a bounded queue; only
receiving is possible while the worker holds the lock.  An iteration is cut into
the steps between which the owner can do something: taking the message
(`take`, `timeout`), entering the lock up to the retry of a pending action
(`enter`), and the rest (`serve`).

What is noted of a run carries the revision it happened under.  `Lawful` says
what each note needs to have been noted before it, under the same revision.
-/
import NebulaDesk.Clipboard.Exchange

namespace NebulaDesk

structure ClipboardSettings where
  enabled : Bool
  revision : ℕ
deriving DecidableEq

/-- Where an iteration of the worker stands, with the message it took. -/
inductive ClipboardPhase
  | idle
  | took (message : Option (ℕ × ClipboardInbound))
  | retried (message : Option (ℕ × ClipboardInbound))
  | ended
deriving DecidableEq

/-- A file-copy gesture. -/
def ClipboardAction.isFiles : ClipboardAction → Bool
  | .files _ => true
  | _ => false

/-- A running clipboard sync, and the handle its owner has. -/
structure ClipboardWorker where
  settings : ClipboardSettings
  inbound : List (ℕ × ClipboardInbound)
  outbound : List ClipboardAction
  /-- Whether the owner has let go of its handle. -/
  dropped : Bool
  sync : ClipboardSync Desktop
  revision : ℕ
  pending : Option ClipboardAction
  requested : Option ClipboardRequest
  phase : ClipboardPhase

namespace ClipboardWorker

open ClipboardSync

/-- How many actions wait for the owner at most. -/
def capacity : ℕ := 8

/-- Start the shared pasteboard watcher with independent clipboard/file policy. -/
def spawnWithFiles (host : Host) (clipboard : Desktop) (enabled filesEnabled : Bool)
    (wx : Weather) : ClipboardWorker where
  settings := ⟨enabled, 0⟩
  inbound := []
  outbound := []
  dropped := false
  sync := prime host (Desktop.access host) ((withFileTransfer clipboard enabled filesEnabled).under wx)
  revision := 0
  pending := none
  requested := none
  phase := .idle

/-! ### The worker -/

/-- Follow the settings: a changed revision invalidates whatever was agreed on. -/
def resync (host : Host) (wx : Weather) (w : ClipboardWorker) : ClipboardWorker :=
  if w.revision = w.settings.revision then w
  else
    { w with
      -- A disable/enable pair must invalidate old offers even if both changes
      -- happened between two iterations.
      sync := setEnabled host (Desktop.access host) w.settings.enabled
        (setEnabled host (Desktop.access host) false (w.sync.under wx))
      requested := none
      pending := w.pending.filter ClipboardAction.isFiles
      revision := w.settings.revision }

/-- Offer a pending action again; `none` if nobody is left to take it. -/
def retry (w : ClipboardWorker) : Option ClipboardWorker :=
  match w.pending with
  | none => some w
  | some action =>
    if w.dropped then none
    else if w.outbound.length < capacity then
      some { w with outbound := w.outbound ++ [action], pending := none }
    else some w

/-- Enter the lock with the message that was taken. -/
def enter (host : Host) (wx : Weather) (message : Option (ℕ × ClipboardInbound))
    (w : ClipboardWorker) : ClipboardWorker :=
  match retry (w.resync host wx) with
  | none => { w with phase := .ended }
  | some w => { w with phase := .retried message }

structure Handled where
  action : Option ClipboardAction
  sync : ClipboardSync Desktop
  requested : Option ClipboardRequest
  /-- What was written to the system clipboard. -/
  wrote : Option (ClipboardDataHeader × List UInt8)

/-- Handle the message, or look at the clipboard if there was none. -/
def handle (host : Host) (wx : Weather) (w : ClipboardWorker) :
    Option (ℕ × ClipboardInbound) → Handled
  | some (revision, message) =>
    if revision ≠ w.revision || !w.settings.enabled then ⟨none, w.sync, w.requested, none⟩
    else
      match message with
      | .offer o => ⟨onOffer o w.sync, w.sync, w.requested, none⟩
      | .request r => ⟨onRequest r w.sync, w.sync, w.requested, none⟩
      | .data header bytes =>
        if w.requested = some ⟨header.offerId, header.format⟩ then
          let r := onData host (Desktop.access host) header bytes (w.sync.under wx)
          ⟨none, r.2, none, if r.1 = .ok () then some (header, bytes) else none⟩
        else ⟨none, w.sync, w.requested, none⟩
  | none =>
    if w.pending = none then
      let r := poll host (Desktop.access host) (w.sync.under wx)
      ⟨r.1, r.2, w.requested, none⟩
    else ⟨none, w.sync, w.requested, none⟩

/-- The request an action makes, if it makes one. -/
def asked (before : Option ClipboardRequest) : ClipboardAction → Option ClipboardRequest
  | .request r => some r
  | _ => before

/-- Queue an action, or keep it for the next iteration. -/
def post (action : ClipboardAction) (w : ClipboardWorker) : ClipboardWorker :=
  if w.dropped then { w with phase := .ended }
  else if w.outbound.length < capacity then { w with outbound := w.outbound ++ [action] }
  else if w.pending.any ClipboardAction.isFiles then w
  else { w with pending := some action }

/-- The rest of an iteration. -/
def serve (h : Handled) (w : ClipboardWorker) : ClipboardWorker :=
  match h.action with
  | none => { w with sync := h.sync, requested := h.requested, phase := .idle }
  | some action =>
    post action
      { w with sync := h.sync, requested := asked h.requested action, phase := .idle }

/-! ### The owner -/

/-- Hand the sync something the peer sent. -/
def deliver (m : ClipboardInbound) (w : ClipboardWorker) : ClipboardWorker :=
  if w.settings.enabled then { w with inbound := w.inbound ++ [(w.settings.revision, m)] } else w

/-- Put actions back into the emptied queue, as far as they fit. -/
def requeue (actions : List ClipboardAction) : List ClipboardAction :=
  actions.foldl (fun queue a => if queue.length < capacity then queue ++ [a] else queue) []

/-- Atomically discard queued text/image sync. File-copy gestures are retained. -/
def setEnabled (enabled : Bool) (w : ClipboardWorker) : ClipboardWorker :=
  if w.settings.enabled = enabled then w
  else
    { w with
      settings := ⟨enabled, w.settings.revision + 1⟩
      -- the queue can be refilled only while the worker holds its end of it
      outbound := if w.phase = .ended then [] else
        requeue (w.outbound.filter ClipboardAction.isFiles) }

inductive Act
  | take
  | timeout
  | disconnect
  | enter (wx : Weather)
  | serve (wx : Weather)
  | deliver (m : ClipboardInbound)
  | setEnabled (enabled : Bool)
  | recv
  | drop
  | copy (x : LocalCopy)

/-- Whether the worker holds the settings lock. -/
def locked (w : ClipboardWorker) : Bool :=
  match w.phase with
  | .retried _ => true
  | _ => false

def step (host : Host) (w : ClipboardWorker) : Act → Option ClipboardWorker
  | .take =>
    match w.phase, w.inbound with
    | .idle, message :: rest => some { w with inbound := rest, phase := .took (some message) }
    | _, _ => none
  | .timeout =>
    if w.phase = .idle ∧ w.inbound = [] ∧ w.dropped = false then
      some { w with phase := .took none }
    else none
  | .disconnect =>
    if w.phase = .idle ∧ w.inbound = [] ∧ w.dropped = true then some { w with phase := .ended }
    else none
  | .enter wx =>
    match w.phase with
    | .took message => some (w.enter host wx message)
    | _ => none
  | .serve wx =>
    match w.phase with
    | .retried message => some (w.serve (w.handle host wx message))
    | _ => none
  | .deliver m => if w.locked || w.dropped then none else some (w.deliver m)
  | .setEnabled enabled => if w.locked || w.dropped then none else some (w.setEnabled enabled)
  | .recv =>
    match w.outbound with
    | [] => none
    | _ :: rest => some { w with outbound := rest }
  | .drop =>
    if w.dropped then none else some { w with dropped := true, outbound := [] }
  | .copy x =>
    some { w with sync := { w.sync with clipboard := w.sync.clipboard.copy x } }

/-! ### What is noted of a run -/

inductive Note
  | delivered (revision : ℕ) (m : ClipboardInbound)
  /-- The worker decided on an action, holding out `held` from then on. -/
  | computed (revision : ℕ) (action : ClipboardAction) (held : Option (ℕ × Contents))
  | wrote (settings : ClipboardSettings) (header : ClipboardDataHeader) (bytes : List UInt8)
  | emitted (settings : ClipboardSettings) (action : ClipboardAction)
deriving DecidableEq

def noteHandled (settings : ClipboardSettings) (h : Handled) : Option Note :=
  match h.action, h.wrote with
  | some action, _ => some (.computed settings.revision action h.sync.outgoing)
  | none, some (header, bytes) => some (.wrote settings header bytes)
  | none, none => none

def note (host : Host) (w : ClipboardWorker) (act : Act) (_ : ClipboardWorker) : Option Note :=
  match act with
  | .serve wx =>
    match w.phase with
    | .retried message => noteHandled w.settings (w.handle host wx message)
    | _ => none
  | .deliver m => if w.settings.enabled then some (.delivered w.settings.revision m) else none
  | .recv => w.outbound.head?.map (.emitted w.settings)
  | _ => none

/-- What a note needs to have been noted before it. -/
def Lawful (before : List Note) : Note → Prop
  | .delivered _ _ => True
  | .computed _ (.offer o) held => ∃ c, held = some (o.offerId, c)
  | .computed revision (.request r) _ =>
    ∃ o, .delivered revision (.offer o) ∈ before ∧ o.offerId = r.offerId
  | .computed revision (.data header bytes) _ =>
    .delivered revision (.request ⟨header.offerId, header.format⟩) ∈ before ∧
      ∃ o, .computed revision (.offer o) (some (header.offerId, ⟨header.format, bytes⟩)) ∈ before
  | .computed _ (.files _) _ => True
  | .wrote settings header bytes =>
    settings.enabled = true ∧ .delivered settings.revision (.data header bytes) ∈ before ∧
      ∃ held, .computed settings.revision (.request ⟨header.offerId, header.format⟩) held ∈ before
  | .emitted settings action =>
    action.isFiles = true ∨
      settings.enabled = true ∧ ∃ held, .computed settings.revision action held ∈ before

/-- The file gestures among some actions. -/
def gestures (actions : List ClipboardAction) : List ClipboardAction :=
  actions.filter ClipboardAction.isFiles

def decided (history : List Note) : List ClipboardAction :=
  history.filterMap fun
    | .computed _ action _ => some action
    | _ => none

def received (history : List Note) : List ClipboardAction :=
  history.filterMap fun
    | .emitted _ action => some action
    | _ => none

end ClipboardWorker

end NebulaDesk
