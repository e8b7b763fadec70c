/-
Commands of a native session (`nebula-desktop-protocol/src/lib.rs`, `Command` and `read_message`;
`nebula-desktop/src/sessions.rs`, `command`, `write_line` and the loop of `start`).

`command` checks a command and puts it in the queue of the session's task, which writes it to the
child as a line of JSON.  An error of the write leaves the loop, and the session has failed.  The
launch line, and the wait for the child, are in `Desktop/Sessions.lean`.
-/
import NebulaDesk.Desktop.Sessions
import NebulaDesk.Lib.JsonValue
import NebulaDesk.Lib.Lines
import NebulaDesk.Proto.Surface

namespace NebulaDesk

open Json (Value)

namespace SessionCommands

/-- `MAX_LINE_BYTES`, and `MAX_LINE` of the desktop. -/
def maxLineBytes : ℕ := 64 * 1024

/-- `MAX_FILES`. -/
def maxFiles : ℕ := 64

inductive Command
  | focus
  | disconnect
  | setAudio (enabled : Bool)
  | setClipboard (enabled : Bool)
  | sendFiles (paths : List Text)
deriving DecidableEq

namespace Command

/-- `Command::validate`. -/
def validate : Command → Except String Unit
  | sendFiles paths =>
    if maxFiles < paths.length ∨ ∃ p ∈ paths, p = [] ∨ Char.ofNat 0 ∈ p then
      .error "invalid file selection"
    else .ok ()
  | _ => .ok ()

/-! ### As JSON -/

/-- The tag, and the other fields. -/
def tagged (tag : String) (fields : List (Text × Value)) : Value :=
  .object (("command".toList, .string tag.toList) :: fields)

def value : Command → Value
  | focus => tagged "focus" []
  | disconnect => tagged "disconnect" []
  | setAudio enabled => tagged "set_audio" [("enabled".toList, .bool enabled)]
  | setClipboard enabled => tagged "set_clipboard" [("enabled".toList, .bool enabled)]
  | sendFiles paths => tagged "send_files" [("paths".toList, .array (paths.map Value.string))]

/-- `deny_unknown_fields`: no other fields than the tag and these. -/
def knownFields (fields : List (Text × Value)) (names : List Text) : Bool :=
  fields.all fun f => f.1 = "command".toList || names.contains f.1

def ofValue (v : Value) : Option Command := do
  let fields ← v.asObject
  let tag ← (← Json.required fields "command".toList).asString
  if tag = "focus".toList then
    if knownFields fields [] then some focus else none
  else if tag = "disconnect".toList then
    if knownFields fields [] then some disconnect else none
  else if tag = "set_audio".toList then
    let enabled ← (← Json.required fields "enabled".toList).asBool
    if knownFields fields ["enabled".toList] then some (setAudio enabled) else none
  else if tag = "set_clipboard".toList then
    let enabled ← (← Json.required fields "enabled".toList).asBool
    if knownFields fields ["enabled".toList] then some (setClipboard enabled) else none
  else if tag = "send_files".toList then
    let items ← (← Json.required fields "paths".toList).asArray
    let paths ← items.mapM Value.asString
    if knownFields fields ["paths".toList] then some (sendFiles paths) else none
  else none

/-- `serde_json::to_vec`. -/
def json (c : Command) : List UInt8 := Json.utf8 c.value.text

def line (c : Command) : List UInt8 := c.json ++ [10]

end Command

/-- `DesktopError`. -/
structure DesktopError where
  code : String
  message : String
deriving DecidableEq

def protocol : DesktopError :=
  ⟨"protocol", "The service returned an invalid or oversized response."⟩

/-! ### The two ends of the pipe -/

/-- `write_line`, up to the write: the bytes that are written. -/
def writeLine (c : Command) : Except DesktopError (List UInt8) :=
  if maxLineBytes < c.line.length then .error protocol else .ok c.line

/-- `read_message` of the child, on the chunks of its input. -/
def readMessage (reader : Json.Reader) (chunks : List (List UInt8)) :
    Except String (Option Command) × List (List UInt8) :=
  match Lines.readLine maxLineBytes [] chunks with
  | (.line bytes, left) =>
    match (reader.read bytes).bind Command.ofValue with
    | some c => (.ok (some c), left)
    | none => (.error "invalid IPC message", left)
  | (.tooLong, left) => (.error "IPC line exceeds limit", left)
  | (.unterminated, left) => (.error "unterminated IPC line", left)
  | (.ended, left) => (.ok none, left)

/-- Why the task has left its loop. -/
inductive Cause
  /-- `write_line` has refused a command. -/
  | size
  /-- The write itself has failed. -/
  | io
  /-- Stopped, or the output of the child has ended or could not be read. -/
  | other (failed : Bool)
deriving DecidableEq

def Cause.failed : Cause → Bool
  | size | io => true
  | other failed => failed

/-- What `mpsc::channel` is made with. -/
def queueCapacity : ℕ := 16

end SessionCommands

open SessionCommands

structure SessionCommands where
  state : Sessions.State
  policy : Sessions.Policy
  queue : List Command
  /-- The task has left its loop. -/
  left : Option Cause
  /-- The last line has been written, a `Disconnect`. -/
  told : Bool
  /-- The task has returned, and with it the receiver of the queue is gone. -/
  finished : Bool
  /-- What the child has not read yet. -/
  pipe : List UInt8
  /-- What the child has read. -/
  received : List Command
  /-- A read of the child has failed. -/
  broken : Bool
  /-- What `command` has returned `Ok` for; no part of the code. -/
  accepted : List Command

namespace SessionCommands

def start (policy : Sessions.Policy) : SessionCommands where
  state := .connecting
  policy := policy
  queue := []
  left := none
  told := false
  finished := false
  pipe := []
  received := []
  broken := false
  accepted := []

/-- What the view and the policy of a session allow. -/
def allowed (s : SessionCommands) : Command → Bool
  | .sendFiles _ => s.state = .connected && s.policy.fileTransfer
  | .setAudio true => s.policy.audio
  | .setClipboard true => s.policy.clipboard
  | _ => true

/-- `Sessions::command` for the entry of an id, if there is one. -/
def command (entry : Option SessionCommands) (c : Command) : Except DesktopError SessionCommands :=
  match c.validate with
  | .error _ => .error protocol
  | .ok () =>
    match entry.filter fun s => s.state.active with
    | none => .error ⟨"session_closed", "This session is no longer active."⟩
    | some s =>
      if !s.allowed c then
        .error ⟨"permission_denied", "This session does not allow that channel."⟩
      -- `try_send`
      else if s.finished || queueCapacity ≤ s.queue.length then
        .error ⟨"session_busy", "The session command queue is unavailable."⟩
      else .ok { s with queue := s.queue ++ [c], accepted := s.accepted ++ [c] }

inductive Event
  | command (c : Command)
  /-- A `State` line of the child. -/
  | report (state : Sessions.State)
  /-- The task takes the next command and writes it. -/
  | deliver
  /-- Its write fails after some bytes. -/
  | tear (n : ℕ)
  /-- The task leaves its loop for another reason. -/
  | leave (failed : Bool)
  /-- Behind the loop, it tells the child to disconnect. -/
  | tell
  /-- `finish`; `failed` if the child has ended badly. -/
  | finish (failed : Bool)
  /-- The child reads a line; its buffer is filled with these chunks. -/
  | read (chunks : List (List UInt8))

/-- The arm of the loop that takes a command. -/
def deliver (s : SessionCommands) : Option SessionCommands :=
  match s.left, s.queue with
  | none, c :: queue =>
    match writeLine c with
    | .ok bytes => some { s with queue := queue, pipe := s.pipe ++ bytes }
    | .error _ => some { s with queue := queue, left := some .size }
  | _, _ => none

/-- The same arm, when the pipe takes `n` bytes only. -/
def tear (s : SessionCommands) (n : ℕ) : Option SessionCommands :=
  match s.left, s.queue with
  | none, c :: queue =>
    match writeLine c with
    | .ok bytes => some { s with queue := queue, pipe := s.pipe ++ bytes.take n, left := some .io }
    | .error _ => none
  | _, _ => none

/-- The child waits for a line, and reads it. -/
def read (reader : Json.Reader) (s : SessionCommands) (chunks : List (List UInt8)) :
    Option SessionCommands :=
  if chunks.flatten = s.pipe ∧ (∀ c ∈ chunks, c ≠ []) ∧ 10 ∈ s.pipe ∧ s.broken = false then
    match readMessage reader chunks with
    | (.ok (some c), left) => some { s with received := s.received ++ [c], pipe := left.flatten }
    | (_, left) => some { s with broken := true, pipe := left.flatten }
  else none

def step (reader : Json.Reader) (s : SessionCommands) : Event → Option SessionCommands
  | .command c =>
    match command (some s) c with
    | .ok s' => some s'
    | .error _ => none
  | .report state =>
    if s.left = none ∧ s.state.active then
      some { s with state := state, left := if state.active then none else some (.other false) }
    else none
  | .deliver => s.deliver
  | .tear n => s.tear n
  | .leave failed => if s.left = none then some { s with left := some (.other failed) } else none
  | .tell =>
    if s.left ≠ none ∧ s.told = false ∧ s.finished = false then
      some { s with told := true, pipe := s.pipe ++ Command.disconnect.line }
    else none
  | .finish failed =>
    match s.left with
    | none => none
    | some cause =>
      if s.finished then none
      else
        some
          { s with
            finished := true
            state :=
              if cause.failed || failed then .failed
              else if s.state.active then .disconnected else s.state }
  | .read chunks => s.read reader chunks

/-- The paths with their quotes and escapes, the commas between them, and 35 bytes around them, have
the size of a line. -/
def Fits : Command → Prop
  | .sendFiles paths =>
    (paths.map fun p => Json.utf8Size (Json.string p)).sum + (paths.length - 1) + 35 < maxLineBytes
  | _ => True

instance : DecidablePred Fits
  | .sendFiles _ => inferInstanceAs (Decidable (_ < _))
  | .focus | .disconnect | .setAudio _ | .setClipboard _ => inferInstanceAs (Decidable True)

/-- The runs in which every command that is accepted fits. -/
def fitStep (reader : Json.Reader) (s : SessionCommands) (e : Event) : Option SessionCommands :=
  match e with
  | .command c => if Fits c then s.step reader (.command c) else none
  | e => s.step reader e

/-- `write_line` passes the command, and whatever follows it and however the input is buffered, the
child reads exactly it and leaves the following bytes. -/
def Arrives (reader : Json.Reader) (c : Command) : Prop :=
  writeLine c = .ok c.line ∧
    ∀ (rest : List UInt8) (chunks : List (List UInt8)), (∀ chunk ∈ chunks, chunk ≠ []) →
      chunks.flatten = c.line ++ rest →
        ∃ left, readMessage reader chunks = (.ok (some c), left) ∧ left.flatten = rest

end SessionCommands

end NebulaDesk
