/-
Moving files between the two machines (`nebula-agent/src/files.rs`).

`FileTransfers` is the state machine that decides what goes on the wire.  The
sending half reads a local file: what its calls return is given by `Source` and
by the reads handed to `pump`, so that the file may change or fail at any point.
The receiving half runs against a `World`, one call at a time.
-/
import NebulaDesk.Agent.Ranges
import NebulaDesk.Agent.World

namespace NebulaDesk

open Std (ExtTreeMap)

/-- Largest file this will send or accept. -/
def maxFile : ℕ := 8 <<< 30
def chunkLen : ℕ := 64 * 1024
/-- Bytes the receiver lets the sender put in flight. -/
def fileWindow : ℕ := 4 * 1024 * 1024
/-- Acknowledge once this much has arrived since the last one. -/
def ackEvery : ℕ := fileWindow / 2
/-- Concurrent transfers accepted in each direction. -/
def maxActive : ℕ := 4
/-- Also bounds waits for older peers that silently discard a failed transfer. -/
def stallTimeout : ℕ := 120 * 1000
def failedReceived : ℕ := 2 ^ 64 - 1
def maxUpdates : ℕ := 256

/-- Addition of 64-bit words that stops at the largest. -/
def saturatingAdd (a b : ℕ) : ℕ := min (a + b) (2 ^ 64 - 1)

/-- Subtraction of 64-bit words, as the hardware has it. -/
def wrappingSub (a b : ℕ) : ℕ := (a + 2 ^ 64 - b) % 2 ^ 64

inductive TransferDirection
  | send | receive
deriving DecidableEq, Repr

/-- Lifecycle state reported by the local file engine. -/
inductive TransferState
  | offered | transferring | complete | failed
deriving DecidableEq, Repr

/-- Latest local engine state. -/
structure TransferUpdate where
  id : ℕ
  name : Text
  direction : TransferDirection
  transferred : ℕ
  total : ℕ
  state : TransferState
  error : Option String
deriving DecidableEq

def recordUpdate (updates : List TransferUpdate) (update : TransferUpdate) : List TransferUpdate :=
  let kept := updates.filter fun old => old.id ≠ update.id || old.direction ≠ update.direction
  (if kept.length = maxUpdates then kept.tail else kept) ++ [update]

/-- Something to put on the wire. -/
inductive FileAction
  | offer (offer : FileOffer)
  | chunk (header : FileChunkHeader) (data : List UInt8)
  | ack (ack : FileAck)
deriving DecidableEq

def failureAck (transferId : ℕ) : FileAck := ⟨transferId, failedReceived, fileWindow⟩

/-- A file being sent. -/
structure Sending where
  offset : ℕ
  size : ℕ
  /-- Highest offset the receiver has allowed. -/
  allowed : ℕ
  finished : Bool
  lastProgress : ℕ
  name : Text

def Sending.update (s : Sending) (id : ℕ) (state : TransferState) (error : Option String) :
    TransferUpdate :=
  ⟨id, s.name, .send, s.offset, s.size, state, error⟩

/-- Whether `pump` may pick this transfer. -/
def Sending.ready (s : Sending) : Bool := !s.finished && s.offset < s.allowed

structure Receiving where
  name : Text
  file : ℕ
  part : PathBuf
  finalPath : PathBuf
  /-- Byte ranges written so far, merged and in order. -/
  ranges : Ranges
  acked : ℕ
  size : ℕ
  expected : Text
  modifiedSecs : Option ℤ
  lastProgress : ℕ

def Receiving.update (r : Receiving) (id : ℕ) (state : TransferState) (error : Option String) :
    TransferUpdate :=
  ⟨id, r.name, .receive, r.ranges.total, r.size, state, error⟩

structure FileTransfers where
  enabled : Bool
  downloads : PathBuf
  nextId : ℕ
  sending : ExtTreeMap ℕ Sending
  receiving : ExtTreeMap ℕ Receiving
  updates : List TransferUpdate

/-- What differs between machines: path rules, how a file is published, and the
content hash. -/
structure Platform where
  os : Os
  rename : Bool
  blake3 : List UInt8 → Text

/-- What the calls on a local file to send return. -/
structure Source where
  display : String
  /-- Its name, lossily, and its length, for a failure report. -/
  lossyName : Text
  currentLen : ℕ
  fileName : Option Text
  isRegular : Except Fault Bool
  opened : Except Fault Unit
  metadata : Except Fault (Bool × ℕ × Option ℤ)
  /-- The bytes the hash is computed over. -/
  contents : Except Fault (List UInt8)
  rewound : Except Fault Unit

namespace FileTransfers

def new (downloads : PathBuf) (enabled : Bool) : FileTransfers :=
  ⟨enabled, downloads, 1, ∅, ∅, []⟩

def report (ft : FileTransfers) (update : TransferUpdate) : FileTransfers :=
  { ft with updates := recordUpdate ft.updates update }

/-! ### Sending -/

def localFailure (ft : FileTransfers) (id : ℕ) (source : Source) (error : String) :
    FileTransfers :=
  ft.report ⟨id, source.lossyName, .send, 0, source.currentLen, .failed, some error⟩

def ensure (ok : Bool) (text : String) : Except Fault Unit :=
  if ok then .ok () else .error (.message text)

/-- The checks of `prepare_send`, and the offer they end in. -/
def prepareOffer (blake3 : List UInt8 → Text) (ft : FileTransfers) (id : ℕ) (source : Source) :
    Except Fault FileOffer := do
  ensure ft.enabled "file transfer is not permitted in this session"
  ensure (ft.sending.size < maxActive) "too many transfers already in flight"
  let name ← source.fileName.elim (.error (.message "a file to send needs a name")) .ok
  let regular ← source.isRegular
  ensure regular (source.display ++ " is not a regular file (symlinks and directories are not sent)")
  source.opened.mapError (·.context ("opening " ++ source.display))
  let facts ← source.metadata
  ensure facts.1 (source.display ++ " is not a regular file")
  ensure (facts.2.1 ≤ maxFile)
    (source.display ++ " is larger than the " ++ toString maxFile ++ " byte limit")
  let contents ← source.contents
  source.rewound
  let offer : FileOffer := ⟨id, name, facts.2.1, blake3 contents, facts.2.2⟩
  ensure offer.hasSafeName (String.ofList name ++ " is not a name the other side will accept")
  return offer

/-- The state of a transfer just offered. -/
def startSending (ft : FileTransfers) (now : ℕ) (offer : FileOffer) : FileTransfers :=
  let s : Sending := ⟨0, offer.size, 0, false, now, offer.name⟩
  { ft with sending := ft.sending.insert offer.transferId s }.report
    (s.update offer.transferId .offered none)

def sendFile (blake3 : List UInt8 → Text) (ft : FileTransfers) (now : ℕ) (source : Source) :
    Except Fault FileAction × FileTransfers :=
  match prepareOffer blake3 ft ft.nextId source with
  | .error e =>
    (.error e, { ft with nextId := ft.nextId + 1 }.localFailure ft.nextId source e.text)
  | .ok offer => (.ok (.offer offer), { ft with nextId := ft.nextId + 1 }.startSending now offer)

/-- What an acknowledgement means for the transfer it names. -/
inductive AckOutcome
  | failed
  | complete
  | kept (s : Sending)

def ackOutcome (s : Sending) (now : ℕ) (ack : FileAck) : AckOutcome :=
  if ack.received = failedReceived then .failed
  else if ack.received > s.size then .kept s
  else if s.finished ∧ ack.received = s.size then .complete
  -- Each acknowledgement has its own stream and can arrive late.
  else if saturatingAdd ack.received ack.window > s.allowed then
    .kept { s with
      allowed := saturatingAdd ack.received ack.window
      lastProgress := now }
  else .kept s

/-- Note how much more the peer is willing to receive. -/
def onAck (ft : FileTransfers) (now : ℕ) (ack : FileAck) : FileTransfers :=
  match ft.sending[ack.transferId]? with
  | none => ft
  | some s =>
    match ackOutcome s now ack with
    | .failed =>
      { ft with sending := ft.sending.erase ack.transferId }.report
        (s.update ack.transferId .failed
          (some "the peer rejected or could not verify and publish the file"))
    | .complete =>
      { ft with sending := ft.sending.erase ack.transferId }.report
        (s.update ack.transferId .complete none)
    | .kept s => { ft with sending := ft.sending.insert ack.transferId s }

/-- The read loop of `pump`: fill a buffer of `want` bytes from successive reads,
up to the end of the file. -/
def fill : ℕ → List (Except Fault (List UInt8)) → Except Fault (List UInt8)
  | _, [] => .ok []
  | want, read :: reads =>
    if want = 0 then .ok []
    else
      match read with
      | .error e => .error e
      | .ok bytes =>
        if bytes.take want = [] then .ok []
        else (fill (want - (bytes.take want).length) reads).map (bytes.take want ++ ·)

/-- How many bytes `pump` asks for. -/
def wanted (s : Sending) : ℕ := min (min (s.allowed - s.offset) (s.size - s.offset)) chunkLen

/-- A transfer whose source can no longer be read. -/
def dropSending (ft : FileTransfers) (id : ℕ) (s : Sending) (error : String) : FileTransfers :=
  { ft.report (s.update id .failed (some error)) with sending := ft.sending.erase id }

/-- Produce the next chunk that the receiver has room for.  `pick` is the ready
transfer the map's iteration meets first. -/
def pump (ft : FileTransfers) (now pick : ℕ) (reads : List (Except Fault (List UInt8))) :
    Option FileAction × FileTransfers :=
  match ft.sending[pick]? with
  | none => (none, ft)
  | some s =>
    if !s.ready then (none, ft)
    else if s.size = 0 then
      let sent := { s with finished := true, lastProgress := now }
      (some (.chunk ⟨pick, 0⟩ []),
        { ft with sending := ft.sending.insert pick sent }.report
          (sent.update pick .transferring none))
    else
      match fill (wanted s) reads with
      | .error e => (none, ft.dropSending pick s ("could not read file: " ++ e.text))
      | .ok [] => (none, ft.dropSending pick s "source file shrank during transfer")
      | .ok buffer =>
        let sent := { s with
          offset := s.offset + buffer.length
          lastProgress := now
          finished := s.finished || s.offset + buffer.length ≥ s.size }
        (some (.chunk ⟨pick, s.offset⟩ buffer),
          { ft with sending := ft.sending.insert pick sent }.report
            (sent.update pick .transferring none))

/-- Whether `pump` has something to do right now. -/
def wantsToSend (ft : FileTransfers) : Bool := ft.sending.toList.any fun (_, s) => s.ready

/-! ### Receiving -/

def pathAvailable (ft : FileTransfers) (path : PathBuf) : Sys Bool :=
  if ft.receiving.toList.any fun (_, r) => r.finalPath = path then pure false
  else do
    match ← (symlinkMetadata path).attempt with
    | .ok _ => pure false
    | .error e =>
      if e.kind = .notFound then pure true
      else Cmd.throw (e.context "checking a file-transfer destination")

/-- The loop of `free_path` over numbered alternatives. -/
def freeNumbered (p : Platform) (ft : FileTransfers) (name : Text) : List ℕ → Sys PathBuf
  | [] => Cmd.throw
      (.message ("there are already too many files called " ++ String.ofList name))
  | n :: ns => do
    if ← ft.pathAvailable (p.os.join ft.downloads (numbered name n)) then
      pure (p.os.join ft.downloads (numbered name n))
    else freeNumbered p ft name ns

/-- Find a name in the download directory that isn't taken. -/
def freePath (p : Platform) (ft : FileTransfers) (name : Text) : Sys PathBuf := do
  createDirAll ft.downloads
  if ← ft.pathAvailable (p.os.join ft.downloads name) then
    pure (p.os.join ft.downloads name)
  else freeNumbered p ft name (List.range' 2 998)

def rejectOffer (ft : FileTransfers) (offer : FileOffer) (error : String) : FileTransfers :=
  if ft.receiving.contains offer.transferId then ft
  else ft.report ⟨offer.transferId, offer.name, .receive, 0, offer.size, .failed, some error⟩

/-- The name of a staging file, `.nebula-<uuid>.nebulapart`. -/
def stagingName (uuid : Text) : Text :=
  ['.', 'n', 'e', 'b', 'u', 'l', 'a', '-'] ++ uuid
    ++ ['.', 'n', 'e', 'b', 'u', 'l', 'a', 'p', 'a', 'r', 't']

def drawUuid : Sys Text := fun w => (.ok (w.env.uuids w.drawn), { w with drawn := w.drawn + 1 })

/-- Pick a destination and open the staging file beside it. -/
def openPart (p : Platform) (ft : FileTransfers) (name : Text) : Sys (PathBuf × PathBuf × ℕ) := do
  let finalPath ← freePath p ft name
  let uuid ← drawUuid
  let file ← createNew (finalPath.withFileName p.os (stagingName uuid))
  pure (finalPath, finalPath.withFileName p.os (stagingName uuid), file)

def startReceiving (ft : FileTransfers) (now : ℕ) (offer : FileOffer)
    (opened : PathBuf × PathBuf × ℕ) : FileTransfers :=
  let r : Receiving := ⟨offer.name, opened.2.2, opened.2.1, opened.1, Ranges.empty, 0, offer.size,
    offer.blake3, offer.modifiedSecs, now⟩
  { ft with receiving := ft.receiving.insert offer.transferId r }.report
    (r.update offer.transferId .offered none)

/-- Decide whether to accept a file the peer is offering. -/
def onOffer (p : Platform) (ft : FileTransfers) (now : ℕ) (offer : FileOffer) (w : World) :
    (Option FileAction × FileTransfers) × World :=
  if !ft.enabled then
    ((none, ft.rejectOffer offer "file transfer is not permitted in this session"), w)
  else if !offer.hasSafeName then ((none, ft.rejectOffer offer "unusable file name"), w)
  else if offer.size > maxFile then
    ((none, ft.rejectOffer offer "file exceeds the size limit"), w)
  else if ft.receiving.size ≥ maxActive ∨ ft.receiving.contains offer.transferId then
    ((none, ft.rejectOffer offer "too many transfers already in flight"), w)
  else
    match openPart p ft offer.name w with
    | (.error e, w) => ((none, ft.rejectOffer offer e.text), w)
    | (.ok opened, w) =>
      ((some (.ack ⟨offer.transferId, 0, fileWindow⟩), ft.startReceiving now offer opened), w)

/-- The publication loop of `finish`. -/
def publish (p : Platform) (ft : FileTransfers) (part : PathBuf) (name : Text) :
    ℕ → PathBuf → Sys PathBuf
  | 0, _ => Cmd.throw (.message "too many collisions while publishing the arriving file")
  | tries + 1, destination => do
    match ← (publishNoReplace p.rename part destination).attempt with
    | .ok () => pure destination
    | .error e =>
      if e.kind = .alreadyExists then do
        let destination ← freePath p ft name
        publish p ft part name tries destination
      else Cmd.throw (e.context "publishing the arriving file without replacement")

/-- Verify what arrived: its contents have the announced hash. -/
def verify (p : Platform) (r : Receiving) : Sys Unit := do
  let contents ← readAll r.part
  if p.blake3 contents ≠ r.expected then
    Cmd.throw (.message "the contents did not match the announced hash")
  else pure ()

def restoreModified (r : Receiving) : Sys Unit :=
  match r.modifiedSecs with
  | some secs => setModified r.part secs
  | none => pure ()

/-- What `finish` does between syncing the file and removing its staging name. -/
def place (p : Platform) (ft : FileTransfers) (r : Receiving) (synced : Except Fault Unit) :
    Sys PathBuf := do
  Cmd.ofExcept (synced.mapError (·.context "syncing the arriving file"))
  verify p r
  restoreModified r
  match r.finalPath.fileName with
  | none => Cmd.throw (.message "an arriving file needs a name")
  | some name => publish p ft r.part name 1000 r.finalPath

/-- Sync, verify and publish, then remove the staging name whatever came of it. -/
def settle (p : Platform) (ft : FileTransfers) (r : Receiving) (w : World) :
    Except Fault PathBuf × World :=
  let synced := syncAll r.file w
  let placed := place p ft r synced.1 synced.2
  (placed.1, (removeFile r.part placed.2).2)

/-- Verify a completed arrival and move it into place. -/
def finish (p : Platform) (ft : FileTransfers) (id : ℕ) (w : World) :
    (Except Fault PathBuf × FileTransfers) × World :=
  match ft.receiving[id]? with
  | none => ((.error (.message "no such transfer"), ft), w)
  | some r =>
    let ft := { ft with receiving := ft.receiving.erase id }
    match settle p ft r w with
    | (.error e, w) => ((.error e, ft.report (r.update id .failed (some e.text))), w)
    | (.ok path, w) => ((.ok path, ft.report (r.update id .complete none)), w)

/-- Drop a transfer and remove whatever was written for it. -/
def abandon (ft : FileTransfers) (id : ℕ) (w : World) : FileTransfers × World :=
  match ft.receiving[id]? with
  | none => (ft, w)
  | some r => ({ ft with receiving := ft.receiving.erase id }, (removeFile r.part w).2)

def failReceive (ft : FileTransfers) (id : ℕ) (error : String) (w : World) :
    FileTransfers × World :=
  match ft.receiving[id]? with
  | none => abandon ft id w
  | some r => abandon (ft.report (r.update id .failed (some error))) id w

/-- A written chunk noted. -/
def note (r : Receiving) (now offset stop : ℕ) : Receiving :=
  { r with
    lastProgress := now
    ranges := r.ranges.add offset stop }

/-- Whether an acknowledgement is due once the chunk is noted. -/
def due (r : Receiving) : Bool :=
  r.ranges.complete r.size || wrappingSub r.ranges.contiguous r.acked ≥ ackEvery

/-- The transfer once a due acknowledgement is accounted for. -/
def acknowledge (r : Receiving) : Receiving :=
  if due r then { r with acked := r.ranges.contiguous } else r

/-- The engine once a written chunk is noted and reported. -/
def progress (ft : FileTransfers) (id : ℕ) (noted : Receiving) : FileTransfers :=
  { ft with receiving := ft.receiving.insert id (acknowledge noted) }.report
    (noted.update id .transferring none)

def dueAck (id : ℕ) (noted : Receiving) : Option FileAction :=
  if due noted then some (.ack ⟨id, noted.ranges.contiguous, fileWindow⟩) else none

/-- Take delivery of part of a file. -/
def onChunk (p : Platform) (ft : FileTransfers) (now : ℕ) (header : FileChunkHeader)
    (data : List UInt8) (w : World) : (Option FileAction × FileTransfers) × World :=
  match ft.receiving[header.transferId]? with
  | none => ((none, ft), w)
  | some r =>
    if saturatingAdd header.offset data.length > r.size then
      match failReceive ft header.transferId "chunk overran the announced size" w with
      | (ft, w) => ((some (.ack (failureAck header.transferId)), ft), w)
    else
      match writeAt r.file header.offset data w with
      | (.error e, w) =>
        match failReceive ft header.transferId ("could not write arriving file: " ++ e.text) w with
        | (ft, w) => ((some (.ack (failureAck header.transferId)), ft), w)
      | (.ok (), w) =>
        let noted := note r now header.offset (saturatingAdd header.offset data.length)
        if noted.ranges.complete noted.size then
          match finish p (ft.progress header.transferId noted) header.transferId w with
          | ((.ok _, ft), w) => ((dueAck header.transferId noted, ft), w)
          | ((.error _, ft), w) => ((some (.ack (failureAck header.transferId)), ft), w)
        else ((dueAck header.transferId noted, ft.progress header.transferId noted), w)

/-! ### Expiry -/

def expired (now lastProgress : ℕ) : Bool := now - lastProgress ≥ stallTimeout

def expireSend (now : ℕ) (ft : FileTransfers) (id : ℕ) : FileTransfers :=
  match ft.sending[id]? with
  | none => ft
  | some s =>
    if expired now s.lastProgress then
      ft.dropSending id s "file send timed out without peer progress"
    else ft

def expireReceive (now : ℕ) (st : FileTransfers × World) (id : ℕ) : FileTransfers × World :=
  match st.1.receiving[id]? with
  | none => st
  | some r =>
    if expired now r.lastProgress then
      failReceive st.1 id "incomplete file receive timed out" st.2
    else st

def expireSends (ft : FileTransfers) (now : ℕ) : FileTransfers :=
  ft.sending.keys.foldl (expireSend now) ft

def expireReceives (ft : FileTransfers) (now : ℕ) (w : World) : FileTransfers × World :=
  ft.receiving.keys.foldl (expireReceive now) (ft, w)

/-- Fail every transfer that has made no progress for too long. -/
def expireStalled (ft : FileTransfers) (now : ℕ) (w : World) : FileTransfers × World :=
  (ft.expireSends now).expireReceives now w

/-! ### One step of the engine -/

end FileTransfers

/-- A world the receiver has not touched yet. -/
def World.start (env : Env) (fs : FileSystem) : World := ⟨env, fs, 0, 0, 0, []⟩

/-- A call on the file engine, with the time of day. -/
inductive FileOp
  | send (now : ℕ) (source : Source)
  | pump (now pick : ℕ) (reads : List (Except Fault (List UInt8)))
  | ack (now : ℕ) (ack : FileAck)
  | offer (now : ℕ) (offer : FileOffer)
  | chunk (now : ℕ) (header : FileChunkHeader) (data : List UInt8)
  | expire (now : ℕ)

/-- What a call puts on the wire, and what it leaves. -/
def FileTransfers.apply (p : Platform) (st : FileTransfers × World) :
    FileOp → Option FileAction × FileTransfers × World
  | .send now source =>
    let sent := st.1.sendFile p.blake3 now source
    (sent.1.toOption, sent.2, st.2)
  | .pump now pick reads =>
    let pumped := st.1.pump now pick reads
    (pumped.1, pumped.2, st.2)
  | .ack now ack => (none, st.1.onAck now ack, st.2)
  | .offer now offer =>
    let answered := st.1.onOffer p now offer st.2
    (answered.1.1, answered.1.2, answered.2)
  | .chunk now header data =>
    let answered := st.1.onChunk p now header data st.2
    (answered.1.1, answered.1.2, answered.2)
  | .expire now => (none, st.1.expireStalled now st.2)

end NebulaDesk
