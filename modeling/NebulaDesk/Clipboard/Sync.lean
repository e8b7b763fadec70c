/-
Keeping two clipboards in step (`nebula-agent/src/clipboard.rs`).

`ClipboardSync` watches one clipboard through `ClipboardAccess`, which is
whatever the platform offers: a `read`, a `write`, perhaps a change counter and
perhaps a list of copied files.  The functions follow the source operation by
operation; each returns what the operation returns and the state it leaves.

`Desktop` is the clipboard of a machine: local programs may replace what it
holds before any call, and any call may fail.
-/
import NebulaDesk.Agent.Paths
import NebulaDesk.Proto.Clipboard

namespace NebulaDesk

/-- How large a clipboard payload may be before it is refused. -/
def maxContents : ℕ := 64 * 1024 * 1024

/-- One representation of a clipboard's contents. -/
structure Contents where
  format : ClipboardFormat
  bytes : List UInt8
deriving DecidableEq, Repr

inductive PngColor
  | rgba
  | rgb
  | grayscale
  | grayscaleAlpha
  | indexed
deriving DecidableEq, Repr

structure PngFrame where
  width : ℕ
  height : ℕ
  color : PngColor
  buffer : List UInt8
deriving DecidableEq, Repr

structure ImageData where
  width : ℕ
  height : ℕ
  bytes : List UInt8
deriving DecidableEq, Repr

/-- The libraries this side is linked against. -/
structure Host where
  blake3 : List UInt8 → List UInt8
  /-- The width and height a PNG declares. -/
  pngInfo : List UInt8 → Except String (ℕ × ℕ)
  /-- Decode a PNG, expanded to eight-bit samples, within `maxContents` bytes. -/
  pngFrame : List UInt8 → Except String PngFrame
  /-- What the native clipboard gives back for what was put there. -/
  kept : Contents → Contents

def toRgba : PngColor → List UInt8 → Except String (List UInt8)
  | .rgba, buffer => .ok buffer
  | .rgb, buffer => .ok (rgb buffer)
  | .grayscale, buffer => .ok (buffer.flatMap fun g => [g, g, g, 0xff])
  | .grayscaleAlpha, buffer => .ok (grayAlpha buffer)
  | .indexed, _ => .error "indexed PNGs are expanded by the decoder, so this cannot happen"
where
  rgb : List UInt8 → List UInt8
    | r :: g :: b :: rest => r :: g :: b :: 0xff :: rgb rest
    | _ => []
  grayAlpha : List UInt8 → List UInt8
    | g :: a :: rest => g :: g :: g :: a :: grayAlpha rest
    | _ => []

def decodePng (host : Host) (bytes : List UInt8) : Except String ImageData := do
  let (width, height) ← host.pngInfo bytes
  if width * height > maxContents / 4 then throw "clipboard image is too large"
  let frame ← host.pngFrame bytes
  let rgba ← toRgba frame.color frame.buffer
  return ⟨frame.width, frame.height, rgba⟩

/-- What one side remembers of contents: pixels for an image, bytes otherwise. -/
def Contents.digest (host : Host) (c : Contents) : Except String (List UInt8) := do
  if c.bytes.length > maxContents then throw "clipboard contents too large to fingerprint"
  if c.format = .png then
    let image ← decodePng host c.bytes
    return host.blake3 (c.format.toU8 :: (Bytes.toLeBytes 8 image.width ++
      (Bytes.toLeBytes 8 image.height ++ image.bytes)))
  else
    return host.blake3 (c.format.toU8 :: c.bytes)

/-- A clipboard this machine can read and write. -/
structure ClipboardAccess (C : Type) where
  read : C → Except String (Option Contents) × C
  write : Contents → C → Except String Unit × C
  generation : C → Option ℕ × C
  readFiles : C → Except String (Option (List PathBuf)) × C

/-- What one side of the clipboard sync should do next. -/
inductive ClipboardAction
  | offer (offer : ClipboardOffer)
  | request (request : ClipboardRequest)
  | data (header : ClipboardDataHeader) (bytes : List UInt8)
  | files (paths : List PathBuf)
deriving DecidableEq

structure ClipboardSync (C : Type) where
  clipboard : C
  /-- What this side last saw or wrote, so neither is announced back. -/
  known : Option (List UInt8)
  /-- The generation the last poll read at, when the platform has one. -/
  generation : Option ℕ
  /-- The offer this side most recently made, and what it was offering. -/
  outgoing : Option (ℕ × Contents)
  /-- A `u64`, which starts again from zero. -/
  nextOffer : ℕ
  enabled : Bool
  filesEnabled : Bool
  knownFiles : Option (List PathBuf)

namespace ClipboardSync

variable {C : Type}

/-- Watch file-copy gestures independently of the text/image permission. -/
def withFileTransfer (clipboard : C) (enabled filesEnabled : Bool) : ClipboardSync C :=
  ⟨clipboard, none, none, none, 1, enabled, filesEnabled, none⟩

variable (host : Host) (access : ClipboardAccess C)

/-- The last part of `prime`: remember what is on the clipboard. -/
def primeContents (s : ClipboardSync C) : ClipboardSync C :=
  if s.enabled then
    match access.read s.clipboard with
    | (.ok (some contents), c) =>
      match contents.digest host with
      | .ok digest => { s with clipboard := c, known := some digest }
      | .error _ => { s with clipboard := c }
    | (_, c) => { s with clipboard := c }
  else s

/-- Adopt the current contents without announcing them. -/
def prime (s : ClipboardSync C) : ClipboardSync C :=
  if !s.enabled && !s.filesEnabled then s
  else
    let (generation, c) := access.generation s.clipboard
    let s := { s with clipboard := c, generation := generation }
    -- A native generation baseline avoids reading pre-session contents at all.
    if generation.isSome then s
    else
      match access.readFiles s.clipboard with
      | (.ok (some files), c) => { s with clipboard := c, knownFiles := some files }
      | (.error _, c) => { s with clipboard := c }
      | (.ok none, c) => primeContents host access { s with clipboard := c }

/-- Change text/image sync without changing permission to copy files. -/
def setEnabled (enabled : Bool) (s : ClipboardSync C) : ClipboardSync C :=
  if s.enabled = enabled then s
  else
    let s := { s with enabled := enabled, outgoing := none, known := none }
    if enabled then prime host access s else s

/-- Announce contents that this side has not seen before. -/
def announce (contents : Contents) (s : ClipboardSync C) :
    Option ClipboardAction × ClipboardSync C :=
  if contents.bytes.length > maxContents then (none, { s with outgoing := none })
  else
    match contents.digest host with
    | .error _ => (none, { s with outgoing := none })
    | .ok digest =>
      if s.known = some digest then (none, s)
      else
        (some (.offer ⟨s.nextOffer, [contents.format], contents.bytes.length⟩),
          { s with
            known := some digest
            nextOffer := (s.nextOffer + 1) % 2 ^ 64
            outgoing := some (s.nextOffer, contents) })

/-- Whether the clipboard changed under a poll that started at `generation`. -/
def moved (generation : Option ℕ) (s : ClipboardSync C) : Bool × ClipboardSync C :=
  if generation.isSome then
    let (now, c) := access.generation s.clipboard
    (now ≠ generation, { s with clipboard := c })
  else (false, s)

/-- The part of `poll` that looks at text and images. -/
def pollContents (generation : Option ℕ) (s : ClipboardSync C) :
    Option ClipboardAction × ClipboardSync C :=
  if !s.enabled then (none, s)
  else
    match access.read s.clipboard with
    | (.ok none, c) => (none, { s with clipboard := c, outgoing := none, known := none })
    | (.error _, c) => (none, { s with clipboard := c, outgoing := none })
    | (.ok (some contents), c) =>
      let (stale, s) := moved access generation { s with clipboard := c }
      if stale then (none, s) else announce host contents s

/-- A file-copy gesture, and whether it is a new one. -/
def announceFiles (generation : Option ℕ) (files : List PathBuf) (s : ClipboardSync C) :
    Option ClipboardAction × ClipboardSync C :=
  let files := files.eraseDups
  let changed := generation.isSome || s.knownFiles ≠ some files
  (if s.filesEnabled && changed && !files.isEmpty then some (.files files) else none,
    { s with outgoing := none, known := none, knownFiles := some files })

/-- The part of `poll` after the change counter. -/
def pollFiles (generation : Option ℕ) (s : ClipboardSync C) :
    Option ClipboardAction × ClipboardSync C :=
  match access.readFiles s.clipboard with
  | (.ok (some files), c) =>
    let (stale, s) := moved access generation { s with clipboard := c }
    if stale then (none, s) else announceFiles generation files s
  | (.error _, c) => (none, { s with clipboard := c, outgoing := none })
  | (.ok none, c) => pollContents host access generation { s with clipboard := c, knownFiles := none }

/-- Look for a local change worth announcing. -/
def poll (s : ClipboardSync C) : Option ClipboardAction × ClipboardSync C :=
  if !s.enabled && !s.filesEnabled then (none, s)
  else
    let (generation, c) := access.generation s.clipboard
    let s := { s with clipboard := c }
    match generation with
    | some g =>
      if s.generation = some g then (none, s)
      else pollFiles host access generation { s with generation := some g }
    | none => pollFiles host access generation s

/-- Decide whether to fetch what the peer is offering. -/
def onOffer (offer : ClipboardOffer) (s : ClipboardSync C) : Option ClipboardAction :=
  if !s.enabled then none
  else if offer.sizeHint > maxContents then none
  else
    (offer.formats.find? fun f => f = .text || f = .png).map fun format =>
      .request ⟨offer.offerId, format⟩

/-- Answer a request, if it is for the offer this side still holds. -/
def onRequest (request : ClipboardRequest) (s : ClipboardSync C) : Option ClipboardAction :=
  if !s.enabled then none
  else
    match s.outgoing with
    | none => none
    | some (offerId, contents) =>
      if offerId ≠ request.offerId || contents.format ≠ request.format then none
      else some (.data ⟨offerId, contents.format⟩ contents.bytes)

/-- Whether contents from the peer may be written, and their digest. -/
def acceptData (header : ClipboardDataHeader) (bytes : List UInt8) (s : ClipboardSync C) :
    Except String (List UInt8) := do
  if !s.enabled then throw "this session may not synchronise the clipboard"
  if bytes.length > maxContents then
    throw s!"the peer sent {bytes.length} bytes of clipboard content, over the {maxContents} byte limit"
  if header.format ≠ .text && header.format ≠ .png then throw "unsupported clipboard format"
  Contents.digest host ⟨header.format, bytes⟩

/-- Put contents the peer sent onto this machine's clipboard. -/
def onData (header : ClipboardDataHeader) (bytes : List UInt8) (s : ClipboardSync C) :
    Except String Unit × ClipboardSync C :=
  match acceptData host header bytes s with
  | .error e => (.error e, s)
  | .ok digest =>
    -- A generation read after write may already belong to a new local copy.
    match access.write ⟨header.format, bytes⟩ s.clipboard with
    | (.error e, c) => (.error e, { s with clipboard := c, generation := none })
    | (.ok (), c) =>
      (.ok (), { s with
        clipboard := c
        generation := none
        known := some digest
        knownFiles := none
        outgoing := none })

end ClipboardSync

/-! ### The desktop clipboard -/

/-- What a local program puts on the clipboard. -/
structure LocalCopy where
  contents : Option Contents
  files : Option (List PathBuf)
deriving DecidableEq

/-- What goes on around one operation: which calls fail, and what local programs
copy just before the first call, the second call, and so on. -/
structure Weather where
  filesFail : Bool
  readFail : Bool
  writeFail : Bool
  copies : List (Option LocalCopy)
deriving DecidableEq

/-- Nothing fails and nobody copies. -/
def Weather.calm : Weather := ⟨false, false, false, []⟩

/-- The clipboard of a machine. -/
structure Desktop where
  /-- Whether the platform exposes its change counter. -/
  counted : Bool
  counter : ℕ
  contents : Option Contents
  files : Option (List PathBuf)
  /-- Whether it holds what the peer sent, and nothing else was copied since. -/
  foreign : Bool
  weather : Weather
deriving DecidableEq

namespace Desktop

/-- A local program replaces the contents. -/
def copy (x : LocalCopy) (d : Desktop) : Desktop :=
  { d with
    counter := d.counter + 1
    contents := x.contents
    files := x.files
    foreign := d.foreign && (d.contents = x.contents && d.files = x.files) }

/-- Time passes until the next call: a local program may get in first. -/
def tick (d : Desktop) : Desktop :=
  let d' := { d with weather := { d.weather with copies := d.weather.copies.tail } }
  match d.weather.copies.head? with
  | some (some x) => d'.copy x
  | _ => d'

/-- What `arboard` reports for a clipboard it cannot reach. -/
def occupied : String :=
  "The native clipboard is not accessible due to being held by an other party."

/-- The checks `SystemClipboard::write` makes before it touches the clipboard. -/
def representable (host : Host) (c : Contents) : Except String Unit :=
  match c.format with
  | .text | .html =>
    if (ByteArray.mk c.bytes.toArray).validateUTF8 then .ok () else .error "invalid utf-8 sequence"
  | .png => (decodePng host c.bytes).map fun _ => ()
  | .fileList => .error "file lists are transferred as files, not pasted"

/-- Replace the contents on behalf of the peer. -/
def write (host : Host) (c : Contents) (d : Desktop) : Except String Unit × Desktop :=
  let d := d.tick
  match representable host c with
  | .error e => (.error e, d)
  | .ok () =>
    if d.weather.writeFail then (.error occupied, d)
    else
      (.ok (), { d with
        counter := d.counter + 1
        contents := some (host.kept c)
        files := none
        foreign := true })

def read (d : Desktop) : Except String (Option Contents) × Desktop :=
  let d := d.tick
  (if d.weather.readFail then .error occupied else .ok d.contents, d)

def generation (d : Desktop) : Option ℕ × Desktop :=
  let d := d.tick
  (if d.counted then some d.counter else none, d)

def readFiles (d : Desktop) : Except String (Option (List PathBuf)) × Desktop :=
  let d := d.tick
  (if d.weather.filesFail then .error occupied else .ok d.files, d)

/-- The desktop clipboard of the machine this is running on. -/
def access (host : Host) : ClipboardAccess Desktop :=
  ⟨read, write host, generation, readFiles⟩

end Desktop

end NebulaDesk
