/-
The file system the receiving side writes to.

Every call first gives other programs a turn, may then fail for a reason of its
own, and otherwise acts on what it finds at that moment.  `World.effects`
lists what the receiver did to names and contents, in order.
-/
import NebulaDesk.Agent.Paths
import NebulaDesk.Lib.Command

namespace NebulaDesk

inductive ErrorKind
  | notFound | alreadyExists | other
deriving DecidableEq, Repr

/-- An error of a call, or of the code around it. -/
structure Fault where
  kind : ErrorKind
  text : String
deriving DecidableEq, Repr

namespace Fault

def message (text : String) : Fault := ⟨.other, text⟩

/-- `anyhow`'s context, as its alternate format prints it. -/
def context (e : Fault) (text : String) : Fault := ⟨.other, text ++ ": " ++ e.text⟩

end Fault

/-- What a name stands for: a regular file, or a folder or anything else that is
not one. -/
inductive Entry
  | file (inode : ℕ)
  | folder
deriving DecidableEq, Repr

structure FileSystem where
  entries : PathBuf → Option Entry
  contents : ℕ → List UInt8

/-- What happens around one call. -/
structure Turn where
  /-- What other programs do before it. -/
  others : FileSystem → FileSystem
  /-- Why the call fails, if it does. -/
  failure : Option Fault
  /-- How many bytes a failing write leaves behind. -/
  written : ℕ

/-- What the receiver does to the file system. -/
inductive Effect
  | folder (path : PathBuf)
  /-- A new empty file, and what was there before. -/
  | created (path : PathBuf) (inode : ℕ) (before : Option Entry)
  | wrote (inode : ℕ)
  /-- A new name for a file with these contents, and what was there before. -/
  | published (path : PathBuf) (contents : List UInt8) (before : Option Entry)
  | removed (path : PathBuf) (entry : Entry)
deriving DecidableEq

/-- The characters of a printed random identifier. -/
def uuidChars : Text :=
  ['0', '1', '2', '3', '4', '5', '6', '7', '8', '9', 'a', 'b', 'c', 'd', 'e', 'f', '-']

/-- What surrounds the receiver. -/
structure Env where
  /-- The name an entry is kept under; a file system need not tell all paths apart. -/
  canon : PathBuf → PathBuf
  turns : ℕ → Turn
  uuids : ℕ → Text
  uuid_chars : ∀ k, ∀ c ∈ uuids k, c ∈ uuidChars

structure World where
  env : Env
  fs : FileSystem
  /-- The next call. -/
  tick : ℕ
  /-- The next unused inode. -/
  fresh : ℕ
  /-- The next random identifier. -/
  drawn : ℕ
  effects : List Effect

/-- Commands of the receiving side. -/
abbrev Sys (α : Type) : Type := Cmd World Fault α

namespace World

def entry (w : World) (path : PathBuf) : Option Entry := w.fs.entries (w.env.canon path)

def setEntry (w : World) (path : PathBuf) (e : Option Entry) : World :=
  { w with fs := { w.fs with entries := Function.update w.fs.entries (w.env.canon path) e } }

def setContents (w : World) (inode : ℕ) (bytes : List UInt8) : World :=
  { w with fs := { w.fs with contents := Function.update w.fs.contents inode bytes } }

def did (w : World) (e : Effect) : World := { w with effects := w.effects ++ [e] }

/-- The world once the other programs have had their turn. -/
def next (w : World) : World :=
  { w with
    fs := (w.env.turns w.tick).others w.fs
    tick := w.tick + 1 }

end World

/-- A call: others first, then its own failure, then what it does. -/
def call {α : Type} (act : World → Except Fault α × World) : Sys α := fun w =>
  match (w.env.turns w.tick).failure with
  | some e => (.error e, w.next)
  | none => act w.next

/-- Bytes with `data` put at `offset`, a gap filled with zeros. -/
def overwrite (bytes : List UInt8) (offset : ℕ) (data : List UInt8) : List UInt8 :=
  (bytes ++ List.replicate (offset - bytes.length) 0).take offset ++ data
    ++ bytes.drop (offset + data.length)

/-- A folder and those it lies in, outermost first. -/
def PathBuf.ancestors (path : PathBuf) : List PathBuf :=
  (List.range path.parts.length).map fun k => { path with parts := path.parts.take (k + 1) }

def makeFolder (w : World) (path : PathBuf) : World :=
  if (w.entry path).isNone then (w.setEntry path (some .folder)).did (.folder path) else w

def createDirAll (path : PathBuf) : Sys Unit :=
  call fun w =>
    match w.entry path with
    | some (.file _) => (.error ⟨.alreadyExists, "file exists"⟩, w)
    | _ => (.ok (), path.ancestors.foldl makeFolder w)

def symlinkMetadata (path : PathBuf) : Sys Entry :=
  call fun w =>
    match w.entry path with
    | none => (.error ⟨.notFound, "entity not found"⟩, w)
    | some e => (.ok e, w)

/-- Open for writing, `create_new`: the name must be free. -/
def createNew (path : PathBuf) : Sys ℕ :=
  call fun w =>
    match w.entry path with
    | some _ => (.error ⟨.alreadyExists, "file exists"⟩, w)
    | none =>
      (.ok w.fresh,
        { ((w.setEntry path (some (.file w.fresh))).setContents w.fresh []).did
            (.created path w.fresh (w.entry path)) with fresh := w.fresh + 1 })

/-- `seek` and `write_all` on an open file; a failing one may have written some. -/
def writeAt (inode offset : ℕ) (data : List UInt8) : Sys Unit := fun w =>
  let t := w.env.turns w.tick
  let w := w.next
  let put := fun bytes =>
    (w.setContents inode (overwrite (w.fs.contents inode) offset bytes)).did (.wrote inode)
  match t.failure with
  | some e => (.error e, put (data.take t.written))
  | none => (.ok (), put data)

def syncAll (_inode : ℕ) : Sys Unit := call fun w => (.ok (), w)

/-- Open a name and read it to its end. -/
def readAll (path : PathBuf) : Sys (List UInt8) :=
  call fun w =>
    match w.entry path with
    | none => (.error ⟨.notFound, "entity not found"⟩, w)
    | some .folder => (.error ⟨.other, "is a directory"⟩, w)
    | some (.file inode) => (.ok (w.fs.contents inode), w)

/-- Restore the sender's modification time where the platform allows it: a call
whose result is ignored and that changes neither names nor contents. -/
def setModified (_path : PathBuf) (secs : ℤ) : Sys Unit := fun w =>
  if secs < 0 then (.ok (), w) else (.ok (), w.next)

def FileSystem.read (fs : FileSystem) : Entry → List UInt8
  | .file inode => fs.contents inode
  | .folder => []

/-- Publish under a free name: a hard link, or the exclusive rename of macOS. -/
def publishNoReplace (rename : Bool) (source destination : PathBuf) : Sys Unit :=
  call fun w =>
    match w.entry source, w.entry destination with
    | none, _ => (.error ⟨.notFound, "entity not found"⟩, w)
    | some _, some _ => (.error ⟨.alreadyExists, "file exists"⟩, w)
    | some e, none =>
      if rename then
        (.ok (), (((w.setEntry destination (some e)).did
          (.published destination (w.fs.read e) (w.entry destination))).setEntry source none).did
            (.removed source e))
      else if e = .folder then (.error ⟨.other, "operation not permitted"⟩, w)
      else
        (.ok (), (w.setEntry destination (some e)).did
          (.published destination (w.fs.read e) (w.entry destination)))

def removeFile (path : PathBuf) : Sys Unit :=
  call fun w =>
    match w.entry path with
    | none => (.error ⟨.notFound, "entity not found"⟩, w)
    | some .folder => (.error ⟨.other, "is a directory"⟩, w)
    | some (.file inode) => (.ok (), (w.setEntry path none).did (.removed path (.file inode)))

end NebulaDesk
