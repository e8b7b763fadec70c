/-
Native windows on macOS (`nebula-agent/src/platform/macos/application.rs`,
`MacApplication::snapshot`, `ax_not_ready_with` and `Ax::window_tree`).

A snapshot reads the window server's list and the accessibility tree, which are
independent, and matches them by their bounds.  A window enters the result if it is
matched and owned; a known window also does if its content is not ready, or if nothing
matches it and its native handle is live.  `Observation` is what the system answers
during one call; every question has an answer of its own, so that windows may vanish
between two of them.
-/
import NebulaDesk.Agent.Surfaces

namespace NebulaDesk

open Std (ExtTreeMap)

/-- The operations on bounds, which are four `f64`.  Bounds that compare equal are
equal, as valid ones are finite. -/
structure Geometry (β : Type) where
  /-- `Bounds::matches`: less than one apart in each coordinate. -/
  agree : β → β → Bool
  /-- `Bounds::valid`. -/
  valid : β → Bool
  /-- The even dimensions a window is encoded in. -/
  size : β → ℕ × ℕ
  validSize_size : ∀ b, valid b = true → validSize (size b).1 (size b).2 = true

/-- An error of the native layer; `axAttribute` is an `AxAttributeError`. -/
inductive MacError
  | axAttribute (name : String) (status : ℤ)
  | text (message : String)
  | panic (message : String)
deriving DecidableEq

namespace MacError

/-- InvalidUIElement, CannotComplete and NoValue: the accessibility server of the
application is not there yet, or busy. -/
def isReadiness : MacError → Bool
  | axAttribute _ status => status = -25202 || status = -25204 || status = -25212
  | _ => false

/-- The list of windows itself timed out. -/
def isDiscoveryTimeout : MacError → Bool
  | axAttribute name status => name = "AXWindows" && status = -25204
  | _ => false

end MacError

/-- An accessibility element, and the index of the one it is a sheet of. -/
abbrev AxTree := List (ℕ × Option ℕ)

/-- What the system answers during one snapshot. -/
structure Observation (β : Type) where
  /-- The process is not running any more. -/
  terminated : Bool
  identity : Except MacError Unit
  /-- `application_windows`: the numbers and bounds the window server lists. -/
  windows : Except MacError (List (ℕ × β))
  /-- Window numbers are unique. -/
  distinct : ∀ l, windows = .ok l → (l.map (·.1)).Nodup
  /-- `Ax::application`. -/
  application : Except MacError Unit
  /-- `AXWindows`. -/
  roots : Except MacError (List ℕ)
  /-- The sheets of the window at an index of the tree. -/
  sheets : ℕ → Except MacError (List ℕ)
  /-- The bounds of the window at an index of the tree. -/
  bounds : ℕ → Option β
  /-- `owns_content`, for the match of the window at a position of the list. -/
  owns : ℕ → Except MacError Bool
  minimized : ℕ → Option Bool
  title : ℕ → Option Text
  modal : ℕ → Option Bool
  /-- `live_window` finds a remembered window with the process. -/
  live : ℕ → Bool
  /-- `AXMinimized` of the only candidate for a remembered window. -/
  stillMinimized : ℕ → Option Bool
  /-- The verifier accepts a remembered window, within its budget. -/
  verified : ℕ → Bool
  /-- The deadline for the first window has passed. -/
  late : Bool

structure MacWindow (β : Type) where
  cgId : ℕ
  axIdentity : Option ℕ
  resumableFrom : Option ℕ
  bounds : β
  surface : NativeSurface
deriving DecidableEq

structure MacApplication (β : Type) where
  windows : ExtTreeMap ℕ (MacWindow β)
  unavailable : Finset ℕ
  retired : Finset ℕ
  nextId : ℕ
  seenWindow : Bool

/-! ### The accessibility tree -/

namespace AxTree

/-- The sheets of the window at `index`, into the tree. -/
def addSheets (index : ℕ) : AxTree → List ℕ → Except MacError AxTree
  | windows, [] => .ok windows
  | windows, child :: rest =>
    match windows.findIdx? (·.1 = child) with
    | some existing =>
      if existing = index then .error (.text "cyclic AX sheet relationship")
      else addSheets index (windows.modify existing fun w => (w.1, some index)) rest
    | none => addSheets index (windows ++ [(child, some index)]) rest

/-- The loop of `window_tree`.  Every round looks at one more of at most 64 windows. -/
def grow (sheets : ℕ → Except MacError (List ℕ)) : ℕ → ℕ → AxTree → Except MacError AxTree
  | 0, _, windows => .ok windows
  | fuel + 1, index, windows =>
    if index < windows.length then
      if 64 < windows.length then .error (.text "AX window hierarchy exceeds bound")
      else
        match sheets index with
        | .error e => .error e
        | .ok children =>
          match addSheets index windows children with
          | .error e => .error e
          | .ok windows => grow sheets fuel (index + 1) windows
    else .ok windows

def parentAt (tree : AxTree) (index : ℕ) : Option ℕ := tree[index]?.bind (·.2)

end AxTree

namespace Observation

variable {β : Type}

/-- `window_tree`. -/
def windowTree (o : Observation β) : Except MacError AxTree :=
  match o.roots with
  | .error e => .error e
  | .ok roots => AxTree.grow o.sheets 65 0 (roots.map fun w => (w, none))

/-- What is read before the tree. -/
def enumerate (o : Observation β) : Except MacError (List (ℕ × β)) := do
  o.identity
  let windows ← o.windows
  o.application
  return windows

/-- The accessibility windows at some bounds. -/
def candidates (g : Geometry β) (o : Observation β) (tree : AxTree) (bounds : β) : List ℕ :=
  (List.range tree.length).filter fun index => (o.bounds index).any (g.agree · bounds)

end Observation

/-! ### The windows of the window server -/

/-- What a snapshot makes of a listed window. -/
inductive Fate
  /-- Retired, of invalid bounds, or matched by none or several. -/
  | skipped
  /-- Its content is temporarily unavailable. -/
  | unready
  /-- Its content belongs to another process. -/
  | rejected
  | matched (index : ℕ)
deriving DecidableEq

/-- What the loops of a snapshot carry. -/
structure Scan (β : Type) where
  current : ExtTreeMap ℕ (MacWindow β)
  unavailable : Finset ℕ
  axToNative : List (ℕ × ℕ)
  parents : List (ℕ × Option ℕ)
  rejected : Finset ℕ
  nextId : ℕ

namespace MacApplication

variable {β : Type} [DecidableEq β]

/-- A launch owns no window yet. -/
def launch : MacApplication β where
  windows := ∅
  unavailable := ∅
  retired := ∅
  nextId := 1
  seenWindow := false

def surfaces (app : MacApplication β) : List NativeSurface :=
  app.windows.toList.map (·.2.surface)

/-- The known window of a number. -/
def find (app : MacApplication β) (cgId : ℕ) : Option (MacWindow β) :=
  (app.windows.toList.find? (·.2.cgId = cgId)).map (·.2)

/-- The checks on the window at position `n` of the list. -/
def fate (g : Geometry β) (app : MacApplication β) (o : Observation β) (tree : AxTree) (n : ℕ)
    (w : ℕ × β) : Except MacError Fate :=
  if w.1 ∈ app.retired ∨ g.valid w.2 = false then .ok .skipped
  else
    match o.candidates g tree w.2 with
    | [index] =>
      match o.owns n with
      | .ok true => .ok (.matched index)
      | .ok false => .ok .rejected
      | .error e => if e.isReadiness then .ok .unready else .error e
    | _ => .ok .skipped

/-- The window is where, what and how it was. -/
def unchanged (old : MacWindow β) (bounds : β) (element : Option ℕ) (minimized : Bool) : Bool :=
  old.bounds = bounds && old.axIdentity.isSome && old.axIdentity = element &&
    old.surface.minimized = minimized

/-- The generation a window was suspended with, if it comes back as it was. -/
def resumableFrom (app : MacApplication β) (previous : Option (MacWindow β)) (bounds : β)
    (element : Option ℕ) (minimized : Bool) : Option ℕ :=
  (previous.filter fun old => unchanged old bounds element minimized &&
    old.surface.nativeId ∈ app.unavailable).map (·.surface.geometryGeneration)

/-- The generation of a matched window; `none` when it is exhausted. -/
def generation (previous : Option (MacWindow β)) (bounds : β) (element : Option ℕ)
    (minimized : Bool) (resumable : Option ℕ) : Option ℕ :=
  match previous with
  | none => some 1
  | some old =>
    if unchanged old bounds element minimized && resumable.isNone then
      some old.surface.geometryGeneration
    else if old.surface.geometryGeneration + 1 < 2 ^ 32 then
      some (old.surface.geometryGeneration + 1)
    else none

/-- A matched window is authorized, without its parent yet. -/
def authorize (g : Geometry β) (app : MacApplication β) (o : Observation β) (tree : AxTree)
    (n : ℕ) (w : ℕ × β) (index : ℕ) (scan : Scan β) : Except MacError Unit × Scan β :=
  let previous := app.find w.1
  let element := tree[index]?.map (·.1)
  let id := (previous.map (·.surface.nativeId)).getD scan.nextId
  let nextId := if previous.isSome then scan.nextId else scan.nextId + 1
  if ¬ nextId < 2 ^ 64 then (.error (.text "native IDs exhausted"), scan)
  else
    let minimized := (o.minimized n).getD false
    let resumable := app.resumableFrom previous w.2 element minimized
    match generation previous w.2 element minimized resumable with
    | none => (.error (.text "geometry exhausted"), { scan with nextId })
    | some generation =>
      let surface : NativeSurface :=
        { nativeId := id, parent := none, title := (o.title n).getD [],
          width := (g.size w.2).1, height := (g.size w.2).2, scale := ⟨0x3f800000⟩,
          geometryGeneration := generation,
          modal := (tree.parentAt index).isSome || (o.modal n).getD false, minimized }
      (.ok (), { scan with
        current := scan.current.insert id ⟨w.1, element, resumable, w.2, surface⟩
        axToNative := scan.axToNative ++ [(index, id)]
        parents := scan.parents ++ [(id, tree.parentAt index)]
        nextId })

/-- One round of the first loop. -/
def scanWindow (g : Geometry β) (app : MacApplication β) (o : Observation β) (tree : AxTree)
    (n : ℕ) (w : ℕ × β) (scan : Scan β) : Except MacError Unit × Scan β :=
  match app.fate g o tree n w with
  | .error e => (.error e, scan)
  | .ok .skipped => (.ok (), scan)
  | .ok .unready =>
    -- Not authority to suspend unrelated windows, nor to publish a new one.
    match app.find w.1 with
    | none => (.ok (), scan)
    | some old => (.ok (), { scan with
        unavailable := insert old.surface.nativeId scan.unavailable
        current := scan.current.insert old.surface.nativeId old })
  | .ok .rejected => (.ok (), { scan with rejected := insert w.1 scan.rejected })
  | .ok (.matched index) => app.authorize g o tree n w index scan

def scanAll (g : Geometry β) (app : MacApplication β) (o : Observation β) (tree : AxTree) :
    ℕ → List (ℕ × β) → Scan β → Except MacError Unit × Scan β
  | _, [], scan => (.ok (), scan)
  | n, w :: rest, scan =>
    match app.scanWindow g o tree n w scan with
    | (.error e, scan) => (.error e, scan)
    | (.ok (), scan) => app.scanAll g o tree (n + 1) rest scan

/-! ### Sheets -/

/-- A sheet is authorized only with its proven parent present. -/
def linkSheet (axToNative : List (ℕ × ℕ)) (current : ExtTreeMap ℕ (MacWindow β)) :
    ℕ × Option ℕ → Except MacError (ExtTreeMap ℕ (MacWindow β))
  | (_, none) => .ok current
  | (id, some parent) =>
    match axToNative.find? (·.1 = parent) with
    | none => .ok (current.erase id)
    | some (_, parentId) =>
      match current[id]? with
      | none => .error (.panic "new surface")
      | some w => .ok (current.insert id
          { w with surface := { w.surface with parent := some parentId } })

def linkSheets (axToNative : List (ℕ × ℕ)) :
    List (ℕ × Option ℕ) → ExtTreeMap ℕ (MacWindow β) → Except MacError (ExtTreeMap ℕ (MacWindow β))
  | [], current => .ok current
  | sheet :: rest, current =>
    match linkSheet axToNative current sheet with
    | .error e => .error e
    | .ok current => linkSheets axToNative rest current

/-! ### Windows that are only remembered -/

/-- The state of the loop over the remembered windows. -/
structure Remembering (β : Type) where
  current : ExtTreeMap ℕ (MacWindow β)
  unavailable : Finset ℕ
  retired : Finset ℕ

/-- The window as it is remembered, and whether its capture is suspended; `none` when
the generation is exhausted. -/
def preserved (g : Geometry β) (o : Observation β) (tree : AxTree) (old : MacWindow β) :
    Option (MacWindow β × Bool) :=
  match o.candidates g tree old.bounds with
  | [_] =>
    match o.stillMinimized old.surface.nativeId with
    | none => some (old, true)
    | some minimized =>
      if old.surface.minimized = minimized then some (old, !minimized)
      else if old.surface.geometryGeneration + 1 < 2 ^ 32 then
        some ({ old with surface := { old.surface with
          geometryGeneration := old.surface.geometryGeneration + 1, minimized } }, !minimized)
      else none
  | _ => some (old, true)

/-- One round: only a vanished native handle retires the number. -/
def preserve (g : Geometry β) (o : Observation β) (tree : AxTree) (rejected : Finset ℕ)
    (old : MacWindow β) (r : Remembering β) : Except MacError Unit × Remembering β :=
  let id := old.surface.nativeId
  if r.current.contains id then (.ok (), r)
  else if old.cgId ∈ rejected then (.ok (), { r with retired := insert old.cgId r.retired })
  else if o.live id then
    match preserved g o tree old with
    | none => (.error (.text "geometry exhausted"), r)
    | some (w, suspended) => (.ok (), { r with
        current := r.current.insert id w
        unavailable := if suspended then insert id r.unavailable else r.unavailable })
  else (.ok (), { r with retired := insert old.cgId r.retired })

def preserveAll (g : Geometry β) (o : Observation β) (tree : AxTree) (rejected : Finset ℕ) :
    List (MacWindow β) → Remembering β → Except MacError Unit × Remembering β
  | [], r => (.ok (), r)
  | old :: rest, r =>
    match preserve g o tree rejected old r with
    | (.error e, r) => (.error e, r)
    | (.ok (), r) => preserveAll g o tree rejected rest r

/-! ### The snapshot -/

/-- The windows whose parent is suspended and that are not. -/
def dependents (current : ExtTreeMap ℕ (MacWindow β)) (unavailable : Finset ℕ) : List ℕ :=
  (current.toList.filter fun w => w.2.surface.nativeId ∉ unavailable &&
    w.2.surface.parent.any (· ∈ unavailable)).map (·.2.surface.nativeId)

/-- The last loop; every round suspends one more window at least. -/
def suspend (current : ExtTreeMap ℕ (MacWindow β)) : ℕ → Finset ℕ → Finset ℕ
  | 0, unavailable => unavailable
  | fuel + 1, unavailable =>
    let more := dependents current unavailable
    if more.isEmpty then unavailable else suspend current fuel (unavailable ∪ more.toFinset)

/-- `ax_not_ready`: known windows are kept, and suspended unless they verify. -/
def axNotReady (app : MacApplication β) (o : Observation β) (e : MacError) :
    Except MacError (List NativeSurface) × MacApplication β :=
  if !e.isReadiness then (.error e, app)
  else if !app.seenWindow then (if o.late then .error e else .ok [], app)
  else
    let verified (w : MacWindow β) : Bool :=
      e.isDiscoveryTimeout && w.surface.nativeId ∉ app.unavailable && !w.surface.minimized &&
        !w.surface.modal && w.surface.parent.isNone && o.verified w.surface.nativeId
    (.ok app.surfaces, { app with
      unavailable := ((app.windows.toList.filter (!verified ·.2)).map (·.1)).toFinset })

def readWindows (g : Geometry β) (app : MacApplication β) (o : Observation β)
    (windows : List (ℕ × β)) (tree : AxTree) :
    Except MacError (List NativeSurface) × MacApplication β :=
  match app.scanAll g o tree 0 windows ⟨∅, ∅, [], [], ∅, app.nextId⟩ with
  | (.error e, scan) =>
    (.error e, { app with unavailable := scan.unavailable, nextId := scan.nextId })
  | (.ok (), scan) =>
    match linkSheets scan.axToNative scan.parents scan.current with
    | .error e => (.error e, { app with unavailable := scan.unavailable, nextId := scan.nextId })
    | .ok current =>
      match preserveAll g o tree scan.rejected (app.windows.toList.map (·.2))
          ⟨current, scan.unavailable, app.retired⟩ with
      | (.error e, r) =>
        (.error e, { app with
          unavailable := r.unavailable, retired := r.retired, nextId := scan.nextId })
      | (.ok (), r) =>
        let app : MacApplication β :=
          { windows := r.current
            unavailable := suspend r.current (r.current.size + 1) r.unavailable
            retired := r.retired
            nextId := scan.nextId
            seenWindow := app.seenWindow || !r.current.isEmpty }
        if !app.seenWindow && o.late then
          (.error (.text "application produced no authorized windows"), app)
        else (.ok app.surfaces, app)

def snapshot (g : Geometry β) (app : MacApplication β) (o : Observation β) :
    Except MacError (List NativeSurface) × MacApplication β :=
  if app.seenWindow && o.terminated then (.ok [], { app with windows := ∅, unavailable := ∅ })
  else
    match o.enumerate with
    | .error e => (.error e, app)
    | .ok windows =>
      match o.windowTree with
      | .error e => app.axNotReady o e
      | .ok tree => app.readWindows g o windows tree

end MacApplication

end NebulaDesk
