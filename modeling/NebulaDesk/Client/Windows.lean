/-
Application windows of the client (`nebula-client/src/application.rs`, and
`HeldInput` of `input.rs`).

Every surface of the remote application is a native window here.  A window event
is turned into commands for the agent, each scoped to the surface and to the
geometry generation the window has last been told; what it keeps down at the agent
is in `held` and `keyboard`.  Rendering is left out, and so is the picture's place
in the window: a pointer event carries its position on the picture.
-/
import NebulaDesk.Client.KeyRuns
import NebulaDesk.Client.Surfaces
import NebulaDesk.Proto.WireFormats

namespace NebulaDesk

open Presses

/-- A position on the picture, as `Viewport::normalise` returns it. -/
structure Position where
  x : F32
  y : F32
  onPicture : UnitRange x ∧ UnitRange y

def Position.origin : Position := ⟨⟨0⟩, ⟨0⟩, ⟨by decide, by decide⟩, by decide, by decide⟩

/-- A usage on the keyboard page, as `hid` returns it. -/
structure HidUsage where
  code : ℕ
  onPage : code ≤ 0xe7

/-- `InputEvent::mouse_move`. -/
def InputEvent.mouseMove (at_ : Position) (modifiers : Modifiers) : InputEvent :=
  ⟨.mouseMove, .none, modifiers.toNat, 0, 0, at_.x, at_.y, ⟨0⟩, ⟨0⟩, 0, 0⟩

/-- `input::scroll`, of a delta in lines. -/
def InputEvent.scroll (dx dy : F32) (at_ : Position) (modifiers : Modifiers) : InputEvent :=
  ⟨.wheel, .none, modifiers.toNat, 0, 0, at_.x, at_.y, dx, dy, 0, 0⟩

/-- Tracks only presses actually forwarded to the agent. -/
structure HeldInput where
  keys : List ℕ
  buttons : List MouseButton
  lastPointer : Position

namespace HeldInput

def empty : HeldInput := ⟨[], [], .origin⟩

def movement (h : HeldInput) (at_ : Position) (modifiers : Modifiers) : HeldInput × InputEvent :=
  let event := InputEvent.mouseMove at_ modifiers
  ({ h with lastPointer := at_ },
    match h.buttons.head? with
    | some button => { event with kind := .mouseDrag, button := button }
    | none => event)

def button (h : HeldInput) (button : MouseButton) (pressed : Bool) (at_ : Option Position)
    (modifiers : Modifiers) : HeldInput × Option InputEvent :=
  if button = .none then (h, none)
  else if pressed then
    match at_ with
    | none => (h, none)
    | some at_ =>
      if button ∈ h.buttons then (h, none)
      else ({ h with buttons := h.buttons ++ [button], lastPointer := at_ },
        some { InputEvent.mouseMove at_ modifiers with kind := .mouseDown, button := button })
  else if button ∈ h.buttons then
    let at_ := at_.getD h.lastPointer
    ({ h with buttons := h.buttons.erase button, lastPointer := at_ },
      some { InputEvent.mouseMove at_ modifiers with kind := .mouseUp, button := button })
  else (h, none)

def releaseButtons (h : HeldInput) (modifiers : Modifiers) : HeldInput × List InputEvent :=
  ({ h with buttons := [] },
    h.buttons.map fun button =>
      { InputEvent.mouseMove h.lastPointer modifiers with kind := .mouseUp, button := button })

def releaseAll (h : HeldInput) : HeldInput × List InputEvent :=
  let r := h.releaseButtons 0
  ({ r.1 with keys := [] }, r.2 ++ h.keys.reverse.map fun key => .ofKey .keyUp key 0)

end HeldInput

/-- A window of the remote application (`NativeSurface`). -/
structure AppWindow where
  info : SurfaceInfo
  held : HeldInput
  keyboard : Mapper
  modifiers : Modifiers
  pointer : Option Position
  closeRequested : Option ℕ
  minimized : Bool
  available : Bool
  focused : Bool

inductive WindowEvent
  | closeRequested (now : ℕ)
  | focused (focused : Bool)
  | modifiersChanged (modifiers : Modifiers)
  | cursorMoved (at_ : Option Position)
  | cursorLeft
  | mouseInput (pressed : Bool) (button : Option MouseButton)
  | mouseWheel (dx dy : F32)
  | keyboardInput (pressed : Bool) (key : Option HidUsage) (again synthetic : Bool)

namespace WindowEvent

def isPointer : WindowEvent → Bool
  | cursorMoved _ | mouseInput _ _ | mouseWheel _ _ => true
  | _ => false

/-- The events a window without a surface to capture ignores. -/
def isInput : WindowEvent → Bool
  | keyboardInput _ _ _ _ => true
  | e => e.isPointer

/-- The events a modal window keeps from the windows below it. -/
def isBlocked : WindowEvent → Bool
  | focused true | mouseInput _ _ | keyboardInput _ _ _ _ | closeRequested _ | cursorMoved _
  | mouseWheel _ _ => true
  | _ => false

def isClose : WindowEvent → Bool
  | closeRequested _ => true
  | _ => false

end WindowEvent

/-- What a window and its commands have become. -/
abbrev Typed := AppWindow × List ApplicationMessage

namespace AppWindow

def input (w : AppWindow) (event : InputEvent) : ApplicationMessage :=
  let event := { event with display := w.info.surfaceId }
  let event :=
    if event.kind.isPointer then { event with modifiers := w.keyboard.remoteMods.toNat } else event
  .input w.info.surfaceId w.info.geometryGeneration event.toBytes

/-- A call of the keyboard's mapper, and the commands for its events. -/
def typed (c : MapperCall) (t : Typed) : Typed :=
  let r := t.1.keyboard.call c
  let w := { t.1 with keyboard := r.1 }
  (w, t.2 ++ r.2.map w.input)

def release (w : AppWindow) : Typed :=
  -- pointer releases retain the mapped modifiers until the following key-ups
  let r := w.held.releaseAll
  let w := { w with held := r.1 }
  let t := typed .releaseAll (w, r.2.map w.input)
  ({ t.1 with pointer := none }, t.2)

def focus (w : AppWindow) : ApplicationMessage :=
  .focus w.info.surfaceId w.info.geometryGeneration

def close (w : AppWindow) : ApplicationMessage :=
  .close w.info.surfaceId w.info.geometryGeneration

/-- `CloseRequest::request`: at most one a second. -/
def mayClose (w : AppWindow) (now : ℕ) : Bool :=
  match w.closeRequested with
  | some at_ => now - at_ ≥ 1000
  | none => true

def pressKey (w : AppWindow) (pressed : Bool) (key : HidUsage) (again synthetic : Bool) : Typed :=
  let event := InputEvent.ofKey (if pressed then .keyDown else .keyUp) key.code w.modifiers
  let t := typed (.observe w.modifiers) (w, [])
  let t := typed (if synthetic then .synthetic event else .key event again) t
  if modifier key.code ≠ 0 then
    ({ t.1 with modifiers := t.1.keyboard.sourceModifiers }, t.2)
  else t

/-- A window event, past the gates of `window_event`. -/
def handle (w : AppWindow) (e : WindowEvent) : Typed :=
  let t : Typed := if w.focused && e.isPointer then
      typed .restore (typed (.observe w.modifiers) (w, []))
    else (w, [])
  let w := t.1
  match e with
  | .closeRequested now =>
    -- never destroyed locally: the remote application may show Save or cancel
    if w.mayClose now then
      let r := w.release
      ({ r.1 with closeRequested := some now }, t.2 ++ r.2 ++ [w.close])
    else t
  | .focused true =>
    let w := { w with focused := true, closeRequested := none }
    typed (.observe w.modifiers) (w, t.2 ++ [w.focus])
  | .focused false =>
    let r := { w with focused := false }.release
    ({ r.1 with modifiers := 0 }, t.2 ++ r.2)
  | .modifiersChanged modifiers =>
    let w := { w with modifiers := modifiers }
    if w.focused && w.available then typed (.observe modifiers) (w, t.2) else (w, t.2)
  | .cursorMoved none => ({ w with pointer := none }, t.2)
  | .cursorMoved (some at_) =>
    let m := w.held.movement at_ w.modifiers
    let w := { w with pointer := some at_, held := m.1 }
    (w, t.2 ++ [w.input m.2])
  | .cursorLeft =>
    let r := w.held.releaseButtons w.modifiers
    let w := { w with pointer := none, held := r.1 }
    (w, t.2 ++ r.2.map w.input)
  | .mouseInput _ none => t
  | .mouseInput pressed (some button) =>
    let r := w.held.button button pressed w.pointer w.modifiers
    let w := { w with held := r.1 }
    (w, t.2 ++ r.2.toList.map w.input)
  | .mouseWheel dx dy =>
    match w.pointer with
    | some at_ => (w, t.2 ++ [w.input (.scroll dx dy at_ w.modifiers)])
    | none => t
  | .keyboardInput _ none _ _ => t
  | .keyboardInput pressed (some key) again synthetic =>
    if !w.focused then
      -- only the modifiers are followed; what was collected is not sent
      if modifier key.code ≠ 0 then
        ({ w with modifiers := if pressed then w.modifiers ||| modifier key.code
            else w.modifiers &&& ~~~modifier key.code }, [])
      else (w, [])
    else
      let r := w.pressKey pressed key again synthetic
      (r.1, t.2 ++ r.2)

/-- The command for a size that is not the surface's. -/
def resized (w : AppWindow) : Option (ℕ × ℕ) → List ApplicationMessage
  | some (width, height) =>
    if (width, height) ≠ (w.info.width, w.info.height) then
      [.resize w.info.surfaceId w.info.geometryGeneration width height]
    else []
  | none => []

/-- The part of `about_to_wait` that is about one window. -/
def wait (w : AppWindow) (resize : Option (ℕ × ℕ)) : Option Bool → Typed
  | none => (w, w.resized resize)
  | some minimized =>
    let t : Typed := if minimized && !w.minimized then
        let r := w.release
        (r.1, w.resized resize ++ r.2 ++ [.minimize w.info.surfaceId w.info.geometryGeneration])
      else (w, w.resized resize)
    ({ t.1 with minimized := minimized }, t.2)

end AppWindow

/-- What the network task tells the windows. -/
inductive Update
  | upsert (info : SurfaceInfo)
  | remove (id : ℕ)
  | unavailable (id : ℕ)
  | host (os : ApplicationHostOs)

/-- The windows of a session (`App`). -/
structure App where
  surfaces : ℕ → Option AppWindow
  client : KeyboardPlatform
  host : KeyboardPlatform
  hostExplicit : Bool
  profile : ShortcutProfile
  mode : ShortcutMode

namespace App

/-- Whether `id` is reached from `parent` within `fuel` steps up. -/
def hasAncestor (a : App) (id : ℕ) : ℕ → Option ℕ → Bool
  | 0, _ => false
  | _ + 1, none => false
  | fuel + 1, some p =>
    if p = id then true
    else
      match a.surfaces p with
      | none => false
      | some w => a.hasAncestor id fuel w.info.parentSurfaceId

/-- The first modal window above `id`. -/
def blockedByModal (a : App) (id : ℕ) : Option ℕ :=
  (List.range maxApplicationSurfaces).find? fun child =>
    match a.surfaces child with
    | none => false
    | some w => w.info.modal && a.hasAncestor id maxApplicationSurfaces w.info.parentSurfaceId

def setWindow (a : App) (id : ℕ) (w : AppWindow) : App :=
  { a with surfaces := Function.update a.surfaces id (some w) }

def dropWindow (a : App) (id : ℕ) : App :=
  { a with surfaces := Function.update a.surfaces id none }

/-- `window_event`: what is queued for the agent. -/
def windowEvent (a : App) (id : ℕ) (e : WindowEvent) : App × List ApplicationMessage :=
  match a.surfaces id with
  | none => (a, [])
  | some w =>
    if (a.blockedByModal id).isSome && e.isBlocked then (a, [])
    else if !w.available && e.isInput then (a, [])
    else
      let t := w.handle e
      (a.setWindow id t.1, t.2)

def aboutToWait (a : App) (id : ℕ) (resize : Option (ℕ × ℕ)) (minimized : Option Bool) :
    App × List ApplicationMessage :=
  match a.surfaces id with
  | none => (a, [])
  | some w =>
    let t := w.wait resize minimized
    (a.setWindow id t.1, t.2)

/-- A window lets go of everything. -/
def releaseWindow (a : App) (id : ℕ) : App × List ApplicationMessage :=
  match a.surfaces id with
  | none => (a, [])
  | some w => (a.setWindow id w.release.1, w.release.2)

def newWindow (a : App) (info : SurfaceInfo) : AppWindow :=
  ⟨info, .empty, .new a.client a.host a.mode a.profile, 0, none, none, info.minimized, true, false⟩

/-- A window hears of its surface. -/
def refresh (w : AppWindow) (info : SurfaceInfo) : Typed :=
  let t : Typed := if w.info.geometryGeneration ≠ info.geometryGeneration then
      -- releases use the new accepted epoch; old queued commands are discarded
      { w with info := { w.info with geometryGeneration := info.geometryGeneration } }.release
    else (w, [])
  ({ t.1 with info := info, minimized := info.minimized, available := true, closeRequested := none },
    t.2)

/-- `apply`: one update of the network task. -/
def apply (a : App) : Update → App × List ApplicationMessage
  | .host os =>
    if a.hostExplicit then (a, [])
    else ({ a with host :=
      match os with
      | .macos => .mac
      | .windows => .windows
      | .linux => .linux
      | .unknown => a.client }, [])
  | .unavailable id =>
    match a.surfaces id with
    | none => (a, [])
    | some w => (a.setWindow id { w.release.1 with available := false }, w.release.2)
  | .remove id => (a.dropWindow id, [])
  | .upsert info =>
    let t := match a.surfaces info.surfaceId with
      | some w => refresh w info
      | none => (a.newWindow info, [])
    let a := a.setWindow info.surfaceId t.1
    -- input gating supplements native ownership
    let blocked := (List.range maxApplicationSurfaces).filter fun id =>
      (a.surfaces id).isSome && (a.blockedByModal id).isSome
    blocked.foldl (fun r id => ((r.1.releaseWindow id).1, r.2 ++ (r.1.releaseWindow id).2)) (a, t.2)

end App

end NebulaDesk
