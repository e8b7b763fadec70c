/-
The window of a desktop session (`nebula-client/src/session.rs`, `input.rs`): what its events send.

Where the picture lies and what the toolbar covers is given with each event, and so is whether the
toolbar has consumed it.  `Resized` and `ScaleFactorChanged` are the step `refit`; `RedrawRequested`
is that step, the actions of the toolbar, and that step again.
-/
import NebulaDesk.Client.Windows

namespace NebulaDesk

/-- The keys that `hid` has a usage for. -/
inductive KeyCode
  | keyA | keyB | keyC | keyD | keyE | keyF | keyG | keyH | keyI | keyJ | keyK | keyL | keyM
  | keyN | keyO | keyP | keyQ | keyR | keyS | keyT | keyU | keyV | keyW | keyX | keyY | keyZ
  | digit1 | digit2 | digit3 | digit4 | digit5 | digit6 | digit7 | digit8 | digit9 | digit0
  | enter | escape | backspace | tab | space | minus | equal | bracketLeft | bracketRight
  | backslash | semicolon | quote | backquote | comma | period | slash | capsLock
  | f1 | f2 | f3 | f4 | f5 | f6 | f7 | f8 | f9 | f10 | f11 | f12
  | printScreen | scrollLock | pause | insert | home | pageUp | delete | «end» | pageDown
  | arrowRight | arrowLeft | arrowDown | arrowUp
  | numLock | numpadDivide | numpadMultiply | numpadSubtract | numpadAdd | numpadEnter
  | numpad1 | numpad2 | numpad3 | numpad4 | numpad5 | numpad6 | numpad7 | numpad8 | numpad9
  | numpad0 | numpadDecimal
  | contextMenu | f13 | f14 | f15 | f16 | f17 | f18 | f19 | f20
  | controlLeft | shiftLeft | altLeft | superLeft | controlRight | shiftRight | altRight
  | superRight
  /-- Any other. -/
  | other

def hid : KeyCode → Option ℕ
  | .keyA => some 0x04
  | .keyB => some 0x05
  | .keyC => some 0x06
  | .keyD => some 0x07
  | .keyE => some 0x08
  | .keyF => some 0x09
  | .keyG => some 0x0a
  | .keyH => some 0x0b
  | .keyI => some 0x0c
  | .keyJ => some 0x0d
  | .keyK => some 0x0e
  | .keyL => some 0x0f
  | .keyM => some 0x10
  | .keyN => some 0x11
  | .keyO => some 0x12
  | .keyP => some 0x13
  | .keyQ => some 0x14
  | .keyR => some 0x15
  | .keyS => some 0x16
  | .keyT => some 0x17
  | .keyU => some 0x18
  | .keyV => some 0x19
  | .keyW => some 0x1a
  | .keyX => some 0x1b
  | .keyY => some 0x1c
  | .keyZ => some 0x1d
  | .digit1 => some 0x1e
  | .digit2 => some 0x1f
  | .digit3 => some 0x20
  | .digit4 => some 0x21
  | .digit5 => some 0x22
  | .digit6 => some 0x23
  | .digit7 => some 0x24
  | .digit8 => some 0x25
  | .digit9 => some 0x26
  | .digit0 => some 0x27
  | .enter => some 0x28
  | .escape => some 0x29
  | .backspace => some 0x2a
  | .tab => some 0x2b
  | .space => some 0x2c
  | .minus => some 0x2d
  | .equal => some 0x2e
  | .bracketLeft => some 0x2f
  | .bracketRight => some 0x30
  | .backslash => some 0x31
  | .semicolon => some 0x33
  | .quote => some 0x34
  | .backquote => some 0x35
  | .comma => some 0x36
  | .period => some 0x37
  | .slash => some 0x38
  | .capsLock => some 0x39
  | .f1 => some 0x3a
  | .f2 => some 0x3b
  | .f3 => some 0x3c
  | .f4 => some 0x3d
  | .f5 => some 0x3e
  | .f6 => some 0x3f
  | .f7 => some 0x40
  | .f8 => some 0x41
  | .f9 => some 0x42
  | .f10 => some 0x43
  | .f11 => some 0x44
  | .f12 => some 0x45
  | .printScreen => some 0x46
  | .scrollLock => some 0x47
  | .pause => some 0x48
  | .insert => some 0x49
  | .home => some 0x4a
  | .pageUp => some 0x4b
  | .delete => some 0x4c
  | .end => some 0x4d
  | .pageDown => some 0x4e
  | .arrowRight => some 0x4f
  | .arrowLeft => some 0x50
  | .arrowDown => some 0x51
  | .arrowUp => some 0x52
  | .numLock => some 0x53
  | .numpadDivide => some 0x54
  | .numpadMultiply => some 0x55
  | .numpadSubtract => some 0x56
  | .numpadAdd => some 0x57
  | .numpadEnter => some 0x58
  | .numpad1 => some 0x59
  | .numpad2 => some 0x5a
  | .numpad3 => some 0x5b
  | .numpad4 => some 0x5c
  | .numpad5 => some 0x5d
  | .numpad6 => some 0x5e
  | .numpad7 => some 0x5f
  | .numpad8 => some 0x60
  | .numpad9 => some 0x61
  | .numpad0 => some 0x62
  | .numpadDecimal => some 0x63
  | .contextMenu => some 0x65
  | .f13 => some 0x68
  | .f14 => some 0x69
  | .f15 => some 0x6a
  | .f16 => some 0x6b
  | .f17 => some 0x6c
  | .f18 => some 0x6d
  | .f19 => some 0x6e
  | .f20 => some 0x6f
  | .controlLeft => some 0xe0
  | .shiftLeft => some 0xe1
  | .altLeft => some 0xe2
  | .superLeft => some 0xe3
  | .controlRight => some 0xe4
  | .shiftRight => some 0xe5
  | .altRight => some 0xe6
  | .superRight => some 0xe7
  | .other => none

namespace HeldInput

/-- `keyboard`, of an event that `key` has made. -/
def keyboard (h : HeldInput) (event : InputEvent) (again : Bool) : HeldInput × Option InputEvent :=
  match event.kind with
  | .keyDown =>
    -- A repeat arriving after focus loss must not recreate a held key.
    if again = true ∧ event.key ∉ h.keys then (h, none)
    else
      (if event.key ∈ h.keys then h else { h with keys := h.keys ++ [event.key] },
        some (if again then
          { event with modifiers :=
            (BitVec.ofNat 16 event.modifiers ||| Modifiers.againBit).toNat } else event))
  | .keyUp =>
    if event.key ∈ h.keys then ({ h with keys := h.keys.erase event.key }, some event)
    else (h, none)
  | _ => (h, none)

end HeldInput

/-- Keyboard ownership is independent of egui's transient capture flags. -/
inductive KeyboardFocus
  | remote | chrome
deriving DecidableEq, Repr

namespace KeyboardFocus

/-- `input::key`, of a key the platform has a code for. -/
def keyEvent (physical : Option KeyCode) (pressed : Bool) (text : Option String)
    (held : Modifiers) : Option InputEvent := do
  let usage ← physical.bind hid
  let character := (text.bind (·.toList.head?)).filter fun c => !isControl c
  pure { InputEvent.ofKey (if pressed then .keyDown else .keyUp) usage held with
    unicode := character.elim 0 Char.toNat }

def remoteKey (focus : KeyboardFocus) (physical : Option KeyCode) (pressed : Bool)
    (text : Option String) (modifiers : Modifiers) : Option InputEvent :=
  match focus with
  | remote => keyEvent physical pressed text modifiers
  | chrome => none

def switchTo (focus target : KeyboardFocus) (held : HeldInput) :
    KeyboardFocus × HeldInput × List InputEvent :=
  if focus = target then (focus, held, [])
  else (target, held.releaseAll)

end KeyboardFocus

/-- The window as the pointer meets it. -/
structure SessionView (Point : Type) where
  blocksPointer : Point → Bool
  normalise : Point → Option Position

/-- The place on the picture, where the toolbar does not cover it. -/
def SessionView.remoteAt {Point : Type} (view : SessionView Point) (at_ : Point) :
    Option Position :=
  if view.blocksPointer at_ then none else view.normalise at_

/-- The fields of `App` that the input goes by. -/
structure SessionApp (Point : Type) where
  held : HeldInput
  modifiers : Modifiers
  pointer : Option Position
  cursor : Option Point
  keyboardFocus : KeyboardFocus
  windowFocused : Bool
  pickerOpen : Bool
  /-- `policy.input`. -/
  inputAllowed : Bool
  /-- `policy.file_transfer`. -/
  fileTransfer : Bool

/-- The events of `winit` that the input goes by; a scroll is in lines. -/
inductive DesktopEvent (Point : Type)
  | closeRequested
  | focused (focused : Bool)
  | modifiersChanged (modifiers : Modifiers)
  | cursorMoved (position : Point)
  | cursorLeft
  | mouseInput (pressed : Bool) (button : Option MouseButton)
  | mouseWheel (dx dy : F32)
  | keyboardInput (physical : Option KeyCode) (pressed : Bool) (text : Option String)
      (again synthetic : Bool)
  | ime

namespace DesktopEvent

variable {Point : Type}

def isKeyboard : DesktopEvent Point → Bool
  | keyboardInput .. | ime => true
  | _ => false

/-- The events that are dropped when the toolbar has consumed them. -/
def isConsumable : DesktopEvent Point → Bool
  | mouseInput .. | mouseWheel .. | keyboardInput .. | ime => true
  | _ => false

end DesktopEvent

/-- The window, and what it has sent. -/
abbrev Emitting (Point : Type) : Type := SessionApp Point × List InputEvent

def Emitting.andThen {Point : Type} (r : Emitting Point)
    (f : SessionApp Point → Emitting Point) : Emitting Point :=
  ((f r.1).1, r.2 ++ (f r.1).2)

namespace SessionApp

variable {Point : Type}

/-- `App` as `run_inner` makes it. -/
def start (inputAllowed fileTransfer : Bool) : SessionApp Point where
  held := .empty
  modifiers := 0
  pointer := none
  cursor := none
  keyboardFocus := .remote
  windowFocused := true
  pickerOpen := false
  inputAllowed := inputAllowed
  fileTransfer := fileTransfer

/-- `send`, of some events. -/
def send (w : SessionApp Point) (events : List InputEvent) : List InputEvent :=
  if w.inputAllowed then events else []

def releaseHeldInput (w : SessionApp Point) : Emitting Point :=
  let (held, events) := w.held.releaseAll
  ({ w with held := held, pointer := none }, w.send events)

def releaseInput (w : SessionApp Point) : Emitting Point :=
  let (w, events) := w.releaseHeldInput
  ({ w with modifiers := 0 }, events)

def focusKeyboard (focus : KeyboardFocus) (w : SessionApp Point) : Emitting Point :=
  if w.keyboardFocus = focus then (w, [])
  else
    let (focus, held, events) := w.keyboardFocus.switchTo focus w.held
    ({ w with keyboardFocus := focus, held := held, pointer := none }, w.send events)

def leavePointer (w : SessionApp Point) : Emitting Point :=
  let (held, events) := w.held.releaseButtons w.modifiers
  let leave := { InputEvent.mouseMove .origin w.modifiers with kind := .pointerLeave }
  ({ w with held := held, pointer := none },
    w.send (events ++ if w.pointer.isSome then [leave] else []))

/-- Where the cursor is on the picture, after the picture may have moved. -/
def refit (view : SessionView Point) (w : SessionApp Point) : Emitting Point :=
  match w.cursor with
  | none => (w, [])
  | some at_ =>
    match view.remoteAt at_ with
    | none => w.leavePointer
    | some at_ => ({ w with pointer := some at_ }, [])

/-- `window_focused` follows the event. -/
def noteFocus (event : DesktopEvent Point) (w : SessionApp Point) : SessionApp Point :=
  match event with
  | .focused focused => { w with windowFocused := focused }
  | _ => w

/-- What `window_event` does before it shows the event to the toolbar. -/
def routeKeyboard (view : SessionView Point) (event : DesktopEvent Point)
    (w : SessionApp Point) : Emitting Point :=
  match event with
  | .mouseInput true _ =>
    if w.pickerOpen then (w, [])
    else
      match w.cursor.bind view.remoteAt with
      | some at_ =>
        let (w, events) := w.focusKeyboard .remote
        ({ w with pointer := some at_ }, events)
      | none => if w.cursor.any view.blocksPointer then w.focusKeyboard .chrome else (w, [])
  | .mouseWheel .. => if w.cursor.any view.blocksPointer then w.focusKeyboard .chrome else (w, [])
  | _ => (w, [])

/-- The `match` at the end of `window_event`. -/
def handle (view : SessionView Point) (event : DesktopEvent Point) (w : SessionApp Point) :
    Emitting Point :=
  match event with
  | .closeRequested => w.releaseInput
  | .focused focused => if focused then (w, []) else w.releaseInput
  | .modifiersChanged modifiers => ({ w with modifiers := modifiers }, [])
  | .cursorMoved position =>
    let w := { w with cursor := some position }
    if w.pickerOpen || view.blocksPointer position then w.leavePointer
    else
      match view.normalise position with
      | some at_ =>
        let (held, event) := w.held.movement at_ w.modifiers
        ({ w with held := held, pointer := some at_ }, w.send [event])
      -- the bars beside the picture
      | none => w.leavePointer
  | .cursorLeft => { w with cursor := none }.leavePointer
  | .mouseInput pressed button =>
    match button with
    | none => (w, [])
    | some button =>
      let (held, event) := w.held.button button pressed w.pointer w.modifiers
      ({ w with held := held }, w.send event.toList)
  | .mouseWheel dx dy =>
    match w.pointer with
    | none => (w, [])
    | some at_ => (w, w.send [.scroll dx dy at_ w.modifiers])
  | .keyboardInput physical pressed text again synthetic =>
    -- Do not restore keys that were already down when focus returned.
    if synthetic && pressed then (w, [])
    else
      match w.keyboardFocus.remoteKey physical pressed text w.modifiers with
      | none => (w, [])
      | some translated =>
        let (held, event) := w.held.keyboard translated again
        ({ w with held := held }, w.send event.toList)
  | .ime => (w, [])

/-- Whether keyboard events are for the toolbar, or nobody. -/
def keyboardElsewhere (w : SessionApp Point) : Bool :=
  w.keyboardFocus ≠ .remote || !w.windowFocused || w.pickerOpen

/-- `window_event`; `consumed` is what the toolbar says of the event, if it is asked. -/
def windowEvent (view : SessionView Point) (consumed : Bool) (event : DesktopEvent Point)
    (w : SessionApp Point) : Emitting Point :=
  let w := w.noteFocus event
  let remoteAt := w.cursor.bind view.remoteAt
  let r := w.routeKeyboard view event
  let asked := !(event.isKeyboard &&
    (r.1.keyboardFocus ≠ .chrome || !r.1.windowFocused || r.1.pickerOpen))
  if event.isKeyboard && r.1.keyboardElsewhere then r
  else if (asked && consumed) && remoteAt.isNone && event.isConsumable then
    r.andThen releaseHeldInput
  else r.andThen (handle view event)

/-- `Action::PickFiles`; `spawned` says whether the picker's thread has started. -/
def pickFiles (spawned : Bool) (w : SessionApp Point) : Emitting Point :=
  if w.pickerOpen || !w.fileTransfer then (w, [])
  else
    let r := (w.focusKeyboard .chrome).andThen releaseHeldInput
    ({ r.1 with pickerOpen := spawned }, r.2)

end SessionApp

/-- What happens to the window. -/
inductive SessionTurn (Point : Type)
  | window (view : SessionView Point) (consumed : Bool) (event : DesktopEvent Point)
  | refit (view : SessionView Point)
  | pickFiles (spawned : Bool)
  | pickerFinished
  | disconnect
  /-- The session has ended. -/
  | ended

namespace SessionApp

variable {Point : Type}

def turn (w : SessionApp Point) : SessionTurn Point → Emitting Point
  | .window view consumed event => w.windowEvent view consumed event
  | .refit view => w.refit view
  | .pickFiles spawned => w.pickFiles spawned
  | .pickerFinished => ({ w with pickerOpen := false }, [])
  | .disconnect | .ended => w.releaseInput

end SessionApp

end NebulaDesk
