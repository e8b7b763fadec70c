/-
Injecting input on Windows (`nebula-agent/src/platform/windows/input.rs`).

`SendInput` takes as much of a batch as it likes, in order.  `WindowsDesktop` is the other side of
the call: what it takes of each batch, and what is down there because of it.

`KEYEVENTF_KEYUP` is kept beside a `KEYBDINPUT`, which so names a key; the fields that are always
zero are left out.
-/
import NebulaDesk.Client.Shortcuts
import NebulaDesk.Lib.Command

namespace NebulaDesk

open Presses
open Std (ExtTreeMap)

/-- A key as `SendInput` is given it: a virtual key, a scan code or a UTF-16 unit. -/
structure KeybdInput where
  wVk : UInt16
  wScan : UInt16
  extendedKey : Bool
  unicode : Bool
  scancode : Bool
deriving DecidableEq, Repr

inductive MouseEventFlags
  | moveAbsolute
  | leftDown | leftUp | rightDown | rightUp | middleDown | middleUp | xDown | xUp
  | wheel | hWheel
deriving DecidableEq, Repr

/-- `INPUT`. -/
inductive Win32Input
  | keyboard (ki : KeybdInput) (up : Bool)
  | mouse (flags : MouseEventFlags) (data : UInt32) (dx dy : Int32)
deriving DecidableEq

namespace Win32Input

/-- What it presses or releases: a key, or a mouse button by its number. -/
def press : Win32Input → Option (Press (KeybdInput ⊕ ℕ))
  | keyboard ki up => some (if up then .up (.inl ki) else .down (.inl ki))
  | mouse .leftDown _ _ _ => some (.down (.inr 1))
  | mouse .leftUp _ _ _ => some (.up (.inr 1))
  | mouse .rightDown _ _ _ => some (.down (.inr 2))
  | mouse .rightUp _ _ _ => some (.up (.inr 2))
  | mouse .middleDown _ _ _ => some (.down (.inr 3))
  | mouse .middleUp _ _ _ => some (.up (.inr 3))
  | mouse .xDown 1 _ _ => some (.down (.inr 4))
  | mouse .xUp 1 _ _ => some (.up (.inr 4))
  | mouse .xDown 2 _ _ => some (.down (.inr 5))
  | mouse .xUp 2 _ _ => some (.up (.inr 5))
  | _ => none

end Win32Input

/-- What is down because of the injector, and how much the desktop takes of a batch, by the number
of the call and the length of the batch. -/
structure WindowsDesktop where
  down : Finset (KeybdInput ⊕ ℕ)
  accepts : ℕ → ℕ → ℕ
  calls : ℕ

structure WindowsInput where
  /-- By usage, the keys that were pressed for it. -/
  held : ExtTreeMap ℕ (List KeybdInput)
  syntheticModifiers : Finset ℕ
  buttons : Finset ℕ
  /-- Horizontal and vertical. -/
  wheel : Float × Float

structure Injection where
  input : WindowsInput
  desktop : WindowsDesktop

/-- What a method of the injector does: it may fail half-way. -/
abbrev Inject : Type → Type := Cmd Injection String

namespace Injection

def start (accepts : ℕ → ℕ → ℕ) : Injection :=
  ⟨⟨∅, ∅, ∅, (0, 0)⟩, ⟨∅, accepts, 0⟩⟩

/-- The desktop has taken these inputs of a batch. -/
def deliver (inputs : List Win32Input) (s : Injection) : Injection :=
  { s with desktop := { s.desktop with
      down := leaves s.desktop.down (inputs.filterMap Win32Input.press)
      calls := s.desktop.calls + 1 } }

/-- How much of a batch the desktop takes. -/
def taken (inputs : List Win32Input) (s : Injection) : ℕ :=
  min (s.desktop.accepts s.desktop.calls inputs.length) inputs.length

end Injection

namespace WindowsInput

def undelivered (sent len : ℕ) : String :=
  "SendInput delivered " ++ toString sent ++ "/" ++ toString len ++
    " events; unlock the interactive desktop and run the agent at the target application's " ++
    "integrity level (Windows UIPI blocks injection into elevated apps)"

def sendInput (inputs : List Win32Input) : Inject Unit := fun s =>
  if inputs = [] then (.ok (), s)
  else
    (if s.taken inputs = inputs.length then .ok () else
        .error (undelivered (s.taken inputs) inputs.length),
      s.deliver (inputs.take (s.taken inputs)))

def mouseButton (button : ℕ) (up : Bool) : Except String Win32Input :=
  match button with
  | 1 => .ok (.mouse (if up then .leftUp else .leftDown) 0 0 0)
  | 2 => .ok (.mouse (if up then .rightUp else .rightDown) 0 0 0)
  | 3 => .ok (.mouse (if up then .middleUp else .middleDown) 0 0 0)
  | 4 => .ok (.mouse (if up then .xUp else .xDown) 1 0 0)
  | 5 => .ok (.mouse (if up then .xUp else .xDown) 2 0 0)
  | _ => .error "mouse button is missing"

/-! ### Scan codes -/

def letters : List UInt16 :=
  [0x1e, 0x30, 0x2e, 0x20, 0x12, 0x21, 0x22, 0x23, 0x17, 0x24, 0x25, 0x26, 0x32, 0x31, 0x18,
    0x19, 0x10, 0x13, 0x1f, 0x14, 0x16, 0x2f, 0x11, 0x2d, 0x15, 0x2c]

def scanCode (usage : ℕ) : Option UInt16 :=
  if 0x04 ≤ usage ∧ usage ≤ 0x1d then letters[usage - 4]?
  else if 0x1e ≤ usage ∧ usage ≤ 0x26 then some (UInt16.ofNat (usage - 0x1e + 2))
  else if 0x3a ≤ usage ∧ usage ≤ 0x43 then some (UInt16.ofNat (usage - 0x3a + 0x3b))
  else if 0x68 ≤ usage ∧ usage ≤ 0x72 then some (UInt16.ofNat (usage - 0x68 + 0x64))
  else
    match usage with
    | 0x27 => some 0x0b
    | 0x28 => some 0x1c
    | 0x29 => some 0x01
    | 0x2a => some 0x0e
    | 0x2b => some 0x0f
    | 0x2c => some 0x39
    | 0x2d => some 0x0c
    | 0x2e => some 0x0d
    | 0x2f => some 0x1a
    | 0x30 => some 0x1b
    | 0x31 | 0x32 => some 0x2b
    | 0x33 => some 0x27
    | 0x34 => some 0x28
    | 0x35 => some 0x29
    | 0x36 => some 0x33
    | 0x37 => some 0x34
    | 0x38 => some 0x35
    | 0x39 => some 0x3a
    | 0x44 => some 0x57
    | 0x45 => some 0x58
    | 0x46 => some 0xe037
    | 0x47 => some 0x46
    | 0x48 => some 0xe145
    | 0x49 => some 0xe052
    | 0x4a => some 0xe047
    | 0x4b => some 0xe049
    | 0x4c => some 0xe053
    | 0x4d => some 0xe04f
    | 0x4e => some 0xe051
    | 0x4f => some 0xe04d
    | 0x50 => some 0xe04b
    | 0x51 => some 0xe050
    | 0x52 => some 0xe048
    | 0x53 => some 0x45
    | 0x54 => some 0xe035
    | 0x55 => some 0x37
    | 0x56 => some 0x4a
    | 0x57 => some 0x4e
    | 0x58 => some 0xe01c
    | 0x59 => some 0x4f
    | 0x5a => some 0x50
    | 0x5b => some 0x51
    | 0x5c => some 0x4b
    | 0x5d => some 0x4c
    | 0x5e => some 0x4d
    | 0x5f => some 0x47
    | 0x60 => some 0x48
    | 0x61 => some 0x49
    | 0x62 => some 0x52
    | 0x63 => some 0x53
    | 0x64 => some 0x56
    | 0x65 => some 0xe05d
    | 0x67 => some 0x59
    | 0x73 => some 0x76
    | 0x87 => some 0x73
    | 0x89 => some 0x7d
    | 0x8a => some 0x79
    | 0x8b => some 0x7b
    | 0x8c => some 0x5c
    | 0x90 => some 0xf2
    | 0x91 => some 0xf1
    | 0x92 => some 0x70
    | 0x93 => some 0x78
    | 0x94 => some 0x77
    | 0xe0 => some 0x1d
    | 0xe1 => some 0x2a
    | 0xe2 => some 0x38
    | 0xe3 => some 0xe05b
    | 0xe4 => some 0xe01d
    | 0xe5 => some 0x36
    | 0xe6 => some 0xe038
    | 0xe7 => some 0xe05c
    | _ => none

end WindowsInput

namespace KeybdInput

def ofVirtualKey (key : UInt16) : KeybdInput := ⟨key, 0, false, false, false⟩

def ofScanCode (code : UInt16) : KeybdInput :=
  ⟨0, code &&& 0xff, code &&& 0xe000 != 0, false, true⟩

def ofUnit (unit : UInt16) : KeybdInput := ⟨0, unit, false, true, false⟩

end KeybdInput

namespace WindowsInput

/-- `VK_HELP` and the volume keys. -/
def virtualKey : ℕ → Option UInt16
  | 0x75 => some 0x2f
  | 0x7f => some 0xad
  | 0x80 => some 0xaf
  | 0x81 => some 0xae
  | _ => none

/-- The two digits `{usage:02x}` has at least. -/
def hex2 (usage : ℕ) : String :=
  String.ofList (List.replicate (2 - (Nat.toDigits 16 usage).length) '0' ++ Nat.toDigits 16 usage)

def scan (usage : ℕ) : Except String KeybdInput :=
  match virtualKey usage with
  | some key => .ok (.ofVirtualKey key)
  | none =>
    match scanCode usage with
    | none => .error ("unsupported USB keyboard usage 0x" ++ hex2 usage)
    -- `VK_PAUSE`
    | some 0xe145 => .ok (.ofVirtualKey 0x13)
    | some code => .ok (.ofScanCode code)

/-- `char::encode_utf16`. -/
def encodeUtf16 (c : Char) : List UInt16 :=
  if c.val < 0x10000 then [c.val.toUInt16]
  else [(0xd800 + (c.val - 0x10000) / 0x400).toUInt16, (0xdc00 + (c.val - 0x10000) % 0x400).toUInt16]

/-- `char::from_u32`. -/
def charFromU32 (n : ℕ) : Option Char :=
  if h : n.isValidChar then some (Char.ofNatAux n h) else none

end WindowsInput

/-! ### The injector -/

def InputEvent.ofKeyboard (e : InputEvent) : Bool := e.kind = .keyDown || e.kind = .keyUp

/-- `Modifiers::contains`. -/
def InputEvent.hasModifier (e : InputEvent) (flag : Modifiers) : Bool :=
  BitVec.ofNat 16 e.modifiers &&& flag = flag

namespace WindowsInput

def update (f : WindowsInput → WindowsInput) : Inject Unit :=
  Cmd.modify fun s => { s with input := f s.input }

def heldKeys (usage : ℕ) : Inject (Option (List KeybdInput)) :=
  Cmd.get fun s => .ok s.input.held[usage]?

def ensure (ok : Bool) (text : String) : Inject Unit :=
  if ok then pure () else Cmd.throw text

def release (usage : ℕ) : Inject Unit := do
  match ← heldKeys usage with
  | none => pure ()
  | some keys =>
    sendInput (keys.map (.keyboard · true))
    update fun input => { input with
      held := input.held.erase usage
      syntheticModifiers := input.syntheticModifiers.erase usage }

def press (usage : ℕ) (keys : List KeybdInput) : Inject Unit := do
  -- Remember before injection so that dropping also releases partially delivered batches.
  update fun input => { input with held := input.held.insert usage keys }
  sendInput (keys.map (.keyboard · false))

/-- The modifiers with their left and right keys. -/
def modifierRows : List (Modifiers × ℕ × ℕ) :=
  [(.controlBit, 0xe0, 0xe4), (.shiftBit, 0xe1, 0xe5), (.altBit, 0xe2, 0xe6),
    (.metaBit, 0xe3, 0xe7)]

/-- One turn of the loop of `modifiers`. -/
def followModifier (event : InputEvent) (row : Modifiers × ℕ × ℕ) : Inject Unit := do
  let (flag, left, right) := row
  if event.ofKeyboard && (event.key = left || event.key = right) then pure ()
  else if !event.hasModifier flag then do
    release left
    release right
  else if (← heldKeys left).isNone && (← heldKeys right).isNone then do
    press left [← Cmd.ofExcept (scan left)]
    update fun input => { input with syntheticModifiers := insert left input.syntheticModifiers }

def modifiers (event : InputEvent) : Inject Unit := modifierRows.forM (followModifier event)

/-- A coordinate of the primary display. -/
def absolute (v : F32) : Int32 :=
  (Float32.ofBits (UInt32.ofBitVec (clampUnit v).bits) * 65535.0).round.toInt32

def turnWheel (flags : MouseEventFlags) (axis : WindowsInput → Float)
    (setAxis : Float → WindowsInput → WindowsInput) (delta : F32) : Inject Unit := do
  update fun input => setAxis
    (axis input + (Float32.ofBits (UInt32.ofBitVec delta.bits)).toFloat * 120.0) input
  let turned ← Cmd.get fun s => .ok (axis s.input)
  -- the conversion stops at the bounds of its type
  let ticks := turned.toInt32
  if ticks ≠ 0 then do
    sendInput [.mouse flags ticks.toUInt32 0 0]
    update fun input => setAxis (axis input - ticks.toFloat) input

/-- The keys a press of `usage` stands for. -/
def keysFor (event : InputEvent) : Except String (List KeybdInput) :=
  if event.unicode ≠ 0 && !([.controlBit, .altBit, .metaBit].any event.hasModifier) then
    match charFromU32 event.unicode with
    | none => .error "invalid Unicode input scalar"
    | some character => .ok ((encodeUtf16 character).map .ofUnit)
  else (scan event.key).map fun key => [key]

def pressButton (event : InputEvent) : Inject Unit := do
  ensure (event.button ≠ .none) "mouse button is missing"
  if event.kind = .mouseUp then do
    sendInput [← Cmd.ofExcept (mouseButton event.button.toU8 true)]
    update fun input => { input with buttons := input.buttons.erase event.button.toU8 }
  else do
    update fun input => { input with buttons := insert event.button.toU8 input.buttons }
    sendInput [← Cmd.ofExcept (mouseButton event.button.toU8 false)]

/-- What is done after the modifiers and the pointer. -/
def act (event : InputEvent) : Inject Unit :=
  match event.kind with
  | .mouseDown | .mouseUp => pressButton event
  | .wheel => do
    turnWheel .hWheel (·.wheel.1) (fun v input => { input with wheel := (v, input.wheel.2) })
      event.scrollX
    turnWheel .wheel (·.wheel.2) (fun v input => { input with wheel := (input.wheel.1, v) })
      event.scrollY
  | .keyUp => release event.key
  | .keyDown => do
    let keys ← match ← heldKeys event.key with
      | some keys => pure keys
      | none => Cmd.ofExcept (keysFor event)
    press event.key keys
    if event.key = 0 then release 0
  | .pointerLeave | .mouseMove | .mouseDrag => pure ()

/-- The left key of the modifier of a key. -/
def leftOf (key : ℕ) : ℕ := 0xe0 + (key - 0xe0) % 4

/-- Whether a usage is that of a modifier key. -/
def IsModifier (usage : ℕ) : Prop := 0xe0 ≤ usage ∧ usage ≤ 0xe7

instance (usage : ℕ) : Decidable (IsModifier usage) := inferInstanceAs (Decidable (_ ∧ _))

/-- A modifier key takes over from the one that stood in for it. -/
def takeOver (event : InputEvent) : Inject Unit :=
  if event.ofKeyboard = true ∧ IsModifier event.key then do
    let synthetic ← Cmd.get fun s => .ok (leftOf event.key ∈ s.input.syntheticModifiers : Bool)
    if leftOf event.key ≠ event.key ∧ synthetic = true then release (leftOf event.key)
    update fun input => { input with
      syntheticModifiers := input.syntheticModifiers.erase event.key }
  else pure ()

def inject (event : InputEvent) : Inject Unit := do
  ensure (event.display = 0 && event.pointerId = 0)
    "Windows capture currently supports primary display/mouse only"
  ensure ([event.x, event.y, event.scrollX, event.scrollY].all F32.isFinite)
    "non-finite pointer input"
  takeOver event
  modifiers event
  if event.kind.isPointer then
    -- Absolute without a virtual desktop maps to the primary display, the capture target.
    sendInput [.mouse .moveAbsolute 0 (absolute event.x) (absolute event.y)]
  act event

/-- `Drop`. -/
def drop : Inject Unit := do
  let usages ← Cmd.get fun s => .ok s.input.held.keys
  usages.forM fun usage => do
    let _ ← (release usage).attempt
  let buttons ← Cmd.get fun s => .ok (ascending s.input.buttons)
  buttons.forM fun button => do
    let _ ← (do sendInput [← Cmd.ofExcept (mouseButton button true)]).attempt

/-- An event reaches the injector. -/
def step (s : Injection) (event : InputEvent) : Injection := (inject event s).2

end WindowsInput

end NebulaDesk
