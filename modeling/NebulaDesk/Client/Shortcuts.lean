/-
Semantic shortcuts (`nebula-client/src/shortcuts.rs`).

A `Mapper` stands between the keys the user holds and the keys that are held at
the host.  It forwards physical keys, restores modifiers that were pressed while
the window had no focus, and for editing shortcuts across platforms exchanges
Control and Command.  A call returns the input events it sends.

The events kept in `held` are never read again, so `held` is the set of its
keys; ordered iteration is iteration over the sorted set.
-/
import NebulaDesk.Lib.Presses
import NebulaDesk.Proto.Input

namespace NebulaDesk

open Presses

/-- Keyboard modifier state, as a bitset. -/
abbrev Modifiers : Type := BitVec 16

namespace Modifiers

def shiftBit : Modifiers := BitVec.twoPow 16 0
def controlBit : Modifiers := BitVec.twoPow 16 1
def altBit : Modifiers := BitVec.twoPow 16 2
/-- Either Command / Windows / Super key. -/
def metaBit : Modifiers := BitVec.twoPow 16 3
def againBit : Modifiers := BitVec.twoPow 16 7

end Modifiers

/-- `InputEvent::key`: a key press or release. -/
def InputEvent.ofKey (kind : InputKind) (key : ℕ) (modifiers : Modifiers) : InputEvent :=
  ⟨kind, .none, modifiers.toNat, 0, 0, ⟨0⟩, ⟨0⟩, ⟨0⟩, ⟨0⟩, key, 0⟩

inductive KeyboardPlatform
  | mac | windows | linux
deriving DecidableEq, Repr

inductive ShortcutMode
  | physical | semantic
deriving DecidableEq, Repr

inductive ShortcutProfile
  | physical | editing | terminal
deriving DecidableEq, Repr

def modifier (key : ℕ) : Modifiers :=
  match key with
  | 0xe0 | 0xe4 => .controlBit
  | 0xe1 | 0xe5 => .shiftBit
  | 0xe2 | 0xe6 => .altBit
  | 0xe3 | 0xe7 => .metaBit
  | _ => 0

def modifierMask : Modifiers := .controlBit ||| .shiftBit ||| .altBit ||| .metaBit

def editingKey (key : ℕ) : Bool := key ∈ [0x04, 0x06, 0x09, 0x16, 0x19, 0x1b, 0x1d]

def modifierKeys : List (Modifiers × ℕ) :=
  [(.controlBit, 0xe0), (.shiftBit, 0xe1), (.altBit, 0xe2), (.metaBit, 0xe3)]

def tabKey : ℕ := 0x2b

/-- Tracks physical source keys separately from their remote modifier state. -/
structure Mapper where
  client : KeyboardPlatform
  host : KeyboardPlatform
  mode : ShortcutMode
  profile : ShortcutProfile
  held : Finset ℕ
  remoteMods : Modifiers
  snapshot : Modifiers
  inferred : Finset ℕ
  suppressed : Modifiers

namespace Mapper

def new (client host : KeyboardPlatform) (mode : ShortcutMode) (profile : ShortcutProfile) : Mapper :=
  ⟨client, host, mode, profile, ∅, 0, 0, ∅, 0⟩

def sourceModifiers (m : Mapper) : Modifiers := m.snapshot ||| m.suppressed

def semantic (m : Mapper) : Bool :=
  m.mode = .semantic && m.profile = .editing && (decide (m.client = .mac) != decide (m.host = .mac))

def modifiersOf (keys : Finset ℕ) : Modifiers :=
  (ascending keys).foldl (fun bits key => bits ||| modifier key) 0

/-- The modifiers the host should see. -/
def desiredMods (m : Mapper) : Modifiers :=
  let bits := modifiersOf m.held
  let source : Modifiers := if m.client = .mac then .metaBit else .controlBit
  let target : Modifiers := if m.host = .mac then .metaBit else .controlBit
  if m.semantic && bits &&& source ≠ 0 && bits &&& (.altBit ||| target) = 0 &&
      decide (∃ key ∈ m.held, editingKey key) then
    (bits &&& ~~~source) ||| target
  else bits

/-- Release, then press, what differs from `desired`. -/
def reconcile (desired : Modifiers) (m : Mapper) : Mapper × List InputEvent :=
  let released := modifierKeys.foldl
    (fun (r : Mapper × List InputEvent) (p : Modifiers × ℕ) =>
      if r.1.remoteMods &&& p.1 ≠ 0 ∧ desired &&& p.1 = 0 then
        let mods := r.1.remoteMods &&& ~~~p.1
        ({ r.1 with remoteMods := mods }, r.2 ++ [.ofKey .keyUp p.2 mods])
      else r) (m, [])
  modifierKeys.foldl
    (fun (r : Mapper × List InputEvent) (p : Modifiers × ℕ) =>
      if r.1.remoteMods &&& p.1 = 0 ∧ desired &&& p.1 ≠ 0 then
        let mods := r.1.remoteMods ||| p.1
        ({ r.1 with remoteMods := mods }, r.2 ++ [.ofKey .keyDown p.2 mods])
      else r) released

/-- The end of a call: in semantic mode the host's modifiers are reconciled. -/
def settle (r : Mapper × List InputEvent) : Mapper × List InputEvent :=
  if r.1.semantic then
    let s := r.1.reconcile r.1.desiredMods
    (s.1, r.2 ++ s.2)
  else r

/-- A key is no longer held; in physical mode the host learns it at once. -/
def letGo (key : ℕ) (r : Mapper × List InputEvent) : Mapper × List InputEvent :=
  let m := { r.1 with held := r.1.held.erase key, inferred := r.1.inferred.erase key }
  if m.semantic then (m, r.2)
  else ({ m with remoteMods := m.desiredMods }, r.2 ++ [.ofKey .keyUp key m.desiredMods])

/-- Snapshot presses are deferred until actual input. -/
def observeModifiers (snapshot : Modifiers) (m : Mapper) : Mapper × List InputEvent :=
  let suppressed := m.suppressed &&& snapshot
  let m := { m with
    suppressed := suppressed
    snapshot := snapshot &&& modifierMask &&& ~~~suppressed }
  let released := (ascending m.held).filter fun key =>
    modifier key ≠ 0 && m.snapshot &&& modifier key = 0
  settle (released.foldl (fun r key => letGo key r) (m, []))

/-- Materialize only missing modifier families; known physical sides survive. -/
def restoreModifiers (m : Mapper) : Mapper × List InputEvent :=
  settle (modifierKeys.foldl
    (fun (r : Mapper × List InputEvent) (p : Modifiers × ℕ) =>
      if r.1.snapshot &&& p.1 ≠ 0 ∧ ¬ ∃ key ∈ r.1.held, modifier key = p.1 then
        let m := { r.1 with held := insert p.2 r.1.held, inferred := insert p.2 r.1.inferred }
        if m.semantic then (m, r.2)
        else ({ m with remoteMods := m.desiredMods }, r.2 ++ [.ofKey .keyDown p.2 m.desiredMods])
      else r) (m, []))

def localSwitchModifiers (event : InputEvent) (m : Mapper) : Modifiers :=
  (BitVec.ofNat 16 event.modifiers ||| m.suppressed ||| m.snapshot ||| modifiersOf m.held) &&&
    (.altBit ||| .metaBit)

/-- The releases of what is held, in descending order; in semantic mode modifiers
are left to `reconcile`. -/
def releaseHeld (m : Mapper) : List InputEvent :=
  ((ascending m.held).reverse.foldl
    (fun (r : Modifiers × List InputEvent) key =>
      if !m.semantic || modifier key = 0 then
        let mods := if m.semantic then r.1 else r.1 &&& ~~~modifier key
        (mods, r.2 ++ [.ofKey .keyUp key mods])
      else r) (m.remoteMods, [])).2

def releaseAll (m : Mapper) : Mapper × List InputEvent :=
  let cleared := { m with held := ∅, inferred := ∅, snapshot := 0, suppressed := 0 }
  if m.semantic then
    let s := cleared.reconcile 0
    ({ s.1 with remoteMods := 0 }, m.releaseHeld ++ s.2)
  else ({ cleared with remoteMods := 0 }, m.releaseHeld)

/-- The first key that was inferred for the modifier. -/
def inferredFor (bit : Modifiers) (m : Mapper) : Option ℕ :=
  (ascending m.inferred).find? fun key => modifier key = bit

/-- A key whose modifier was suppressed is released: it is suppressed no longer. -/
def unsuppress (key : ℕ) (m : Mapper) : Mapper :=
  if modifier key &&& m.suppressed ≠ 0 then
    { m with
      suppressed := m.suppressed &&& ~~~modifier key
      snapshot := m.snapshot &&& ~~~modifier key }
  else m

/-- A modifier that was inferred turns out to be this key. -/
def handOff (key : ℕ) (m : Mapper) : Mapper × List InputEvent :=
  if modifier key ≠ 0 then
    match m.inferredFor (modifier key) with
    | none => (m, [])
    | some inferred =>
      if inferred ≠ key then letGo inferred (m, [])
      else ({ m with inferred := m.inferred.erase inferred }, [])
  else (m, [])

/-- The key that a release is about: a modifier that was inferred stands for either side. -/
def resolve (event : InputEvent) (m : Mapper) : Option InputEvent :=
  if event.kind ≠ .keyDown ∧ event.key ∉ m.held then
    if modifier event.key ≠ 0 then
      (m.inferredFor (modifier event.key)).map fun key => { event with key := key }
    else none
  else some event

/-- What is held once the key has gone down or up. -/
def record (event : InputEvent) (m : Mapper) : Mapper :=
  if event.kind = .keyDown then
    { m with held := insert event.key m.held, snapshot := m.snapshot ||| modifier event.key }
  else
    let held := m.held.erase event.key
    { m with
      held := held
      inferred := m.inferred.erase event.key
      snapshot := if ∃ key ∈ held, modifier key = modifier event.key then m.snapshot
        else m.snapshot &&& ~~~modifier event.key }

/-- The event with these modifiers, marked if it is an auto-repeat. -/
def stamped (event : InputEvent) (mods : Modifiers) (again : Bool) : InputEvent :=
  { event with modifiers := (if again then mods ||| .againBit else mods).toNat }

/-- A plain key brings missing modifiers along. -/
def prepared (event : InputEvent) (m : Mapper) : Mapper × List InputEvent :=
  if modifier event.key = 0 then m.restoreModifiers else (m, [])

/-- The key is recorded and sent. -/
def forward (event : InputEvent) (again : Bool) (m : Mapper) : Mapper × List InputEvent :=
  let r := m.prepared event
  let m := r.1.record event
  if !m.semantic then
    -- physical mode retains left/right key identity
    ({ m with remoteMods := m.desiredMods }, r.2 ++ [stamped event m.desiredMods again])
  else
    let plain := modifier event.key = 0
    let before :=
      if plain ∧ event.kind ≠ .keyDown then [stamped event m.remoteMods false] else []
    let s := m.reconcile m.desiredMods
    let after :=
      if plain ∧ event.kind = .keyDown then [stamped event s.1.remoteMods again] else []
    (s.1, r.2 ++ before ++ s.2 ++ after)

def key (event : InputEvent) (again : Bool) (m : Mapper) : Mapper × List InputEvent :=
  let down := event.kind = .keyDown
  if event.kind ≠ .keyDown ∧ event.kind ≠ .keyUp then (m, [])
  -- task switching belongs to the local window manager, in either mode
  else if down ∧ event.key = tabKey ∧ m.localSwitchModifiers event ≠ 0 then
    let r := m.releaseAll
    ({ r.1 with suppressed := m.localSwitchModifiers event }, r.2)
  else if down ∧ modifier event.key &&& m.suppressed ≠ 0 then (m, [])
  else
    let m := m.unsuppress event.key
    if again ∧ event.key ∉ m.held then (m, [])
    else
      let r := if down then m.handOff event.key else (m, [])
      if down ∧ modifier event.key ≠ 0 ∧ event.key ∈ r.1.held then r
      else
        match r.1.resolve event with
        | none => (r.1, [])
        | some event =>
          let s := r.1.forward event again
          (s.1, r.2 ++ s.2)

def syntheticKey (event : InputEvent) (m : Mapper) : Mapper × List InputEvent :=
  if modifier event.key ≠ 0 ∨ (event.key = tabKey ∧ m.localSwitchModifiers event ≠ 0) then
    m.key event false
  else (m, [])

end Mapper

end NebulaDesk
