/-
The Linux injector follows the window of a desktop session, as long as no key is held when the
pointer leaves the picture and no scroll is longer than 120 lines.

* `SessionApp.Stays` — the condition on a turn of the window;
* `turn_follows` — such a turn is followed;
* **`linux_follows`** — so is every run of such turns;
* `linux_lets_go` — a key that is held while the pointer leaves is up at the portal.
-/
import NebulaDesk.Agent.LinuxSharing
import NebulaDesk.Client.HeldInput

namespace NebulaDesk

open Presses Runs

theorem wheelDelta_negate (v : F32) :
    InputState.wheelDelta (InputState.negate v) = InputState.wheelDelta v := by
  have hmagnitude : (InputState.negate v).magnitude = v.magnitude := by
    show (v.bits ^^^ 0x80000000).toNat % 2 ^ 31 = v.bits.toNat % 2 ^ 31
    rw [BitVec.toNat_xor, Nat.xor_mod_two_pow]
    exact Nat.xor_zero _
  rw [InputState.wheelDelta, InputState.wheelDelta, F32.isFinite, F32.isFinite, hmagnitude]

/-- A button or a key goes down in the window. -/
def DesktopEvent.presses {Point : Type} : DesktopEvent Point → Bool
  | mouseInput true _ => true
  | keyboardInput _ true .. => true
  | _ => false

def SessionTurn.presses {Point : Type} : SessionTurn Point → Bool
  | window _ _ event => event.presses
  | _ => false

namespace SessionApp

variable {Point : Type} {w : SessionApp Point} {size : ℕ × ℕ}

/-! ### The condition -/

/-- The event takes the pointer off the picture. -/
def leavesOn (view : SessionView Point) (event : DesktopEvent Point) (w : SessionApp Point) :
    Bool :=
  match event with
  | .cursorMoved position => w.pointer.isSome && (w.pickerOpen || (view.remoteAt position).isNone)
  | .cursorLeft => w.pointer.isSome
  | _ => false

/-- The turn takes the pointer off the picture. -/
def leaves (w : SessionApp Point) : SessionTurn Point → Bool
  | .window view _ event => w.leavesOn view event
  | .refit view => w.pointer.isSome && w.cursor.any fun at_ => (view.remoteAt at_).isNone
  | _ => false

def scrolls (w : SessionApp Point) : SessionTurn Point → Option (F32 × F32)
  | .window view consumed (.mouseWheel dx dy) =>
    if w.pointer.isSome && !(w.cursor.any view.blocksPointer && w.keyboardFocus = .remote) &&
        !(consumed && (w.cursor.bind view.remoteAt).isNone) then some (dx, dy)
    else none
  | _ => none

/-- Nothing is pressed that may not be sent, no key is held when the pointer leaves, and no scroll
is longer than 120 lines. -/
structure Stays (w : SessionApp Point) (t : SessionTurn Point) : Prop where
  presses : w.inputAllowed = true ∨ t.presses = false
  leaves : w.inputAllowed = true → w.leaves t = true → w.held.keys = []
  scrolls : w.inputAllowed = true → ∀ lines ∈ w.scrolls t,
    InputState.wheelDelta lines.1 = true ∧ InputState.wheelDelta lines.2 = true

instance (w : SessionApp Point) (t : SessionTurn Point) : Decidable (w.Stays t) :=
  decidable_of_iff
    ((w.inputAllowed = true ∨ t.presses = false) ∧
      (w.inputAllowed = true → w.leaves t = true → w.held.keys = []) ∧
      (w.inputAllowed = true → ∀ lines ∈ w.scrolls t,
        InputState.wheelDelta lines.1 = true ∧ InputState.wheelDelta lines.2 = true))
    ⟨fun h => ⟨h.1, h.2.1, h.2.2⟩, fun h => ⟨h.presses, h.leaves, h.scrolls⟩⟩

/-! ### Buttons and keys -/

theorem button_follows (hw : w.Proper) (button : MouseButton) (pressed : Bool)
    (hpress : pressed = true → w.inputAllowed = true) :
    Follows size w ({ w with held := (w.held.button button pressed w.pointer w.modifiers).1 },
      w.send (w.held.button button pressed w.pointer w.modifiers).2.toList) := by
  have hsame : w.held.button button pressed w.pointer w.modifiers = (w.held, none) →
      Follows size w ({ w with held := (w.held.button button pressed w.pointer w.modifiers).1 },
        w.send (w.held.button button pressed w.pointer w.modifiers).2.toList) := by
    intro hr
    rw [hr]
    exact .sends hw w rfl hw.held (.same rfl rfl) hw.muted
  by_cases hnamed : button = .none
  · exact hsame (if_pos hnamed)
  by_cases hallowed : w.inputAllowed = true
  case neg =>
    -- nothing is held, and nothing is pressed
    have hnone := (hw.muted (Bool.not_eq_true _ ▸ hallowed)).2
    have hup : pressed = false := Bool.not_eq_true _ ▸ fun hp => hallowed (hpress hp)
    refine hsame ((if_neg hnamed).trans ?_)
    rw [hup, hnone]
    rfl
  have hvacuous : ∀ P : Prop, w.inputAllowed = false → P := fun P hm => by
    rw [hallowed] at hm
    cases hm
  rcases w.held.button_cases button pressed w.pointer w.modifiers with
    hr | ⟨hup, at_, hr⟩ | ⟨hdown, at_, hr⟩
  · exact hsame hr
  · rw [hr]
    refine .sends hw { w with held := ⟨w.held.keys, w.held.buttons ++ [button], at_⟩ } rfl
      ⟨hw.held.usages, hw.held.keys, ?_, ?_⟩ ?_ (hvacuous _)
    · refine List.nodup_append.mpr ⟨hw.held.buttons, List.nodup_singleton _, ?_⟩
      rintro held hheld other hother rfl
      exact hup (List.mem_singleton.mp hother ▸ hheld)
    · intro hmem
      rcases List.mem_append.mp hmem with hmem | hmem
      · exact hw.held.named hmem
      · exact hnamed (List.mem_singleton.mp hmem).symm
    · exact .buttonDown (plain_mouseMove at_ w.modifiers .mouseDown button ⟨0⟩ ⟨0⟩) rfl hnamed hup
        rfl rfl
  · rw [hr]
    exact .sends hw { w with held := ⟨w.held.keys, w.held.buttons.erase button, at_⟩ } rfl
      (hw.held.sublist (List.Sublist.refl _) List.erase_sublist)
      (.buttonUp (plain_mouseMove at_ w.modifiers .mouseUp button ⟨0⟩ ⟨0⟩) rfl hdown hw.held rfl
        rfl) (hvacuous _)

variable {e : InputEvent}

/-- What `key` makes of a key. -/
theorem remoteKey_some {focus : KeyboardFocus} {physical : Option KeyCode} {pressed : Bool}
    {text : Option String} {modifiers : Modifiers}
    (h : focus.remoteKey physical pressed text modifiers = some e) :
    ∃ usage ∈ hidUsages, ∃ unicode,
      e = { InputEvent.ofKey (if pressed then .keyDown else .keyUp) usage modifiers with
        unicode := unicode } := by
  cases focus with
  | chrome => cases h
  | remote =>
    obtain ⟨usage, husage, he⟩ := Option.bind_eq_some_iff.mp h
    obtain ⟨code, -, hcode⟩ := Option.bind_eq_some_iff.mp husage
    exact ⟨usage, hid_mem hcode, _, (Option.some.inj he).symm⟩

theorem keyDown_follows (hw : w.Proper) (hallowed : w.inputAllowed = true)
    (hplain : e.Plain) (hkind : e.kind = .keyDown) (husage : e.key ∈ hidUsages) (again : Bool) :
    Follows size w ({ w with held := (w.held.keyboard e again).1 },
      w.send (w.held.keyboard e again).2.toList) := by
  have hmuted : ∀ P : Prop, w.inputAllowed = false → P := fun P hm => by
    rw [hallowed] at hm
    cases hm
  rcases HeldInput.keyboard_down hkind again with hr | ⟨modifiers, hr⟩
  · rw [hr]
    exact .sends hw w rfl hw.held (.same rfl rfl) hw.muted
  rw [hr]
  have hsent : InputEvent.Plain { e with modifiers := modifiers } :=
    { hplain with }
  by_cases hheld : e.key ∈ w.held.keys
  · rw [if_pos hheld]
    exact .sends hw w rfl hw.held (.keyDown hsent hkind husage hw.held rfl (if_pos hheld).symm)
      (hmuted _)
  · rw [if_neg hheld]
    refine .sends hw { w with held := { w.held with keys := w.held.keys ++ [e.key] } } rfl
      ⟨?_, ?_, hw.held.buttons, hw.held.named⟩
      (.keyDown hsent hkind husage hw.held rfl (if_neg hheld).symm) (hmuted _)
    · intro usage hmem
      rcases List.mem_append.mp hmem with hmem | hmem
      · exact hw.held.usages usage hmem
      · rwa [List.mem_singleton.mp hmem]
    · refine List.nodup_append.mpr ⟨hw.held.keys, List.nodup_singleton _, ?_⟩
      rintro key hkey other hother rfl
      exact hheld (List.mem_singleton.mp hother ▸ hkey)

theorem keyUp_follows (hw : w.Proper) (hplain : e.Plain) (hkind : e.kind = .keyUp)
    (again : Bool) :
    Follows size w ({ w with held := (w.held.keyboard e again).1 },
      w.send (w.held.keyboard e again).2.toList) := by
  rcases HeldInput.keyboard_up hkind again with ⟨-, hr⟩ | ⟨hdown, hr⟩
  · rw [hr]
    exact .sends hw w rfl hw.held (.same rfl rfl) hw.muted
  · rw [hr]
    refine .sends hw { w with held := { w.held with keys := w.held.keys.erase e.key } } rfl
      (hw.held.sublist List.erase_sublist (List.Sublist.refl _))
      (.keyUp hplain hkind hdown hw.held rfl rfl) fun hm => ?_
    rw [(hw.muted hm).1] at hdown
    cases hdown

/-! ### A turn -/

theorem movement_accepts (h : HeldInput) (at_ : Position) (modifiers : Modifiers) :
    Injects size h (h.movement at_ modifiers).1 [(h.movement at_ modifiers).2] := by
  have hsame : Injects size h (h.movement at_ modifiers).1 [] := .same rfl rfl
  have hmoved : Injects size h h [(h.movement at_ modifiers).2] := by
    unfold HeldInput.movement
    dsimp only
    split
    · next button hfirst =>
      exact .move (plain_mouseMove at_ modifiers .mouseDrag button ⟨0⟩ ⟨0⟩) (.inr rfl)
    · exact .move (plain_mouseMove at_ modifiers .mouseMove .none ⟨0⟩ ⟨0⟩) (.inl rfl)
  exact hmoved.append hsame

theorem handle_follows (hw : w.Proper) (view : SessionView Point) (event : DesktopEvent Point)
    (hpress : event.presses = true → w.inputAllowed = true)
    (hleaves : w.inputAllowed = true → w.leavesOn view event = true → w.held.keys = [])
    (hscrolls : w.inputAllowed = true → w.pointer.isSome = true → ∀ dx dy,
      event = .mouseWheel dx dy →
        InputState.wheelDelta dx = true ∧ InputState.wheelDelta dy = true) :
    Follows size w (w.handle view event) := by
  cases event with
  | closeRequested => exact releaseInput_follows hw
  | focused focused =>
    cases focused with
    | true => exact .still hw rfl rfl
    | false => exact releaseInput_follows hw
  | modifiersChanged modifiers => exact .still hw rfl rfl
  | cursorMoved position =>
    have hmoved : Follows size w ({ w with cursor := some position }, []) := .still hw rfl rfl
    have hleave : (w.pickerOpen || (view.remoteAt position).isNone) = true →
        Follows size w { w with cursor := some position }.leavePointer := fun hoff =>
      hmoved.andThen (leavePointer_follows hmoved.proper fun hallowed hpointer =>
        hleaves hallowed (Bool.and_eq_true_iff.mpr ⟨hpointer, hoff⟩))
    unfold handle
    dsimp only
    split
    · next hoff =>
      refine hleave ?_
      rcases Bool.or_eq_true_iff.mp hoff with hpicker | hblocks
      · rw [hpicker]
        rfl
      · rw [SessionView.remoteAt, if_pos hblocks]
        exact Bool.or_true _
    · next hon =>
      rw [Bool.not_eq_true, Bool.or_eq_false_iff] at hon
      split
      · next at_ hat =>
        exact .sends hw { w with
          cursor := some position
          pointer := some at_
          held := (w.held.movement at_ w.modifiers).1 } rfl
          (hw.held.sublist (List.Sublist.refl _) (List.Sublist.refl _))
          (movement_accepts w.held at_ w.modifiers) hw.muted
      · next hnone =>
        refine hleave ?_
        rw [SessionView.remoteAt, if_neg (by rw [hon.2]; exact Bool.false_ne_true), hnone]
        exact Bool.or_true _
  | cursorLeft =>
    have hmoved : Follows size w ({ w with cursor := none }, []) := .still hw rfl rfl
    exact hmoved.andThen (leavePointer_follows hmoved.proper hleaves)
  | mouseInput pressed button =>
    cases button with
    | none => exact .still hw rfl rfl
    | some button =>
      refine button_follows hw button pressed fun hpressed => hpress ?_
      rw [hpressed]
      rfl
  | mouseWheel dx dy =>
    unfold handle
    dsimp only
    split
    · exact .still hw rfl rfl
    · next at_ hat =>
      by_cases hallowed : w.inputAllowed = true
      · obtain ⟨hx, hy⟩ := hscrolls hallowed (by rw [hat]; rfl) dx dy rfl
        exact .sends hw w rfl hw.held
          (.scroll (plain_mouseMove at_ w.modifiers .wheel .none dx dy) rfl hx
            ((wheelDelta_negate dy).trans hy)) hw.muted
      · unfold send
        rw [if_neg hallowed]
        exact .still hw rfl rfl
  | keyboardInput physical pressed text again synthetic =>
    unfold handle
    dsimp only
    split
    · exact .still hw rfl rfl
    · split
      · exact .still hw rfl rfl
      · next e he =>
        obtain ⟨usage, husage, unicode, rfl⟩ := remoteKey_some he
        cases pressed with
        | true =>
          exact keyDown_follows hw (hpress rfl) (plain_key .keyDown usage _ unicode) rfl husage
            again
        | false => exact keyUp_follows hw (plain_key .keyUp usage _ unicode) rfl again
  | ime => exact .still hw rfl rfl

theorem windowEvent_cases (view : SessionView Point) (consumed : Bool) (event : DesktopEvent Point)
    (w : SessionApp Point) :
    w.windowEvent view consumed event = (w.noteFocus event).routeKeyboard view event ∨
    w.windowEvent view consumed event =
      ((w.noteFocus event).routeKeyboard view event).andThen releaseHeldInput ∨
    (w.windowEvent view consumed event =
      ((w.noteFocus event).routeKeyboard view event).andThen (handle view event) ∧
      ∀ dx dy, event = .mouseWheel dx dy →
        (consumed && (w.cursor.bind view.remoteAt).isNone) = false) := by
  unfold windowEvent
  dsimp only
  split
  · exact .inl rfl
  · split
    · exact .inr (.inl rfl)
    · next hkept =>
      refine .inr (.inr ⟨rfl, ?_⟩)
      rintro dx dy rfl
      change ¬ ((true && consumed) && (w.cursor.bind view.remoteAt).isNone && true) = true at hkept
      rwa [Bool.and_true, Bool.true_and, Bool.not_eq_true] at hkept

/-- A scroll that finds the pointer on the picture found it there before, and was not for the
toolbar. -/
theorem pointer_of_route (view : SessionView Point) (dx dy : F32)
    (h : (w.routeKeyboard view (.mouseWheel dx dy)).1.pointer.isSome = true) :
    w.pointer.isSome = true ∧
      (w.cursor.any view.blocksPointer && w.keyboardFocus = .remote) = false := by
  unfold routeKeyboard at h
  dsimp only at h
  split at h
  · unfold focusKeyboard at h
    split at h
    · next hchrome =>
      refine ⟨h, ?_⟩
      rw [hchrome]
      exact Bool.and_false _
    · cases h
  · next hfree =>
    rw [Bool.not_eq_true] at hfree
    exact ⟨h, by rw [hfree]; rfl⟩

theorem windowEvent_follows (hw : w.Proper) (view : SessionView Point) (consumed : Bool)
    (event : DesktopEvent Point) (hstays : w.Stays (.window view consumed event)) :
    Follows size w (w.windowEvent view consumed event) := by
  have hnoted : Follows size w (w.noteFocus event, []) := by
    unfold noteFocus
    split <;> exact .still hw rfl rfl
  have hroute : Follows size w ((w.noteFocus event).routeKeyboard view event) :=
    hnoted.andThen (routeKeyboard_follows hnoted.proper view event)
  rcases windowEvent_cases view consumed event w with hr | hr | ⟨hr, hsent⟩
  · rw [hr]
    exact hroute
  · rw [hr]
    exact hroute.andThen (releaseHeldInput_follows hroute.proper)
  rw [hr]
  refine hroute.andThen (handle_follows hroute.proper view event (fun hpress => ?_) ?_ ?_)
  · rw [hroute.allowed]
    rcases hstays.presses with hallowed | hnone
    · exact hallowed
    · rw [show event.presses = false from hnone] at hpress
      cases hpress
  · -- these events are not routed
    intro hallowed hleaves
    rw [hroute.allowed] at hallowed
    cases event with
    | cursorMoved position => exact hstays.leaves hallowed hleaves
    | cursorLeft => exact hstays.leaves hallowed hleaves
    | _ => cases hleaves
  · rintro hallowed hpointer dx dy rfl
    rw [hroute.allowed] at hallowed
    obtain ⟨hpointer, htoolbar⟩ := pointer_of_route (w := w) view dx dy hpointer
    refine hstays.scrolls hallowed (dx, dy) (if_pos ?_)
    rw [hpointer, htoolbar, hsent dx dy rfl]
    rfl

theorem turn_follows (hw : w.Proper) (t : SessionTurn Point) (hstays : w.Stays t) :
    Follows size w (w.turn t) := by
  cases t with
  | window view consumed event => exact windowEvent_follows hw view consumed event hstays
  | refit view =>
    exact refit_follows hw view fun hallowed hpointer hoff =>
      hstays.leaves hallowed (Bool.and_eq_true_iff.mpr ⟨hpointer, hoff⟩)
  | pickFiles spawned =>
    show Follows size w (w.pickFiles spawned)
    unfold pickFiles
    split
    · exact .still hw rfl rfl
    · have hfocus : Follows size w (w.focusKeyboard .chrome) := focusKeyboard_follows hw .chrome
      exact (hfocus.andThen (releaseHeldInput_follows hfocus.proper)).change rfl rfl
  | pickerFinished => exact .still hw rfl rfl
  | disconnect => exact releaseInput_follows hw
  | ended => exact releaseInput_follows hw

end SessionApp

/-! ### Window, injector and portal -/

/-- The window of a session, and the portal at its other end. -/
structure LinuxSharing (Point : Type) where
  client : SessionApp Point
  portal : PortalSession
  /-- The failure that has revoked the session. -/
  revoked : Option String

namespace LinuxSharing

variable {Point : Type} {s : LinuxSharing Point} {size : ℕ × ℕ}

def start (inputAllowed fileTransfer : Bool) : LinuxSharing Point :=
  ⟨.start inputAllowed fileTransfer, .start, none⟩

/-- A turn of the window; what it sends reaches the injector in order, up to the first failure. -/
def step (size : ℕ × ℕ) (s : LinuxSharing Point) (t : SessionTurn Point) : LinuxSharing Point :=
  let r := s.client.turn t
  if s.revoked.isSome then { s with client := r.1 }
  else
    match InputState.injectAll size r.2 s.portal with
    | (.ok (), portal) => ⟨r.1, portal, none⟩
    | (.error text, portal) => ⟨r.1, portal, some text⟩

/-- What holds in every run of turns that stay within the condition. -/
structure Inv (s : LinuxSharing Point) : Prop where
  client : s.client.Proper
  portal : s.portal.Mirrors s.client.held
  open_ : s.revoked = none

theorem inv_start (inputAllowed fileTransfer : Bool) :
    (start inputAllowed fileTransfer : LinuxSharing Point).Inv where
  client := ⟨SessionApp.sane_empty _ rfl rfl, fun _ => ⟨rfl, rfl⟩⟩
  portal :=
    { keys := fun code =>
        ⟨fun h => absurd h (Finset.notMem_empty code), fun ⟨_, h, _⟩ => absurd h List.not_mem_nil⟩
      buttons := fun code =>
        ⟨fun h => absurd h (Finset.notMem_empty code), fun ⟨_, h, _⟩ => absurd h List.not_mem_nil⟩
      down := rfl }
  open_ := rfl

theorem Inv.step (h : s.Inv) {t : SessionTurn Point} (hstays : s.client.Stays t) :
    (s.step size t).Inv := by
  have hturn : SessionApp.Follows size s.client (s.client.turn t) :=
    SessionApp.turn_follows h.client t hstays
  obtain ⟨hproper, hallowed, haccepts⟩ := hturn
  obtain ⟨portal, hrun, hportal⟩ := haccepts s.portal h.portal
  unfold LinuxSharing.step
  dsimp only
  rw [h.open_, hrun]
  exact ⟨hproper, hportal, rfl⟩

/-- A turn that meets the condition. -/
def stepWithin (size : ℕ × ℕ) (s : LinuxSharing Point) (t : SessionTurn Point) :
    Option (LinuxSharing Point) :=
  if s.client.Stays t then some (s.step size t) else none

theorem inv_stepWithin (h : s.Inv) {s' : LinuxSharing Point} {t : SessionTurn Point}
    (hs : stepWithin size s t = some s') : s'.Inv := by
  obtain ⟨hstays, hs⟩ := Option.ite_none_right_eq_some.mp hs
  cases hs
  exact h.step hstays

/-- **The injector follows.**  No event has been refused, and the keys and buttons that are down at
the portal are those the client records as held. -/
theorem linux_follows {inputAllowed fileTransfer : Bool}
    (hr : Reach (stepWithin size) (start inputAllowed fileTransfer) s) :
    s.revoked = none ∧
    (∀ code, .inl code ∈ s.portal.down ↔
      ∃ usage ∈ s.client.held.keys, InputState.evdev usage = some code) ∧
    ∀ code, .inr code ∈ s.portal.down ↔
      ∃ button ∈ s.client.held.buttons, InputState.button button = .ok code := by
  have hinv : s.Inv :=
    hr.invariant (inv_start inputAllowed fileTransfer) fun _ _ _ h hs => inv_stepWithin h hs
  refine ⟨hinv.open_, fun code => ?_, fun code => ?_⟩
  · rw [hinv.portal.down, Finset.inl_mem_disjSum]
    exact hinv.portal.keys code
  · rw [hinv.portal.down, Finset.inr_mem_disjSum]
    exact hinv.portal.buttons code

/-- A picture that fills the points from 0 on, below a toolbar at 9 and above. -/
def smallView : SessionView ℕ where
  blocksPointer := (9 ≤ ·)
  normalise := fun _ => some .origin

def smallStart : LinuxSharing ℕ := .start true true

def keyTurn (pressed : Bool) : SessionTurn ℕ :=
  .window smallView false (.keyboardInput (some .keyA) pressed none false false)

def buttonTurn (pressed : Bool) : SessionTurn ℕ :=
  .window smallView false (.mouseInput pressed (some .left))

def moveTurn (position : ℕ) : SessionTurn ℕ := .window smallView false (.cursorMoved position)

/-- The pointer comes onto the picture, and A and the left button go down. -/
theorem linux_follows_drag : ∃ s : LinuxSharing ℕ,
    (s.client.held.keys = [0x04] ∧ s.client.held.buttons = [.left]) ∧
    s.revoked = none ∧
    (∀ code, .inl code ∈ s.portal.down ↔
      ∃ usage ∈ s.client.held.keys, InputState.evdev usage = some code) ∧
    ∀ code, .inr code ∈ s.portal.down ↔
      ∃ button ∈ s.client.held.buttons, InputState.button button = .ok code := by
  have hstart : Reach (stepWithin (1920, 1080)) smallStart smallStart := .init
  have hmoved := hstart.step (moveTurn 3) (if_pos ⟨.inl rfl, fun _ _ => rfl, nofun⟩)
  have hpressed := hmoved.step (keyTurn true) (if_pos ⟨.inl rfl, nofun, nofun⟩)
  have hdragged := hpressed.step (buttonTurn true) (if_pos ⟨.inl rfl, nofun, nofun⟩)
  exact ⟨_, ⟨rfl, rfl⟩, linux_follows hdragged⟩

/-- The pointer goes to the toolbar while A is held. -/
def leftWithKey : LinuxSharing ℕ :=
  [moveTurn 3, keyTurn true, moveTurn 9].foldl (step (1920, 1080)) smallStart

def scrolledFar : LinuxSharing ℕ :=
  [moveTurn 3, .window smallView false (.mouseWheel ⟨0x42f20000⟩ ⟨0⟩)].foldl
    (step (1920, 1080)) smallStart

/-- A is held and is up at the portal; and the scroll has revoked the session. -/
theorem linux_lets_go :
    (leftWithKey.revoked = none ∧ leftWithKey.client.held.keys = [0x04] ∧
      leftWithKey.portal.down = ∅) ∧
    scrolledFar.revoked = some "invalid wheel delta" :=
  ⟨⟨rfl, rfl, rfl⟩, rfl⟩

end LinuxSharing

end NebulaDesk
