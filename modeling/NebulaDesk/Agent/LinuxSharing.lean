/-
The Linux injector behind the window of a desktop session (`nebula-client/src/session.rs`,
`nebula-agent/src/platform/linux/input.rs`).

* `Mirrors` — the injector and its portal have down what the client records as held;
* `Injects` — the injector takes these events without an error, and mirrors the client after them;
* `Follows` — what that makes of a turn of the window.
-/
import NebulaDesk.Agent.LinuxInput
import NebulaDesk.Client.SessionInput

namespace NebulaDesk

open Presses Runs

/-! ### The tables -/

/-- The usages that `hid` has. -/
def hidUsages : List ℕ :=
  List.range' 0x04 0x2e ++ List.range' 0x33 0x31 ++ [0x65] ++ List.range' 0x68 8 ++
    List.range' 0xe0 8

theorem hid_mem {code : KeyCode} {usage : ℕ} (h : hid code = some usage) : usage ∈ hidUsages := by
  cases code <;> first | cases h; decide | cases h

theorem evdev_nodup : (hidUsages.map InputState.evdev).Nodup := by decide +kernel

theorem evdev_isSome : ∀ usage ∈ hidUsages, (InputState.evdev usage).isSome := by decide +kernel

theorem evdev_inj {usage other code : ℕ} (hu : usage ∈ hidUsages) (ho : other ∈ hidUsages)
    (h : InputState.evdev usage = some code) (h' : InputState.evdev other = some code) :
    usage = other :=
  List.inj_on_of_nodup_map evdev_nodup hu ho (h.trans h'.symm)

theorem button_inj {button other : MouseButton} {code : ℕ} (h : InputState.button button = .ok code)
    (h' : InputState.button other = .ok code) : button = other := by
  cases button <;> cases other <;> first | rfl | cases h <;> cases h'

/-! ### One event -/

namespace PortalSession

/-- The injector and the portal have down what is held. -/
structure Mirrors (held : HeldInput) (p : PortalSession) : Prop where
  keys : ∀ code, code ∈ p.input.keys ↔ ∃ usage ∈ held.keys, InputState.evdev usage = some code
  buttons : ∀ code,
    code ∈ p.input.buttons ↔ ∃ button ∈ held.buttons, InputState.button button = .ok code
  down : p.down = p.input.keys.disjSum p.input.buttons

end PortalSession

/-- What the client may hold. -/
structure HeldInput.Sane (h : HeldInput) : Prop where
  usages : ∀ usage ∈ h.keys, usage ∈ hidUsages
  keys : h.keys.Nodup
  buttons : h.buttons.Nodup
  named : .none ∉ h.buttons

structure InputEvent.Plain (e : InputEvent) : Prop where
  display : e.display = 0
  pointerId : e.pointerId = 0
  x : e.x.isFinite = true
  y : e.y.isFinite = true

namespace InputState

variable {size : ℕ × ℕ} {e : InputEvent} {p : PortalSession} {code : ℕ}

theorem inject_plain (h : e.Plain) : inject size e p = act e p := by
  have hensure : ensure (e.display = 0 && e.pointerId = 0)
      "Linux portal supports one selected monitor and one pointer" p = (.ok (), p) := by
    rw [ensure, if_pos (by simp [h.display, h.pointerId])]
    rfl
  have hmove : movePointer size e p = (.ok (), p) := by
    unfold movePointer
    split
    · have hfinite : ensure (e.x.isFinite && e.y.isFinite) "non-finite pointer position" p =
          (.ok (), p) := by
        rw [ensure, if_pos (by simp [h.x, h.y])]
        rfl
      rw [Cmd.bind_ok hfinite]
      rfl
    · rfl
  unfold inject
  rw [Cmd.bind_ok hensure, Cmd.bind_ok hmove]

theorem pressButton_down (hkind : e.kind = .mouseDown) (hcode : button e.button = .ok code)
    (hup : code ∉ p.input.buttons) : pressButton e p = (.ok (),
      ⟨{ p.input with buttons := insert code p.input.buttons }, insert (.inr code) p.down⟩) := by
  unfold pressButton
  rw [hcode, hkind]
  show (if true ≠ decide (code ∈ p.input.buttons) then _ else _ : PortalInject Unit) p = _
  rw [if_pos (by simpa using hup)]
  rfl

theorem pressButton_up (hkind : e.kind = .mouseUp) (hcode : button e.button = .ok code)
    (hdown : code ∈ p.input.buttons) : pressButton e p = (.ok (),
      ⟨{ p.input with buttons := p.input.buttons.erase code }, p.down.erase (.inr code)⟩) := by
  unfold pressButton
  rw [hcode, hkind]
  show (if false ≠ decide (code ∈ p.input.buttons) then _ else _ : PortalInject Unit) p = _
  rw [if_pos (by simpa using hdown)]
  rfl

theorem pressKey_down (hkind : e.kind = .keyDown) (hcode : evdev e.key = some code)
    (hup : code ∉ p.input.keys) : pressKey e p = (.ok (),
      ⟨{ p.input with keys := insert code p.input.keys }, insert (.inl code) p.down⟩) := by
  unfold pressKey
  rw [hcode, hkind]
  show (if true ≠ decide (code ∈ p.input.keys) then _ else _ : PortalInject Unit) p = _
  rw [if_pos (by simpa using hup)]
  rfl

theorem pressKey_again (hkind : e.kind = .keyDown) (hcode : evdev e.key = some code)
    (hdown : code ∈ p.input.keys) : pressKey e p = (.ok (), p) := by
  unfold pressKey
  rw [hcode, hkind]
  show (if true ≠ decide (code ∈ p.input.keys) then _ else _ : PortalInject Unit) p = _
  rw [if_neg (by simpa using hdown)]
  rfl

theorem pressKey_up (hkind : e.kind = .keyUp) (hcode : evdev e.key = some code)
    (hdown : code ∈ p.input.keys) : pressKey e p = (.ok (),
      ⟨{ p.input with keys := p.input.keys.erase code }, p.down.erase (.inl code)⟩) := by
  unfold pressKey
  rw [hcode, hkind]
  show (if false ≠ decide (code ∈ p.input.keys) then _ else _ : PortalInject Unit) p = _
  rw [if_pos (by simpa using hdown)]
  rfl

theorem turnWheel_ok (axis : Axis) (wheel : InputState → Float)
    (setWheel : Float → InputState → InputState)
    (hset : ∀ v input, (setWheel v input).keys = input.keys ∧
      (setWheel v input).buttons = input.buttons) {delta : F32} (h : wheelDelta delta = true)
    (p : PortalSession) :
    ∃ v, turnWheel axis wheel setWheel delta p = (.ok (), { p with input := v }) ∧
      v.keys = p.input.keys ∧ v.buttons = p.input.buttons := by
  have hensure : ensure (wheelDelta delta) "invalid wheel delta" p = (.ok (), p) := by
    rw [ensure, if_pos h]
    rfl
  unfold turnWheel
  rw [Cmd.bind_ok hensure]
  generalize hturned :
    wheel p.input + (Float32.ofBits (UInt32.ofBitVec delta.bits)).toFloat = turned
  have hupdate : update (fun input => setWheel
      (wheel input + (Float32.ofBits (UInt32.ofBitVec delta.bits)).toFloat) input) p =
      (.ok (), { p with input := setWheel turned p.input }) := by
    rw [← hturned]
    rfl
  have hget : (Cmd.get fun s => .ok (wheel s.input) : PortalInject Float)
      { p with input := setWheel turned p.input } =
      (.ok (wheel (setWheel turned p.input)), { p with input := setWheel turned p.input }) := rfl
  rw [Cmd.bind_ok hupdate, Cmd.bind_ok hget]
  obtain ⟨hkeys, hbuttons⟩ := hset turned p.input
  split
  · refine ⟨setWheel _ (setWheel turned p.input), rfl, ?_, ?_⟩
    · rw [(hset _ _).1, hkeys]
    · rw [(hset _ _).2, hbuttons]
  · exact ⟨_, rfl, hkeys, hbuttons⟩

theorem leave_empty (hkeys : p.input.keys = ∅) (hbuttons : p.input.buttons = ∅) :
    leave p = (.ok (), { p with input := ⟨∅, ∅, (0, 0)⟩ }) := by
  unfold leave
  have hget : (Cmd.get fun s => .ok (ascending s.input.keys) : PortalInject (List ℕ)) p =
      (.ok [], p) := by
    show (Except.ok (ascending p.input.keys), p) = _
    rw [hkeys]
    rfl
  have hget' : (Cmd.get fun s => .ok (ascending s.input.buttons) : PortalInject (List ℕ)) p =
      (.ok [], p) := by
    show (Except.ok (ascending p.input.buttons), p) = _
    rw [hbuttons]
    rfl
  have hnone : ∀ f : ℕ → PortalInject Unit, ([] : List ℕ).forM f p = (.ok (), p) := fun _ => rfl
  rw [Cmd.bind_ok hget, Cmd.bind_ok (hnone _), Cmd.bind_ok hget', Cmd.bind_ok (hnone _)]
  rfl

/-- The events of a turn, one after the other. -/
def injectAll (size : ℕ × ℕ) (events : List InputEvent) : PortalInject Unit :=
  events.forM (inject size)

theorem injectAll_append {events more : List InputEvent} {p' : PortalSession}
    (h : injectAll size events p = (.ok (), p')) :
    injectAll size (events ++ more) p = injectAll size more p' := by
  induction events generalizing p with
  | nil =>
    obtain rfl := (Prod.mk.inj h).2
    rfl
  | cons e events ih =>
    change (inject size e >>= fun _ => injectAll size events) p = _ at h
    show (inject size e >>= fun _ => injectAll size (events ++ more)) p = _
    cases hinject : inject size e p with
    | mk result mid =>
      cases result with
      | ok u =>
        rw [Cmd.bind_ok hinject] at h ⊢
        exact ih h
      | error text =>
        rw [Cmd.bind_error hinject] at h
        cases h

end InputState

open InputState

/-- The injector takes the events, and mirrors the client before and after them. -/
def Injects (size : ℕ × ℕ) (held held' : HeldInput) (events : List InputEvent) : Prop :=
  ∀ p : PortalSession, p.Mirrors held →
    ∃ p', injectAll size events p = (.ok (), p') ∧ p'.Mirrors held'

namespace Injects

variable {size : ℕ × ℕ} {h h' h'' : HeldInput} {e : InputEvent} {events more : List InputEvent}

theorem same (hkeys : h'.keys = h.keys) (hbuttons : h'.buttons = h.buttons) :
    Injects size h h' [] := by
  intro p hp
  refine ⟨p, rfl, ⟨?_, ?_, hp.down⟩⟩
  · rw [hkeys]
    exact hp.keys
  · rw [hbuttons]
    exact hp.buttons

theorem append (hfirst : Injects size h h' events) (hmore : Injects size h' h'' more) :
    Injects size h h'' (events ++ more) := by
  intro p hp
  obtain ⟨p', hrun, hp'⟩ := hfirst p hp
  obtain ⟨p'', hrun', hp''⟩ := hmore p' hp'
  exact ⟨p'', (injectAll_append hrun).trans hrun', hp''⟩

theorem one (hplain : e.Plain)
    (hact : ∀ p : PortalSession, p.Mirrors h → ∃ p', act e p = (.ok (), p') ∧ p'.Mirrors h') :
    Injects size h h' [e] := by
  intro p hp
  obtain ⟨p', hrun, hp'⟩ := hact p hp
  refine ⟨p', ?_, hp'⟩
  show (inject size e >>= fun _ => pure ()) p = _
  rw [Cmd.bind_ok ((inject_plain hplain).trans hrun)]
  rfl

theorem move (hplain : e.Plain) (hkind : e.kind = .mouseMove ∨ e.kind = .mouseDrag) :
    Injects size h h [e] := by
  refine one hplain fun p hp => ⟨p, ?_, hp⟩
  rcases hkind with hkind | hkind
  · rw [act, hkind]
    rfl
  · rw [act, hkind]
    rfl

theorem scroll (hplain : e.Plain) (hkind : e.kind = .wheel) (hx : wheelDelta e.scrollX = true)
    (hy : wheelDelta (negate e.scrollY) = true) : Injects size h h [e] := by
  refine one hplain fun p hp => ?_
  rw [act, hkind]
  obtain ⟨v, hfirst, hkeys, hbuttons⟩ := turnWheel_ok .horizontal (·.wheel.1)
    (fun v input => { input with wheel := (v, input.wheel.2) }) (fun _ _ => ⟨rfl, rfl⟩) hx p
  obtain ⟨v', hsecond, hkeys', hbuttons'⟩ := turnWheel_ok .vertical (·.wheel.2)
    (fun v input => { input with wheel := (input.wheel.1, v) }) (fun _ _ => ⟨rfl, rfl⟩) hy
    { p with input := v }
  refine ⟨{ p with input := v' }, (Cmd.bind_ok hfirst).trans hsecond, ⟨?_, ?_, ?_⟩⟩
  · show ∀ code, code ∈ v'.keys ↔ _
    rw [hkeys', hkeys]
    exact hp.keys
  · show ∀ code, code ∈ v'.buttons ↔ _
    rw [hbuttons', hbuttons]
    exact hp.buttons
  · show p.down = v'.keys.disjSum v'.buttons
    rw [hkeys', hkeys, hbuttons', hbuttons]
    exact hp.down

theorem leave (hplain : e.Plain) (hkind : e.kind = .pointerLeave) (hkeys : h.keys = [])
    (hbuttons : h.buttons = []) : Injects size h h [e] := by
  refine one hplain fun p hp => ?_
  have hnoKeys : p.input.keys = ∅ := by
    refine Finset.eq_empty_of_forall_notMem fun code hcode => ?_
    obtain ⟨usage, husage, -⟩ := (hp.keys code).mp hcode
    rw [hkeys] at husage
    cases husage
  have hnoButtons : p.input.buttons = ∅ := by
    refine Finset.eq_empty_of_forall_notMem fun code hcode => ?_
    obtain ⟨button, hbutton, -⟩ := (hp.buttons code).mp hcode
    rw [hbuttons] at hbutton
    cases hbutton
  have hdown := hp.down
  have hpkeys := hp.keys
  have hpbuttons := hp.buttons
  rw [hnoKeys] at hpkeys hdown
  rw [hnoButtons] at hpbuttons hdown
  rw [act, hkind]
  exact ⟨_, leave_empty hnoKeys hnoButtons, hpkeys, hpbuttons, hdown⟩

theorem buttonDown (hplain : e.Plain) (hkind : e.kind = .mouseDown)
    (hnamed : e.button ≠ .none) (hup : e.button ∉ h.buttons) (hkeys : h'.keys = h.keys)
    (hbuttons : h'.buttons = h.buttons ++ [e.button]) : Injects size h h' [e] := by
  refine one hplain fun p hp => ?_
  obtain ⟨code, hcode⟩ : ∃ code, button e.button = .ok code := by
    cases hb : e.button with
    | none => exact absurd hb hnamed
    | _ => exact ⟨_, rfl⟩
  have hnew : code ∉ p.input.buttons := by
    intro hmem
    obtain ⟨other, hother, hcode'⟩ := (hp.buttons code).mp hmem
    rw [button_inj hcode hcode'] at hup
    exact hup hother
  rw [act, hkind]
  refine ⟨_, pressButton_down hkind hcode hnew, ?_, fun other => ?_, ?_⟩
  · rw [hkeys]
    exact hp.keys
  · rw [hbuttons]
    show other ∈ insert code p.input.buttons ↔ _
    rw [Finset.mem_insert, hp.buttons]
    simp only [List.mem_append, List.mem_singleton, or_and_right, exists_or, exists_eq_left, hcode,
      Except.ok.injEq]
    rw [or_comm, eq_comm]
  · show insert (.inr code) p.down = p.input.keys.disjSum (insert code p.input.buttons)
    rw [hp.down]
    ext (key | other) <;> simp

theorem buttonUp (hplain : e.Plain) (hkind : e.kind = .mouseUp) (hdown : e.button ∈ h.buttons)
    (hsane : h.Sane) (hkeys : h'.keys = h.keys) (hbuttons : h'.buttons = h.buttons.erase e.button) :
    Injects size h h' [e] := by
  refine one hplain fun p hp => ?_
  obtain ⟨code, hcode⟩ : ∃ code, button e.button = .ok code := by
    cases hb : e.button with
    | none => exact absurd (hb ▸ hdown) hsane.named
    | _ => exact ⟨_, rfl⟩
  rw [act, hkind]
  refine ⟨_, pressButton_up hkind hcode ((hp.buttons code).mpr ⟨e.button, hdown, hcode⟩), ?_,
    fun other => ?_, ?_⟩
  · rw [hkeys]
    exact hp.keys
  · rw [hbuttons]
    show other ∈ p.input.buttons.erase code ↔ _
    rw [Finset.mem_erase, hp.buttons]
    constructor
    · rintro ⟨hne, b, hb, hother⟩
      refine ⟨b, (hsane.buttons.mem_erase_iff).mpr ⟨?_, hb⟩, hother⟩
      rintro rfl
      exact hne (Except.ok.inj (hother.symm.trans hcode))
    · rintro ⟨b, hb, hother⟩
      obtain ⟨hne, hb⟩ := (hsane.buttons.mem_erase_iff).mp hb
      refine ⟨?_, b, hb, hother⟩
      rintro rfl
      exact hne (button_inj hother hcode)
  · show p.down.erase (.inr code) = p.input.keys.disjSum (p.input.buttons.erase code)
    rw [hp.down]
    ext (key | other) <;> simp

theorem keyDown (hplain : e.Plain) (hkind : e.kind = .keyDown) (husage : e.key ∈ hidUsages)
    (hsane : h.Sane) (hbuttons : h'.buttons = h.buttons)
    (hkeys : h'.keys = if e.key ∈ h.keys then h.keys else h.keys ++ [e.key]) :
    Injects size h h' [e] := by
  refine one hplain fun p hp => ?_
  obtain ⟨code, hcode⟩ := Option.isSome_iff_exists.mp (evdev_isSome e.key husage)
  have hiff : code ∈ p.input.keys ↔ e.key ∈ h.keys := by
    rw [hp.keys]
    constructor
    · rintro ⟨other, hother, hcode'⟩
      rwa [evdev_inj husage (hsane.usages other hother) hcode hcode']
    · exact fun hheld => ⟨e.key, hheld, hcode⟩
  rw [act, hkind]
  by_cases hheld : e.key ∈ h.keys
  · rw [if_pos hheld] at hkeys
    refine ⟨p, pressKey_again hkind hcode (hiff.mpr hheld), ?_, ?_, hp.down⟩
    · rw [hkeys]
      exact hp.keys
    · rw [hbuttons]
      exact hp.buttons
  · rw [if_neg hheld] at hkeys
    have hnew : code ∉ p.input.keys := fun hmem => hheld (hiff.mp hmem)
    refine ⟨_, pressKey_down hkind hcode hnew, fun other => ?_, ?_, ?_⟩
    · rw [hkeys]
      show other ∈ insert code p.input.keys ↔ _
      rw [Finset.mem_insert, hp.keys]
      simp only [List.mem_append, List.mem_singleton, or_and_right, exists_or, exists_eq_left,
        hcode, Option.some_inj]
      rw [or_comm, eq_comm]
    · rw [hbuttons]
      exact hp.buttons
    · show insert (.inl code) p.down = (insert code p.input.keys).disjSum p.input.buttons
      rw [hp.down]
      ext (key | other) <;> simp

theorem keyUp (hplain : e.Plain) (hkind : e.kind = .keyUp) (hdown : e.key ∈ h.keys)
    (hsane : h.Sane) (hbuttons : h'.buttons = h.buttons) (hkeys : h'.keys = h.keys.erase e.key) :
    Injects size h h' [e] := by
  refine one hplain fun p hp => ?_
  have husage := hsane.usages e.key hdown
  obtain ⟨code, hcode⟩ := Option.isSome_iff_exists.mp (evdev_isSome e.key husage)
  rw [act, hkind]
  have hheld : code ∈ p.input.keys := (hp.keys code).mpr ⟨e.key, hdown, hcode⟩
  refine ⟨_, pressKey_up hkind hcode hheld, fun other => ?_, ?_, ?_⟩
  · rw [hkeys]
    show other ∈ p.input.keys.erase code ↔ _
    rw [Finset.mem_erase, hp.keys]
    constructor
    · rintro ⟨hne, u, hu, hother⟩
      refine ⟨u, (hsane.keys.mem_erase_iff).mpr ⟨?_, hu⟩, hother⟩
      rintro rfl
      exact hne (Option.some.inj (hother.symm.trans hcode))
    · rintro ⟨u, hu, hother⟩
      obtain ⟨hne, hu⟩ := (hsane.keys.mem_erase_iff).mp hu
      refine ⟨?_, u, hu, hother⟩
      rintro rfl
      exact hne (evdev_inj (hsane.usages u hu) husage hother hcode)
  · rw [hbuttons]
    exact hp.buttons
  · show p.down.erase (.inl code) = (p.input.keys.erase code).disjSum p.input.buttons
    rw [hp.down]
    ext (key | other) <;> simp

end Injects

/-! ### The window -/

theorem plain_mouseMove (at_ : Position) (modifiers : Modifiers) (kind : InputKind)
    (button : MouseButton) (dx dy : F32) :
    InputEvent.Plain { InputEvent.mouseMove at_ modifiers with
      kind := kind, button := button, scrollX := dx, scrollY := dy } :=
  ⟨rfl, rfl, isFinite_of_unitRange at_.onPicture.1, isFinite_of_unitRange at_.onPicture.2⟩

theorem plain_key (kind : InputKind) (key modifiers unicode : ℕ) :
    InputEvent.Plain ⟨kind, .none, modifiers, 0, 0, ⟨0⟩, ⟨0⟩, ⟨0⟩, ⟨0⟩, key, unicode⟩ :=
  ⟨rfl, rfl, rfl, rfl⟩

namespace HeldInput.Sane

variable {h h' : HeldInput}

theorem sublist (hs : h.Sane) (hkeys : h'.keys.Sublist h.keys)
    (hbuttons : h'.buttons.Sublist h.buttons) : h'.Sane where
  usages := fun usage hu => hs.usages usage (hkeys.subset hu)
  keys := hs.keys.sublist hkeys
  buttons := hs.buttons.sublist hbuttons
  named := fun hmem => hs.named (hbuttons.subset hmem)

end HeldInput.Sane

theorem diff_of_perm {α : Type} [DecidableEq α] {xs ys : List α} (h : ys.Perm xs) :
    xs.diff ys = [] := by
  rw [h.diff_left]
  clear h
  induction xs with
  | nil => rfl
  | cons x xs ih => rwa [List.diff_cons, List.erase_cons_head]

namespace Injects

variable {size : ℕ × ℕ} {h : HeldInput}

theorem releaseButtons (at_ : Position) (modifiers : Modifiers) {buttons : List MouseButton}
    (hs : h.Sane) (hnodup : buttons.Nodup) (hheld : ∀ button ∈ buttons, button ∈ h.buttons) :
    Injects size h { h with buttons := h.buttons.diff buttons } (buttons.map fun button =>
      { InputEvent.mouseMove at_ modifiers with kind := .mouseUp, button := button }) := by
  induction buttons generalizing h with
  | nil => exact same rfl rfl
  | cons button buttons ih =>
    obtain ⟨hnew, hnodup⟩ := List.nodup_cons.mp hnodup
    let mid : HeldInput := { h with buttons := h.buttons.erase button }
    have hfirst : Injects size h mid
        [{ InputEvent.mouseMove at_ modifiers with kind := .mouseUp, button := button }] :=
      buttonUp (plain_mouseMove at_ modifiers .mouseUp button ⟨0⟩ ⟨0⟩) rfl
        (hheld button List.mem_cons_self) hs rfl rfl
    have hrest := ih (h := mid) (hs.sublist (List.Sublist.refl _) List.erase_sublist) hnodup
      fun other hother => by
        refine (List.mem_erase_of_ne ?_).mpr (hheld other (List.mem_cons_of_mem _ hother))
        rintro rfl
        exact hnew hother
    rw [List.diff_cons]
    exact hfirst.append hrest

theorem releaseKeys {keys : List ℕ} (hs : h.Sane) (hnodup : keys.Nodup)
    (hheld : ∀ key ∈ keys, key ∈ h.keys) :
    Injects size h { h with keys := h.keys.diff keys }
      (keys.map fun key => .ofKey .keyUp key 0) := by
  induction keys generalizing h with
  | nil => exact same rfl rfl
  | cons key keys ih =>
    obtain ⟨hnew, hnodup⟩ := List.nodup_cons.mp hnodup
    let mid : HeldInput := { h with keys := h.keys.erase key }
    have hfirst : Injects size h mid [.ofKey .keyUp key 0] :=
      keyUp (plain_key .keyUp key _ 0) rfl (hheld key List.mem_cons_self) hs rfl rfl
    have hrest := ih (h := mid) (hs.sublist List.erase_sublist (List.Sublist.refl _)) hnodup
      fun other hother => by
        refine (List.mem_erase_of_ne ?_).mpr (hheld other (List.mem_cons_of_mem _ hother))
        rintro rfl
        exact hnew hother
    rw [List.diff_cons]
    exact hfirst.append hrest

theorem releaseButtons_all (hs : h.Sane) (modifiers : Modifiers) :
    Injects size h (h.releaseButtons modifiers).1 (h.releaseButtons modifiers).2 := by
  have hall : Injects size h _ _ :=
    releaseButtons h.lastPointer modifiers hs hs.buttons fun _ hb => hb
  rwa [diff_of_perm (List.Perm.refl _)] at hall

theorem releaseAll (hs : h.Sane) : Injects size h h.releaseAll.1 h.releaseAll.2 := by
  refine (releaseButtons_all hs 0).append ?_
  have hbuttons : (h.releaseButtons 0).1.Sane :=
    hs.sublist (List.Sublist.refl _) (List.nil_sublist _)
  have hall : Injects size (h.releaseButtons 0).1 _ (h.keys.reverse.map _) :=
    releaseKeys hbuttons (List.nodup_reverse.mpr hs.keys) fun _ hk => List.mem_reverse.mp hk
  rwa [show (h.releaseButtons 0).1.keys.diff h.keys.reverse = [] from
    diff_of_perm (List.reverse_perm _)] at hall

end Injects

namespace SessionApp

variable {Point : Type} {w : SessionApp Point} {size : ℕ × ℕ}

/-- What the window may hold, nothing if it may not send. -/
structure Proper (w : SessionApp Point) : Prop where
  held : w.held.Sane
  muted : w.inputAllowed = false → w.held.keys = [] ∧ w.held.buttons = []

/-- What a turn of the window leaves, and that the injector takes what it has sent. -/
structure Follows (size : ℕ × ℕ) (w : SessionApp Point) (r : Emitting Point) : Prop where
  proper : r.1.Proper
  allowed : r.1.inputAllowed = w.inputAllowed
  accepts : Injects size w.held r.1.held r.2

theorem accepts_send {held' : HeldInput} {events : List InputEvent}
    (h : Injects size w.held held' events)
    (hmuted : w.inputAllowed = false → held'.keys = w.held.keys ∧ held'.buttons = w.held.buttons) :
    Injects size w.held held' (w.send events) := by
  unfold send
  cases hallowed : w.inputAllowed with
  | true => exact h
  | false => exact .same (hmuted hallowed).1 (hmuted hallowed).2

namespace Follows

variable {r : Emitting Point} {f : SessionApp Point → Emitting Point}

theorem still {w' : SessionApp Point} (hw : w.Proper) (hheld : w'.held = w.held)
    (hallowed : w'.inputAllowed = w.inputAllowed) : Follows size w (w', []) where
  proper := ⟨hheld ▸ hw.held, fun hmuted => by
    rw [hheld]
    exact hw.muted (hallowed ▸ hmuted)⟩
  allowed := hallowed
  accepts := .same (by rw [hheld]) (by rw [hheld])

theorem andThen (h : Follows size w r) (hf : Follows size r.1 (f r.1)) :
    Follows size w (r.andThen f) where
  proper := hf.proper
  allowed := hf.allowed.trans h.allowed
  accepts := h.accepts.append hf.accepts

theorem change (h : Follows size w r) {w' : SessionApp Point} (hheld : w'.held = r.1.held)
    (hallowed : w'.inputAllowed = r.1.inputAllowed) : Follows size w (w', r.2) where
  proper := ⟨hheld ▸ h.proper.held, fun hmuted => by
    rw [hheld]
    exact h.proper.muted (hallowed ▸ hmuted)⟩
  allowed := hallowed.trans h.allowed
  accepts := by
    rw [hheld]
    exact h.accepts

theorem sends (hw : w.Proper) (w' : SessionApp Point) (hallowed : w'.inputAllowed = w.inputAllowed)
    {events : List InputEvent} (hsane : w'.held.Sane) (h : Injects size w.held w'.held events)
    (hmuted : w.inputAllowed = false → w'.held.keys = [] ∧ w'.held.buttons = []) :
    Follows size w (w', w.send events) where
  proper := ⟨hsane, fun hm => hmuted (hallowed ▸ hm)⟩
  allowed := hallowed
  accepts := accepts_send h fun hm =>
    ⟨(hmuted hm).1.trans (hw.muted hm).1.symm, (hmuted hm).2.trans (hw.muted hm).2.symm⟩

end Follows

theorem sane_empty (h : HeldInput) (hkeys : h.keys = []) (hbuttons : h.buttons = []) : h.Sane where
  usages := by
    rw [hkeys]
    exact fun _ hu => absurd hu List.not_mem_nil
  keys := hkeys ▸ List.nodup_nil
  buttons := hbuttons ▸ List.nodup_nil
  named := hbuttons ▸ List.not_mem_nil

theorem releaseHeldInput_follows (hw : w.Proper) : Follows size w w.releaseHeldInput :=
  .sends hw { w with held := w.held.releaseAll.1, pointer := none } rfl (sane_empty _ rfl rfl)
    (.releaseAll hw.held) fun _ => ⟨rfl, rfl⟩

theorem releaseInput_follows (hw : w.Proper) : Follows size w w.releaseInput :=
  (releaseHeldInput_follows hw).change rfl rfl

theorem focusKeyboard_follows (hw : w.Proper) (focus : KeyboardFocus) :
    Follows size w (w.focusKeyboard focus) := by
  unfold focusKeyboard
  split
  · exact .still hw rfl rfl
  · next hne =>
    rw [KeyboardFocus.switchTo, if_neg hne]
    exact .sends hw
      { w with keyboardFocus := focus, held := w.held.releaseAll.1, pointer := none } rfl
      (sane_empty _ rfl rfl) (.releaseAll hw.held) fun _ => ⟨rfl, rfl⟩

/-- The pointer leaves the picture: the injector lets go of everything, the client of the
buttons. -/
theorem leavePointer_follows (hw : w.Proper)
    (hkeys : w.inputAllowed = true → w.pointer.isSome = true → w.held.keys = []) :
    Follows size w w.leavePointer := by
  have hsane : (w.held.releaseButtons w.modifiers).1.Sane :=
    hw.held.sublist (List.Sublist.refl _) (List.nil_sublist _)
  have hnoKeys : w.pointer.isSome = true → w.held.keys = [] := by
    intro hpointer
    by_cases hallowed : w.inputAllowed = true
    · exact hkeys hallowed hpointer
    · exact (hw.muted (Bool.not_eq_true _ ▸ hallowed)).1
  have hbuttons : Injects size w.held _ _ := Injects.releaseButtons_all hw.held w.modifiers
  refine .sends hw { w with held := (w.held.releaseButtons w.modifiers).1, pointer := none } rfl
    hsane ?_ fun hm => ⟨(hw.muted hm).1, rfl⟩
  split
  · next hpointer =>
    exact hbuttons.append
      (.leave (plain_mouseMove .origin w.modifiers .pointerLeave .none ⟨0⟩ ⟨0⟩) rfl
        (hnoKeys hpointer) rfl)
  · rw [List.append_nil]
    exact hbuttons

theorem refit_follows (hw : w.Proper) (view : SessionView Point)
    (hkeys : w.inputAllowed = true → w.pointer.isSome = true →
      (w.cursor.any fun at_ => (view.remoteAt at_).isNone) = true → w.held.keys = []) :
    Follows size w (w.refit view) := by
  unfold refit
  split
  · exact .still hw rfl rfl
  · next at_ hcursor =>
    split
    · next hnone =>
      refine leavePointer_follows hw fun hallowed hpointer => hkeys hallowed hpointer ?_
      rw [hcursor, Option.any_some, hnone]
      rfl
    · exact .still hw rfl rfl

theorem routeKeyboard_follows (hw : w.Proper) (view : SessionView Point)
    (event : DesktopEvent Point) : Follows size w (w.routeKeyboard view event) := by
  unfold routeKeyboard
  split
  · split
    · exact .still hw rfl rfl
    · split
      · exact (focusKeyboard_follows hw .remote).change rfl rfl
      · split
        · exact focusKeyboard_follows hw .chrome
        · exact .still hw rfl rfl
  · split
    · exact focusKeyboard_follows hw .chrome
    · exact .still hw rfl rfl
  · exact .still hw rfl rfl

end SessionApp

end NebulaDesk
