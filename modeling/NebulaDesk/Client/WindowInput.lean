/-
What a window sends and what it keeps held (`nebula-client/src/application.rs`).

Every turn of a window sends, for its surface and its generation, exactly the
presses and releases that lead from what it held to what it holds (`Turn`).
-/
import NebulaDesk.Client.KeyEvents
import NebulaDesk.Client.Windows

namespace NebulaDesk

open Presses

abbrev InputKey := ℕ ⊕ MouseButton

/-- What an event does to the keys and buttons. -/
def InputEvent.pressed (e : InputEvent) : Option (Press InputKey) :=
  match e.kind with
  | .keyDown => some (.down (.inl e.key))
  | .keyUp => some (.up (.inl e.key))
  | .mouseDown => some (.down (.inr e.button))
  | .mouseUp => some (.up (.inr e.button))
  | _ => none

/-- What a command does to the keys and buttons of a surface. -/
def ApplicationMessage.press (id : ℕ) : ApplicationMessage → Option (Press InputKey)
  | .input target _ event =>
    if target = id then
      match InputEvent.decode event with
      | .ok (e, _) => e.pressed
      | .error _ => none
    else none
  | _ => none

def strokes (id : ℕ) (messages : List ApplicationMessage) : List (Press InputKey) :=
  messages.filterMap (·.press id)

theorem strokes_append (id : ℕ) (xs ys : List ApplicationMessage) :
    strokes id (xs ++ ys) = strokes id xs ++ strokes id ys := List.filterMap_append

/-- An event the wire format carries: valid but for a scroll that is not a number. -/
def Sendable (e : InputEvent) : Prop :=
  e.kind = .wheel ∨ (∀ display < 2 ^ 8, InputEvent.Valid { e with display := display })

theorem InputEvent.kind_of_decode {e v : InputEvent} {r : List UInt8}
    (h : decode e.toBytes = .ok (v, r)) : v.kind = e.kind := by
  simp only [decode, Layout.bind_eq_ok, Layout.guard_eq_ok, Prod.exists] at h
  obtain ⟨n, _, hread, kind, hkind, _, _, -, _, -, _, _, -, _, _, -, _, _, -, _, _, -, _, _, -, _, _, -,
    _, _, -, _, _, -, _, _, -, _, _, -, -, hout⟩ := h
  have hfirst : readInt 1 e.toBytes = .ok (e.kind.toU8, _) :=
    readInt_append (by cases e.kind <;> decide) _
  rw [hfirst] at hread
  cases hread
  rw [InputKind.fromU8_toU8] at hkind
  cases hkind
  cases hout
  rfl

namespace AppWindow

variable {w w' : AppWindow} {e : InputEvent}

/-- What every window keeps. -/
structure Sane (w : AppWindow) : Prop where
  tracked : w.keyboard.Tracked
  onPage : ∀ key ∈ w.keyboard.held, key ≤ 0xe7
  noKeys : w.held.keys = []
  buttons : w.held.buttons.Nodup
  id : w.info.surfaceId < maxApplicationSurfaces

/-- What a window holds down at the agent. -/
def heldKeys (w : AppWindow) : Finset InputKey :=
  w.keyboard.remote.disjSum w.held.buttons.toFinset

/-- The event as it is sent. -/
def addressed (w : AppWindow) (e : InputEvent) : InputEvent :=
  let e := { e with display := w.info.surfaceId }
  if e.kind.isPointer then { e with modifiers := w.keyboard.remoteMods.toNat } else e

theorem input_eq (w : AppWindow) (e : InputEvent) :
    w.input e = .input w.info.surfaceId w.info.geometryGeneration (w.addressed e).toBytes := rfl

theorem addressed_pressed (w : AppWindow) (e : InputEvent) :
    (w.addressed e).pressed = e.pressed ∧ (w.addressed e).kind = e.kind ∧
      (w.addressed e).display = w.info.surfaceId := by
  unfold addressed
  dsimp only
  split <;> exact ⟨rfl, rfl, rfl⟩

theorem addressed_valid (h : w.Sane)
    (he : ∀ display < 2 ^ 8, InputEvent.Valid { e with display := display }) :
    (w.addressed e).Valid := by
  have hid : w.info.surfaceId < 2 ^ 8 := lt_of_lt_of_le h.id (by decide)
  have hv := he w.info.surfaceId hid
  unfold addressed
  dsimp only
  split
  · exact ⟨w.keyboard.remoteMods.isLt, hid, hv.pointerId, hv.position, hv.scroll, hv.key, hv.unicode⟩
  · exact hv

/-- **A command carries its event's press.** -/
theorem press_input (h : w.Sane) (he : Sendable e) (id : ℕ) :
    (w.input e).press id = if w.info.surfaceId = id then e.pressed else none := by
  rw [input_eq, ApplicationMessage.press]
  split
  · obtain hwheel | hvalid := he
    · have hnone : e.pressed = none := by
        unfold InputEvent.pressed
        rw [hwheel]
      rw [hnone]
      split
      · rename_i v r hv
        have hkind := InputEvent.kind_of_decode hv
        rw [(w.addressed_pressed e).2.1, hwheel] at hkind
        unfold InputEvent.pressed
        rw [hkind]
      · rfl
    · have hdecode := InputEvent.faithful.roundtrip _ (addressed_valid h hvalid) []
      rw [List.append_nil] at hdecode
      rw [hdecode]
      exact (w.addressed_pressed e).1
  · rfl

theorem checkInput_input (h : w.Sane) (he : Sendable e) {id : ℕ} {p : Press InputKey}
    (hp : (w.input e).press id = some p) :
    ApplicationMessage.checkInput w.info.surfaceId (w.addressed e).toBytes = .ok () := by
  rw [press_input h he] at hp
  obtain hwheel | hvalid := he
  · unfold InputEvent.pressed at hp
    rw [hwheel] at hp
    split at hp <;> cases hp
  · have hv := addressed_valid h hvalid
    have hdecode := InputEvent.faithful.roundtrip _ hv []
    rw [List.append_nil] at hdecode
    unfold ApplicationMessage.checkInput
    rw [hdecode]
    obtain ⟨hx, hy⟩ := hv.position
    simp only [bind, Except.bind, (w.addressed_pressed e).2.2, isFinite_of_unitRange hx,
      isFinite_of_unitRange hy, hv.scroll.1, hv.scroll.2, hx.1, hx.2, hy.1, hy.2]
    simp only [ne_eq, not_true_eq_false, Bool.not_true, Bool.false_eq_true, Bool.and_self, or_self,
      and_false, if_false]
    rfl

/-- What a window does in one go: the presses and releases that it sends are those
that lead from what it held to what it holds. -/
structure Turn (w w' : AppWindow) (out : List ApplicationMessage) : Prop where
  sane : w'.Sane
  id : w'.info.surfaceId = w.info.surfaceId
  generation : w'.info.geometryGeneration = w.info.geometryGeneration
  target : ∀ c ∈ out, c.commandTarget = some (w.info.surfaceId, w.info.geometryGeneration)
  checked : ∀ c ∈ out, ∀ id p, c.press id = some p →
    ∃ event, c = .input w.info.surfaceId w.info.geometryGeneration event ∧
      ApplicationMessage.checkInput w.info.surfaceId event = .ok ()
  plays : plays w.heldKeys (strokes w.info.surfaceId out) = some w'.heldKeys

theorem Turn.refl (h : w.Sane) : Turn w w [] where
  sane := h
  id := rfl
  generation := rfl
  target := fun _ hc => absurd hc List.not_mem_nil
  checked := fun _ hc => absurd hc List.not_mem_nil
  plays := rfl

theorem Turn.trans {w'' : AppWindow} {xs ys : List ApplicationMessage} (h : Turn w w' xs)
    (h' : Turn w' w'' ys) : Turn w w'' (xs ++ ys) where
  sane := h'.sane
  id := h'.id.trans h.id
  generation := h'.generation.trans h.generation
  target := by
    intro c hc
    obtain hc | hc := List.mem_append.mp hc
    · exact h.target c hc
    · rw [h'.target c hc, h.id, h.generation]
  checked := by
    intro c hc id p hp
    obtain hc | hc := List.mem_append.mp hc
    · exact h.checked c hc id p hp
    · obtain ⟨event, heq, hcheck⟩ := h'.checked c hc id p hp
      rw [h.id, h.generation] at heq
      rw [h.id] at hcheck
      exact ⟨event, heq, hcheck⟩
  plays := by
    rw [strokes_append]
    refine plays_append h.plays ?_
    rw [← h.id]
    exact h'.plays

theorem Turn.retitle {out : List ApplicationMessage} (h : Turn w w' out) {w'' : AppWindow}
    (hheld : w''.held = w'.held) (hkeyboard : w''.keyboard = w'.keyboard) (hinfo : w''.info = w'.info) :
    Turn w w'' out where
  sane := by
    obtain ⟨ht, hp, hn, hb, hi⟩ := h.sane
    refine ⟨?_, ?_, ?_, ?_, ?_⟩
    · rw [hkeyboard]; exact ht
    · rw [hkeyboard]; exact hp
    · rw [hheld]; exact hn
    · rw [hheld]; exact hb
    · rw [hinfo]; exact hi
  id := by rw [hinfo]; exact h.id
  generation := by rw [hinfo]; exact h.generation
  __ := h
  plays := by
    rw [h.plays, heldKeys, heldKeys, hheld, hkeyboard]

variable {events : List InputEvent}

theorem Turn.of_events (hs : w'.Sane) (hinfo : w'.info = w.info) {s : AppWindow}
    (hsinfo : s.info = w.info) (hssane : s.Sane)
    (hsend : ∀ e ∈ events, Sendable e)
    (hplays : Presses.plays w.heldKeys (events.filterMap (·.pressed)) = some w'.heldKeys) :
    Turn w w' (events.map s.input) where
  sane := hs
  id := by rw [hinfo]
  generation := by rw [hinfo]
  target := by
    intro c hc
    obtain ⟨e, -, rfl⟩ := List.mem_map.mp hc
    rw [input_eq, hsinfo]
    rfl
  checked := by
    intro c hc id p hp
    obtain ⟨e, he, rfl⟩ := List.mem_map.mp hc
    have hcheck := checkInput_input hssane (hsend e he) hp
    rw [hsinfo] at hcheck
    exact ⟨_, by rw [input_eq, hsinfo], hcheck⟩
  plays := by
    have hstrokes : strokes w.info.surfaceId (events.map s.input) =
        events.filterMap (·.pressed) := by
      rw [strokes, List.filterMap_map]
      refine List.filterMap_congr fun e he => ?_
      show (s.input e).press _ = _
      rw [press_input hssane (hsend e he), hsinfo, if_pos rfl]
    rw [hstrokes, hplays]

/-! ### Keys -/

theorem sendable_keyEvent (he : KeyEvent e) : Sendable e := by
  obtain ⟨kind, key, mods, -, hkey, rfl⟩ := he
  have hzero : UnitRange ⟨0⟩ := ⟨by decide, by decide⟩
  exact .inr fun display hd =>
    ⟨mods.isLt, hd, Nat.two_pow_pos 16, ⟨hzero, hzero⟩, ⟨rfl, rfl⟩, hkey, Nat.two_pow_pos 32⟩

theorem pressed_keyEvents (h : ∀ e ∈ events, KeyEvent e) :
    events.filterMap (·.pressed) = (presses events).map (.map Sum.inl) := by
  rw [presses, List.map_filterMap]
  refine List.filterMap_congr fun e he => ?_
  obtain ⟨kind, key, mods, rfl | rfl, -, rfl⟩ := h e he
  · rfl
  · rfl

theorem typed_append (c : MapperCall) (w : AppWindow) (out : List ApplicationMessage) :
    typed c (w, out) = ((typed c (w, [])).1, out ++ (typed c (w, [])).2) := by
  simp [typed]

/-- **A call of the mapper is a turn.** -/
theorem typed_turn (h : w.Sane) {c : MapperCall} (hc : c.Proper) :
    Turn w (typed c (w, [])).1 (typed c (w, [])).2 := by
  obtain ⟨⟨out, hout, hplays⟩, htracked⟩ := Mapper.call_sends h.tracked c
  have hproper := Mapper.call_proper h.tracked h.onPage hc
  have hs : { w with keyboard := (w.keyboard.call c).1 }.Sane :=
    ⟨htracked, hproper.held, h.noKeys, h.buttons, h.id⟩
  refine .of_events (w := w) (s := { w with keyboard := (w.keyboard.call c).1 }) hs rfl rfl hs
    (fun e he => sendable_keyEvent (hproper.events e he)) ?_
  rw [pressed_keyEvents hproper.events, hout]
  exact plays_inl hplays _

theorem Turn.typed {out : List ApplicationMessage} (h : Turn w w' out) {c : MapperCall}
    (hc : c.Proper) : Turn w (typed c (w', out)).1 (typed c (w', out)).2 := by
  rw [typed_append]
  exact h.trans (typed_turn h.sane hc)

/-! ### Buttons -/

theorem sendable_pointer (at_ : Position) (mods : Modifiers) (kind : InputKind)
    (button : MouseButton) :
    Sendable { InputEvent.mouseMove at_ mods with kind := kind, button := button } :=
  .inr fun _ hd => ⟨mods.isLt, hd, Nat.two_pow_pos 16, at_.onPicture, ⟨rfl, rfl⟩, Nat.zero_le _,
    Nat.two_pow_pos 32⟩

theorem plays_inr_down (A : Finset ℕ) (B : Finset MouseButton) (b : MouseButton) :
    Presses.plays (A.disjSum B) [.down (.inr b)] = some (A.disjSum (insert b B)) := by
  rw [plays_down]
  congr 1
  ext x
  cases x <;> simp

theorem plays_inr_up (A : Finset ℕ) {B : Finset MouseButton} {b : MouseButton} (hb : b ∈ B) :
    Presses.plays (A.disjSum B) [.up (.inr b)] = some (A.disjSum (B.erase b)) := by
  rw [plays_up (Finset.inr_mem_disjSum.mpr hb)]
  congr 1
  ext x
  cases x <;> simp

theorem Turn.of_held (h : w.Sane) (held : HeldInput) (pointer : Option Position)
    (hkeys : held.keys = []) (hnodup : held.buttons.Nodup)
    (hsend : ∀ e ∈ events, Sendable e)
    (hplays : Presses.plays w.heldKeys (events.filterMap (·.pressed)) =
      some (w.keyboard.remote.disjSum held.buttons.toFinset)) :
    Turn w { w with held := held, pointer := pointer }
      (events.map { w with held := held, pointer := pointer }.input) :=
  have hs : { w with held := held, pointer := pointer }.Sane :=
    ⟨h.tracked, h.onPage, hkeys, hnodup, h.id⟩
  .of_events (w := w) (s := { w with held := held, pointer := pointer }) hs rfl rfl hs hsend hplays

end AppWindow

namespace HeldInput

/-- What a button can do: nothing, go down when it was up, or go up when it was down. -/
theorem button_cases (h : HeldInput) (button : MouseButton) (pressed : Bool) (at_ : Option Position)
    (mods : Modifiers) :
    h.button button pressed at_ mods = (h, none) ∨
    (button ∉ h.buttons ∧ ∃ where_, h.button button pressed at_ mods =
      (⟨h.keys, h.buttons ++ [button], where_⟩,
        some { InputEvent.mouseMove where_ mods with kind := .mouseDown, button := button })) ∨
    (button ∈ h.buttons ∧ ∃ where_, h.button button pressed at_ mods =
      (⟨h.keys, h.buttons.erase button, where_⟩,
        some { InputEvent.mouseMove where_ mods with kind := .mouseUp, button := button })) := by
  unfold HeldInput.button
  split
  · exact .inl rfl
  · split
    · split
      · exact .inl rfl
      · rename_i where_
        split
        · exact .inl rfl
        · rename_i hheld
          exact .inr (.inl ⟨hheld, where_, rfl⟩)
    · split
      · rename_i hheld
        exact .inr (.inr ⟨hheld, _, rfl⟩)
      · exact .inl rfl

end HeldInput

namespace AppWindow

variable {w w' : AppWindow} {e : InputEvent}

theorem button_turn (h : w.Sane) (button : MouseButton) (pressed : Bool) (at_ : Option Position)
    (mods : Modifiers) :
    Turn w { w with held := (w.held.button button pressed at_ mods).1 }
      ((w.held.button button pressed at_ mods).2.toList.map
        { w with held := (w.held.button button pressed at_ mods).1 }.input) := by
  obtain hr | ⟨hheld, where_, hr⟩ | ⟨hheld, where_, hr⟩ := w.held.button_cases button pressed at_ mods
  · rw [hr]
    exact Turn.refl h
  · rw [hr]
    refine Turn.of_held h ⟨w.held.keys, w.held.buttons ++ [button], where_⟩ w.pointer h.noKeys ?_ ?_ ?_
    · refine List.nodup_append.mpr ⟨h.buttons, List.nodup_singleton _, ?_⟩
      intro a ha b hb
      rw [List.mem_singleton.mp hb]
      rintro rfl
      exact hheld ha
    · intro e he
      obtain rfl := List.mem_singleton.mp he
      exact sendable_pointer where_ mods _ _
    · have hset : (w.held.buttons ++ [button]).toFinset = insert button w.held.buttons.toFinset := by
        ext b
        simp
      rw [hset]
      exact plays_inr_down _ _ _
  · rw [hr]
    refine Turn.of_held h ⟨w.held.keys, w.held.buttons.erase button, where_⟩ w.pointer h.noKeys
      (h.buttons.erase _) ?_ ?_
    · intro e he
      obtain rfl := List.mem_singleton.mp he
      exact sendable_pointer _ mods _ _
    · have hset : (w.held.buttons.erase button).toFinset = w.held.buttons.toFinset.erase button := by
        ext b
        simp [h.buttons.mem_erase_iff]
      rw [hset]
      exact plays_inr_up _ (List.mem_toFinset.mpr hheld)

theorem releaseButtons_plays (h : w.Sane) (mods : Modifiers) :
    Presses.plays w.heldKeys ((w.held.releaseButtons mods).2.filterMap (·.pressed)) =
      some (w.keyboard.remote.disjSum ∅) := by
  have hstream : (w.held.releaseButtons mods).2.filterMap (·.pressed) =
      (w.held.buttons.map Sum.inr).map (.up : InputKey → Press InputKey) := by
    rw [HeldInput.releaseButtons, List.filterMap_map, List.map_map, ← List.filterMap_eq_map]
    rfl
  rw [hstream, plays_releases (h.buttons.map Sum.inr_injective)]
  · congr 1
    ext x
    cases x <;> simp [heldKeys]
  · intro key hkey
    obtain ⟨b, hb, rfl⟩ := List.mem_map.mp hkey
    exact Finset.inr_mem_disjSum.mpr (List.mem_toFinset.mpr hb)

theorem sendable_releaseButtons (held : HeldInput) (mods : Modifiers) :
    ∀ e ∈ (held.releaseButtons mods).2, Sendable e := by
  intro e he
  obtain ⟨b, -, rfl⟩ := List.mem_map.mp he
  exact sendable_pointer _ _ _ _

theorem releaseButtons_turn (h : w.Sane) (mods : Modifiers) (pointer : Option Position) :
    Turn w { w with pointer := pointer, held := (w.held.releaseButtons mods).1 }
      ((w.held.releaseButtons mods).2.map
        { w with pointer := pointer, held := (w.held.releaseButtons mods).1 }.input) :=
  .of_held h (w.held.releaseButtons mods).1 pointer h.noKeys List.nodup_nil
    (sendable_releaseButtons _ mods) (releaseButtons_plays h mods)

/-- **Letting go of everything.** -/
theorem release_turn (h : w.Sane) : Turn w w.release.1 w.release.2 := by
  have hall : w.held.releaseAll = ({ (w.held.releaseButtons 0).1 with keys := [] },
      (w.held.releaseButtons 0).2) := by
    rw [HeldInput.releaseAll, h.noKeys]
    simp
  have hbuttons : Turn w { w with held := w.held.releaseAll.1 }
      (w.held.releaseAll.2.map { w with held := w.held.releaseAll.1 }.input) := by
    rw [hall]
    exact .of_held h _ w.pointer rfl List.nodup_nil (sendable_releaseButtons _ 0)
      (releaseButtons_plays h 0)
  exact (hbuttons.typed (c := .releaseAll) trivial).retitle rfl rfl rfl

/-! ### Whole events -/

theorem movement_turn (h : w.Sane) (at_ : Position) (mods : Modifiers) :
    Turn w { w with pointer := some at_, held := (w.held.movement at_ mods).1 }
      [{ w with pointer := some at_, held := (w.held.movement at_ mods).1 }.input
        (w.held.movement at_ mods).2] := by
  have hsend : ∀ e ∈ [(w.held.movement at_ mods).2], Sendable e := by
    intro e he
    obtain rfl := List.mem_singleton.mp he
    unfold HeldInput.movement
    dsimp only
    split
    · exact sendable_pointer at_ mods _ _
    · exact sendable_pointer at_ mods _ _
  have hquiet : (w.held.movement at_ mods).2.pressed = none := by
    unfold HeldInput.movement
    dsimp only
    split
    · rfl
    · rfl
  refine Turn.of_held h (w.held.movement at_ mods).1 (some at_) h.noKeys h.buttons hsend ?_
  rw [List.filterMap_cons_none hquiet, List.filterMap_nil]
  rfl

theorem Turn.command {out : List ApplicationMessage} (h : Turn w w' out) {c : ApplicationMessage}
    (htarget : c.commandTarget = some (w.info.surfaceId, w.info.geometryGeneration))
    (hquiet : ∀ id, c.press id = none) : Turn w w' (out ++ [c]) where
  __ := h
  target := by
    intro c' hc
    obtain hc | hc := List.mem_append.mp hc
    · exact h.target c' hc
    · rw [List.mem_singleton.mp hc, htarget]
  checked := by
    intro c' hc id p hp
    obtain hc | hc := List.mem_append.mp hc
    · exact h.checked c' hc id p hp
    · rw [List.mem_singleton.mp hc, hquiet] at hp
      cases hp
  plays := by
    rw [strokes_append, show strokes w.info.surfaceId [c] = [] from
      List.filterMap_cons_none (hquiet _), List.append_nil]
    exact h.plays

theorem Turn.release {out : List ApplicationMessage} (h : Turn w w' out) :
    Turn w w'.release.1 (out ++ w'.release.2) := h.trans (release_turn h.sane)

theorem scroll_turn (h : w.Sane) (dx dy : F32) (at_ : Position) (mods : Modifiers) :
    Turn w w [w.input (.scroll dx dy at_ mods)] := by
  have hsend : ∀ e ∈ [InputEvent.scroll dx dy at_ mods], Sendable e := by
    intro e he
    obtain rfl := List.mem_singleton.mp he
    exact .inl rfl
  exact Turn.of_events h rfl rfl h hsend rfl

theorem pressKey_turn (h : w.Sane) (pressed : Bool) (key : HidUsage) (again synthetic : Bool) :
    Turn w (w.pressKey pressed key again synthetic).1 (w.pressKey pressed key again synthetic).2 := by
  have hevent : KeyEvent (InputEvent.ofKey (if pressed then .keyDown else .keyUp) key.code
      w.modifiers) := by
    cases pressed
    · exact keyEvent_up key.onPage _
    · exact keyEvent_down key.onPage _
  have hcall : ((if synthetic then .synthetic (InputEvent.ofKey (if pressed then .keyDown else .keyUp)
      key.code w.modifiers) else .key (InputEvent.ofKey (if pressed then .keyDown else .keyUp)
      key.code w.modifiers) again : MapperCall)).Proper := by
    cases synthetic
    · exact hevent
    · exact hevent
  have hboth := ((Turn.refl h).typed (c := .observe w.modifiers) trivial).typed hcall
  unfold pressKey
  dsimp only
  split
  · exact hboth.retitle rfl rfl rfl
  · exact hboth

/-- **A window event is a turn.** -/
theorem handle_turn (h : w.Sane) (e : WindowEvent) : Turn w (w.handle e).1 (w.handle e).2 := by
  -- a pointer event first brings the modifiers up to date
  have hfirst : ∃ t : Typed, Turn w t.1 t.2 ∧ (if w.focused && e.isPointer then
      typed .restore (typed (.observe w.modifiers) (w, [])) else (w, [])) = t := by
    refine ⟨_, ?_, rfl⟩
    split
    · exact ((Turn.refl h).typed (c := .observe w.modifiers) trivial).typed trivial
    · exact Turn.refl h
  obtain ⟨⟨w₁, out⟩, ht, heq⟩ := hfirst
  dsimp only at ht
  have htarget : (w₁.info.surfaceId, w₁.info.geometryGeneration) =
      (w.info.surfaceId, w.info.geometryGeneration) := by
    rw [ht.id, ht.generation]
  unfold handle
  simp only [heq]
  cases e with
  | closeRequested now =>
    dsimp only
    split
    · have hclose := ht.release.command (c := w₁.close) (congrArg some htarget) fun _ => rfl
      exact hclose.retitle rfl rfl rfl
    · exact ht
  | focused focused =>
    cases focused with
    | true =>
      have hfocus := ht.command (c := w₁.focus) (congrArg some htarget) fun _ => rfl
      have hturn : Turn w { w₁ with focused := true, closeRequested := none } (out ++ [w₁.focus]) :=
        hfocus.retitle rfl rfl rfl
      exact hturn.typed trivial
    | false =>
      have hblur : Turn w { w₁ with focused := false } out := ht.retitle rfl rfl rfl
      exact hblur.release.retitle rfl rfl rfl
  | modifiersChanged modifiers =>
    have hmods : Turn w { w₁ with modifiers := modifiers } out := ht.retitle rfl rfl rfl
    dsimp only
    split
    · exact hmods.typed trivial
    · exact hmods
  | cursorMoved at_ =>
    cases at_ with
    | none => exact ht.retitle rfl rfl rfl
    | some at_ => exact ht.trans (movement_turn ht.sane at_ _)
  | cursorLeft => exact ht.trans (releaseButtons_turn ht.sane _ _)
  | mouseInput pressed button =>
    cases button with
    | none => exact ht
    | some button => exact ht.trans (button_turn ht.sane button pressed _ _)
  | mouseWheel dx dy =>
    dsimp only
    split
    · exact ht.trans (scroll_turn ht.sane dx dy _ _)
    · exact ht
  | keyboardInput pressed key again synthetic =>
    cases key with
    | none => exact ht
    | some key =>
      -- no pointer event: nothing has been collected
      simp only [WindowEvent.isPointer, Bool.and_false, Bool.false_eq_true, if_false] at heq
      cases heq
      dsimp only
      split
      · split
        · exact (Turn.refl h).retitle rfl rfl rfl
        · exact Turn.refl h
      · exact ht.trans (pressKey_turn ht.sane pressed key again synthetic)

theorem resized_turn (h : w.Sane) (resize : Option (ℕ × ℕ)) : Turn w w (w.resized resize) := by
  unfold resized
  split
  · split
    · exact (Turn.refl h).command rfl fun _ => rfl
    · exact Turn.refl h
  · exact Turn.refl h

theorem wait_turn (h : w.Sane) (resize : Option (ℕ × ℕ)) (minimized : Option Bool) :
    Turn w (w.wait resize minimized).1 (w.wait resize minimized).2 := by
  have hout := resized_turn h resize
  cases minimized with
  | none => exact hout
  | some minimized =>
    unfold wait
    dsimp only
    split
    · exact (hout.release.command rfl fun _ => rfl).retitle rfl rfl rfl
    · exact hout.retitle rfl rfl rfl

end AppWindow

end NebulaDesk
