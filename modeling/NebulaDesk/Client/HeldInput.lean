/-
What is held and what was sent of it (`HeldInput` and `KeyboardFocus` of `nebula-client/src/input.rs`).

* `HeldInput.Forwards` — an operation sends the presses and releases that lead from what was held to
  what is held;
* `Exact.call` — every operation does, whatever it is called with;
* **`held_input_exact`** — so whoever follows the events holds what the client thinks it holds.
-/
import NebulaDesk.Client.SessionInput
import NebulaDesk.Client.WindowInput

namespace NebulaDesk

open Presses

/-- What a list of events does to the keys and buttons. -/
def pressesOf (events : List InputEvent) : List (Press InputKey) := events.filterMap (·.pressed)

namespace HeldInput

variable {h h' : HeldInput} {e : InputEvent}

theorem keyboard_down (hkind : e.kind = .keyDown) (again : Bool) :
    h.keyboard e again = (h, none) ∨ ∃ modifiers, h.keyboard e again =
      (if e.key ∈ h.keys then h else { h with keys := h.keys ++ [e.key] },
        some { e with modifiers := modifiers }) := by
  unfold keyboard
  rw [hkind]
  dsimp only
  split
  · exact .inl rfl
  · cases again with
    | true => exact .inr ⟨_, rfl⟩
    | false =>
      refine .inr ⟨e.modifiers, ?_⟩
      rw [← hkind]
      rfl

theorem keyboard_up (hkind : e.kind = .keyUp) (again : Bool) :
    (e.key ∉ h.keys ∧ h.keyboard e again = (h, none)) ∨
      (e.key ∈ h.keys ∧ h.keyboard e again = ({ h with keys := h.keys.erase e.key }, some e)) := by
  unfold keyboard
  rw [hkind]
  dsimp only
  split
  · next hheld => exact .inr ⟨hheld, rfl⟩
  · next hup => exact .inl ⟨hup, rfl⟩

/-- What is recorded as held. -/
def down (h : HeldInput) : Finset InputKey := h.keys.toFinset.disjSum h.buttons.toFinset

/-- No key and no button is recorded twice. -/
structure Distinct (h : HeldInput) : Prop where
  keys : h.keys.Nodup
  buttons : h.buttons.Nodup

theorem distinct_empty : empty.Distinct := ⟨List.nodup_nil, List.nodup_nil⟩

/-- **What an operation may do.**  Its events lead from what was held to what is held. -/
structure Forwards (h h' : HeldInput) (events : List InputEvent) : Prop where
  distinct : h'.Distinct
  plays : plays h.down (pressesOf events) = some h'.down

theorem Forwards.silent (hd : h'.Distinct) (hdown : h'.down = h.down) : Forwards h h' [] :=
  ⟨hd, by rw [hdown]; rfl⟩

theorem Forwards.other (hd : h'.Distinct) (hdown : h'.down = h.down) (he : e.pressed = none) :
    Forwards h h' [e] := by
  refine ⟨hd, ?_⟩
  rw [pressesOf, List.filterMap_cons_none he, hdown]
  rfl

variable {key : InputKey}

theorem Forwards.down (hd : h'.Distinct) (hdown : h'.down = insert key h.down)
    (he : e.pressed = some (.down key)) : Forwards h h' [e] := by
  refine ⟨hd, ?_⟩
  rw [pressesOf, List.filterMap_cons_some he, hdown]
  rfl

theorem Forwards.up (hd : h'.Distinct) (hdown : h'.down = h.down.erase key)
    (hkey : key ∈ h.down) (he : e.pressed = some (.up key)) : Forwards h h' [e] := by
  refine ⟨hd, ?_⟩
  rw [pressesOf, List.filterMap_cons_some he, hdown]
  exact plays_up hkey

theorem Forwards.releases {events : List InputEvent} {keys : List InputKey} (hd : h'.Distinct)
    (hnodup : keys.Nodup) (hheld : ∀ key ∈ keys, key ∈ h.down)
    (hdown : h'.down = h.down \ keys.toFinset) (he : pressesOf events = keys.map .up) :
    Forwards h h' events := by
  refine ⟨hd, ?_⟩
  rw [he, plays_releases hnodup hheld, hdown]

/-! ### The operations -/

theorem movement_forwards (hd : h.Distinct) (at_ : Position) (modifiers : Modifiers) :
    Forwards h (h.movement at_ modifiers).1 [(h.movement at_ modifiers).2] := by
  refine .other ⟨hd.keys, hd.buttons⟩ rfl ?_
  unfold movement
  dsimp only
  split <;> rfl

theorem button_forwards (hd : h.Distinct) (button : MouseButton) (pressed : Bool)
    (at_ : Option Position) (modifiers : Modifiers) :
    Forwards h (h.button button pressed at_ modifiers).1
      (h.button button pressed at_ modifiers).2.toList := by
  rcases h.button_cases button pressed at_ modifiers with
    hr | ⟨hup, where_, hr⟩ | ⟨hdown, where_, hr⟩
  · rw [hr]
    exact .silent hd rfl
  · rw [hr]
    refine .down ⟨hd.keys, ?_⟩ ?_ rfl
    · refine List.nodup_append.mpr ⟨hd.buttons, List.nodup_singleton _, ?_⟩
      rintro held hheld other hother rfl
      exact hup (List.mem_singleton.mp hother ▸ hheld)
    · ext key
      cases key <;> simp [HeldInput.down]
  · rw [hr]
    refine .up ⟨hd.keys, hd.buttons.erase _⟩ ?_ ?_ rfl
    · ext key
      cases key <;> simp [HeldInput.down, hd.buttons.mem_erase_iff]
    · simpa [HeldInput.down] using hdown

theorem keyboard_forwards (hd : h.Distinct) (e : InputEvent) (again : Bool) :
    Forwards h (h.keyboard e again).1 (h.keyboard e again).2.toList := by
  cases hkind : e.kind with
  | keyDown =>
    rcases keyboard_down hkind again with hr | ⟨modifiers, hr⟩
    · rw [hr]
      exact .silent hd rfl
    · rw [hr]
      have hpressed : InputEvent.pressed { e with modifiers := modifiers } =
          some (.down (.inl e.key)) := by
        unfold InputEvent.pressed
        rw [hkind]
      by_cases hheld : e.key ∈ h.keys
      · rw [if_pos hheld]
        refine .down hd ?_ hpressed
        rw [Finset.insert_eq_of_mem]
        simpa [HeldInput.down] using hheld
      · rw [if_neg hheld]
        refine .down ⟨?_, hd.buttons⟩ ?_ hpressed
        · refine List.nodup_append.mpr ⟨hd.keys, List.nodup_singleton _, ?_⟩
          rintro held hmem other hother rfl
          exact hheld (List.mem_singleton.mp hother ▸ hmem)
        · ext key
          cases key <;> simp [HeldInput.down]
  | keyUp =>
    rcases keyboard_up hkind again with ⟨-, hr⟩ | ⟨hheld, hr⟩
    · rw [hr]
      exact .silent hd rfl
    · rw [hr]
      have hpressed : InputEvent.pressed e = some (.up (.inl e.key)) := by
        unfold InputEvent.pressed
        rw [hkind]
      refine .up ⟨hd.keys.erase _, hd.buttons⟩ ?_ ?_ hpressed
      · ext key
        cases key <;> simp [HeldInput.down, hd.keys.mem_erase_iff]
      · simpa [HeldInput.down] using hheld
  | mouseMove | mouseDown | mouseUp | mouseDrag | wheel | pointerLeave =>
    have hr : h.keyboard e again = (h, none) := by
      unfold keyboard
      rw [hkind]
    rw [hr]
    exact .silent hd rfl

theorem releaseButtons_presses (h : HeldInput) (modifiers : Modifiers) :
    pressesOf (h.releaseButtons modifiers).2 = (h.buttons.map Sum.inr).map .up := by
  rw [pressesOf, releaseButtons, List.filterMap_map, List.map_map, ← List.filterMap_eq_map]
  rfl

theorem releaseButtons_forwards (hd : h.Distinct) (modifiers : Modifiers) :
    Forwards h (h.releaseButtons modifiers).1 (h.releaseButtons modifiers).2 := by
  refine .releases ⟨hd.keys, List.nodup_nil⟩ (hd.buttons.map Sum.inr_injective) ?_ ?_
    (h.releaseButtons_presses modifiers)
  · intro key hkey
    obtain ⟨button, hbutton, rfl⟩ := List.mem_map.mp hkey
    simpa [HeldInput.down] using hbutton
  · ext key
    cases key <;> simp [HeldInput.down, releaseButtons]

/-- What `release_all` lets go of, in its order. -/
def held (h : HeldInput) : List InputKey := h.buttons.map Sum.inr ++ h.keys.reverse.map Sum.inl

theorem mem_held : key ∈ h.held ↔ key ∈ h.down := by
  cases key <;> simp [held, HeldInput.down]

theorem Distinct.held (hd : h.Distinct) : h.held.Nodup := by
  refine List.nodup_append.mpr ⟨hd.buttons.map Sum.inr_injective,
    (List.nodup_reverse.mpr hd.keys).map Sum.inl_injective, ?_⟩
  intro a ha b hb hab
  obtain ⟨button, -, rfl⟩ := List.mem_map.mp ha
  obtain ⟨key, -, rfl⟩ := List.mem_map.mp hb
  cases hab

theorem releaseAll_presses (h : HeldInput) : pressesOf h.releaseAll.2 = h.held.map .up := by
  have hkeys : pressesOf (h.keys.reverse.map fun key => .ofKey .keyUp key 0) =
      (h.keys.reverse.map Sum.inl).map .up := by
    rw [pressesOf, List.filterMap_map, List.map_map, ← List.filterMap_eq_map]
    rfl
  have hbuttons := h.releaseButtons_presses 0
  unfold pressesOf at hkeys hbuttons ⊢
  rw [releaseAll, List.filterMap_append, hbuttons, hkeys, held, List.map_append]

theorem releaseAll_forwards (hd : h.Distinct) : Forwards h h.releaseAll.1 h.releaseAll.2 := by
  refine .releases ⟨List.nodup_nil, List.nodup_nil⟩ hd.held (fun key => mem_held.mp) ?_
    h.releaseAll_presses
  ext key
  simp only [Finset.mem_sdiff, List.mem_toFinset, mem_held, and_not_self_iff, iff_false]
  cases key <;> simp [HeldInput.down, releaseAll, releaseButtons]

end HeldInput

/-! ### Any calls, in any order -/

/-- A call of `HeldInput`, or of the keyboard's focus. -/
inductive HeldCall
  | movement (at_ : Position) (modifiers : Modifiers)
  | button (button : MouseButton) (pressed : Bool) (at_ : Option Position) (modifiers : Modifiers)
  | keyboard (event : InputEvent) (again : Bool)
  /-- What `remote_key` makes of a key goes to `keyboard`. -/
  | key (physical : Option KeyCode) (pressed : Bool) (text : Option String) (modifiers : Modifiers)
      (again : Bool)
  | releaseButtons (modifiers : Modifiers)
  | releaseAll
  | switchTo (focus : KeyboardFocus)

/-- The keyboard's focus, what is held, and everything that was sent. -/
structure Forwarding where
  focus : KeyboardFocus
  held : HeldInput
  sent : List InputEvent

namespace Forwarding

def start : Forwarding := ⟨.remote, .empty, []⟩

def send (r : HeldInput × List InputEvent) (f : Forwarding) : Forwarding :=
  { f with held := r.1, sent := f.sent ++ r.2 }

def call (f : Forwarding) : HeldCall → Forwarding
  | .movement at_ modifiers =>
    let r := f.held.movement at_ modifiers
    f.send (r.1, [r.2])
  | .button button pressed at_ modifiers =>
    let r := f.held.button button pressed at_ modifiers
    f.send (r.1, r.2.toList)
  | .keyboard event again =>
    let r := f.held.keyboard event again
    f.send (r.1, r.2.toList)
  | .key physical pressed text modifiers again =>
    match f.focus.remoteKey physical pressed text modifiers with
    | none => f
    | some event =>
      let r := f.held.keyboard event again
      f.send (r.1, r.2.toList)
  | .releaseButtons modifiers => f.send (f.held.releaseButtons modifiers)
  | .releaseAll => f.send f.held.releaseAll
  | .switchTo focus =>
    let r := f.focus.switchTo focus f.held
    { f.send r.2 with focus := r.1 }

/-- Whoever follows the events holds what is recorded. -/
structure Exact (f : Forwarding) : Prop where
  distinct : f.held.Distinct
  plays : plays ∅ (pressesOf f.sent) = some f.held.down

theorem exact_start : start.Exact := ⟨HeldInput.distinct_empty, rfl⟩

theorem Exact.send {f : Forwarding} (h : f.Exact) {r : HeldInput × List InputEvent}
    (hr : HeldInput.Forwards f.held r.1 r.2) : (f.send r).Exact := by
  refine ⟨hr.distinct, ?_⟩
  show Presses.plays ∅ (pressesOf (f.sent ++ r.2)) = _
  rw [pressesOf, List.filterMap_append]
  exact plays_append h.plays hr.plays

/-- **Every call keeps the two sides equal.** -/
theorem Exact.call {f : Forwarding} (h : f.Exact) (c : HeldCall) : (f.call c).Exact := by
  cases c with
  | movement at_ modifiers => exact h.send (HeldInput.movement_forwards h.distinct at_ modifiers)
  | button button pressed at_ modifiers =>
    exact h.send (HeldInput.button_forwards h.distinct button pressed at_ modifiers)
  | keyboard event again => exact h.send (HeldInput.keyboard_forwards h.distinct event again)
  | key physical pressed text modifiers again =>
    unfold Forwarding.call
    dsimp only
    split
    · exact h
    · exact h.send (HeldInput.keyboard_forwards h.distinct _ again)
  | releaseButtons modifiers =>
    exact h.send (HeldInput.releaseButtons_forwards h.distinct modifiers)
  | releaseAll => exact h.send (HeldInput.releaseAll_forwards h.distinct)
  | switchTo focus =>
    have hr : HeldInput.Forwards f.held (f.focus.switchTo focus f.held).2.1
        (f.focus.switchTo focus f.held).2.2 := by
      unfold KeyboardFocus.switchTo
      split
      · exact .silent h.distinct rfl
      · exact HeldInput.releaseAll_forwards h.distinct
    exact ⟨(h.send hr).distinct, (h.send hr).plays⟩

def after (calls : List HeldCall) : Forwarding := Runs.run call start calls

theorem exact_after (calls : List HeldCall) : (after calls).Exact :=
  Runs.run_invariant (fun _ c h => h.call c) exact_start calls

end Forwarding

open Forwarding (after)

/-- **What is held is what was sent.**  After any calls: the presses and releases sent never release
what is not down, and leave down what is recorded; nothing is recorded twice; and letting go of
everything sends one release for each key and button held, nothing else, and records nothing. -/
theorem held_input_exact (calls : List HeldCall) :
    plays ∅ (pressesOf (after calls).sent) = some (after calls).held.down ∧
    ((after calls).held.keys.Nodup ∧ (after calls).held.buttons.Nodup) ∧
    (∀ e ∈ (after calls).held.releaseAll.2,
      ∃ key ∈ (after calls).held.down, e.pressed = some (.up key)) ∧
    (∀ key, (pressesOf (after calls).held.releaseAll.2).count (.up key) =
      if key ∈ (after calls).held.down then 1 else 0) ∧
    (after calls).held.releaseAll.1.down = ∅ := by
  have hexact := Forwarding.exact_after calls
  have hinj : Function.Injective (Press.up : InputKey → Press InputKey) :=
    fun a b hab => Press.up.inj hab
  refine ⟨hexact.plays, ⟨hexact.distinct.keys, hexact.distinct.buttons⟩, ?_, ?_, rfl⟩
  · intro e he
    rcases List.mem_append.mp he with he | he
    · obtain ⟨button, hbutton, rfl⟩ := List.mem_map.mp he
      exact ⟨.inr button, by simpa [HeldInput.down] using hbutton, rfl⟩
    · obtain ⟨key, hkey, rfl⟩ := List.mem_map.mp he
      exact ⟨.inl key, by simpa [HeldInput.down] using hkey, rfl⟩
  · intro key
    have hmem : .up key ∈ (after calls).held.held.map Press.up ↔ key ∈ (after calls).held.down := by
      rw [List.mem_map_of_injective hinj, HeldInput.mem_held]
    rw [HeldInput.releaseAll_presses]
    split
    · rename_i hdown
      exact List.count_eq_one_of_mem (hexact.distinct.held.map hinj) (hmem.mpr hdown)
    · rename_i hup
      exact List.count_eq_zero_of_not_mem fun h => hup (hmem.mp h)

end NebulaDesk
