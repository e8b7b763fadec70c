/-
What the Windows injector leaves down (`nebula-agent/src/platform/windows/input.rs`).

* **`Survives`** — what an invariant has to survive to be kept by every call;
* **`Covered`** — what is down is recorded, however much of each batch is taken: in every run;
* **`drop_releases`** — so dropping the injector leaves nothing down, if it is all taken.
-/
import NebulaDesk.Agent.WindowsInput

namespace NebulaDesk

open Presses Runs
open Cmd (Triple)
open Std (ExtTreeMap)

namespace WindowsInput

/-! ### Batches -/

variable {E : String → Injection → Prop} {P : Injection → Prop}

/-- The rule of `SendInput`: a batch is taken, or cut short. -/
theorem sendInput_triple {Q : Unit → Injection → Prop} {inputs : List Win32Input}
    (hnil : inputs = [] → ∀ s, P s → Q () s)
    (hall : ∀ s, P s → Q () (s.deliver inputs))
    (hcut : ∀ s e, P s → s.taken inputs < inputs.length →
      E e (s.deliver (inputs.take (s.taken inputs)))) : Triple P (sendInput inputs) Q E := by
  intro s hs
  unfold sendInput
  by_cases hempty : inputs = []
  · rw [if_pos hempty]
    exact ⟨fun _ _ => hnil hempty s hs, fun _ he => nomatch he⟩
  · rw [if_neg hempty]
    by_cases hfull : s.taken inputs = inputs.length
    · rw [if_pos hfull, hfull, List.take_length]
      exact ⟨fun _ _ => hall s hs, fun _ he => nomatch he⟩
    · rw [if_neg hfull]
      have hle : s.taken inputs ≤ inputs.length := min_le_right _ _
      exact ⟨fun _ ha => (nomatch ha), fun e _ => hcut s e hs (by omega)⟩

theorem presses_up (keys : List KeybdInput) :
    (keys.map (Win32Input.keyboard · true)).filterMap Win32Input.press =
      (keys.map Sum.inl).map Press.up := by
  induction keys with
  | nil => rfl
  | cons key keys ih => simpa [Win32Input.press] using ih

theorem presses_down (keys : List KeybdInput) :
    (keys.map (Win32Input.keyboard · false)).filterMap Win32Input.press =
      (keys.map Sum.inl).map Press.down := by
  induction keys with
  | nil => rfl
  | cons key keys ih => simpa [Win32Input.press] using ih

/-- What `button` makes is a press or a release of that button. -/
theorem press_of_mouseButton {b : ℕ} {up : Bool} {input : Win32Input}
    (h : mouseButton b up = .ok input) :
    input.press = some (if up then .up (.inr b) else .down (.inr b)) := by
  unfold mouseButton at h
  split at h
  all_goals first
    | (cases h; cases up <;> rfl)
    | cases h

theorem mouseButton_ok {b : ℕ} (h : 1 ≤ b ∧ b ≤ 5) (up : Bool) :
    ∃ input, mouseButton b up = .ok input := by
  obtain ⟨hlow, hhigh⟩ := h
  interval_cases b <;> exact ⟨_, rfl⟩

theorem toU8_of_ne_none {button : MouseButton} (h : button ≠ .none) :
    1 ≤ button.toU8 ∧ button.toU8 ≤ 5 := by
  cases button with
  | none => exact absurd rfl h
  | _ => decide

theorem getElem?_insertHeld (held : ExtTreeMap ℕ (List KeybdInput)) (usage a : ℕ)
    (keys : List KeybdInput) :
    (held.insert usage keys)[a]? = if usage = a then some keys else held[a]? := by
  simp [ExtTreeMap.getElem?_insert]

theorem getElem?_eraseHeld (held : ExtTreeMap ℕ (List KeybdInput)) (usage a : ℕ) :
    (held.erase usage)[a]? = if usage = a then none else held[a]? := by
  simp [ExtTreeMap.getElem?_erase]

theorem heldKeys_triple (usage : ℕ) :
    Triple P (heldKeys usage) (fun keys s => P s ∧ s.input.held[usage]? = keys) E :=
  Triple.get (fun _ _ hs hkeys => ⟨hs, Except.ok.inj hkeys⟩) fun _ _ _ he => nomatch he

theorem update_triple (f : WindowsInput → WindowsInput) {Q : Unit → Injection → Prop}
    (h : ∀ s, P s → Q () { s with input := f s.input }) : Triple P (update f) Q E :=
  Triple.modify h

/-! ### Invariants -/

/-- A command that keeps `I`, in whatever way it ends. -/
def Keeps (I : Injection → Prop) (c : Inject Unit) : Prop :=
  Triple I c (fun _ => I) (fun _ => I)

/-- What an invariant has to survive, if the keys of the usages in `may` are touched, and for a new
one only what `fits` is pressed. -/
structure Survives (may : ℕ → Prop) (fits : ℕ → List KeybdInput → Prop)
    (I : Injection → Prop) : Prop where
  release : ∀ usage, may usage → Keeps I (release usage)
  press : ∀ usage keys, may usage →
    Triple (fun s => I s ∧ (∀ old ∈ s.input.held[usage]?, old = keys) ∧
      (s.input.held[usage]? = none → fits usage keys)) (press usage keys) (fun _ => I) fun _ => I
  quiet : ∀ f, (∀ input, (f input).held = input.held) →
    (∀ input, (f input).buttons = input.buttons) → Keeps I (update f)
  still : ∀ input, input.press = none → Keeps I (sendInput [input])
  button : ∀ event, Keeps I (pressButton event)

namespace Survives

variable {may : ℕ → Prop} {fits : ℕ → List KeybdInput → Prop} {I : Injection → Prop}

theorem nothing : Keeps I (pure ()) := Triple.pure fun _ hs => hs

theorem ensured (ok : Bool) (text : String) : Keeps I (ensure ok text) :=
  Triple.ite (fun _ => nothing) fun _ => Triple.throw fun _ hs => hs

theorem read {α : Type} (f : Injection → α) :
    Triple I (Cmd.get fun s => .ok (f s) : Inject α) (fun _ => I) fun _ => I :=
  Triple.get (fun _ _ hs _ => hs) fun _ _ hs _ => hs

variable (h : Survives may fits I)
include h

theorem followModifier {flag : Modifiers} {left right : ℕ} (hleft : may left) (hright : may right)
    (hscan : ∀ usage key, scan usage = .ok key → fits usage [key]) (event : InputEvent) :
    Keeps I (followModifier event (flag, left, right)) := by
  unfold WindowsInput.followModifier
  dsimp only
  refine Triple.ite (fun _ => nothing) fun _ => Triple.ite (fun _ => ?_) fun _ => ?_
  · exact Triple.bind (h.release left hleft) fun _ => h.release right hright
  · refine Triple.bind (heldKeys_triple left) fun leftKeys => ?_
    refine Triple.bind (heldKeys_triple right) fun rightKeys => ?_
    refine Triple.ite (fun hfree => ?_) fun _ => Triple.pure fun s hs => hs.1.1
    -- neither key is held, so nothing is forgotten
    obtain ⟨hnone, -⟩ := Bool.and_eq_true_iff.mp hfree
    obtain rfl : leftKeys = none := Option.isNone_iff_eq_none.mp hnone
    refine Triple.bind (Q := fun key s => (I s ∧ s.input.held[left]? = none) ∧ fits left [key])
      (Triple.ofExcept (fun key s hkey hs => ⟨hs.1, hscan left key hkey⟩) fun _ s _ hs => hs.1.1)
      fun key => ?_
    refine Triple.bind ((h.press left [key] hleft).consequence
      (fun s hs => ⟨hs.1.1, fun old hold => ?_, fun _ => hs.2⟩)
      (fun _ _ hs => hs) fun _ _ hs => hs) fun _ => h.quiet _ (fun _ => rfl) fun _ => rfl
    rw [hs.1.2] at hold
    cases hold

variable {event : InputEvent}

theorem takeOver (hmay : IsModifier event.key → may (leftOf event.key)) :
    Keeps I (takeOver event) := by
  refine Triple.ite (fun hkey => ?_) fun _ => nothing
  refine Triple.bind (read _) fun _ => ?_
  have herase : Keeps I (update fun input => { input with
      syntheticModifiers := input.syntheticModifiers.erase event.key }) :=
    h.quiet _ (fun _ => rfl) fun _ => rfl
  exact Triple.ite (fun _ => Triple.bind (h.release _ (hmay hkey.2)) fun _ => herase) fun _ => herase

theorem turnWheel {flags : MouseEventFlags} {axis : WindowsInput → Float}
    {setAxis : Float → WindowsInput → WindowsInput} (delta : F32)
    (hflags : ∀ data, (Win32Input.mouse flags data 0 0).press = none)
    (hheld : ∀ v input, (setAxis v input).held = input.held)
    (hbuttons : ∀ v input, (setAxis v input).buttons = input.buttons) :
    Keeps I (turnWheel flags axis setAxis delta) := by
  have hset : ∀ v : WindowsInput → Float, Keeps I (update fun input => setAxis (v input) input) :=
    fun v => h.quiet _ (fun input => hheld (v input) input) fun input => hbuttons (v input) input
  unfold WindowsInput.turnWheel
  refine Triple.bind (hset _) fun _ => Triple.bind (read _) fun turned => ?_
  dsimp only
  refine Triple.ite (fun _ => ?_) fun _ => nothing
  exact Triple.bind (h.still _ (hflags _)) fun _ => hset _

theorem act (hmay : event.ofKeyboard = true → may event.key)
    (hfits : event.ofKeyboard = true → ∀ keys, keysFor event = .ok keys → fits event.key keys) :
    Keeps I (act event) := by
  unfold WindowsInput.act
  split
  · exact h.button event
  · exact h.button event
  · exact Triple.bind (h.turnWheel _ (fun _ => rfl) (fun _ _ => rfl) fun _ _ => rfl) fun _ =>
      h.turnWheel _ (fun _ => rfl) (fun _ _ => rfl) fun _ _ => rfl
  · next hkind => exact h.release _ (hmay (by simp [InputEvent.ofKeyboard, hkind]))
  · next hkind =>
    have hevent : event.ofKeyboard = true := by simp [InputEvent.ofKeyboard, hkind]
    have hkey := hmay hevent
    have hpress : ∀ keys, Triple (fun s => I s ∧ (∀ old ∈ s.input.held[event.key]?, old = keys) ∧
        (s.input.held[event.key]? = none → fits event.key keys))
        (do WindowsInput.press event.key keys
            if event.key = 0 then WindowsInput.release 0 else pure ())
        (fun _ => I) fun _ => I := fun keys =>
      Triple.bind (h.press event.key keys hkey) fun _ =>
        Triple.ite (fun hzero => h.release 0 (hzero ▸ hkey)) fun _ => nothing
    refine Triple.bind (heldKeys_triple event.key) fun keys => ?_
    cases keys with
    | some keys =>
      -- a repeated press presses what is held
      refine Triple.bind (Q := fun keys s => I s ∧ s.input.held[event.key]? = some keys)
        (Triple.pure fun s hs => hs) fun keys => (hpress keys).consequence
          (fun s hs => ⟨hs.1, fun old hold => ?_, fun hnone => ?_⟩) (fun _ _ hs => hs)
          fun _ _ hs => hs
      · exact Option.some.inj (hold.symm.trans hs.2)
      · rw [hs.2] at hnone
        cases hnone
    | none =>
      refine Triple.bind (Q := fun keys s => (I s ∧ s.input.held[event.key]? = none) ∧
        fits event.key keys) ?_ fun keys => (hpress keys).consequence
          (fun s hs => ⟨hs.1.1, fun old hold => ?_, fun _ => hs.2⟩) (fun _ _ hs => hs)
          fun _ _ hs => hs
      · exact Triple.ofExcept (fun keys _ hkeys hs => ⟨hs, hfits hevent keys hkeys⟩) fun _ _ _ hs => hs.1
      · rw [hs.1.2] at hold
        cases hold
  all_goals exact nothing

theorem moveThenAct (event : InputEvent) (hmay : event.ofKeyboard = true → may event.key)
    (hfits : event.ofKeyboard = true → ∀ keys, keysFor event = .ok keys → fits event.key keys) :
    Keeps I (do
      if event.kind.isPointer then
        sendInput [.mouse .moveAbsolute 0 (absolute event.x) (absolute event.y)]
      WindowsInput.act event) := by
  refine Triple.ite (fun _ => ?_) fun _ => h.act hmay hfits
  exact Triple.bind (h.still _ rfl) fun _ => h.act hmay hfits

theorem inject (hmay : ∀ usage, may usage)
    (hscan : ∀ usage key, scan usage = .ok key → fits usage [key])
    (hfits : event.ofKeyboard = true → ∀ keys, keysFor event = .ok keys → fits event.key keys) :
    Keeps I (inject event) := by
  refine Triple.bind (ensured _ _) fun _ => Triple.bind (ensured _ _) fun _ => ?_
  refine Triple.bind (h.takeOver fun _ => hmay _) fun _ => Triple.bind ?_ fun _ =>
    h.moveThenAct event (fun _ => hmay _) hfits
  refine Triple.forM (I := fun _ => I) (fun row _ => ?_) modifierRows
  exact h.followModifier (hmay row.2.1) (hmay row.2.2) hscan event

end Survives

variable {s : Injection} {inputs : List Win32Input}

theorem Keeps.run {I : Injection → Prop} (hs : I s) {events : List InputEvent}
    (h : ∀ event ∈ events, Keeps I (inject event)) : I (run step s events) := by
  induction events generalizing s with
  | nil => exact hs
  | cons event events ih =>
    refine ih ?_ fun other hother => h other (List.mem_cons_of_mem _ hother)
    obtain ⟨hok, herr⟩ := h event List.mem_cons_self s hs
    show I (inject event s).2
    cases hresult : (inject event s).1 with
    | ok u => exact hok u hresult
    | error e => exact herr e hresult

/-! ### What is down is recorded -/

/-- The injector knows of a key or button. -/
def Recorded (input : WindowsInput) : KeybdInput ⊕ ℕ → Prop
  | .inl key => ∃ (usage : ℕ) (keys : List KeybdInput), input.held[usage]? = some keys ∧ key ∈ keys
  | .inr button => button ∈ input.buttons

structure Covered (s : Injection) : Prop where
  down : ∀ k ∈ s.desktop.down, Recorded s.input k
  buttons : ∀ b ∈ s.input.buttons, 1 ≤ b ∧ b ≤ 5

theorem covered_start (accepts : ℕ → ℕ → ℕ) : Covered (.start accepts) :=
  ⟨fun k hk => absurd hk (Finset.notMem_empty k), fun b hb => absurd hb (Finset.notMem_empty b)⟩

theorem Covered.deliver (h : Covered s)
    (hdown : ∀ k, .down k ∈ inputs.filterMap Win32Input.press → Recorded s.input k) :
    Covered (s.deliver inputs) where
  down k hk := (mem_of_leaves hk).elim (h.down k) (hdown k)
  buttons := h.buttons

theorem mem_presses_take {n : ℕ} {p : Press (KeybdInput ⊕ ℕ)}
    (h : p ∈ (inputs.take n).filterMap Win32Input.press) :
    p ∈ inputs.filterMap Win32Input.press := by
  obtain ⟨input, hinput, hpress⟩ := List.mem_filterMap.mp h
  exact List.mem_filterMap.mpr ⟨input, List.mem_of_mem_take hinput, hpress⟩

theorem sendInput_covers {P : Injection → Prop} (hP : ∀ s, P s → Covered s ∧
      ∀ k, .down k ∈ inputs.filterMap Win32Input.press → Recorded s.input k) :
    Triple P (sendInput inputs) (fun _ => Covered) (fun _ => Covered) := by
  refine sendInput_triple (fun _ s hs => (hP s hs).1) (fun s hs => ?_) fun s e hs _ => ?_
  · exact (hP s hs).1.deliver (hP s hs).2
  · exact (hP s hs).1.deliver fun k hk => (hP s hs).2 k (mem_presses_take hk)

/-- After a batch of releases what was released is up; a part of it presses nothing. -/
theorem sendUps_covers {keys : List (KeybdInput ⊕ ℕ)}
    (hups : inputs.filterMap Win32Input.press = keys.map Press.up) {P : Injection → Prop}
    (hP : ∀ s, P s → Covered s) {R : WindowsInput → Prop} (hR : ∀ s, P s → R s.input) :
    Triple P (sendInput inputs)
      (fun _ s => Covered s ∧ R s.input ∧ ∀ k ∈ keys, k ∉ s.desktop.down) (fun _ => Covered) := by
  have hnone : ∀ k, Press.down k ∉ inputs.filterMap Win32Input.press := by
    intro k hk
    rw [hups] at hk
    simp at hk
  refine sendInput_triple (fun hnil s hs => ?_) (fun s hs => ?_) fun s e hs _ => ?_
  · subst hnil
    obtain rfl := List.map_eq_nil_iff.mp hups.symm
    exact ⟨hP s hs, hR s hs, fun k hk => nomatch hk⟩
  · refine ⟨(hP s hs).deliver fun k hk => absurd hk (hnone k), hR s hs, fun k hk hdown => ?_⟩
    have hdown : k ∈ leaves s.desktop.down (inputs.filterMap Win32Input.press) := hdown
    rw [hups, mem_leaves_ups] at hdown
    exact hdown.2 hk
  · exact (hP s hs).deliver fun k hk => absurd (mem_presses_take hk) (hnone k)

theorem release_covered (usage : ℕ) : Keeps Covered (release usage) := by
  refine Triple.bind (heldKeys_triple usage) fun keys => ?_
  cases keys with
  | none => exact Triple.pure fun s hs => hs.1
  | some keys =>
    refine Triple.bind (sendUps_covers (R := fun input => input.held[usage]? = some keys)
      (presses_up keys) (fun s hs => hs.1) fun s hs => hs.2) fun _ => ?_
    refine update_triple _ fun s ⟨hcovered, hheld, hup⟩ => ⟨fun k hk => ?_, hcovered.buttons⟩
    -- a key still down is recorded for another usage
    have hrecorded := hcovered.down k hk
    cases k with
    | inl key =>
      obtain ⟨other, otherKeys, hother, hkey⟩ := hrecorded
      refine ⟨other, otherKeys, ?_, hkey⟩
      rw [getElem?_eraseHeld, if_neg]
      · exact hother
      · rintro rfl
        obtain rfl := Option.some.inj (hheld.symm.trans hother)
        exact hup _ (List.mem_map_of_mem hkey) hk
    | inr button => exact hrecorded

theorem press_covered (usage : ℕ) (keys : List KeybdInput) :
    Triple (fun s => Covered s ∧ ∀ old ∈ s.input.held[usage]?, old = keys) (press usage keys)
      (fun _ => Covered) (fun _ => Covered) := by
  refine Triple.bind (Q := fun _ s => Covered s ∧ s.input.held[usage]? = some keys) ?_ fun _ => ?_
  · refine update_triple _ fun s ⟨hcovered, hold⟩ => ⟨⟨fun k hk => ?_, hcovered.buttons⟩, ?_⟩
    · have hrecorded := hcovered.down k hk
      cases k with
      | inl key =>
        obtain ⟨other, otherKeys, hother, hkey⟩ := hrecorded
        refine ⟨other, otherKeys, ?_, hkey⟩
        rw [getElem?_insertHeld]
        split
        · next heq =>
          subst heq
          rw [hold otherKeys hother]
        · exact hother
      | inr button => exact hrecorded
    · exact (getElem?_insertHeld _ _ _ _).trans (if_pos rfl)
  · refine sendInput_covers fun s ⟨hcovered, hheld⟩ => ⟨hcovered, fun k hk => ?_⟩
    rw [presses_down] at hk
    obtain ⟨k', hk', hdown⟩ := List.mem_map.mp hk
    obtain ⟨key, hkey, rfl⟩ := List.mem_map.mp hk'
    cases hdown
    exact ⟨usage, keys, hheld, hkey⟩

theorem pressButton_covered (event : InputEvent) : Keeps Covered (pressButton event) := by
  refine Triple.bind (Q := fun _ s => Covered s ∧ event.button ≠ .none) ?_ fun _ => ?_
  · refine Triple.ite (fun h => Triple.pure fun s hs => ⟨hs, of_decide_eq_true h⟩) fun _ =>
      Triple.throw fun _ hs => hs
  refine Triple.ite (fun _ => ?_) fun _ => ?_
  · refine Triple.bind (Q := fun input s => Covered s ∧
      [input].filterMap Win32Input.press = [.inr event.button.toU8].map Press.up) ?_ fun input => ?_
    · refine Triple.ofExcept (fun input s h hs => ⟨hs.1, ?_⟩) fun _ _ _ hs => hs.1
      simp [press_of_mouseButton h]
    · refine fun s hs => Triple.bind (sendUps_covers hs.2 (fun _ h => h)
        (R := fun _ => True) fun _ _ => trivial) (fun _ => ?_) s hs.1
      refine update_triple _ fun s ⟨hcovered, _, hup⟩ => ⟨fun k hk => ?_, fun b hb => ?_⟩
      · have hrecorded := hcovered.down k hk
        cases k with
        | inl key => exact hrecorded
        | inr button =>
          refine Finset.mem_erase.mpr ⟨?_, hrecorded⟩
          rintro rfl
          exact hup _ List.mem_cons_self hk
      · exact hcovered.buttons b (Finset.mem_of_mem_erase hb)
  · -- a press is recorded first
    refine Triple.bind (Q := fun _ s => Covered s ∧ event.button.toU8 ∈ s.input.buttons) ?_
      fun _ => ?_
    · refine update_triple _ fun s hs => ?_
      obtain ⟨hs, hbutton⟩ := hs
      refine ⟨⟨?_, fun b hb => ?_⟩, Finset.mem_insert_self _ _⟩
      · intro k hk
        have hrecorded := hs.down k hk
        cases k with
        | inl key => exact hrecorded
        | inr button => exact Finset.mem_insert_of_mem hrecorded
      · rcases Finset.mem_insert.mp hb with rfl | hb
        · exact toU8_of_ne_none hbutton
        · exact hs.buttons b hb
    refine Triple.bind (Q := fun input s => (Covered s ∧ event.button.toU8 ∈ s.input.buttons) ∧
      input.press = some (.down (.inr event.button.toU8))) ?_ fun input => ?_
    · refine Triple.ofExcept (fun input s h hs => ⟨hs, ?_⟩) fun _ _ _ hs => hs.1
      exact press_of_mouseButton h
    · refine sendInput_covers fun s ⟨⟨hs, hbutton⟩, hpress⟩ => ⟨hs, fun k hk => ?_⟩
      simp only [List.filterMap_cons, hpress, List.filterMap_nil, List.mem_singleton] at hk
      cases hk
      exact hbutton

theorem survives_covered : Survives (fun _ => True) (fun _ _ => True) Covered where
  release usage _ := release_covered usage
  press usage keys _ := (press_covered usage keys).consequence (fun _ hs => ⟨hs.1, hs.2.1⟩)
    (fun _ _ hs => hs) fun _ _ hs => hs
  quiet f hheld hbuttons := by
    refine update_triple f fun s h => ⟨fun k hk => ?_, fun b hb => ?_⟩
    · have hrecorded := h.down k hk
      cases k with
      | inl key =>
        obtain ⟨usage, keys, husage, hkey⟩ := hrecorded
        exact ⟨usage, keys, (congrArg (·[usage]?) (hheld s.input)).trans husage, hkey⟩
      | inr button =>
        show button ∈ (f s.input).buttons
        rw [hbuttons]
        exact hrecorded
    · rw [hbuttons] at hb
      exact h.buttons b hb
  still input h := sendInput_covers fun s hs => ⟨hs, fun k hk => by simp [h] at hk⟩
  button event := pressButton_covered event

theorem covered_run (accepts : ℕ → ℕ → ℕ) (events : List InputEvent) :
    Covered (run step (.start accepts) events) :=
  Keeps.run (covered_start accepts) fun _ _ =>
    survives_covered.inject (fun _ => trivial) (fun _ _ _ => trivial) fun _ _ _ => trivial

/-! ### Dropping the injector -/

/-- The desktop takes every batch. -/
def TakesAll (accepts : ℕ → ℕ → ℕ) : Prop := ∀ call len, len ≤ accepts call len

/-- The same, at a desktop that takes batches in this way. -/
def facing (accepts : ℕ → ℕ → ℕ) (s : Injection) : Injection :=
  { s with desktop := { s.desktop with accepts := accepts } }

theorem taken_eq (h : TakesAll s.desktop.accepts) (inputs : List Win32Input) :
    s.taken inputs = inputs.length :=
  min_eq_right (h _ _)

theorem sendInput_all (h : TakesAll s.desktop.accepts) (inputs : List Win32Input) :
    ∃ s', sendInput inputs s = (.ok (), s') ∧ s'.input = s.input ∧
      s'.desktop.accepts = s.desktop.accepts ∧
      s'.desktop.down = leaves s.desktop.down (inputs.filterMap Win32Input.press) := by
  unfold sendInput
  by_cases hnil : inputs = []
  · subst hnil
    exact ⟨s, rfl, rfl, rfl, rfl⟩
  · rw [if_neg hnil, taken_eq h, if_pos rfl, List.take_length]
    exact ⟨_, rfl, rfl, rfl, rfl⟩

structure Released (usage : ℕ) (s s' : Injection) : Prop where
  held : ∀ a : ℕ, s'.input.held[a]? = if usage = a then none else s.input.held[a]?
  buttons : s'.input.buttons = s.input.buttons
  accepts : s'.desktop.accepts = s.desktop.accepts
  down : ∀ k, k ∈ s'.desktop.down ↔
    k ∈ s.desktop.down ∧ ∀ keys ∈ s.input.held[usage]?, k ∉ keys.map Sum.inl

theorem heldKeys_eq (usage : ℕ) (s : Injection) :
    heldKeys usage s = (.ok s.input.held[usage]?, s) := rfl

theorem release_all (h : TakesAll s.desktop.accepts) (usage : ℕ) :
    ∃ s', release usage s = (.ok (), s') ∧ Released usage s s' := by
  unfold release
  rw [Cmd.bind_ok (heldKeys_eq usage s)]
  cases hheld : s.input.held[usage]? with
  | none =>
    refine ⟨s, rfl, fun a => ?_, rfl, rfl, fun k => ?_⟩
    · split
      · next heq => rwa [← heq]
      · rfl
    · simp [hheld]
  | some keys =>
    obtain ⟨s₁, hsend, hinput, haccepts, hdown⟩ := sendInput_all h
      (keys.map (Win32Input.keyboard · true))
    dsimp only
    rw [Cmd.bind_ok hsend]
    refine ⟨_, rfl, fun a => ?_, ?_, haccepts, fun k => ?_⟩
    · show (s₁.input.held.erase usage)[a]? = _
      rw [getElem?_eraseHeld, hinput]
    · show s₁.input.buttons = _
      rw [hinput]
    · show k ∈ s₁.desktop.down ↔ _
      rw [hdown, presses_up, mem_leaves_ups]
      simp [hheld]

structure Pressed (usage : ℕ) (keys : List KeybdInput) (s s' : Injection) : Prop where
  held : ∀ a : ℕ, s'.input.held[a]? = if usage = a then some keys else s.input.held[a]?
  buttons : s'.input.buttons = s.input.buttons
  accepts : s'.desktop.accepts = s.desktop.accepts
  down : ∀ k, k ∈ s'.desktop.down ↔ k ∈ s.desktop.down ∨ k ∈ keys.map Sum.inl

theorem press_all (h : TakesAll s.desktop.accepts) (usage : ℕ) (keys : List KeybdInput) :
    ∃ s', press usage keys s = (.ok (), s') ∧ Pressed usage keys s s' := by
  obtain ⟨s', hsend, hinput, haccepts, hdown⟩ := sendInput_all
    (s := { s with input := { s.input with held := s.input.held.insert usage keys } }) h
    (keys.map (Win32Input.keyboard · false))
  refine ⟨s', hsend, fun a => ?_, ?_, haccepts, fun k => ?_⟩
  · rw [hinput]
    exact getElem?_insertHeld _ _ _ _
  · rw [hinput]
  · rw [hdown, presses_down, mem_leaves_downs]

/-- While keys are let go, those of `rest` may still be held. -/
structure LettingGo (rest : List ℕ) (s : Injection) : Prop where
  covered : Covered s
  takes : TakesAll s.desktop.accepts
  held : ∀ (usage : ℕ) (keys : List KeybdInput), s.input.held[usage]? = some keys → usage ∈ rest

/-- No key is down any more, and of the buttons only those of `rest`. -/
structure LettingGoOf (rest : List ℕ) (s : Injection) : Prop where
  takes : TakesAll s.desktop.accepts
  range : ∀ b ∈ rest, 1 ≤ b ∧ b ≤ 5
  down : ∀ k ∈ s.desktop.down, ∃ b ∈ rest, k = .inr b

theorem letGo_key (usage : ℕ) (rest : List ℕ) :
    Triple (LettingGo (usage :: rest)) (do let _ ← (release usage).attempt)
      (fun _ => LettingGo rest) (fun _ _ => False) := by
  refine Triple.bind (Triple.attempt fun s hs => ?_) fun _ => Triple.pure fun s hs => hs
  obtain ⟨s', hrelease, hreleased⟩ := release_all hs.takes usage
  obtain ⟨hok, -⟩ := release_covered usage s hs.covered
  rw [hrelease] at hok ⊢
  refine ⟨fun _ _ => ⟨hok () rfl, ?_, fun other keys hother => ?_⟩, fun _ he => nomatch he⟩
  · exact hreleased.accepts ▸ hs.takes
  · rw [hreleased.held] at hother
    split at hother
    · cases hother
    · next hne => exact (List.mem_cons.mp (hs.held other keys hother)).resolve_left (Ne.symm hne)

theorem letGo_button (button : ℕ) (rest : List ℕ) :
    Triple (LettingGoOf (button :: rest))
      (do let _ ← (do sendInput [← Cmd.ofExcept (mouseButton button true)]).attempt)
      (fun _ => LettingGoOf rest) (fun _ _ => False) := by
  refine Triple.bind (Triple.attempt ?_) fun _ => Triple.pure fun s hs => hs
  refine Triple.bind (Q := fun input s => LettingGoOf (button :: rest) s ∧
    [input].filterMap Win32Input.press = [.inr button].map Press.up)
    (Triple.ofExcept (fun input s h hs => ⟨hs, ?_⟩) fun e s h hs => ?_) fun input s ⟨hs, hpress⟩ => ?_
  · simp [press_of_mouseButton h]
  · obtain ⟨input, hinput⟩ := mouseButton_ok (hs.range button List.mem_cons_self) true
    exact nomatch hinput.symm.trans h
  obtain ⟨s', hsend, -, haccepts, hdown⟩ := sendInput_all hs.takes [input]
  rw [hsend]
  refine ⟨fun _ _ => ⟨haccepts ▸ hs.takes, fun b hb => ?_, fun k hk => ?_⟩, fun _ he => nomatch he⟩
  · exact hs.range b (List.mem_cons_of_mem _ hb)
  · have hk : k ∈ s'.desktop.down := hk
    rw [hdown, hpress, mem_leaves_ups] at hk
    obtain ⟨b, hb, rfl⟩ := hs.down k hk.1
    rcases List.mem_cons.mp hb with rfl | hb
    · exact absurd List.mem_cons_self hk.2
    · exact ⟨b, hb, rfl⟩

theorem mem_keys_of_held {held : ExtTreeMap ℕ (List KeybdInput)} {usage : ℕ}
    {keys : List KeybdInput} (h : held[usage]? = some keys) : usage ∈ held.keys := by
  rw [ExtTreeMap.mem_keys]
  by_contra habsent
  rw [ExtTreeMap.getElem?_eq_none habsent] at h
  cases h

theorem drop_releases {accepts : ℕ → ℕ → ℕ} (haccepts : TakesAll accepts)
    (hs : Covered s) : (drop (facing accepts s)).2.desktop.down = ∅ := by
  have hdrop : Triple (fun s => Covered s ∧ TakesAll s.desktop.accepts) drop
      (fun _ => LettingGoOf []) (fun _ _ => False) := by
    refine Triple.bind (Q := fun usages => LettingGo usages) ?_ fun usages => ?_
    · refine Triple.get (fun s usages hs husages => ?_) fun _ _ _ he => nomatch he
      cases husages
      exact ⟨hs.1, hs.2, fun usage keys h => mem_keys_of_held h⟩
    refine Triple.bind (Triple.forM letGo_key usages) fun _ => ?_
    refine Triple.bind ?_ fun buttons =>
      Triple.forM letGo_button buttons
    refine Triple.get (fun s buttons hs hbuttons => ?_) fun _ _ _ he => nomatch he
    cases hbuttons
    refine ⟨hs.takes, fun b hb => hs.covered.buttons b (mem_ascending.mp hb), fun k hk => ?_⟩
    have hrecorded := hs.covered.down k hk
    cases k with
    | inl key =>
      -- no key is held any more
      obtain ⟨usage, keys, hheld, -⟩ := hrecorded
      exact nomatch hs.held usage keys hheld
    | inr button => exact ⟨button, mem_ascending.mpr hrecorded, rfl⟩
  obtain ⟨hok, herr⟩ := hdrop (facing accepts s) ⟨⟨hs.down, hs.buttons⟩, haccepts⟩
  refine Finset.eq_empty_of_forall_notMem fun k hk => ?_
  cases hresult : (drop (facing accepts s)).1 with
  | ok u =>
    obtain ⟨b, hb, -⟩ := (hok u hresult).down k hk
    cases hb
  | error e => exact herr e hresult

end WindowsInput

end NebulaDesk
