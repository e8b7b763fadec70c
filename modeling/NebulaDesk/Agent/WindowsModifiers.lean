/-
The modifier keys of the Windows injector (`nebula-agent/src/platform/windows/input.rs`).

A modifier usage is held as its own key and no other usage as the key of a modifier, unless a
modifier key comes with a character.  So a modifier key is down exactly if its usage is held:

* **`Settled`** — that, at a desktop that takes every batch; every call keeps it;
* **`followRows_all`** — the loop of `modifiers` leaves every modifier as the event has it;
* **`nothing_stuck`** — in every run, what is down is recorded, dropping the injector releases it,
  and after an event that is not of a modifier key the modifiers of the event are down.
-/
import NebulaDesk.Agent.WindowsInputRuns

namespace NebulaDesk

open Presses Runs
open Cmd (Triple)
open Std (ExtTreeMap)

namespace WindowsInput

/-! ### The keys of the modifiers -/

def modifierKey (usage : ℕ) : KeybdInput := .ofScanCode ((scanCode usage).getD 0)

theorem scan_modifier {m : ℕ} (h : IsModifier m) : scan m = .ok (modifierKey m) := by
  obtain ⟨hlow, hhigh⟩ := h
  interval_cases m <;> rfl

theorem modifierKey_inj {m n : ℕ} (hm : IsModifier m) (hn : IsModifier n)
    (h : modifierKey m = modifierKey n) : m = n := by
  obtain ⟨hmlow, hmhigh⟩ := hm
  obtain ⟨hnlow, hnhigh⟩ := hn
  have htable : ∀ a < 8, ∀ b < 8, modifierKey (0xe0 + a) = modifierKey (0xe0 + b) → a = b := by
    decide
  have heq := htable (m - 0xe0) (by omega) (n - 0xe0) (by omega) (by
    rwa [Nat.add_sub_cancel' hmlow, Nat.add_sub_cancel' hnlow])
  omega

variable {usage : ℕ} {event : InputEvent}

theorem scan_beyond (h : 0xe8 ≤ usage) : ∃ e, scan usage = .error e := by
  have hvirtual : virtualKey usage = none := by
    unfold virtualKey
    split
    all_goals first
      | omega
      | rfl
  have hcode : scanCode usage = none := by
    unfold scanCode
    rw [if_neg (by omega), if_neg (by omega), if_neg (by omega), if_neg (by omega)]
    split
    all_goals first
      | omega
      | rfl
  unfold scan
  rw [hvirtual, hcode]
  exact ⟨_, rfl⟩

theorem scan_ne_modifierKey {usage m : ℕ} {key : KeybdInput} (h : scan usage = .ok key)
    (husage : ¬ IsModifier usage) (hm : IsModifier m) : modifierKey m ≠ key := by
  have htable : ∀ usage < 0xe0, ∀ a < 8,
      (scan usage).toOption ≠ some (modifierKey (0xe0 + a)) := by
    decide +kernel
  obtain ⟨hlow, hhigh⟩ := hm
  rintro rfl
  rcases Nat.lt_or_ge usage 0xe8 with hlt | hge
  · have hbelow : usage < 0xe0 := by
      unfold IsModifier at husage
      omega
    refine htable usage hbelow (m - 0xe0) (by omega) ?_
    rw [Nat.add_sub_cancel' hlow, h]
    rfl
  · obtain ⟨e, he⟩ := scan_beyond hge
    exact nomatch h.symm.trans he

/-- A modifier is held as its own key, and another usage as none of theirs. -/
structure OwnKeys (usage : ℕ) (keys : List KeybdInput) : Prop where
  modifier : IsModifier usage → keys = [modifierKey usage]
  other : ¬ IsModifier usage → ∀ m, IsModifier m → modifierKey m ∉ keys

variable {keys : List KeybdInput} {s s' : Injection} {input : WindowsInput} {may : ℕ → Prop}

theorem OwnKeys.mem_iff {usage m : ℕ} (h : OwnKeys usage keys)
    (hm : IsModifier m) : modifierKey m ∈ keys ↔ usage = m := by
  by_cases husage : IsModifier usage
  · rw [h.modifier husage, List.mem_singleton]
    exact ⟨fun heq => (modifierKey_inj hm husage heq).symm, fun heq => by rw [heq]⟩
  · refine ⟨fun hmem => absurd hmem (h.other husage m hm), ?_⟩
    rintro rfl
    exact absurd hm husage

theorem ownKeys_scan {key : KeybdInput} (h : scan usage = .ok key) :
    OwnKeys usage [key] where
  modifier husage := by
    rw [scan_modifier husage] at h
    rw [Except.ok.inj h]
  other husage m hm hmem := scan_ne_modifierKey h husage hm (List.mem_singleton.mp hmem)

/-- A modifier key comes without a character. -/
def PlainModifiers (event : InputEvent) : Prop :=
  event.ofKeyboard = true → IsModifier event.key → event.unicode = 0

theorem ownKeys_keysFor (h : PlainModifiers event) (hevent : event.ofKeyboard = true)
    (hkeys : keysFor event = .ok keys) : OwnKeys event.key keys := by
  unfold keysFor at hkeys
  split at hkeys
  · next htext =>
    have hunicode : event.unicode ≠ 0 := by simp_all
    have hother : ¬ IsModifier event.key := fun hm => hunicode (h hevent hm)
    cases hchar : charFromU32 event.unicode with
    | none =>
      rw [hchar] at hkeys
      cases hkeys
    | some character =>
      rw [hchar] at hkeys
      cases hkeys
      refine ⟨fun hm => absurd hm hother, fun _ m _ hmem => ?_⟩
      -- the key of a unit is no scan code
      obtain ⟨unit, -, hunit⟩ := List.mem_map.mp hmem
      exact Bool.false_ne_true (congrArg KeybdInput.scancode hunit)
  · cases hscan : scan event.key with
    | error e =>
      rw [hscan] at hkeys
      cases hkeys
    | ok key =>
      rw [hscan] at hkeys
      cases hkeys
      exact ownKeys_scan hscan

/-! ### A modifier key is down exactly if it is held -/

/-- The keys held at a desktop that takes every batch. -/
structure Settled (s : Injection) : Prop where
  takes : TakesAll s.desktop.accepts
  own : ∀ (usage : ℕ) (keys : List KeybdInput),
    s.input.held[usage]? = some keys → OwnKeys usage keys
  down : ∀ m, IsModifier m →
    (.inl (modifierKey m) ∈ s.desktop.down ↔ (s.input.held[m]?).isSome)

theorem settled_start {accepts : ℕ → ℕ → ℕ} (h : TakesAll accepts) : Settled (.start accepts) where
  takes := h
  own usage keys hheld := by simp [Injection.start] at hheld
  down m _ := by simp [Injection.start]

theorem Settled.released (h : Settled s) (hs' : Released usage s s') : Settled s' where
  takes := hs'.accepts ▸ h.takes
  own a keys hheld := by
    rw [hs'.held] at hheld
    split at hheld
    · cases hheld
    · exact h.own a keys hheld
  down m hm := by
    rw [hs'.down, hs'.held, h.down m hm]
    cases hheld : s.input.held[usage]? with
    | none =>
      by_cases heq : usage = m
      · subst heq
        simp [hheld]
      · simp [heq]
    | some keys =>
      have hkeys : modifierKey m ∈ keys ↔ usage = m := (h.own usage keys hheld).mem_iff hm
      by_cases heq : usage = m
      · simp [heq, hkeys.mpr heq]
      · simp [heq, hkeys]

theorem Settled.pressed (h : Settled s)
    (hkeys : OwnKeys usage keys) (hs' : Pressed usage keys s s') : Settled s' where
  takes := hs'.accepts ▸ h.takes
  own a old hheld := by
    rw [hs'.held] at hheld
    split at hheld
    · next heq =>
      cases hheld
      exact heq ▸ hkeys
    · exact h.own a old hheld
  down m hm := by
    have hmem : Sum.inl (modifierKey m) ∈ keys.map (Sum.inl (β := ℕ)) ↔ usage = m := by
      rw [List.mem_map_of_injective Sum.inl_injective]
      exact hkeys.mem_iff hm
    rw [hs'.down, hs'.held, h.down m hm, hmem]
    by_cases heq : usage = m
    · simp [heq]
    · simp [heq]

theorem Settled.delivered {inputs : List Win32Input} (h : Settled s)
    (hkeys : ∀ key, .down (.inl key) ∉ inputs.filterMap Win32Input.press ∧
      .up (.inl key) ∉ inputs.filterMap Win32Input.press)
    (hheld : s'.input.held = s.input.held) (haccepts : s'.desktop.accepts = s.desktop.accepts)
    (hdown : s'.desktop.down = leaves s.desktop.down (inputs.filterMap Win32Input.press)) :
    Settled s' where
  takes := haccepts ▸ h.takes
  own usage keys hold := h.own usage keys ((congrArg (·[usage]?) hheld.symm).trans hold)
  down m hm := by
    rw [hdown, hheld, ← h.down m hm]
    exact mem_leaves_of_notMem (hkeys _).1 (hkeys _).2

/-- What is the same as far as the held keys of the modifiers outside `may` go. -/
def Leaving (may : ℕ → Prop) (input : WindowsInput) (s : Injection) : Prop :=
  Settled s ∧ ∀ m : ℕ, ¬ may m → s.input.held[m]? = input.held[m]?

theorem send_leaving {inputs : List Win32Input}
    (hkeys : ∀ key, .down (.inl key) ∉ inputs.filterMap Win32Input.press ∧
      .up (.inl key) ∉ inputs.filterMap Win32Input.press) :
    Keeps (Leaving may input) (sendInput inputs) := by
  refine Triple.of_ok fun s ⟨hs, hrest⟩ => ?_
  obtain ⟨s', hsend, hsame, haccepts, hdown⟩ := sendInput_all hs.takes inputs
  refine ⟨(), s', hsend, hs.delivered hkeys (by rw [hsame]) haccepts hdown, fun m hm => ?_⟩
  rw [hsame, hrest m hm]

theorem update_leaving (f : WindowsInput → WindowsInput)
    (hheld : ∀ input, (f input).held = input.held) : Keeps (Leaving may input) (update f) := by
  refine update_triple f fun s ⟨hs, hrest⟩ => ⟨?_, fun m hm => ?_⟩
  · exact ⟨hs.takes, fun usage keys hold => hs.own usage keys
      ((congrArg (·[usage]?) (hheld s.input).symm).trans hold),
      fun m hm => (hs.down m hm).trans (by rw [hheld])⟩
  · exact (congrArg (·[m]?) (hheld s.input)).trans (hrest m hm)

theorem pressButton_leaving (event : InputEvent) :
    Keeps (Leaving may input) (pressButton event) := by
  have hmake : ∀ up, Triple (Leaving may input)
      (Cmd.ofExcept (mouseButton event.button.toU8 up))
      (fun mouse s => (∀ key, .down (.inl key) ∉ [mouse].filterMap Win32Input.press ∧
        .up (.inl key) ∉ [mouse].filterMap Win32Input.press) ∧ Leaving may input s)
      fun _ => Leaving may input := by
    intro up
    refine Triple.ofExcept (fun mouse s h hs => ⟨fun key => ?_, hs⟩) fun _ _ _ hs => hs
    cases up <;> simp [press_of_mouseButton h]
  refine Triple.bind (Survives.ensured _ _) fun _ => Triple.ite (fun _ => ?_) fun _ => ?_
  · refine Triple.bind (hmake true) fun mouse => Triple.bind (Triple.of_pure send_leaving) fun _ => ?_
    exact update_leaving _ fun _ => rfl
  · refine Triple.bind (update_leaving _ fun _ => rfl) fun _ => ?_
    exact Triple.bind (hmake false) fun mouse => Triple.of_pure send_leaving

theorem survives_leaving (may : ℕ → Prop) (input : WindowsInput) :
    Survives may OwnKeys (Leaving may input) where
  release usage hmay := by
    refine Triple.of_ok fun s ⟨hs, hrest⟩ => ?_
    obtain ⟨s', hrelease, hreleased⟩ := release_all hs.takes usage
    refine ⟨(), s', hrelease, hs.released hreleased, fun m hm => ?_⟩
    have hne : usage ≠ m := by
      rintro rfl
      exact hm hmay
    rw [hreleased.held, if_neg hne, hrest m hm]
  press usage keys hmay := by
    refine Triple.of_ok fun s ⟨⟨hs, hrest⟩, hold, hnew⟩ => ?_
    obtain ⟨s', hpress, hpressed⟩ := press_all hs.takes usage keys
    refine ⟨(), s', hpress, hs.pressed ?_ hpressed, fun m hm => ?_⟩
    · cases hheld : s.input.held[usage]? with
      | none => exact hnew hheld
      | some old => exact hold old hheld ▸ hs.own usage old hheld
    · have hne : usage ≠ m := by
        rintro rfl
        exact hm hmay
      rw [hpressed.held, if_neg hne, hrest m hm]
  quiet f hheld _ := update_leaving f hheld
  still input hinput := send_leaving fun key => by simp [hinput]
  button event := pressButton_leaving event

theorem settled_run {accepts : ℕ → ℕ → ℕ} (h : TakesAll accepts) {events : List InputEvent}
    (hplain : ∀ event ∈ events, PlainModifiers event) :
    Settled (run step (.start accepts) events) := by
  refine (Keeps.run (I := Leaving (fun _ => True) (Injection.start accepts).input)
    ⟨settled_start h, fun m hm => absurd trivial hm⟩ fun event hevent => ?_).1
  exact (survives_leaving _ _).inject (fun _ => trivial) (fun _ _ => ownKeys_scan)
    fun hkey _ => ownKeys_keysFor (hplain event hevent) hkey

/-! ### The modifiers of an event -/

/-- A modifier is held as the event has it. -/
def Agrees (event : InputEvent) (row : Modifiers × ℕ × ℕ) (input : WindowsInput) : Prop :=
  ((input.held[row.2.1]?).isSome ∨ (input.held[row.2.2]?).isSome) ↔ event.hasModifier row.1

theorem followModifier_all {flag : Modifiers} {left right : ℕ}
    (hleft : IsModifier left) (hother : ¬ (event.ofKeyboard = true ∧ IsModifier event.key))
    (hright : IsModifier right) {s : Injection} (hs : Settled s) :
    ∃ s', followModifier event (flag, left, right) s = (.ok (), s') ∧ Settled s' ∧
      Agrees event (flag, left, right) s'.input ∧
      ∀ m : ℕ, m ≠ left → m ≠ right → s'.input.held[m]? = s.input.held[m]? := by
  have hskip : ¬ (event.ofKeyboard && (event.key = left || event.key = right)) = true := by
    simp only [Bool.and_eq_true, Bool.or_eq_true, decide_eq_true_eq]
    rintro ⟨hkey, rfl | rfl⟩
    · exact hother ⟨hkey, hleft⟩
    · exact hother ⟨hkey, hright⟩
  unfold followModifier
  dsimp only
  rw [if_neg hskip]
  cases hflag : event.hasModifier flag with
  | false =>
    rw [if_pos (show (!false) = true from rfl)]
    obtain ⟨s₁, hfirst, hreleased₁⟩ := release_all hs.takes left
    have hs₁ := hs.released hreleased₁
    obtain ⟨s₂, hsecond, hreleased₂⟩ := release_all hs₁.takes right
    refine ⟨s₂, (Cmd.bind_ok hfirst).trans hsecond, hs₁.released hreleased₂, ?_, fun m hl hr => ?_⟩
    · unfold Agrees
      rw [hreleased₂.held, hreleased₂.held, hreleased₁.held, hflag]
      simp
    · rw [hreleased₂.held, if_neg (Ne.symm hr), hreleased₁.held, if_neg (Ne.symm hl)]
  | true =>
    rw [if_neg (by simp), Cmd.bind_ok (heldKeys_eq left s), Cmd.bind_ok (heldKeys_eq right s)]
    by_cases hfree : ((s.input.held[left]?).isNone && (s.input.held[right]?).isNone) = true
    · -- the left key stands in for the modifier
      obtain ⟨s₁, hpress, hpressed⟩ := press_all hs.takes left [modifierKey left]
      have hs₁ := hs.pressed (ownKeys_scan (scan_modifier hleft)) hpressed
      have hscan : Cmd.ofExcept (scan left) s = (.ok (modifierKey left), s) := by
        rw [scan_modifier hleft]
        rfl
      rw [if_pos hfree, Cmd.bind_ok hscan, Cmd.bind_ok hpress]
      refine ⟨_, rfl, { hs₁ with }, ?_, fun m hl _ => ?_⟩
      · show (s₁.input.held[left]?).isSome ∨ (s₁.input.held[right]?).isSome ↔ _
        rw [hpressed.held, if_pos rfl, hflag]
        simp
      · show s₁.input.held[m]? = _
        rw [hpressed.held, if_neg (Ne.symm hl)]
    · rw [if_neg hfree]
      refine ⟨s, rfl, hs, ?_, fun _ _ _ => rfl⟩
      unfold Agrees
      rw [hflag]
      refine iff_of_true ?_ rfl
      by_contra hnone
      rw [not_or] at hnone
      exact hfree (by simp_all)

/-- The keys of two rows are different. -/
def Apart (row other : Modifiers × ℕ × ℕ) : Prop :=
  ∀ m ∈ [row.2.1, row.2.2], m ≠ other.2.1 ∧ m ≠ other.2.2

theorem followRows_all (hother : ¬ (event.ofKeyboard = true ∧ IsModifier event.key))
    {rows : List (Modifiers × ℕ × ℕ)} (hapart : rows.Pairwise Apart)
    (hrows : ∀ row ∈ rows, IsModifier row.2.1 ∧ IsModifier row.2.2) {s : Injection}
    (hs : Settled s) :
    ∃ s', rows.forM (followModifier event) s = (.ok (), s') ∧ Settled s' ∧
      (∀ row ∈ rows, Agrees event row s'.input) ∧
      ∀ m : ℕ, (∀ row ∈ rows, m ≠ row.2.1 ∧ m ≠ row.2.2) →
        s'.input.held[m]? = s.input.held[m]? := by
  induction rows generalizing s with
  | nil => exact ⟨s, rfl, hs, fun _ h => (nomatch h), fun _ _ => rfl⟩
  | cons row rows ih =>
    obtain ⟨hfirst, hapart⟩ := List.pairwise_cons.mp hapart
    obtain ⟨hleft, hright⟩ := hrows row List.mem_cons_self
    obtain ⟨s₁, hrow, hs₁, hagrees, hsame⟩ := followModifier_all hleft hother hright hs
    obtain ⟨s', hrest, hs', hall, hothers⟩ := ih hapart
      (fun other h => hrows other (List.mem_cons_of_mem _ h)) hs₁
    refine ⟨s', (Cmd.bind_ok hrow).trans hrest, hs', fun r hr => ?_, fun m hm => ?_⟩
    · rcases List.mem_cons.mp hr with rfl | hr
      · -- the later rows leave its keys alone
        have hleft := hothers r.2.1 fun other ho => hfirst other ho _ List.mem_cons_self
        have hright := hothers r.2.2 fun other ho =>
          hfirst other ho _ (List.mem_cons_of_mem _ List.mem_cons_self)
        unfold Agrees
        rw [hleft, hright]
        exact hagrees
      · exact hall r hr
    · obtain ⟨hl, hr⟩ := hm row List.mem_cons_self
      rw [hothers m fun other ho => hm other (List.mem_cons_of_mem _ ho), hsame m hl hr]

theorem modifierRows_modifiers : ∀ row ∈ modifierRows, IsModifier row.2.1 ∧ IsModifier row.2.2 := by
  decide

theorem modifierRows_apart : modifierRows.Pairwise Apart := by
  unfold Apart
  decide

theorem inject_agrees (hother : ¬ (event.ofKeyboard = true ∧ IsModifier event.key)) :
    Triple Settled (inject event)
      (fun _ s => Settled s ∧ ∀ row ∈ modifierRows, Agrees event row s.input) fun _ _ => True := by
  have hplain : PlainModifiers event := fun hkey hm => absurd ⟨hkey, hm⟩ hother
  have hguard : ∀ ok text, Triple Settled (ensure ok text) (fun _ => Settled) fun _ _ => True :=
    fun _ _ => Triple.ite (fun _ => Triple.pure fun _ hs => hs) fun _ =>
      Triple.throw fun _ _ => trivial
  unfold inject
  refine Triple.bind (hguard _ _) fun _ => Triple.bind (hguard _ _) fun _ => ?_
  refine Triple.bind (Q := fun _ => Settled) ?_ fun _ => Triple.bind (Q := fun _ s =>
    Settled s ∧ ∀ row ∈ modifierRows, Agrees event row s.input) ?_ fun _ => ?_
  · rw [takeOver, if_neg hother]
    exact Triple.pure fun _ hs => hs
  · refine Triple.of_ok fun s hs => ?_
    obtain ⟨s', hmodifiers, hs', hagrees, -⟩ := followRows_all hother modifierRows_apart
      modifierRows_modifiers hs
    exact ⟨(), s', hmodifiers, hs', hagrees⟩
  · -- what comes then touches no modifier
    intro s₁ ⟨hs₁, hagrees⟩
    obtain ⟨hok, -⟩ := (survives_leaving (fun usage => ¬ IsModifier usage) s₁.input).moveThenAct
      event (fun hkey hm => hother ⟨hkey, hm⟩)
      (fun hkey _ => ownKeys_keysFor hplain hkey) s₁ ⟨hs₁, fun _ _ => rfl⟩
    refine ⟨fun u hu => ?_, fun _ _ => trivial⟩
    obtain ⟨hs, hsame⟩ := hok u hu
    refine ⟨hs, fun row hrow => ?_⟩
    obtain ⟨hleft, hright⟩ := modifierRows_modifiers row hrow
    unfold Agrees
    rw [hsame _ (not_not_intro hleft), hsame _ (not_not_intro hright)]
    exact hagrees row hrow

/-- **Nothing is left stuck.**  In every run, however much is taken of each batch, what is down
because of the injector is recorded, and dropping it at a desktop that takes every batch leaves
nothing down.  If every batch is taken and modifier keys come without characters, then after an
event that is not of a modifier key each modifier has a key down exactly if the event has it. -/
theorem nothing_stuck (accepts : ℕ → ℕ → ℕ) (events : List InputEvent) :
    (∀ k ∈ (run step (.start accepts) events).desktop.down,
      Recorded (run step (.start accepts) events).input k) ∧
    (∀ drops, TakesAll drops →
      (drop (facing drops (run step (.start accepts) events))).2.desktop.down = ∅) ∧
    (TakesAll accepts → (∀ event ∈ events, PlainModifiers event) →
      ∀ event s, inject event (run step (.start accepts) events) = (.ok (), s) →
        ¬ (event.ofKeyboard = true ∧ IsModifier event.key) →
        ∀ row ∈ modifierRows,
          (.inl (modifierKey row.2.1) ∈ s.desktop.down ∨
            .inl (modifierKey row.2.2) ∈ s.desktop.down ↔ event.hasModifier row.1)) := by
  have hcovered := covered_run accepts events
  refine ⟨hcovered.down, fun drops hdrops => drop_releases hdrops hcovered, ?_⟩
  intro hall hplain event s hinject hother row hrow
  obtain ⟨hok, -⟩ := inject_agrees hother _ (settled_run hall hplain)
  rw [hinject] at hok
  obtain ⟨hs, hagrees⟩ := hok () rfl
  obtain ⟨hleft, hright⟩ := modifierRows_modifiers row hrow
  rw [hs.down _ hleft, hs.down _ hright]
  exact hagrees row hrow

/-- A letter is pressed with Shift, and the injector is dropped. -/
theorem nothing_stuck_shift :
    let first := run step (.start fun _ len => len) [InputEvent.ofKey .keyUp 0x04 0]
    let pressed := run step (.start fun _ len => len)
      [InputEvent.ofKey .keyUp 0x04 0, .ofKey .keyDown 0x04 .shiftBit]
    inject (.ofKey .keyDown 0x04 .shiftBit) first = (.ok (), pressed) ∧
      (∃ key, .inl key ∈ pressed.desktop.down) ∧
      (drop (facing (fun _ len => len) pressed)).2.desktop.down = ∅ := by
  intro first pressed
  have hall : TakesAll fun _ len => len := fun _ _ => le_rfl
  have hok : (inject (.ofKey .keyDown 0x04 .shiftBit) first).1 = .ok () := by rfl
  have hinject : inject (.ofKey .keyDown 0x04 .shiftBit) first = (.ok (), pressed) :=
    Prod.ext hok rfl
  obtain ⟨-, -, hmodifiers⟩ := nothing_stuck (fun _ len => len) [InputEvent.ofKey .keyUp 0x04 0]
  obtain ⟨-, hdrop, -⟩ := nothing_stuck (fun _ len => len)
    [InputEvent.ofKey .keyUp 0x04 0, .ofKey .keyDown 0x04 .shiftBit]
  refine ⟨hinject, ?_, hdrop _ hall⟩
  have hshift := hmodifiers hall (fun event hevent => ?_) (.ofKey .keyDown 0x04 .shiftBit) _
    hinject (by decide) (.shiftBit, 0xe1, 0xe5) (by decide)
  · rcases hshift.mpr (by decide) with hdown | hdown
    · exact ⟨_, hdown⟩
    · exact ⟨_, hdown⟩
  · obtain rfl := List.mem_singleton.mp hevent
    exact fun _ _ => rfl

end WindowsInput

end NebulaDesk
