/-
Injecting input on macOS (`nebula-agent/src/platform/macos/input.rs`): the injector of the desktop.

The HID tap takes every event that is posted; `posted` is all of them, in order, and `seen` is what
they leave down.  An event comes with the time of the injector's clock.

* **`mac_input_exact`** — what is down is what the injector remembers, and nothing is when it goes;
  a release counts the clicks of its press;
* **`mac_modifiers_current`** — the event of a modifier key says of its modifier what is down,
  whatever the client believes, and of the others what the client says.
-/
import NebulaDesk.Agent.WindowsInput

namespace NebulaDesk

/-- `CGEventType` of the pointer's events; the button's number says whose it is. -/
inductive CgPointer
  | moved | down | up | dragged

/-- A `CGEvent`; `clicks` is 0 where it is not set. -/
inductive CgEvent
  | mouse (type : CgPointer) (number : Option ℕ) (point : Float × Float) (flags : BitVec 64)
    (clicks : ℕ)
  | keyboard (code : UInt16) (down : Bool) (flags : BitVec 64) (autorepeat : Bool)
  | scroll (vertical horizontal : Int32) (flags : BitVec 64)

/-- `Modifiers::contains`. -/
def Modifiers.has (m flag : Modifiers) : Bool := m &&& flag = flag

namespace MacInput

def flagRows : List (Modifiers × BitVec 64) :=
  [(.shiftBit, 0x20000), (.controlBit, 0x40000), (.altBit, 0x80000), (.metaBit, 0x100000),
    (BitVec.twoPow 16 4, 0x10000), (BitVec.twoPow 16 6, 0x800000)]

def cgFlags (m : Modifiers) : BitVec 64 :=
  flagRows.foldl (fun flags row => if Modifiers.has m row.1 then flags ||| row.2 else flags) 0

def buttonNumber : MouseButton → Option ℕ
  | .left => some 0
  | .right => some 1
  | .middle => some 2
  | .back => some 3
  | .forward => some 4
  | .none => none

/-- The virtual keys of usages that follow one another, from the first one on. -/
def keyRows : List (ℕ × List UInt16) :=
  [(0x04, [0x00, 0x0b, 0x08, 0x02, 0x0e, 0x03, 0x05, 0x04, 0x22, 0x26, 0x28, 0x25, 0x2e, 0x2d, 0x1f,
      0x23, 0x0c, 0x0f, 0x01, 0x11, 0x20, 0x09, 0x0d, 0x07, 0x10, 0x06,
      0x12, 0x13, 0x14, 0x15, 0x17, 0x16, 0x1a, 0x1c, 0x19, 0x1d,
      0x24, 0x35, 0x33, 0x30, 0x31, 0x1b, 0x18, 0x21, 0x1e, 0x2a]),
    (0x33, [0x29, 0x27, 0x32, 0x2b, 0x2f, 0x2c, 0x39,
      0x7a, 0x78, 0x63, 0x76, 0x60, 0x61, 0x62, 0x64, 0x65, 0x6d, 0x67, 0x6f]),
    (0x49, [0x72, 0x73, 0x74, 0x75, 0x77, 0x79, 0x7c, 0x7b, 0x7d, 0x7e,
      0x47, 0x4b, 0x43, 0x4e, 0x45, 0x4c, 0x53, 0x54, 0x55, 0x56, 0x57, 0x58, 0x59, 0x5b, 0x5c,
      0x52, 0x41]),
    (0x68, [0x69, 0x6b, 0x71, 0x6a, 0x40, 0x4f, 0x50, 0x5a]),
    (0xe0, [0x3b, 0x38, 0x3a, 0x37, 0x3e, 0x3c, 0x3d, 0x36])]

def virtualKey (usage : ℕ) : Option UInt16 :=
  keyRows.findSome? fun row => if row.1 ≤ usage then row.2[usage - row.1]? else none

/-- `HeldKeys::update`: the keys after a transition, and whether it repeats a press. -/
def updateKeys (held : List UInt16) (code : UInt16) (down : Bool) : List UInt16 × Bool :=
  (if down && !held.contains code then held ++ [code]
    else if !down then held.filter (· ≠ code) else held,
  down && held.contains code)

def modifierKeys : List (UInt16 × UInt16 × Modifiers) :=
  [(0x38, 0x3c, .shiftBit), (0x3b, 0x3e, .controlBit), (0x3a, 0x3d, .altBit),
    (0x37, 0x36, .metaBit)]

/-- One turn of the loop of `HeldKeys::modifiers`. -/
def follow (held : List UInt16) (code : UInt16) (m : Modifiers)
    (row : UInt16 × UInt16 × Modifiers) : Modifiers :=
  if code = row.1 || code = row.2.1 then
    if held.contains row.1 || held.contains row.2.1 then m &&& ~~~row.2.2 ||| row.2.2
    else m &&& ~~~row.2.2
  else m

def modifiers (held : List UInt16) (code : UInt16) (m : Modifiers) : Modifiers :=
  modifierKeys.foldl (follow held code) m

structure Click where
  button : MouseButton
  point : Float × Float
  time : ℕ
  count : ℕ
  released : Bool

structure Clicks where
  interval : ℕ
  last : Option Click
  /-- By the button's number. -/
  pressed : ℕ → ℕ

namespace Clicks

/-- `powi(2)`. -/
def square (x : Float) : Float := x * x

def moved (point : Float × Float) (c : Clicks) : Clicks :=
  { c with last := c.last.filter fun last =>
      !(square (point.1 - last.point.1) + square (point.2 - last.point.2) > 16.0) }

/-- The count of a press that comes next. -/
def next (c : Clicks) (button : MouseButton) (now : ℕ) : ℕ :=
  match c.last.filter fun last => last.button = button && last.released &&
      (last.time ≤ now && now - last.time ≤ c.interval) with
  | none => 1
  | some last => min (last.count + 1) (2 ^ 63 - 1)

/-- `update` of a button with the number `index`. -/
def update (c : Clicks) (button : MouseButton) (index : ℕ) (down : Bool) (point : Float × Float)
    (now : ℕ) : ℕ × Clicks :=
  let c := c.moved point
  if down then
    (c.next button now, { c with
      last := some ⟨button, point, now, c.next button now, false⟩
      pressed := Function.update c.pressed index (c.next button now) })
  else
    (max (c.pressed index) 1, { c with
      last := c.last.map fun last =>
        if last.button = button then { last with released := true } else last
      pressed := Function.update c.pressed index 0 })

end Clicks

end MacInput

structure MacInput where
  bounds : Float × Float × Float × Float
  last : Float × Float
  held : List MouseButton
  keys : List UInt16
  clicks : MacInput.Clicks
  wheel : Float × Float
  posted : List CgEvent

namespace MacInput

def start (bounds : Float × Float × Float × Float) (interval : ℕ) : MacInput :=
  ⟨bounds, (bounds.1 + bounds.2.2.1 / 2.0, bounds.2.1 + bounds.2.2.2 / 2.0), [], [],
    ⟨interval, none, fun _ => 0⟩, (0, 0), []⟩

def post (e : CgEvent) (s : MacInput) : MacInput := { s with posted := s.posted ++ [e] }

/-- `f64::from(v.clamp(0.0, 1.0))`. -/
def unit (v : F32) : Float := (Float32.ofBits (UInt32.ofBitVec (clampUnit v).bits)).toFloat

def point (s : MacInput) (x y : F32) : Float × Float :=
  (s.bounds.1 + unit x * s.bounds.2.2.1, s.bounds.2.1 + unit y * s.bounds.2.2.2)

/-- A button goes down or up where the pointer is. -/
def postButton (button : MouseButton) (down : Bool) (m : Modifiers) (now : ℕ) (s : MacInput) :
    MacInput :=
  match buttonNumber button with
  | none => s
  | some index =>
    let c := s.clicks.update button index down s.last now
    { s with clicks := c.2 }.post
      (.mouse (if down then .down else .up) (some index) s.last (cgFlags m) c.1)

def releaseButtons (m : Modifiers) (now : ℕ) (s : MacInput) : MacInput :=
  let r := s.held.foldl (fun s button => s.postButton button false m now) { s with held := [] }
  { r with clicks := { r.clicks with last := none, pressed := fun _ => 0 } }

def releaseAll (now : ℕ) (s : MacInput) : MacInput :=
  let r := s.releaseButtons 0 now
  r.keys.reverse.foldl (fun s code => s.post (.keyboard code false (cgFlags 0) false))
    { r with keys := [] }

def wheelLines (remainder : Float) (delta : F32) : Int32 × Float :=
  if !delta.isFinite then (0, remainder)
  else
    let turned := remainder + (Float32.ofBits (UInt32.ofBitVec delta.bits)).toFloat
    (turned.toInt32, turned - turned.toInt32.toFloat)

/-- A button of the pointer goes down or up. -/
def pressButton (e : InputEvent) (down : Bool) (m : Modifiers) (now : ℕ) (s : MacInput) : MacInput :=
  if e.button = .none then s
  else
    let r := { s with last := s.point e.x e.y }.postButton e.button down m now
    { r with held :=
        if down then if r.held.contains e.button then r.held else r.held ++ [e.button]
        else r.held.filter (· ≠ e.button) }

def pressKey (usage : ℕ) (down : Bool) (m : Modifiers) (s : MacInput) : MacInput :=
  match virtualKey usage with
  | none => s
  | some code =>
    let keys := updateKeys s.keys code down
    { s with keys := keys.1 }.post (.keyboard code down (cgFlags (modifiers keys.1 code m))
      (down && (keys.2 || Modifiers.has m .againBit)))

def apply (e : InputEvent) (now : ℕ) (s : MacInput) : MacInput :=
  let m := BitVec.ofNat 16 e.modifiers
  match e.kind with
  | .mouseMove | .mouseDrag =>
    let p := s.point e.x e.y
    let dragging := buttonNumber (s.held.head?.getD .none)
    { s with last := p, clicks := s.clicks.moved p }.post
      (.mouse (if dragging.isSome then .dragged else .moved) dragging p (cgFlags m) 0)
  | .mouseDown => s.pressButton e true m now
  | .mouseUp => s.pressButton e false m now
  | .wheel =>
    let h := wheelLines s.wheel.1 e.scrollX
    let v := wheelLines s.wheel.2 e.scrollY
    let r := { s with wheel := (h.2, v.2) }
    if v.1 ≠ 0 || h.1 ≠ 0 then r.post (.scroll v.1 h.1 (cgFlags m)) else r
  | .keyDown => s.pressKey e.key true m
  | .keyUp => s.pressKey e.key false m
  | .pointerLeave => s.releaseButtons m now

/-- The injector after some events, each with its time. -/
def run (s : MacInput) (events : List (InputEvent × ℕ)) : MacInput :=
  Runs.run (fun s e => s.apply e.1 e.2) s events

/-! ### What is down -/

/-- The keys that are down, and the clicks of each button that is. -/
def see (seen : Finset UInt16 × (ℕ → Option ℕ)) : CgEvent → Finset UInt16 × (ℕ → Option ℕ)
  | .keyboard code true _ _ => (insert code seen.1, seen.2)
  | .keyboard code false _ _ => (seen.1.erase code, seen.2)
  | .mouse .down (some n) _ _ k => (seen.1, Function.update seen.2 n (some k))
  | .mouse .up (some n) _ _ _ => (seen.1, Function.update seen.2 n none)
  | _ => seen

def seen (posted : List CgEvent) : Finset UInt16 × (ℕ → Option ℕ) :=
  posted.foldl see (∅, fun _ => none)

/-- A release counts the clicks of its press. -/
def Paired (before : List CgEvent) : CgEvent → Prop
  | .mouse .up (some n) _ _ k => k = max (((seen before).2 n).getD 0) 1
  | _ => True

def numbers (held : List MouseButton) : Finset ℕ := (held.filterMap buttonNumber).toFinset

/-- What was posted, where `buttons` are down. -/
structure Sound (s : MacInput) (buttons : Finset ℕ) : Prop where
  keys : (seen s.posted).1 = s.keys.toFinset
  buttons : ∀ n, ((seen s.posted).2 n).isSome = true ↔ n ∈ buttons
  pressed : ∀ n, s.clicks.pressed n = ((seen s.posted).2 n).getD 0
  paired : Runs.Each Paired s.posted

variable {s : MacInput} {B : Finset ℕ} {b : MouseButton} {n k : ℕ} {m : Modifiers}

theorem seen_concat (posted : List CgEvent) (e : CgEvent) :
    seen (posted ++ [e]) = see (seen posted) e := by
  rw [seen, List.foldl_append]
  rfl

theorem Sound.quiet {e : CgEvent} (h : Sound s B) (he : ∀ seen, see seen e = seen)
    (hpaired : Paired s.posted e) : Sound (s.post e) B := by
  have hseen : seen (s.post e).posted = seen s.posted := (seen_concat _ _).trans (he _)
  refine ⟨?_, ?_, ?_, h.paired.snoc hpaired⟩ <;> rw [hseen]
  · exact h.keys
  · exact h.buttons
  · exact h.pressed

theorem toFinset_updateKeys (held : List UInt16) (code : UInt16) (down : Bool) :
    (updateKeys held code down).1.toFinset =
      if down then insert code held.toFinset else held.toFinset.erase code := by
  ext x
  cases down with
  | true =>
    by_cases hmem : code ∈ held
    · simp only [updateKeys, List.contains_eq_mem, hmem, if_true, Finset.mem_insert]
      exact ⟨.inr, fun h => h.elim (fun h => List.mem_toFinset.mpr (h ▸ hmem)) id⟩
    · simp [updateKeys, hmem]
  | false => simp [updateKeys, and_comm]

theorem Sound.pressKey (h : Sound s B) (usage : ℕ) (down : Bool) (m : Modifiers) :
    Sound (s.pressKey usage down m) B := by
  unfold MacInput.pressKey
  split
  · exact h
  · next code hcode =>
    have hseen : ∀ flags again, seen (s.posted ++ [.keyboard code down flags again]) =
        ((updateKeys s.keys code down).1.toFinset, (seen s.posted).2) := by
      intro flags again
      rw [seen_concat, toFinset_updateKeys, ← h.keys]
      cases down <;> rfl
    refine ⟨?_, ?_, ?_, h.paired.snoc trivial⟩ <;> simp only [post, hseen]
    · exact h.buttons
    · exact h.pressed

theorem Sound.postButton (h : Sound s B) (hn : buttonNumber b = some n) (down : Bool) :
    Sound (s.postButton b down m k) (if down then insert n B else B.erase n) := by
  unfold MacInput.postButton
  rw [hn]
  have hpaired : ∀ p flags, Paired s.posted (.mouse (if down then .down else .up) (some n) p flags
      (s.clicks.update b n down s.last k).1) := by
    intro p flags
    cases down with
    | true => trivial
    | false => exact congrArg (max · 1) (h.pressed n)
  refine ⟨?_, fun i => ?_, fun i => ?_, h.paired.snoc (hpaired _ _)⟩ <;>
    simp only [post, seen_concat]
  · cases down <;> exact h.keys
  · rcases eq_or_ne i n with rfl | hne <;> cases down <;> simp [see, *, h.buttons]
  · rcases eq_or_ne i n with rfl | hne <;> cases down <;>
      simp [see, Clicks.update, Clicks.moved, *, h.pressed]

theorem mem_numbers {held : List MouseButton} :
    n ∈ numbers held ↔ ∃ b ∈ held, buttonNumber b = some n := by simp [numbers]

theorem buttonNumber_inj {c : MouseButton} (hb : buttonNumber b = some n)
    (hc : buttonNumber c = some n) : b = c := by
  cases b <;> cases hb <;> cases c <;> first | rfl | cases hc

theorem numbers_press {held : List MouseButton} (hn : buttonNumber b = some n) (down : Bool) :
    numbers (if down then if held.contains b then held else held ++ [b]
      else held.filter (· ≠ b)) =
      if down then insert n (numbers held) else (numbers held).erase n := by
  ext i
  cases down with
  | true =>
    by_cases hmem : b ∈ held
    · have hin : n ∈ numbers held := mem_numbers.mpr ⟨_, hmem, hn⟩
      simp [hmem, Finset.insert_eq_of_mem hin]
    · simp [numbers, hmem, hn]
  | false =>
    simp only [mem_numbers, List.mem_filter, Finset.mem_erase, Bool.false_eq_true, if_false,
      decide_eq_true_eq]
    constructor
    · rintro ⟨c, ⟨hc, hcb⟩, hci⟩
      refine ⟨?_, c, hc, hci⟩
      rintro rfl
      exact hcb (buttonNumber_inj hci hn)
    · rintro ⟨hin, c, hc, hci⟩
      refine ⟨c, ⟨hc, ?_⟩, hci⟩
      rintro rfl
      exact hin (Option.some.inj (hci.symm.trans hn))

theorem postButton_held (b : MouseButton) (down : Bool) (m : Modifiers) (now : ℕ) (s : MacInput) :
    (s.postButton b down m now).held = s.held := by
  unfold MacInput.postButton
  split <;> rfl

theorem Sound.pressButton (h : Sound s (numbers s.held)) (e : InputEvent) (down : Bool) :
    Sound (s.pressButton e down m k) (numbers (s.pressButton e down m k).held) := by
  unfold MacInput.pressButton
  split
  · exact h
  · next hne =>
    obtain ⟨n, hn⟩ : ∃ n, buttonNumber e.button = some n := by
      cases hb : e.button <;> first | exact ⟨_, rfl⟩ | exact absurd hb hne
    have hs := Sound.postButton (s := { s with last := s.point e.x e.y }) (m := m) (k := k)
      { h with } hn down
    dsimp only
    rw [postButton_held, numbers_press hn]
    exact { hs with }

theorem Sound.releases (h : Sound s B) (held : List MouseButton) :
    Sound (held.foldl (fun s b => s.postButton b false m k) s) (B \ numbers held) ∧
      (held.foldl (fun s b => s.postButton b false m k) s).held = s.held := by
  induction held generalizing s B with
  | nil => exact ⟨by simpa [numbers] using h, rfl⟩
  | cons b held ih =>
    rw [List.foldl_cons, ← postButton_held b false m k s]
    cases hn : buttonNumber b with
    | none =>
      have hsame : s.postButton b false m k = s := by rw [MacInput.postButton, hn]
      have hnumbers : numbers (b :: held) = numbers held := by simp [numbers, hn]
      rw [hsame, hnumbers]
      exact ih h
    | some n =>
      have hnumbers : B \ numbers (b :: held) = B.erase n \ numbers held := by
        ext i
        simp [numbers, hn]
        tauto
      rw [hnumbers]
      exact ih (h.postButton hn false)

theorem Sound.releaseButtons (h : Sound s (numbers s.held)) (m : Modifiers) (now : ℕ) :
    Sound (s.releaseButtons m now) ∅ ∧ (s.releaseButtons m now).held = [] := by
  obtain ⟨hr, hheld⟩ := Sound.releases (s := { s with held := [] }) (m := m) (k := now)
    { h with } s.held
  rw [sdiff_self] at hr
  refine ⟨⟨hr.keys, hr.buttons, fun n => ?_, hr.paired⟩, hheld⟩
  have hup := Option.not_isSome_iff_eq_none.mp (mt (hr.buttons n).mp (Finset.notMem_empty n))
  exact (congrArg (Option.getD · 0) hup).symm

theorem Sound.apply (h : Sound s (numbers s.held)) (e : InputEvent) (now : ℕ) :
    Sound (s.apply e now) (numbers (s.apply e now).held) := by
  have hkey : ∀ usage down m, Sound (s.pressKey usage down m)
      (numbers (s.pressKey usage down m).held) := by
    intro usage down m
    have hheld : (s.pressKey usage down m).held = s.held := by
      unfold MacInput.pressKey
      split <;> rfl
    rw [hheld]
    exact h.pressKey usage down m
  unfold MacInput.apply
  cases e.kind with
  | mouseMove | mouseDrag =>
    refine Sound.quiet { h with } (fun seen => ?_) ?_ <;>
      cases buttonNumber (s.held.head?.getD .none) <;> trivial
  | mouseDown => exact h.pressButton e true
  | mouseUp => exact h.pressButton e false
  | wheel =>
    dsimp only
    split
    · exact Sound.quiet { h with } (fun _ => rfl) trivial
    · exact { h with }
  | keyDown => exact hkey _ _ _
  | keyUp => exact hkey _ _ _
  | pointerLeave =>
    obtain ⟨hr, hheld⟩ := h.releaseButtons (BitVec.ofNat 16 e.modifiers) now
    dsimp only
    rw [hheld]
    exact hr

theorem sound_run (bounds : Float × Float × Float × Float) (interval : ℕ)
    (events : List (InputEvent × ℕ)) :
    Sound ((start bounds interval).run events)
      (numbers ((start bounds interval).run events).held) :=
  Runs.run_invariant (P := fun s => Sound s (numbers s.held)) (fun _ e h => h.apply e.1 e.2)
    ⟨rfl, fun n => by simp [start, seen, numbers], fun _ => rfl, Runs.each_nil Paired⟩ events

theorem seen_letGo (codes : List UInt16) (hpaired : Runs.Each Paired s.posted) :
    Runs.Each Paired
        (codes.foldl (fun s code => s.post (.keyboard code false (cgFlags 0) false)) s).posted ∧
      seen (codes.foldl (fun s code => s.post (.keyboard code false (cgFlags 0) false)) s).posted =
        ((seen s.posted).1 \ codes.toFinset, (seen s.posted).2) := by
  induction codes generalizing s with
  | nil => exact ⟨hpaired, by simp⟩
  | cons code codes ih =>
    have hseen := seen_concat s.posted (.keyboard code false (cgFlags 0) false)
    obtain ⟨hp, hs⟩ := ih (s := s.post (.keyboard code false (cgFlags 0) false))
      (hpaired.snoc trivial)
    refine ⟨hp, ?_⟩
    rw [List.foldl_cons, hs, post, hseen, List.toFinset_cons, Finset.sdiff_insert,
      ← Finset.erase_sdiff_comm]
    rfl

/-- **The injector remembers exactly what is down, and leaves nothing down.** -/
theorem mac_input_exact (bounds : Float × Float × Float × Float) (interval : ℕ)
    (events : List (InputEvent × ℕ)) (now : ℕ) :
    let s := (start bounds interval).run events
    (∀ code, code ∈ (seen s.posted).1 ↔ code ∈ s.keys) ∧
      (∀ b n, buttonNumber b = some n → (((seen s.posted).2 n).isSome = true ↔ b ∈ s.held)) ∧
      seen (s.releaseAll now).posted = (∅, fun _ => none) ∧
      Runs.Each Paired (s.releaseAll now).posted := by
  have h := sound_run bounds interval events
  generalize (start bounds interval).run events = s at h
  obtain ⟨hr, -⟩ := h.releaseButtons 0 now
  obtain ⟨hpaired, hseen⟩ := seen_letGo
    (s := { s.releaseButtons 0 now with keys := [] }) (s.releaseButtons 0 now).keys.reverse hr.paired
  refine ⟨fun code => by rw [h.keys, List.mem_toFinset], fun b n hn => ?_, ?_, hpaired⟩
  · rw [h.buttons, mem_numbers]
    exact ⟨fun ⟨c, hc, hcn⟩ => buttonNumber_inj hcn hn ▸ hc, fun hb => ⟨b, hb, hn⟩⟩
  · rw [hr.keys, List.toFinset_reverse, sdiff_self] at hseen
    refine hseen.trans (Prod.ext rfl (funext fun n => ?_))
    exact Option.not_isSome_iff_eq_none.mp (mt (hr.buttons n).mp (Finset.notMem_empty n))

/-! ### Modifiers -/

theorem has_twoPow (m : Modifiers) {i : ℕ} (hi : i < 16) :
    Modifiers.has m (BitVec.twoPow 16 i) = m.getLsbD i := by
  rw [Modifiers.has, BitVec.and_twoPow]
  cases m.getLsbD i with
  | true => simp
  | false =>
    have hne : (0 : BitVec 16) ≠ BitVec.twoPow 16 i := by
      intro heq
      have hbit := congrArg (·.getLsbD i) heq
      simp [hi] at hbit
    simpa using hne

theorem getLsbD_follow (held : List UInt16) (code : UInt16) (m : Modifiers) (left right : UInt16)
    (i : ℕ) {j : ℕ} (hj : j < 16) :
    (follow held code m (left, right, BitVec.twoPow 16 i)).getLsbD j =
      if j = i ∧ (code = left ∨ code = right) then decide (left ∈ held ∨ right ∈ held)
      else m.getLsbD j := by
  unfold follow
  rcases eq_or_ne j i with rfl | hij
  · by_cases hcode : code = left ∨ code = right <;>
      by_cases hheld : left ∈ held ∨ right ∈ held <;> simp [hcode, hheld, hj]
  · by_cases hcode : code = left ∨ code = right <;>
      by_cases hheld : left ∈ held ∨ right ∈ held <;> simp [hcode, hheld, hij, hj]

theorem has_modifiers (held : List UInt16) (code : UInt16) (m : Modifiers) :
    ∀ row ∈ modifierKeys, Modifiers.has (modifiers held code m) row.2.2 =
      if code = row.1 ∨ code = row.2.1 then decide (row.1 ∈ held ∨ row.2.1 ∈ held)
      else Modifiers.has m row.2.2 := by
  simp only [modifierKeys, List.forall_mem_cons, List.not_mem_nil, false_imp_iff, implies_true,
    and_true, modifiers, List.foldl_cons, List.foldl_nil, Modifiers.shiftBit, Modifiers.controlBit,
    Modifiers.altBit, Modifiers.metaBit]
  refine ⟨?_, ?_, ?_, ?_⟩ <;> simp (disch := decide) only [has_twoPow, getLsbD_follow] <;> simp

theorem follow_and {held : List UInt16} {code : UInt16} {m flag : Modifiers}
    {row : UInt16 × UInt16 × Modifiers}
    (h : code = row.1 ∨ code = row.2.1 → row.2.2 &&& flag = 0) :
    follow held code m row &&& flag = m &&& flag := by
  unfold follow
  split
  · next hcode =>
    have hapart := h (by simpa using hcode)
    have hbit : ∀ i, row.2.2.getLsbD i = true → flag.getLsbD i = false := by
      intro i hi
      have hnone := congrArg (·.getLsbD i) hapart
      simpa [hi] using hnone
    split <;> refine BitVec.eq_of_getLsbD_eq fun i hi => ?_ <;>
      simp only [BitVec.getLsbD_and, BitVec.getLsbD_or, BitVec.getLsbD_not, hi, decide_true] <;>
      cases hrow : row.2.2.getLsbD i <;> simp [hbit i, hrow]
  · rfl

theorem modifiers_and {held : List UInt16} {code : UInt16} {m flag : Modifiers}
    (h : ∀ row ∈ modifierKeys, code = row.1 ∨ code = row.2.1 → row.2.2 &&& flag = 0) :
    modifiers held code m &&& flag = m &&& flag := by
  unfold modifiers
  generalize modifierKeys = rows at h
  induction rows generalizing m with
  | nil => rfl
  | cons row rows ih =>
    obtain ⟨hrow, hrows⟩ := List.forall_mem_cons.mp h
    rw [List.foldl_cons, ih hrows, follow_and hrow]

/-- **A modifier key says of its modifier what is down, whatever the client believes,** and of
everything else what the client says. -/
theorem mac_modifiers_current (bounds : Float × Float × Float × Float) (interval : ℕ)
    (events : List (InputEvent × ℕ)) (e : InputEvent) (down : Bool) (now : ℕ) :
    let s := (start bounds interval).run events
    let t := s.apply { e with kind := if down then .keyDown else .keyUp } now
    let m := BitVec.ofNat 16 e.modifiers
    match virtualKey e.key with
    | none => t.posted = s.posted
    | some code => ∃ current,
      t.posted = s.posted ++ [.keyboard code down (cgFlags current)
        (down && (decide (code ∈ (seen s.posted).1) || Modifiers.has m .againBit))] ∧
      (∀ row ∈ modifierKeys, Modifiers.has current row.2.2 =
        if code = row.1 ∨ code = row.2.1 then
          decide (row.1 ∈ (seen t.posted).1 ∨ row.2.1 ∈ (seen t.posted).1)
        else Modifiers.has m row.2.2) ∧
      ∀ flag, (∀ row ∈ modifierKeys, code = row.1 ∨ code = row.2.1 → row.2.2 &&& flag = 0) →
        current &&& flag = m &&& flag := by
  have h := sound_run bounds interval events
  generalize (start bounds interval).run events = s at h
  intro r t m
  have ht : t = s.pressKey e.key down m := by cases down <;> rfl
  have hsound := h.pressKey e.key down m
  rw [ht]
  unfold MacInput.pressKey at hsound ⊢
  cases hcode : virtualKey e.key with
  | none => rfl
  | some code =>
    rw [hcode] at hsound
    refine ⟨modifiers (updateKeys s.keys code down).1 code m, ?_, ?_, fun _ => modifiers_and⟩
    · show s.posted ++ _ = r.posted ++ _
      rw [h.keys]
      cases down <;> simp [updateKeys, r]
    · rw [hsound.keys]
      simp only [List.mem_toFinset]
      exact has_modifiers _ code m

end MacInput

end NebulaDesk
