/-
The events a mapper sends (`nebula-client/src/shortcuts.rs`).

Whatever is called, the events are presses and releases of keys of the keyboard
page, with nothing else in them (`call_proper`), so that the wire format carries
them as they are.
-/
import NebulaDesk.Client.KeyRuns

namespace NebulaDesk

open Presses

/-- A press or a release of a key of the keyboard page. -/
def KeyEvent (e : InputEvent) : Prop :=
  ∃ kind key mods, (kind = InputKind.keyDown ∨ kind = .keyUp) ∧ key ≤ 0xe7 ∧ e = .ofKey kind key mods

theorem keyEvent_down {key : ℕ} (hkey : key ≤ 0xe7) (mods : Modifiers) :
    KeyEvent (.ofKey .keyDown key mods) := ⟨_, key, mods, .inl rfl, hkey, rfl⟩

theorem keyEvent_up {key : ℕ} (hkey : key ≤ 0xe7) (mods : Modifiers) :
    KeyEvent (.ofKey .keyUp key mods) := ⟨_, key, mods, .inr rfl, hkey, rfl⟩

namespace Mapper

variable {m : Mapper} {r : Mapper × List InputEvent} {event : InputEvent}

/-- The keys held are keys of the page, and so are those of the events. -/
structure Proper (r : Mapper × List InputEvent) : Prop where
  held : ∀ key ∈ r.1.held, key ≤ 0xe7
  events : ∀ e ∈ r.2, KeyEvent e

theorem Proper.silent (h : ∀ key ∈ m.held, key ≤ 0xe7) : Proper (m, []) :=
  ⟨h, fun _ he => absurd he List.not_mem_nil⟩

theorem Proper.send (h : Proper r) {m' : Mapper} (hheld : ∀ key ∈ m'.held, key ≤ 0xe7)
    {e : InputEvent} (he : KeyEvent e) : Proper (m', r.2 ++ [e]) where
  held := hheld
  events := by
    intro e' he'
    obtain he' | he' := List.mem_append.mp he'
    · exact h.events e' he'
    · obtain rfl := List.mem_singleton.mp he'
      exact he

theorem Proper.append (h : Proper r) {s : Mapper × List InputEvent} (hs : Proper s) :
    Proper (s.1, r.2 ++ s.2) where
  held := hs.held
  events := by
    intro e he
    obtain he | he := List.mem_append.mp he
    · exact h.events e he
    · exact hs.events e he

theorem Proper.foldl {α : Type} {l : List α} {f : Mapper × List InputEvent → α → Mapper × List InputEvent}
    (hf : ∀ r, ∀ a ∈ l, Proper r → Proper (f r a)) (h : Proper r) : Proper (l.foldl f r) :=
  List.foldlRecOn l f h fun r hr a ha => hf r a ha hr

theorem modifierKeys_onPage {p : Modifiers × ℕ} (hp : p ∈ modifierKeys) : p.2 ≤ 0xe7 := by
  simp only [modifierKeys, List.mem_cons, List.not_mem_nil, or_false] at hp
  obtain rfl | rfl | rfl | rfl := hp <;> decide

theorem reconcile_proper (h : ∀ key ∈ m.held, key ≤ 0xe7) (desired : Modifiers) :
    Proper (m.reconcile desired) := by
  unfold reconcile
  refine Proper.foldl ?_ (Proper.foldl ?_ (.silent h))
  · intro r p hp hr
    dsimp only
    split
    · refine hr.send ?_ (keyEvent_down (modifierKeys_onPage hp) _)
      exact hr.held
    · exact hr
  · intro r p hp hr
    dsimp only
    split
    · refine hr.send ?_ (keyEvent_up (modifierKeys_onPage hp) _)
      exact hr.held
    · exact hr

theorem Proper.settle (h : Proper r) : Proper (settle r) := by
  unfold Mapper.settle
  split
  · exact h.append (reconcile_proper h.held _)
  · exact h

theorem Proper.letGo (h : Proper r) {key : ℕ} (hkey : key ≤ 0xe7) : Proper (letGo key r) := by
  have hheld : ∀ k ∈ r.1.held.erase key, k ≤ 0xe7 := fun k hk => h.held k (Finset.mem_of_mem_erase hk)
  unfold Mapper.letGo
  dsimp only
  split
  · exact ⟨hheld, h.events⟩
  · exact h.send hheld (keyEvent_up hkey _)

theorem observeModifiers_proper (h : ∀ key ∈ m.held, key ≤ 0xe7) (snapshot : Modifiers) :
    Proper (m.observeModifiers snapshot) := by
  unfold observeModifiers
  refine Proper.settle (Proper.foldl ?_ (.silent h))
  intro r key hkey hr
  exact hr.letGo (h key (mem_ascending.mp (List.mem_filter.mp hkey).1))

theorem restoreModifiers_proper (h : ∀ key ∈ m.held, key ≤ 0xe7) : Proper m.restoreModifiers := by
  unfold restoreModifiers
  refine Proper.settle (Proper.foldl ?_ (.silent h))
  intro r p hp hr
  have hheld : ∀ k ∈ insert p.2 r.1.held, k ≤ 0xe7 := by
    intro k hk
    obtain rfl | hk := Finset.mem_insert.mp hk
    · exact modifierKeys_onPage hp
    · exact hr.held k hk
  dsimp only
  split
  · split
    · exact ⟨hheld, hr.events⟩
    · exact hr.send hheld (keyEvent_down (modifierKeys_onPage hp) _)
  · exact hr

theorem releaseHeld_keyEvent (h : ∀ key ∈ m.held, key ≤ 0xe7) : ∀ e ∈ m.releaseHeld, KeyEvent e := by
  unfold releaseHeld
  refine List.foldlRecOn (motive := fun r : Modifiers × List InputEvent => ∀ e ∈ r.2, KeyEvent e)
    _ _ (fun _ he => absurd he List.not_mem_nil) ?_
  intro r hr key hkey
  have honPage := h key (mem_ascending.mp (List.mem_reverse.mp hkey))
  split
  · intro e he
    obtain he | he := List.mem_append.mp he
    · exact hr e he
    · obtain rfl := List.mem_singleton.mp he
      exact keyEvent_up honPage _
  · exact hr

theorem releaseAll_proper (h : ∀ key ∈ m.held, key ≤ 0xe7) : Proper m.releaseAll := by
  have hnone : ∀ k ∈ (∅ : Finset ℕ), k ≤ 0xe7 := fun k hk => absurd hk (Finset.notMem_empty k)
  unfold releaseAll
  dsimp only
  split
  · have hr := reconcile_proper (m := { m with held := ∅, inferred := ∅, snapshot := 0, suppressed := 0 })
      hnone 0
    refine ⟨hr.held, ?_⟩
    intro e he
    obtain he | he := List.mem_append.mp he
    · exact releaseHeld_keyEvent h e he
    · exact hr.events e he
  · exact ⟨hnone, releaseHeld_keyEvent h⟩

theorem handOff_proper (ht : m.Tracked) (h : ∀ key ∈ m.held, key ≤ 0xe7) (key : ℕ) :
    Proper (m.handOff key) := by
  unfold handOff
  split
  · split
    · exact .silent h
    · rename_i inferred hinferred
      have hmem := (inferredFor_mem hinferred).1
      split
      · exact (Proper.silent h).letGo (h _ (ht.inferredHeld hmem))
      · exact .silent h
  · exact .silent h

theorem resolve_keyEvent (ht : m.Tracked) (h : ∀ key ∈ m.held, key ≤ 0xe7) (he : KeyEvent event)
    {resolved : InputEvent} (hr : m.resolve event = some resolved) : KeyEvent resolved := by
  unfold resolve at hr
  split at hr
  · split at hr
    · obtain ⟨key, hkey, rfl⟩ := Option.map_eq_some_iff.mp hr
      obtain ⟨kind, k, mods, hkind, -, rfl⟩ := he
      exact ⟨kind, key, mods, hkind, h key (ht.inferredHeld (inferredFor_mem hkey).1), rfl⟩
    · cases hr
  · cases hr
    exact he

theorem stamped_keyEvent (he : KeyEvent event) (mods : Modifiers) (again : Bool) :
    KeyEvent (stamped event mods again) := by
  obtain ⟨kind, key, m, hkind, hkey, rfl⟩ := he
  exact ⟨kind, key, _, hkind, hkey, rfl⟩

theorem record_onPage (h : ∀ key ∈ m.held, key ≤ 0xe7) (he : KeyEvent event) :
    ∀ key ∈ (m.record event).held, key ≤ 0xe7 := by
  intro key hkey
  unfold record at hkey
  split at hkey
  · obtain rfl | hkey := Finset.mem_insert.mp hkey
    · obtain ⟨_, _, _, -, honPage, rfl⟩ := he
      exact honPage
    · exact h key hkey
  · exact h key (Finset.mem_of_mem_erase hkey)

theorem forward_proper (h : ∀ key ∈ m.held, key ≤ 0xe7) (he : KeyEvent event) (again : Bool) :
    Proper (m.forward event again) := by
  have hprepared : Proper (m.prepared event) := by
    unfold prepared
    split
    · exact restoreModifiers_proper h
    · exact .silent h
  have hrecord := record_onPage hprepared.held he
  unfold forward
  dsimp only
  split
  · refine hprepared.send ?_ (stamped_keyEvent he _ _)
    exact hrecord
  · have hr := reconcile_proper hrecord ((m.prepared event).1.record event).desiredMods
    refine ⟨hr.held, ?_⟩
    -- the event goes out before or after the modifiers are reconciled
    have hmaybe : ∀ {c : Prop} [Decidable c] (mods : Modifiers) (again : Bool),
        ∀ e ∈ (if c then [stamped event mods again] else []), KeyEvent e := by
      intro c _ mods again e hmem
      split at hmem
      · obtain rfl := List.mem_singleton.mp hmem
        exact stamped_keyEvent he _ _
      · exact absurd hmem List.not_mem_nil
    intro e hmem
    obtain hmem | hmem := List.mem_append.mp hmem
    · obtain hmem | hmem := List.mem_append.mp hmem
      · obtain hmem | hmem := List.mem_append.mp hmem
        · exact hprepared.events e hmem
        · exact hmaybe _ _ e hmem
      · exact hr.events e hmem
    · exact hmaybe _ _ e hmem

theorem key_proper (ht : m.Tracked) (h : ∀ key ∈ m.held, key ≤ 0xe7) (he : KeyEvent event)
    (again : Bool) : Proper (m.key event again) := by
  have hun : ∀ key ∈ (m.unsuppress event.key).held, key ≤ 0xe7 := by
    unfold unsuppress
    split
    · exact h
    · exact h
  have htun := ht.unsuppress event.key
  have hoff := handOff_proper htun hun event.key
  obtain ⟨heq, -⟩ | ⟨-, -, -, heq⟩ | ⟨-, hrest⟩ := key_cases event again m
  · rw [heq]
    exact .silent h
  · rw [heq]
    exact ⟨(releaseAll_proper h).held, (releaseAll_proper h).events⟩
  · obtain ⟨heq, -⟩ | ⟨-, -, heq⟩ | ⟨-, heq⟩ | ⟨-, resolved, hresolve, heq⟩ := hrest
    · rw [heq]
      exact .silent hun
    · rw [heq]
      exact hoff
    · rw [heq]
      exact hoff.append (forward_proper hoff.held he again)
    · rw [heq]
      exact forward_proper hun (resolve_keyEvent htun hun he hresolve) again

end Mapper

/-- The event of a call, if it has one, is about a key of the page. -/
def MapperCall.Proper : MapperCall → Prop
  | .key event _ | .synthetic event => KeyEvent event
  | _ => True

/-- **A mapper sends key events and nothing else.** -/
theorem Mapper.call_proper {m : Mapper} {c : MapperCall} (ht : m.Tracked)
    (h : ∀ key ∈ m.held, key ≤ 0xe7) (hc : c.Proper) : Proper (m.call c) := by
  cases c with
  | key event again => exact key_proper ht h hc again
  | synthetic event =>
    unfold call syntheticKey
    dsimp only
    split
    · exact key_proper ht h hc false
    · exact .silent h
  | observe snapshot => exact observeModifiers_proper h snapshot
  | restore => exact restoreModifiers_proper h
  | reconcile desired =>
    unfold call
    dsimp only
    split
    · exact reconcile_proper h desired
    · exact .silent h
  | releaseAll => exact releaseAll_proper h

end NebulaDesk
