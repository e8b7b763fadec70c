/-
What is held at the host (`nebula-client/src/shortcuts.rs`).

The keys that the events of a mapper leave down at the host can be read off the
mapper: in physical mode they are the keys it holds, in semantic mode the plain
ones among them and the left key of every modifier it has recorded.  Every
operation sends exactly the events that lead from the one set to the next.
-/
import NebulaDesk.Client.Shortcuts

namespace NebulaDesk

open Presses

def InputEvent.press (e : InputEvent) : Option (Press ℕ) :=
  match e.kind with
  | .keyDown => some (.down e.key)
  | .keyUp => some (.up e.key)
  | _ => none

def presses (events : List InputEvent) : List (Press ℕ) := events.filterMap (·.press)

@[simp] theorem presses_append (xs ys : List InputEvent) :
    presses (xs ++ ys) = presses xs ++ presses ys := List.filterMap_append

@[simp] theorem presses_ofKey_down (key : ℕ) (mods : Modifiers) :
    presses [.ofKey .keyDown key mods] = [.down key] := rfl

@[simp] theorem presses_ofKey_up (key : ℕ) (mods : Modifiers) :
    presses [.ofKey .keyUp key mods] = [.up key] := rfl

/-! ### Bits -/

theorem and_twoPow_ne_zero (m : Modifiers) {i : ℕ} (hi : i < 16) :
    m &&& BitVec.twoPow 16 i ≠ 0 ↔ m.getLsbD i = true := by
  rw [BitVec.and_twoPow]
  cases hbit : m.getLsbD i
  · simp
  · rw [if_pos rfl]
    refine ⟨fun _ => rfl, fun _ hzero => ?_⟩
    have hone : (BitVec.twoPow 16 i).getLsbD i = true := by simp [hi]
    rw [hzero] at hone
    simp at hone

theorem without_twoPow (m : Modifiers) {i j : ℕ} (hi : i < 16) (hj : j < 16) :
    m &&& ~~~BitVec.twoPow 16 i &&& BitVec.twoPow 16 j ≠ 0 ↔
      j ≠ i ∧ m &&& BitVec.twoPow 16 j ≠ 0 := by
  rw [and_twoPow_ne_zero _ hj, and_twoPow_ne_zero _ hj, BitVec.getLsbD_and, BitVec.getLsbD_not,
    BitVec.getLsbD_twoPow]
  simp only [hi, hj, decide_true, Bool.true_and, Bool.and_eq_true, Bool.not_eq_true',
    decide_eq_false_iff_not]
  rw [and_comm, ne_comm]

theorem with_twoPow (m : Modifiers) {i j : ℕ} (hi : i < 16) (hj : j < 16) :
    (m ||| BitVec.twoPow 16 i) &&& BitVec.twoPow 16 j ≠ 0 ↔
      j = i ∨ m &&& BitVec.twoPow 16 j ≠ 0 := by
  rw [and_twoPow_ne_zero _ hj, and_twoPow_ne_zero _ hj, BitVec.getLsbD_or, BitVec.getLsbD_twoPow]
  simp only [hi, decide_true, Bool.true_and, Bool.or_eq_true, decide_eq_true_eq]
  rw [or_comm, eq_comm]

theorem mem_modifierKeys {p : Modifiers × ℕ} (h : p ∈ modifierKeys) :
    ∃ i < 4, p.1 = BitVec.twoPow 16 i ∧ modifier p.2 = p.1 ∧
      p.2 ∈ ({0xe0, 0xe1, 0xe2, 0xe3} : Finset ℕ) := by
  simp only [modifierKeys, List.mem_cons, List.not_mem_nil, or_false] at h
  obtain rfl | rfl | rfl | rfl := h
  · exact ⟨1, by omega, rfl, rfl, by decide⟩
  · exact ⟨0, by omega, rfl, rfl, by decide⟩
  · exact ⟨2, by omega, rfl, rfl, by decide⟩
  · exact ⟨3, by omega, rfl, rfl, by decide⟩

theorem modifier_cases (key : ℕ) :
    modifier key = 0 ∨ ∃ i < 4, modifier key = BitVec.twoPow 16 i := by
  unfold modifier
  split
  · exact .inr ⟨1, by omega, rfl⟩
  · exact .inr ⟨1, by omega, rfl⟩
  · exact .inr ⟨0, by omega, rfl⟩
  · exact .inr ⟨0, by omega, rfl⟩
  · exact .inr ⟨2, by omega, rfl⟩
  · exact .inr ⟨2, by omega, rfl⟩
  · exact .inr ⟨3, by omega, rfl⟩
  · exact .inr ⟨3, by omega, rfl⟩
  · exact .inl rfl

namespace Mapper

variable {m m' : Mapper}

theorem getLsbD_foldl_or (keys : List ℕ) (bits : Modifiers) (i : ℕ) :
    (keys.foldl (fun bits key => bits ||| modifier key) bits).getLsbD i = true ↔
      bits.getLsbD i = true ∨ ∃ key ∈ keys, (modifier key).getLsbD i = true := by
  induction keys generalizing bits with
  | nil => simp
  | cons key keys ih =>
    rw [List.foldl_cons, ih, BitVec.getLsbD_or, Bool.or_eq_true_iff, or_assoc]
    simp

theorem getLsbD_modifiersOf (keys : Finset ℕ) (i : ℕ) :
    (modifiersOf keys).getLsbD i = true ↔ ∃ key ∈ keys, (modifier key).getLsbD i = true := by
  unfold modifiersOf
  rw [getLsbD_foldl_or]
  simp

def leftKeys (mods : Modifiers) : Finset ℕ :=
  ({0xe0, 0xe1, 0xe2, 0xe3} : Finset ℕ).filter fun key => mods &&& modifier key ≠ 0

/-- The keys that are down at the host. -/
def remote (m : Mapper) : Finset ℕ :=
  if m.semantic then (m.held.filter fun key => modifier key = 0) ∪ leftKeys m.remoteMods
  else m.held

variable {key : ℕ} {mods : Modifiers} {p : Modifiers × ℕ} {r s : Mapper × List InputEvent}
   {event : InputEvent}

theorem mem_leftKeys : key ∈ leftKeys mods ↔
    key ∈ ({0xe0, 0xe1, 0xe2, 0xe3} : Finset ℕ) ∧ mods &&& modifier key ≠ 0 := Finset.mem_filter

theorem modifier_left (hp : p ∈ modifierKeys) (hkey : key ∈ ({0xe0, 0xe1, 0xe2, 0xe3} : Finset ℕ)) :
    ∃ i j, i < 4 ∧ j < 4 ∧ p.1 = BitVec.twoPow 16 i ∧ modifier key = BitVec.twoPow 16 j ∧
      (key = p.2 ↔ j = i) := by
  simp only [modifierKeys, List.mem_cons, List.not_mem_nil, or_false] at hp
  simp only [Finset.mem_insert, Finset.mem_singleton] at hkey
  have hindex : ∃ j, j < 4 ∧ modifier key = BitVec.twoPow 16 j ∧
      ((key = 0xe0 ∧ j = 1) ∨ (key = 0xe1 ∧ j = 0) ∨ (key = 0xe2 ∧ j = 2) ∨ (key = 0xe3 ∧ j = 3)) := by
    obtain rfl | rfl | rfl | rfl := hkey
    · exact ⟨1, by omega, rfl, by omega⟩
    · exact ⟨0, by omega, rfl, by omega⟩
    · exact ⟨2, by omega, rfl, by omega⟩
    · exact ⟨3, by omega, rfl, by omega⟩
  obtain ⟨j, hj, hmod, hpair⟩ := hindex
  obtain rfl | rfl | rfl | rfl := hp
  · exact ⟨1, j, by omega, hj, rfl, hmod, by dsimp only; omega⟩
  · exact ⟨0, j, by omega, hj, rfl, hmod, by dsimp only; omega⟩
  · exact ⟨2, j, by omega, hj, rfl, hmod, by dsimp only; omega⟩
  · exact ⟨3, j, by omega, hj, rfl, hmod, by dsimp only; omega⟩

theorem leftKeys_without (hp : p ∈ modifierKeys) (mods : Modifiers) :
    leftKeys (mods &&& ~~~p.1) = (leftKeys mods).erase p.2 := by
  ext key
  rw [Finset.mem_erase, mem_leftKeys, mem_leftKeys]
  by_cases hkey : key ∈ ({0xe0, 0xe1, 0xe2, 0xe3} : Finset ℕ)
  · obtain ⟨i, j, hi, hj, hbit, hmod, hiff⟩ := modifier_left hp hkey
    rw [hbit, hmod, without_twoPow mods (by omega) (by omega), ne_eq key, hiff]
    tauto
  · tauto

theorem leftKeys_with (hp : p ∈ modifierKeys) (mods : Modifiers) :
    leftKeys (mods ||| p.1) = insert p.2 (leftKeys mods) := by
  ext key
  rw [Finset.mem_insert, mem_leftKeys, mem_leftKeys]
  by_cases hkey : key ∈ ({0xe0, 0xe1, 0xe2, 0xe3} : Finset ℕ)
  · obtain ⟨i, j, hi, hj, hbit, hmod, hiff⟩ := modifier_left hp hkey
    rw [hbit, hmod, with_twoPow mods (by omega) (by omega), hiff]
    tauto
  · have hne : key ≠ p.2 := by
      rintro rfl
      obtain ⟨i, -, -, -, hleft⟩ := mem_modifierKeys hp
      exact hkey hleft
    tauto

/-! ### Events that lead from one set to the next -/

/-- The events that the second state has sent in addition lead there. -/
def Sends (r s : Mapper × List InputEvent) : Prop :=
  ∃ out, s.2 = r.2 ++ out ∧ plays r.1.remote (presses out) = some s.1.remote

theorem Sends.refl (r : Mapper × List InputEvent) : Sends r r := ⟨[], by simp, rfl⟩

theorem Sends.trans {r s t : Mapper × List InputEvent} (h : Sends r s) (h' : Sends s t) :
    Sends r t := by
  obtain ⟨out, hs, hplay⟩ := h
  obtain ⟨out', ht, hplay'⟩ := h'
  refine ⟨out ++ out', ?_, ?_⟩
  · rw [ht, hs, List.append_assoc]
  · rw [presses_append]
    exact plays_append hplay hplay'

theorem Sends.silent (hout : s.2 = r.2)
    (hremote : s.1.remote = r.1.remote) : Sends r s := ⟨[], by simp [hout], by rw [hremote]; rfl⟩

theorem Sends.append (h : Sends (r.1, []) s) : Sends r (s.1, r.2 ++ s.2) := by
  obtain ⟨out, hs, hplay⟩ := h
  exact ⟨out, by rw [hs]; rfl, hplay⟩

theorem remote_of_semantic (h : m.semantic = true) :
    m.remote = (m.held.filter fun key => modifier key = 0) ∪ leftKeys m.remoteMods := by
  rw [remote, if_pos h]

theorem remote_of_physical (h : m.semantic = false) : m.remote = m.held := by
  rw [remote, if_neg (by rw [h]; exact Bool.false_ne_true)]

theorem plays_release (hp : p ∈ modifierKeys) (hheld : mods &&& p.1 ≠ 0) {plain : Finset ℕ}
    (hplain : ∀ key ∈ plain, modifier key = 0) (bits : Modifiers) :
    plays (plain ∪ leftKeys mods) (presses [.ofKey .keyUp p.2 bits]) =
      some (plain ∪ leftKeys (mods &&& ~~~p.1)) := by
  obtain ⟨i, -, -, hmod, hleft⟩ := mem_modifierKeys hp
  rw [← hmod] at hheld
  have hmem : p.2 ∈ leftKeys mods := mem_leftKeys.mpr ⟨hleft, hheld⟩
  have hnot : p.2 ∉ plain := by
    intro hin
    rw [hplain p.2 hin] at hheld
    simp at hheld
  rw [presses_ofKey_up, plays_up (Finset.mem_union_right _ hmem), leftKeys_without hp,
    Finset.erase_union_distrib, Finset.erase_eq_of_notMem hnot]

theorem plays_press (hp : p ∈ modifierKeys) (mods : Modifiers)
    (plain : Finset ℕ) (bits : Modifiers) :
    plays (plain ∪ leftKeys mods) (presses [.ofKey .keyDown p.2 bits]) =
      some (plain ∪ leftKeys (mods ||| p.1)) := by
  rw [presses_ofKey_down, plays_down, leftKeys_with hp, Finset.union_insert]

/-- Only the four modifiers are recorded. -/
def Masked (mods : Modifiers) : Prop := ∀ i, mods.getLsbD i = true → i < 4

/-- What `reconcile` may do to a mapper: it sends releases and presses of left keys,
whatever plain keys are down. -/
def Reconciles (r s : Mapper × List InputEvent) : Prop :=
  ∃ mods out, s = ({ r.1 with remoteMods := mods }, r.2 ++ out) ∧
    (Masked r.1.remoteMods → Masked mods) ∧
    ∀ plain : Finset ℕ, (∀ key ∈ plain, modifier key = 0) →
      plays (plain ∪ leftKeys r.1.remoteMods) (presses out) = some (plain ∪ leftKeys mods)

theorem Reconciles.refl (r : Mapper × List InputEvent) : Reconciles r r :=
  ⟨r.1.remoteMods, [], by simp, id, fun _ _ => rfl⟩

theorem Reconciles.trans {r s t : Mapper × List InputEvent} (h : Reconciles r s)
    (h' : Reconciles s t) : Reconciles r t := by
  obtain ⟨mods, out, rfl, hmask, hplay⟩ := h
  obtain ⟨mods', out', rfl, hmask', hplay'⟩ := h'
  refine ⟨mods', out ++ out', ?_, fun h => hmask' (hmask h), ?_⟩
  · rw [List.append_assoc]
  · intro plain hplain
    rw [presses_append]
    exact plays_append (hplay plain hplain) (hplay' plain hplain)

theorem foldl_of_steps {α β : Type*} {R : β → β → Prop} (hrefl : ∀ r, R r r)
    (htrans : ∀ r s t, R r s → R s t → R r t) {f : β → α → β} {l : List α}
    (hstep : ∀ r, ∀ a ∈ l, R r (f r a)) (r : β) : R r (l.foldl f r) := by
  induction l generalizing r with
  | nil => exact hrefl r
  | cons a l ih =>
    have hfirst := hstep r a List.mem_cons_self
    exact htrans _ _ _ hfirst (ih (fun r b hb => hstep r b (List.mem_cons_of_mem _ hb)) (f r a))

theorem masked_without {mods bits : Modifiers} (h : Masked mods) : Masked (mods &&& bits) := by
  intro i hi
  rw [BitVec.getLsbD_and, Bool.and_eq_true_iff] at hi
  exact h i hi.1

theorem masked_twoPow {i : ℕ} (hi : i < 4) : Masked (BitVec.twoPow 16 i) := by
  intro j hj
  rw [BitVec.getLsbD_twoPow, Bool.and_eq_true_iff] at hj
  have heq := of_decide_eq_true hj.2
  omega

theorem masked_or {mods bits : Modifiers} (h : Masked mods) (h' : Masked bits) :
    Masked (mods ||| bits) := by
  intro i hi
  rw [BitVec.getLsbD_or, Bool.or_eq_true_iff] at hi
  exact hi.elim (h i) (h' i)

theorem reconcile_reconciles (desired : Modifiers) (m : Mapper) :
    Reconciles (m, []) (m.reconcile desired) := by
  unfold reconcile
  refine Reconciles.trans (foldl_of_steps .refl (fun _ _ _ => .trans) ?_ _)
    (foldl_of_steps .refl (fun _ _ _ => .trans) ?_ _)
  · intro r p hp
    dsimp only
    split
    · rename_i hheld
      exact ⟨_, _, rfl, masked_without, fun plain hplain => plays_release hp hheld.1 hplain _⟩
    · exact .refl r
  · intro r p hp
    dsimp only
    split
    · obtain ⟨i, hi, hbit, -⟩ := mem_modifierKeys hp
      refine ⟨_, _, rfl, fun h => masked_or h ?_, fun plain _ => plays_press hp _ plain _⟩
      rw [hbit]
      exact masked_twoPow hi
    · exact .refl r

/-- In semantic mode the events of `reconcile` lead to the modifiers it records. -/
theorem Reconciles.sends (h : Reconciles r s) (hsem : r.1.semantic = true) : Sends r s := by
  obtain ⟨mods, out, rfl, -, hplay⟩ := h
  refine ⟨out, rfl, ?_⟩
  rw [remote_of_semantic hsem, remote_of_semantic (m := { r.1 with remoteMods := mods }) hsem]
  exact hplay _ fun key hkey => (Finset.mem_filter.mp hkey).2

theorem settle_sends (r : Mapper × List InputEvent) :
    Sends r (settle r) ∧ ∃ mods, (settle r).1 = { r.1 with remoteMods := mods } ∧
      (Masked r.1.remoteMods → Masked mods) ∧
      (r.1.semantic = false → mods = r.1.remoteMods) := by
  unfold settle
  split
  · rename_i hsem
    have hreconciles := reconcile_reconciles r.1.desiredMods r.1
    have hsends := (hreconciles.sends hsem).append
    obtain ⟨mods, out, heq, hmask, -⟩ := hreconciles
    refine ⟨hsends, mods, by rw [heq], hmask, ?_⟩
    intro hphysical
    rw [hsem] at hphysical
    cases hphysical
  · exact ⟨.refl r, _, rfl, id, fun _ => rfl⟩

/-! ### Each operation -/

/-- What the mapper's records have to do with each other. -/
structure Tracked (m : Mapper) : Prop where
  inferredHeld : m.inferred ⊆ m.held
  inferredMods : ∀ key ∈ m.inferred, modifier key ≠ 0
  masked : Masked m.remoteMods
  physical : m.semantic = false → m.remoteMods = modifiersOf m.held

theorem tracked_new (client host : KeyboardPlatform) (mode : ShortcutMode)
    (profile : ShortcutProfile) : (new client host mode profile).Tracked where
  inferredHeld := Finset.Subset.refl _
  inferredMods := nofun
  masked := by
    intro i hi
    have hzero : (0 : Modifiers).getLsbD i = true := hi
    simp at hzero
  physical := fun _ => rfl

theorem desiredMods_of_physical (h : m.semantic = false) : m.desiredMods = modifiersOf m.held := by
  unfold desiredMods
  simp [h]

theorem masked_modifiersOf (keys : Finset ℕ) : Masked (modifiersOf keys) := by
  intro i hi
  obtain ⟨key, -, hkey⟩ := (getLsbD_modifiersOf keys i).mp hi
  obtain hzero | ⟨j, hj, hbit⟩ := modifier_cases key
  · rw [hzero] at hkey
    simp at hkey
  · rw [hbit] at hkey
    exact masked_twoPow hj i hkey

theorem Tracked.of_recorded (hinferred : m.inferred ⊆ m.held)
    (hmods : ∀ key ∈ m.inferred, modifier key ≠ 0) (hmasked : Masked mods)
    (hphysical : m.semantic = false → mods = modifiersOf m.held) :
    ({ m with remoteMods := mods } : Mapper).Tracked := ⟨hinferred, hmods, hmasked, hphysical⟩

theorem Tracked.of_settled (h : r.1.Tracked)
    (hs : s.1 = { r.1 with remoteMods := mods }) (hmask : Masked r.1.remoteMods → Masked mods)
    (hphysical : r.1.semantic = false → mods = r.1.remoteMods) : s.1.Tracked := by
  rw [hs]
  refine .of_recorded h.inferredHeld h.inferredMods (hmask h.masked) ?_
  intro hsem
  rw [hphysical hsem]
  exact h.physical hsem

theorem filter_erase_modifier (hkey : modifier key ≠ 0) (held : Finset ℕ) :
    ((held.erase key).filter fun k => modifier k = 0) = held.filter fun k => modifier k = 0 := by
  rw [Finset.filter_erase, Finset.erase_eq_of_notMem]
  intro hmem
  exact hkey (Finset.mem_filter.mp hmem).2

theorem filter_insert_modifier (hkey : modifier key ≠ 0) (held : Finset ℕ) :
    ((insert key held).filter fun k => modifier k = 0) = held.filter fun k => modifier k = 0 := by
  rw [Finset.filter_insert, if_neg hkey]

/-- A modifier key is held or dropped: in physical mode the host is told. -/
theorem modifier_sends (h : r.1.Tracked) {held inferred : Finset ℕ}
    (hinferred : inferred ⊆ held) (hmods : ∀ key ∈ inferred, modifier key ≠ 0)
    (hplain : (held.filter fun k => modifier k = 0) = r.1.held.filter fun k => modifier k = 0)
    {f : Modifiers → InputEvent} (hplays : ∀ bits, plays r.1.held (presses [f bits]) = some held)
    (hs : s = (let m := { r.1 with held := held, inferred := inferred }
      if m.semantic then (m, r.2)
      else ({ m with remoteMods := m.desiredMods }, r.2 ++ [f m.desiredMods]))) :
    Sends r s ∧ s.1.Tracked ∧
      ∃ mods, s.1 = { r.1 with held := held, inferred := inferred, remoteMods := mods } := by
  subst hs
  dsimp only
  split
  · rename_i hsem
    have hsem' : r.1.semantic = true := hsem
    refine ⟨.silent rfl ?_, ⟨hinferred, hmods, h.masked, ?_⟩, r.1.remoteMods, rfl⟩
    · rw [remote_of_semantic hsem,
        remote_of_semantic hsem', hplain]
    · intro hphysical
      have hphysical' : r.1.semantic = false := hphysical
      rw [hsem'] at hphysical'
      cases hphysical'
  · rename_i hsem
    have hphysical : r.1.semantic = false := by
      rw [Bool.not_eq_true] at hsem
      exact hsem
    have hdesired := desiredMods_of_physical
      (m := { r.1 with held := held, inferred := inferred }) hphysical
    refine ⟨⟨_, rfl, ?_⟩, .of_recorded
      hinferred hmods ?_ fun _ => hdesired, _, rfl⟩
    · rw [remote_of_physical hphysical, hplays]
      refine congrArg some (Eq.symm ?_)
      exact remote_of_physical hphysical
    · rw [hdesired]
      exact masked_modifiersOf _

variable {r : Mapper × List InputEvent}

theorem letGo_sends (h : r.1.Tracked) (hkey : key ∈ r.1.held) (hmod : modifier key ≠ 0) :
    Sends r (letGo key r) ∧ (letGo key r).1.Tracked ∧
    ∃ mods, (letGo key r).1 = { r.1 with
      held := r.1.held.erase key
      inferred := r.1.inferred.erase key
      remoteMods := mods } := by
  refine modifier_sends h ?_ ?_ (filter_erase_modifier hmod _) ?_ rfl
  · exact Finset.erase_subset_erase key h.inferredHeld
  · exact fun k hk => h.inferredMods k (Finset.mem_of_mem_erase hk)
  · exact fun bits => by rw [presses_ofKey_up, plays_up hkey]

theorem foldl_letGo {keys : List ℕ} (hnodup : keys.Nodup) (hmods : ∀ key ∈ keys, modifier key ≠ 0)
    (h : r.1.Tracked) (hheld : ∀ key ∈ keys, key ∈ r.1.held) :
    Sends r (keys.foldl (fun r key => letGo key r) r) ∧
    (keys.foldl (fun r key => letGo key r) r).1.Tracked ∧
    ∃ mods, (keys.foldl (fun r key => letGo key r) r).1 = { r.1 with
      held := r.1.held \ keys.toFinset
      inferred := r.1.inferred \ keys.toFinset
      remoteMods := mods } := by
  induction keys generalizing r with
  | nil => exact ⟨.refl r, h, r.1.remoteMods, by simp⟩
  | cons key keys ih =>
    obtain ⟨hnew, hnodup⟩ := List.nodup_cons.mp hnodup
    obtain ⟨hsends, htracked, mods, heq⟩ :=
      letGo_sends h (hheld key List.mem_cons_self) (hmods key List.mem_cons_self)
    have hrest : ∀ k ∈ keys, k ∈ (letGo key r).1.held := by
      intro k hk
      rw [heq]
      refine Finset.mem_erase.mpr ⟨?_, hheld k (List.mem_cons_of_mem _ hk)⟩
      rintro rfl
      exact hnew hk
    obtain ⟨hsends', htracked', mods', heq'⟩ :=
      ih hnodup (fun k hk => hmods k (List.mem_cons_of_mem _ hk)) htracked hrest
    rw [List.foldl_cons]
    refine ⟨hsends.trans hsends', htracked', mods', ?_⟩
    rw [heq', heq, List.toFinset_cons, Finset.sdiff_insert, Finset.sdiff_insert,
      Finset.erase_sdiff_comm, Finset.erase_sdiff_comm]

/-- The held keys that a snapshot shows to be up. -/
def outdated (snapshot : Modifiers) (held : Finset ℕ) : Finset ℕ :=
  held.filter fun key => modifier key ≠ 0 ∧ snapshot &&& modifier key = 0

theorem observeModifiers_sends (h : m.Tracked) (snapshot : Modifiers) :
    Sends (m, []) (m.observeModifiers snapshot) ∧ (m.observeModifiers snapshot).1.Tracked ∧
    ∃ mods, (m.observeModifiers snapshot).1 = { m with
      suppressed := m.suppressed &&& snapshot
      snapshot := snapshot &&& modifierMask &&& ~~~(m.suppressed &&& snapshot)
      held := m.held \
        outdated (snapshot &&& modifierMask &&& ~~~(m.suppressed &&& snapshot)) m.held
      inferred := m.inferred \
        outdated (snapshot &&& modifierMask &&& ~~~(m.suppressed &&& snapshot)) m.held
      remoteMods := mods } := by
  unfold observeModifiers
  dsimp only
  set seen : Modifiers := snapshot &&& modifierMask &&& ~~~(m.suppressed &&& snapshot)
  set start : Mapper := { m with suppressed := m.suppressed &&& snapshot, snapshot := seen }
  set released := (ascending m.held).filter fun key =>
    decide (modifier key ≠ 0) && decide (seen &&& modifier key = 0) with hreleased
  have hmem : ∀ key ∈ released, key ∈ m.held ∧ modifier key ≠ 0 ∧ seen &&& modifier key = 0 := by
    intro key hkey
    rw [hreleased, List.mem_filter, mem_ascending] at hkey
    simpa using hkey
  have hset : released.toFinset = outdated seen m.held := by
    ext key
    rw [hreleased, List.mem_toFinset, List.mem_filter, mem_ascending, outdated, Finset.mem_filter]
    simp
  have hstart : start.Tracked := { h with }
  obtain ⟨hsends, htracked, mods, heq⟩ := foldl_letGo ((nodup_ascending m.held).filter _)
    (fun key hkey => (hmem key hkey).2.1) (r := (start, [])) hstart
    (fun key hkey => (hmem key hkey).1)
  obtain ⟨hsettle, mods', heq', hmask, hphysical⟩ := settle_sends
    (released.foldl (fun r key => letGo key r) (start, []))
  have hbegin : Sends (m, []) (start, []) := .silent rfl rfl
  refine ⟨hbegin.trans (hsends.trans hsettle), htracked.of_settled heq' hmask hphysical, mods', ?_⟩
  rw [heq', heq, hset]

/-- What `restoreModifiers` may do to a mapper. -/
structure Restored (m m' : Mapper) : Prop where
  semantic : m'.semantic = m.semantic
  snapshot : m'.snapshot = m.snapshot
  suppressed : m'.suppressed = m.suppressed
  held : m.held ⊆ m'.held
  added : ∀ key ∈ m'.held, key ∈ m.held ∨
    (m.snapshot &&& modifier key ≠ 0 ∧ modifier key ≠ 0 ∧ ∀ k ∈ m.held, modifier k ≠ modifier key)
  inferred : ∀ key ∈ m'.inferred, key ∈ m.inferred ∨
    (m.snapshot &&& modifier key ≠ 0 ∧ (∀ k ∈ m.held, modifier k ≠ modifier key) ∧
      key ∈ ({0xe0, 0xe1, 0xe2, 0xe3} : Finset ℕ))

theorem Restored.refl (m : Mapper) : Restored m m :=
  ⟨rfl, rfl, rfl, Finset.Subset.refl _, fun _ h => .inl h, fun _ h => .inl h⟩

theorem Restored.trans {n : Mapper} (h : Restored m m') (h' : Restored m' n) : Restored m n where
  semantic := h'.semantic.trans h.semantic
  snapshot := h'.snapshot.trans h.snapshot
  suppressed := h'.suppressed.trans h.suppressed
  held := h.held.trans h'.held
  added := by
    intro key hkey
    obtain hkey | ⟨hsnap, hmod, hnone⟩ := h'.added key hkey
    · exact h.added key hkey
    · exact .inr ⟨h.snapshot ▸ hsnap, hmod, fun k hk => hnone k (h.held hk)⟩
  inferred := by
    intro key hkey
    obtain hkey | ⟨hsnap, hnone, hleft⟩ := h'.inferred key hkey
    · exact h.inferred key hkey
    · exact .inr ⟨h.snapshot ▸ hsnap, fun k hk => hnone k (h.held hk), hleft⟩

theorem restore_step (hp : p ∈ modifierKeys) (h : r.1.Tracked) (hsnap : r.1.snapshot &&& p.1 ≠ 0)
    (hnone : ¬ ∃ key ∈ r.1.held, modifier key = p.1) {s : Mapper × List InputEvent}
    (hs : s = (let m := { r.1 with
        held := insert p.2 r.1.held, inferred := insert p.2 r.1.inferred }
      if m.semantic then (m, r.2)
      else ({ m with remoteMods := m.desiredMods }, r.2 ++ [.ofKey .keyDown p.2 m.desiredMods]))) :
    Sends r s ∧ s.1.Tracked ∧ Restored r.1 s.1 := by
  obtain ⟨i, hi, hbit, hmod, hleft⟩ := mem_modifierKeys hp
  have hne : modifier p.2 ≠ 0 := by
    intro hzero
    rw [← hmod, hzero] at hsnap
    simp at hsnap
  have hnone : ∀ k ∈ r.1.held, modifier k ≠ modifier p.2 := by
    intro k hk heq
    exact hnone ⟨k, hk, heq.trans hmod⟩
  rw [← hmod] at hsnap
  obtain ⟨hsends, htracked, mods, heq⟩ := modifier_sends h
    (Finset.insert_subset_insert p.2 h.inferredHeld)
    ((Finset.forall_mem_insert _ _ _).mpr ⟨hne, h.inferredMods⟩) (filter_insert_modifier hne _)
    (fun bits => by rw [presses_ofKey_down, plays_down]) hs
  refine ⟨hsends, htracked, ?_⟩
  rw [heq]
  refine ⟨rfl, rfl, rfl, Finset.subset_insert _ _, ?_, ?_⟩
  · intro k hk
    obtain rfl | hk := Finset.mem_insert.mp hk
    · exact .inr ⟨hsnap, hne, hnone⟩
    · exact .inl hk
  · intro k hk
    obtain rfl | hk := Finset.mem_insert.mp hk
    · exact .inr ⟨hsnap, hnone, hleft⟩
    · exact .inl hk

theorem restoreModifiers_sends (h : m.Tracked) : Sends (m, []) m.restoreModifiers ∧
    m.restoreModifiers.1.Tracked ∧ Restored m m.restoreModifiers.1 := by
  unfold restoreModifiers
  set f := fun (r : Mapper × List InputEvent) (p : Modifiers × ℕ) =>
      if r.1.snapshot &&& p.1 ≠ 0 ∧ ¬ ∃ key ∈ r.1.held, modifier key = p.1 then
        let m := { r.1 with held := insert p.2 r.1.held, inferred := insert p.2 r.1.inferred }
        if m.semantic then (m, r.2)
        else ({ m with remoteMods := m.desiredMods }, r.2 ++ [.ofKey .keyDown p.2 m.desiredMods])
      else r with hf
  have hfold : ∀ r, r.1.Tracked → Sends r (modifierKeys.foldl f r) ∧
      (modifierKeys.foldl f r).1.Tracked ∧ Restored r.1 (modifierKeys.foldl f r).1 := by
    refine foldl_of_steps (R := fun r s => r.1.Tracked →
      Sends r s ∧ s.1.Tracked ∧ Restored r.1 s.1) (fun r hr => ⟨.refl r, hr, .refl r.1⟩) ?_ ?_
    · intro r s t hrs hst hr
      obtain ⟨hsends, htracked, hrestored⟩ := hrs hr
      obtain ⟨hsends', htracked', hrestored'⟩ := hst htracked
      exact ⟨hsends.trans hsends', htracked', hrestored.trans hrestored'⟩
    · intro r p hp hr
      rw [hf]
      dsimp only
      split
      · rename_i hmissing
        exact restore_step hp hr hmissing.1 hmissing.2 rfl
      · exact ⟨.refl r, hr, .refl r.1⟩
  obtain ⟨hsends, htracked, hrestored⟩ := hfold (m, []) h
  obtain ⟨hsettle, mods, heq, hmask, hphysical⟩ := settle_sends (modifierKeys.foldl f (m, []))
  refine ⟨hsends.trans hsettle, htracked.of_settled heq hmask hphysical, hrestored.trans ?_⟩
  rw [heq]
  exact ⟨rfl, rfl, rfl, Finset.Subset.refl _, fun _ h => .inl h, fun _ h => .inl h⟩

/-! ### Releasing everything -/

/-- The keys that `releaseAll` releases itself: the others are modifiers that the
host knows by their left keys. -/
def released (m : Mapper) : List ℕ :=
  (ascending m.held).reverse.filter fun key => !m.semantic || modifier key = 0

theorem presses_releaseHeld (m : Mapper) : presses m.releaseHeld = m.released.map .up := by
  have hfold : ∀ (keys : List ℕ) (r : Modifiers × List InputEvent),
      presses (keys.foldl (fun (r : Modifiers × List InputEvent) key =>
        if !m.semantic || modifier key = 0 then
          let mods := if m.semantic then r.1 else r.1 &&& ~~~modifier key
          (mods, r.2 ++ [.ofKey .keyUp key mods])
        else r) r).2 =
      presses r.2 ++ (keys.filter fun key => !m.semantic || modifier key = 0).map .up := by
    intro keys
    induction keys with
    | nil => simp
    | cons key keys ih =>
      intro r
      rw [List.foldl_cons, ih, List.filter_cons]
      split
      · dsimp only
        rw [presses_append, presses_ofKey_up, List.append_assoc]
        rfl
      · rfl
  exact hfold (ascending m.held).reverse (m.remoteMods, [])

/-- One round of the releasing loop, when nothing is desired. -/
def releaseUndesired (r : Mapper × List InputEvent) (p : Modifiers × ℕ) :
    Mapper × List InputEvent :=
  if r.1.remoteMods &&& p.1 ≠ 0 ∧ (0 : Modifiers) &&& p.1 = 0 then
    let mods := r.1.remoteMods &&& ~~~p.1
    ({ r.1 with remoteMods := mods }, r.2 ++ [.ofKey .keyUp p.2 mods])
  else r

theorem reconcile_zero (m : Mapper) :
    m.reconcile 0 = modifierKeys.foldl releaseUndesired (m, []) := by
  have hskip : ∀ (l : List (Modifiers × ℕ)) (r : Mapper × List InputEvent),
      l.foldl (fun (r : Mapper × List InputEvent) (p : Modifiers × ℕ) =>
        if r.1.remoteMods &&& p.1 = 0 ∧ (0 : Modifiers) &&& p.1 ≠ 0 then
          let mods := r.1.remoteMods ||| p.1
          (({ r.1 with remoteMods := mods } : Mapper), r.2 ++ [InputEvent.ofKey .keyDown p.2 mods])
        else r) r = r := by
    intro l
    induction l with
    | nil => intro r; rfl
    | cons p l ih =>
      intro r
      rw [List.foldl_cons, if_neg (by simp), ih]
  unfold reconcile
  exact hskip modifierKeys (modifierKeys.foldl releaseUndesired (m, []))

theorem reconcile_zero_clears (m : Mapper) : leftKeys (m.reconcile 0).1.remoteMods = ∅ := by
  have hstays : ∀ (bits : Modifiers) (l : List (Modifiers × ℕ)) (r : Mapper × List InputEvent),
      r.1.remoteMods &&& bits = 0 →
      (l.foldl releaseUndesired r).1.remoteMods &&& bits = 0 := by
    intro bits l r
    refine foldl_of_steps (R := fun r s : Mapper × List InputEvent =>
      r.1.remoteMods &&& bits = 0 → s.1.remoteMods &&& bits = 0) (fun _ => id)
      (fun _ _ _ h h' hr => h' (h hr)) ?_ r
    intro r p _ hr
    unfold releaseUndesired
    split
    · show r.1.remoteMods &&& ~~~p.1 &&& bits = 0
      rw [BitVec.and_assoc, BitVec.and_comm (~~~p.1), ← BitVec.and_assoc, hr]
      simp
    · exact hr
  have hcleared : ∀ (l : List (Modifiers × ℕ)) (r : Mapper × List InputEvent),
      ∀ p ∈ l, (l.foldl releaseUndesired r).1.remoteMods &&& p.1 = 0 := by
    intro l
    induction l with
    | nil => nofun
    | cons q l ih =>
      intro r p hp
      obtain rfl | hp := List.mem_cons.mp hp
      · refine hstays p.1 l (releaseUndesired r p) ?_
        unfold releaseUndesired
        split
        · show r.1.remoteMods &&& ~~~p.1 &&& p.1 = 0
          rw [BitVec.and_assoc]
          ext i
          simp
        · rename_i hnot
          simpa using hnot
      · exact ih (releaseUndesired r q) p hp
  rw [reconcile_zero]
  ext key
  rw [mem_leftKeys]
  constructor
  · rintro ⟨hkey, hne⟩
    exfalso
    have hpair : (modifier key, key) ∈ modifierKeys := by
      simp only [Finset.mem_insert, Finset.mem_singleton] at hkey
      obtain rfl | rfl | rfl | rfl := hkey <;> decide
    exact hne (hcleared modifierKeys (m, []) _ hpair)
  · intro hmem
    cases hmem

theorem releaseAll_sends (m : Mapper) : Sends (m, []) m.releaseAll ∧
    m.releaseAll.1 =
      { m with held := ∅, inferred := ∅, snapshot := 0, suppressed := 0, remoteMods := 0 } := by
  have hplays : ∀ rest, m.remote \ m.released.toFinset = rest →
      plays m.remote (m.released.map .up) = some rest := by
    rintro rest rfl
    refine plays_releases ?_ ?_
    · exact (List.nodup_reverse.mpr (nodup_ascending m.held)).filter _
    · intro key hkey
      unfold released at hkey
      rw [List.mem_filter, List.mem_reverse, mem_ascending] at hkey
      unfold remote
      split
      · rename_i hsem
        refine Finset.mem_union_left _ (Finset.mem_filter.mpr ⟨hkey.1, ?_⟩)
        simpa [hsem] using hkey.2
      · exact hkey.1
  have hreleased : ∀ key, key ∈ m.released.toFinset ↔
      key ∈ m.held ∧ (m.semantic = false ∨ modifier key = 0) := by
    intro key
    rw [List.mem_toFinset, released, List.mem_filter, List.mem_reverse, mem_ascending]
    simp
  unfold releaseAll
  dsimp only
  split
  · rename_i hsem
    set cleared : Mapper := { m with held := ∅, inferred := ∅, snapshot := 0, suppressed := 0 }
      with hcleared
    have hsem' : cleared.semantic = true := hsem
    have hreconciles := reconcile_reconciles 0 cleared
    obtain ⟨out, hout, hplay⟩ := hreconciles.sends hsem'
    have heq : ∃ mods, (cleared.reconcile 0).1 = { cleared with remoteMods := mods } := by
      obtain ⟨mods, _, heq, -⟩ := hreconciles
      exact ⟨mods, by rw [heq]⟩
    obtain ⟨mods, heq⟩ := heq
    have hrest : m.remote \ m.released.toFinset = cleared.remote := by
      rw [remote_of_semantic hsem, remote_of_semantic hsem']
      ext key
      rw [Finset.mem_sdiff, hreleased, Finset.mem_union, Finset.mem_union, Finset.mem_filter,
        Finset.mem_filter]
      have hplain : key ∈ leftKeys m.remoteMods → modifier key ≠ 0 := by
        intro hleft hzero
        rw [mem_leftKeys, hzero] at hleft
        simp at hleft
      simp only [hcleared, hsem, Finset.notMem_empty, false_and, false_or, Bool.true_eq_false]
      tauto
    have hsame : (cleared.reconcile 0).1.remote =
        ({ (cleared.reconcile 0).1 with remoteMods := 0 } : Mapper).remote := by
      have hstill : (cleared.reconcile 0).1.semantic = true := by
        rw [heq]
        exact hsem'
      rw [remote_of_semantic hstill, reconcile_zero_clears,
        remote_of_semantic (m := { (cleared.reconcile 0).1 with remoteMods := 0 }) hstill]
      refine congrArg₂ _ rfl ?_
      ext key
      rw [mem_leftKeys]
      simp
    refine ⟨⟨m.releaseHeld ++ out, ?_, ?_⟩, ?_⟩
    · rw [hout]
      rfl
    · rw [presses_append, presses_releaseHeld]
      refine plays_append (hplays _ hrest) ?_
      rw [hplay, hsame]
    · rw [heq]
  · rename_i hsem
    have hphysical : m.semantic = false := by simpa using hsem
    refine ⟨⟨m.releaseHeld, rfl, ?_⟩, rfl⟩
    rw [presses_releaseHeld]
    refine hplays _ ?_
    have hnone : ({ m with
        held := ∅, inferred := ∅, snapshot := 0, suppressed := 0, remoteMods := 0 } : Mapper).remote =
        ∅ := remote_of_physical hphysical
    rw [hnone, remote_of_physical hphysical]
    ext key
    rw [Finset.mem_sdiff, hreleased]
    simp [hphysical]

/-! ### A key -/

theorem inferredFor_mem {bit : Modifiers} (h : m.inferredFor bit = some key) :
    key ∈ m.inferred ∧ modifier key = bit := by
  unfold inferredFor at h
  refine ⟨?_, ?_⟩
  · have hmem := List.mem_of_find?_eq_some h
    rwa [mem_ascending] at hmem
  · simpa using List.find?_some h

/-- What `handOff` may do: nothing, or an inferred key is no longer held, or held
as a known one. -/
theorem handOff_sends (h : m.Tracked) (key : ℕ) :
    Sends (m, []) (m.handOff key) ∧ (m.handOff key).1.Tracked ∧
    (((m.handOff key).1 = m ∧ (modifier key = 0 ∨ m.inferredFor (modifier key) = none)) ∨
      (∃ j ∈ m.inferred, modifier j = modifier key ∧ j ≠ key ∧ ∃ mods, (m.handOff key).1 = { m with
        held := m.held.erase j, inferred := m.inferred.erase j, remoteMods := mods }) ∨
      (key ∈ m.inferred ∧
        (m.handOff key).1 = { m with inferred := m.inferred.erase key })) := by
  unfold handOff
  split
  · rename_i hmod
    split
    · rename_i hnone
      exact ⟨.refl _, h, .inl ⟨rfl, .inr hnone⟩⟩
    · rename_i j hj
      obtain ⟨hmem, hbit⟩ := inferredFor_mem hj
      split
      · rename_i hne
        obtain ⟨hsends, htracked, mods, heq⟩ := letGo_sends (r := (m, [])) h
          (h.inferredHeld hmem) (h.inferredMods j hmem)
        exact ⟨hsends, htracked, .inr (.inl ⟨j, hmem, hbit, hne, mods, heq⟩)⟩
      · rename_i heq
        obtain rfl : j = key := not_not.mp heq
        refine ⟨.silent rfl rfl, ?_, .inr (.inr ⟨hmem, rfl⟩)⟩
        refine ⟨(Finset.erase_subset _ _).trans h.inferredHeld, ?_, h.masked, h.physical⟩
        exact fun k hk => h.inferredMods k (Finset.mem_of_mem_erase hk)
  · rename_i hmod
    exact ⟨.refl _, h, .inl ⟨rfl, .inl (not_not.mp hmod)⟩⟩

theorem resolve_held (h : m.Tracked) {event resolved : InputEvent}
    (hr : m.resolve event = some resolved) : resolved.kind = event.kind ∧
    (resolved = event ∨ (resolved.key ∈ m.inferred ∧ modifier resolved.key = modifier event.key)) ∧
    (event.kind = .keyDown ∨ resolved.key ∈ m.held) := by
  unfold resolve at hr
  split at hr
  · split at hr
    · obtain ⟨key, hkey, rfl⟩ := Option.map_eq_some_iff.mp hr
      obtain ⟨hmem, hbit⟩ := inferredFor_mem hkey
      exact ⟨rfl, .inr ⟨hmem, hbit⟩, .inr (h.inferredHeld hmem)⟩
    · cases hr
  · rename_i hheld
    cases hr
    exact ⟨rfl, .inl rfl, by tauto⟩

theorem record_semantic (event : InputEvent) (m : Mapper) :
    (m.record event).semantic = m.semantic := by
  unfold record
  split <;> rfl

theorem record_remoteMods (event : InputEvent) (m : Mapper) :
    (m.record event).remoteMods = m.remoteMods := by
  unfold record
  split <;> rfl

theorem record_inferred (h : m.Tracked) (event : InputEvent) :
    (m.record event).inferred ⊆ (m.record event).held ∧
    ∀ key ∈ (m.record event).inferred, modifier key ≠ 0 := by
  unfold record
  split
  · exact ⟨h.inferredHeld.trans (Finset.subset_insert _ _), h.inferredMods⟩
  · exact ⟨Finset.erase_subset_erase _ h.inferredHeld,
      fun key hkey => h.inferredMods key (Finset.mem_of_mem_erase hkey)⟩

theorem plays_event (hkind : event.kind = .keyDown ∨ (event.kind = .keyUp ∧ event.key ∈ m.held))
    (mods : Modifiers) (again : Bool) :
    plays m.held (presses [stamped event mods again]) = some (m.record event).held := by
  obtain hdown | ⟨hup, hmem⟩ := hkind
  · have hpress : presses [stamped event mods again] = [.down event.key] := by
      simp [presses, InputEvent.press, stamped, hdown]
    rw [hpress, plays_down, record, if_pos hdown]
  · have hpress : presses [stamped event mods again] = [.up event.key] := by
      simp [presses, InputEvent.press, stamped, hup]
    rw [hpress, plays_up hmem, record, if_neg (by rw [hup]; decide)]

theorem prepared_sends (h : m.Tracked) (event : InputEvent) :
    Sends (m, []) (m.prepared event) ∧ (m.prepared event).1.Tracked ∧
    Restored m (m.prepared event).1 := by
  unfold prepared
  split
  · exact restoreModifiers_sends h
  · exact ⟨.refl _, h, .refl m⟩

/-- In semantic mode a modifier is left to `reconcile`. -/
theorem record_remote_of_modifier (hsem : m.semantic = true)
    (hmod : modifier event.key ≠ 0) : (m.record event).remote = m.remote := by
  rw [remote_of_semantic hsem, remote_of_semantic (by rw [record_semantic]; exact hsem),
    record_remoteMods]
  unfold record
  split
  · rw [filter_insert_modifier hmod]
  · rw [filter_erase_modifier hmod]

theorem forward_sends_semantic (hsem : m.semantic = true)
    (hkind : event.kind = .keyDown ∨ (event.kind = .keyUp ∧ event.key ∈ m.held)) (again : Bool) :
    Sends (m, [])
      (((m.record event).reconcile (m.record event).desiredMods).1,
        (if modifier event.key = 0 ∧ event.kind ≠ .keyDown then
          [stamped event (m.record event).remoteMods false] else []) ++
        ((m.record event).reconcile (m.record event).desiredMods).2 ++
        (if modifier event.key = 0 ∧ event.kind = .keyDown then
          [stamped event ((m.record event).reconcile (m.record event).desiredMods).1.remoteMods again]
          else [])) := by
  have hsem' : (m.record event).semantic = true := by rw [record_semantic]; exact hsem
  have hreconciles := reconcile_reconciles (m.record event).desiredMods (m.record event)
  by_cases hplain : modifier event.key = 0
  · obtain hdown | ⟨hup, hmem⟩ := hkind
    · -- the modifiers are brought up to date before the key goes down
      rw [if_neg (by tauto), if_pos ⟨hplain, hdown⟩, List.nil_append]
      obtain ⟨mods, out, heq, -, hplay⟩ := hreconciles
      rw [heq]
      refine ⟨_, rfl, ?_⟩
      have hbefore := hplay (m.held.filter fun key => modifier key = 0)
        fun key hkey => (Finset.mem_filter.mp hkey).2
      rw [record_remoteMods] at hbefore
      have hpress : ∀ bits, presses [stamped event bits again] = [.down event.key] := by
        intro bits
        simp [presses, InputEvent.press, stamped, hdown]
      show plays m.remote (presses ([] ++ out ++ [stamped event mods again])) = some
        ({ m.record event with remoteMods := mods } : Mapper).remote
      rw [List.nil_append, presses_append, hpress, remote_of_semantic hsem,
        remote_of_semantic (m := { m.record event with remoteMods := mods }) hsem']
      refine plays_append hbefore ?_
      rw [plays_down]
      unfold record
      rw [if_pos hdown]
      dsimp only
      rw [Finset.filter_insert, if_pos hplain, Finset.insert_union]
    · have hnotdown : event.kind ≠ .keyDown := by rw [hup]; decide
      rw [if_pos ⟨hplain, hnotdown⟩, if_neg (by tauto), List.append_nil]
      have hfirst : Sends (m, []) (m.record event, [stamped event (m.record event).remoteMods false]) := by
        refine ⟨_, rfl, ?_⟩
        have hpress : ∀ bits, presses [stamped event bits false] = [.up event.key] := by
          intro bits
          simp [presses, InputEvent.press, stamped, hup]
        have hin : event.key ∈ m.remote := by
          rw [remote_of_semantic hsem]
          exact Finset.mem_union_left _ (Finset.mem_filter.mpr ⟨hmem, hplain⟩)
        have hnotleft : event.key ∉ leftKeys m.remoteMods := by
          intro hleft
          rw [mem_leftKeys, hplain] at hleft
          simp at hleft
        rw [hpress, plays_up hin]
        refine congrArg some ?_
        show m.remote.erase event.key = (m.record event).remote
        rw [remote_of_semantic hsem, remote_of_semantic hsem', record_remoteMods,
          Finset.erase_union_distrib, Finset.erase_eq_of_notMem hnotleft]
        unfold record
        rw [if_neg hnotdown]
        dsimp only
        rw [Finset.filter_erase]
      exact hfirst.trans (hreconciles.sends hsem').append
  · rw [if_neg (by tauto), if_neg (by tauto), List.nil_append, List.append_nil]
    have hfirst : Sends (m, []) (m.record event, []) :=
      .silent rfl (record_remote_of_modifier hsem hplain)
    exact hfirst.trans (hreconciles.sends hsem')

theorem forward_sends (h : m.Tracked)
    (hkind : event.kind = .keyDown ∨ (event.kind = .keyUp ∧ event.key ∈ m.held)) (again : Bool) :
    Sends (m, []) (m.forward event again) ∧ (m.forward event again).1.Tracked ∧
    ∃ mods, (m.forward event again).1 =
      { (m.prepared event).1.record event with remoteMods := mods } := by
  obtain ⟨hsends, htracked, hrestored⟩ := prepared_sends h event
  have hkind : event.kind = .keyDown ∨
      (event.kind = .keyUp ∧ event.key ∈ (m.prepared event).1.held) :=
    hkind.imp_right fun hup => ⟨hup.1, hrestored.held hup.2⟩
  obtain ⟨hinferred, hmods⟩ := record_inferred htracked event
  set r := m.prepared event with hr
  cases hsem : r.1.semantic
  · have hsem' : (r.1.record event).semantic = false := by rw [record_semantic]; exact hsem
    have heq : m.forward event again =
        ({ r.1.record event with remoteMods := (r.1.record event).desiredMods },
          r.2 ++ [stamped event (r.1.record event).desiredMods again]) := by
      unfold forward
      rw [← hr]
      exact if_pos (by rw [hsem']; rfl)
    have hdesired := desiredMods_of_physical hsem'
    rw [heq]
    refine ⟨hsends.trans ⟨_, rfl, ?_⟩, ?_, _, rfl⟩
    · rw [remote_of_physical hsem, plays_event hkind]
      refine congrArg some (Eq.symm ?_)
      exact remote_of_physical hsem'
    · refine .of_recorded hinferred hmods ?_ fun _ => hdesired
      rw [hdesired]
      exact masked_modifiersOf _
  · have hsem' : (r.1.record event).semantic = true := by rw [record_semantic]; exact hsem
    have hsend := (forward_sends_semantic hsem hkind again).append
    obtain ⟨mods, out, heq, hmask, -⟩ :=
      reconcile_reconciles (r.1.record event).desiredMods (r.1.record event)
    have hforward : m.forward event again = (((r.1.record event).reconcile
        (r.1.record event).desiredMods).1, r.2 ++
        ((if modifier event.key = 0 ∧ event.kind ≠ .keyDown then
          [stamped event (r.1.record event).remoteMods false] else []) ++
        ((r.1.record event).reconcile (r.1.record event).desiredMods).2 ++
        (if modifier event.key = 0 ∧ event.kind = .keyDown then
          [stamped event ((r.1.record event).reconcile
            (r.1.record event).desiredMods).1.remoteMods again] else []))) := by
      unfold forward
      rw [← hr, ← List.append_assoc, ← List.append_assoc]
      exact if_neg (by rw [hsem']; decide)
    rw [hforward]
    refine ⟨hsends.trans hsend, ?_, mods, by rw [heq]⟩
    rw [heq]
    refine .of_recorded hinferred hmods (hmask ?_) ?_
    · rw [record_remoteMods]
      exact htracked.masked
    · intro hphysical
      rw [hsem'] at hphysical
      cases hphysical

theorem key_cases (event : InputEvent) (again : Bool) (m : Mapper) :
    m.key event again = (m, []) ∧ ((event.kind ≠ .keyDown ∧ event.kind ≠ .keyUp) ∨
      (event.kind = .keyDown ∧ modifier event.key &&& m.suppressed ≠ 0)) ∨
    (event.kind = .keyDown ∧ event.key = tabKey ∧ m.localSwitchModifiers event ≠ 0 ∧
      m.key event again = ({ m.releaseAll.1 with suppressed := m.localSwitchModifiers event },
        m.releaseAll.2)) ∨
    ((event.kind = .keyUp ∨ event.kind = .keyDown ∧ modifier event.key &&& m.suppressed = 0) ∧
      ((m.key event again = (m.unsuppress event.key, []) ∧
          (event.kind = .keyUp ∧ event.key ∉ m.held ∨
            again = true ∧ event.key ∉ (m.unsuppress event.key).held)) ∨
        (event.kind = .keyDown ∧ event.key ∈ ((m.unsuppress event.key).handOff event.key).1.held ∧
          m.key event again = (m.unsuppress event.key).handOff event.key) ∨
        (event.kind = .keyDown ∧ m.key event again =
          ((((m.unsuppress event.key).handOff event.key).1.forward event again).1,
            ((m.unsuppress event.key).handOff event.key).2 ++
              (((m.unsuppress event.key).handOff event.key).1.forward event again).2)) ∨
        (event.kind = .keyUp ∧ ∃ resolved, (m.unsuppress event.key).resolve event = some resolved ∧
          m.key event again = (m.unsuppress event.key).forward resolved again))) := by
  have hheld : (m.unsuppress event.key).held = m.held := by
    unfold unsuppress
    split <;> rfl
  unfold key
  dsimp only
  split
  · rename_i hkind
    exact .inl ⟨rfl, .inl hkind⟩
  rename_i hkind
  split
  · rename_i htab
    exact .inr (.inl ⟨htab.1, htab.2.1, htab.2.2, rfl⟩)
  split
  · rename_i hsuppressed
    exact .inl ⟨rfl, .inr hsuppressed⟩
  rename_i hfree
  right; right
  refine ⟨by tauto, ?_⟩
  split
  · rename_i hrepeat
    exact .inl ⟨rfl, .inr hrepeat⟩
  by_cases hdown : event.kind = .keyDown
  · rw [if_pos hdown]
    split
    · rename_i hknown
      exact .inr (.inl ⟨hdown, hknown.2.2, rfl⟩)
    · have hresolve : ((m.unsuppress event.key).handOff event.key).1.resolve event = some event := by
        rw [resolve, if_neg (by tauto)]
      rw [hresolve]
      exact .inr (.inr (.inl ⟨hdown, rfl⟩))
  · have hup : event.kind = .keyUp := by tauto
    rw [if_neg hdown, if_neg (by tauto)]
    split
    · rename_i hnone
      refine .inl ⟨rfl, .inl ⟨hup, ?_⟩⟩
      intro hmem
      rw [resolve, if_neg (by rw [hheld]; tauto)] at hnone
      cases hnone
    · rename_i resolved hresolve
      exact .inr (.inr (.inr ⟨hup, resolved, hresolve, rfl⟩))

theorem Tracked.unsuppress (h : m.Tracked) (key : ℕ) : (m.unsuppress key).Tracked := by
  unfold Mapper.unsuppress
  split
  · exact { h with }
  · exact h

theorem sends_unsuppress (m : Mapper) (key : ℕ) : Sends (m, []) (m.unsuppress key, []) := by
  unfold Mapper.unsuppress
  split
  · exact .silent rfl rfl
  · exact .refl _

theorem tracked_releaseAll (m : Mapper) : m.releaseAll.1.Tracked := by
  rw [(releaseAll_sends m).2]
  refine ⟨Finset.Subset.refl _, nofun, ?_, fun _ => rfl⟩
  intro i hi
  have hzero : (0 : Modifiers).getLsbD i = true := hi
  simp at hzero

theorem key_sends (h : m.Tracked) (event : InputEvent) (again : Bool) :
    Sends (m, []) (m.key event again) ∧ (m.key event again).1.Tracked := by
  have hstart := sends_unsuppress m event.key
  have htracked := h.unsuppress event.key
  obtain ⟨heq, -⟩ | ⟨-, -, -, heq⟩ | ⟨-, hkey⟩ := key_cases event again m
  · rw [heq]
    exact ⟨.refl _, h⟩
  · rw [heq]
    have hrelease := tracked_releaseAll m
    exact ⟨(releaseAll_sends m).1.trans (.silent rfl rfl),
      { hrelease with }⟩
  obtain ⟨heq, -⟩ | ⟨-, -, heq⟩ | ⟨hdown, heq⟩ | ⟨hup, resolved, hresolve, heq⟩ := hkey
  · rw [heq]
    exact ⟨hstart, htracked⟩
  · rw [heq]
    obtain ⟨hsends, hhand, -⟩ := handOff_sends htracked event.key
    exact ⟨hstart.trans hsends, hhand⟩
  · rw [heq]
    obtain ⟨hsends, hhand, -⟩ := handOff_sends htracked event.key
    obtain ⟨hforward, hlast, -⟩ := forward_sends hhand (.inl hdown) again
    exact ⟨hstart.trans (hsends.trans hforward.append), hlast⟩
  · rw [heq]
    obtain ⟨hkind, -, hheld⟩ := resolve_held htracked hresolve
    have hmem : resolved.key ∈ (m.unsuppress event.key).held := by
      obtain hdown | hmem := hheld
      · rw [hup] at hdown
        cases hdown
      · exact hmem
    obtain ⟨hforward, hlast, -⟩ :=
      forward_sends htracked (.inr ⟨hkind.trans hup, hmem⟩) again
    exact ⟨hstart.trans hforward, hlast⟩

theorem syntheticKey_sends (h : m.Tracked) (event : InputEvent) :
    Sends (m, []) (m.syntheticKey event) ∧ (m.syntheticKey event).1.Tracked := by
  unfold syntheticKey
  split
  · exact key_sends h event false
  · exact ⟨.refl _, h⟩

end Mapper

end NebulaDesk
