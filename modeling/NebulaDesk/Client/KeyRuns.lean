/-
Shortcuts over whole runs (`nebula-client/src/shortcuts.rs`).

Whatever calls a mapper receives, the events it sends never release a key that is
not down at the host, its record of the host's modifiers is right, and releasing
everything leaves nothing down.

Task switching stays with the local window manager: Tab is not sent while Alt or
Command is held.  The mapper remembers a suppressed modifier as one bit for both
of its keys and forgets it when either goes up, so this is about the runs in
which the other one is not still held then.
-/
import NebulaDesk.Client.KeyBalance

namespace NebulaDesk

open Runs Presses

inductive MapperCall
  | key (event : InputEvent) (again : Bool)
  | synthetic (event : InputEvent)
  | observe (snapshot : Modifiers)
  | restore
  /-- Only semantic mode reconciles. -/
  | reconcile (desired : Modifiers)
  | releaseAll

namespace Mapper

variable {m m' : Mapper}

def call (m : Mapper) : MapperCall → Mapper × List InputEvent
  | .key event again => m.key event again
  | .synthetic event => m.syntheticKey event
  | .observe snapshot => m.observeModifiers snapshot
  | .restore => m.restoreModifiers
  | .reconcile desired => if m.semantic then m.reconcile desired else (m, [])
  | .releaseAll => m.releaseAll

theorem call_sends (h : m.Tracked) (c : MapperCall) :
    Sends (m, []) (m.call c) ∧ (m.call c).1.Tracked := by
  cases c with
  | key event again => exact key_sends h event again
  | synthetic event => exact syntheticKey_sends h event
  | observe snapshot =>
    obtain ⟨hsends, htracked, -⟩ := observeModifiers_sends h snapshot
    exact ⟨hsends, htracked⟩
  | restore =>
    obtain ⟨hsends, htracked, -⟩ := restoreModifiers_sends h
    exact ⟨hsends, htracked⟩
  | reconcile desired =>
    unfold call
    dsimp only
    split
    · rename_i hsem
      have hreconciles := reconcile_reconciles desired m
      refine ⟨hreconciles.sends hsem, ?_⟩
      obtain ⟨mods, out, heq, hmask, -⟩ := hreconciles
      rw [heq]
      refine .of_recorded h.inferredHeld h.inferredMods (hmask h.masked) ?_
      intro hphysical
      rw [hsem] at hphysical
      cases hphysical
    · exact ⟨.refl _, h⟩
  | releaseAll => exact ⟨(releaseAll_sends m).1, tracked_releaseAll m⟩

theorem modifiersOf_remote (h : m.Tracked) : modifiersOf m.remote = m.remoteMods := by
  cases hsem : m.semantic
  · rw [remote_of_physical hsem]
    exact (h.physical hsem).symm
  refine BitVec.eq_of_getLsbD_eq fun i _ => Bool.eq_iff_iff.mpr ?_
  rw [getLsbD_modifiersOf, remote_of_semantic hsem]
  constructor
  · rintro ⟨key, hkey, hbit⟩
    obtain hplain | hleft := Finset.mem_union.mp hkey
    · rw [(Finset.mem_filter.mp hplain).2] at hbit
      simp at hbit
    · obtain hzero | ⟨j, hj, hmod⟩ := modifier_cases key
      · rw [hzero] at hbit
        simp at hbit
      · have hheld := (mem_leftKeys.mp hleft).2
        rw [hmod] at hbit hheld
        rw [BitVec.getLsbD_twoPow, Bool.and_eq_true_iff] at hbit
        have heq := of_decide_eq_true hbit.2
        rw [← heq]
        exact (and_twoPow_ne_zero _ (by omega)).mp hheld
  · intro hbit
    have hi := h.masked i hbit
    have hleft : ∃ key ∈ ({0xe0, 0xe1, 0xe2, 0xe3} : Finset ℕ),
        modifier key = BitVec.twoPow 16 i := by
      obtain rfl | rfl | rfl | rfl : i = 0 ∨ i = 1 ∨ i = 2 ∨ i = 3 := by omega
      · exact ⟨0xe1, by decide, rfl⟩
      · exact ⟨0xe0, by decide, rfl⟩
      · exact ⟨0xe2, by decide, rfl⟩
      · exact ⟨0xe3, by decide, rfl⟩
    obtain ⟨key, hkey, hmod⟩ := hleft
    refine ⟨key, Finset.mem_union_right _ (mem_leftKeys.mpr ⟨hkey, ?_⟩), ?_⟩
    · rw [hmod]
      exact (and_twoPow_ne_zero _ (by omega)).mpr hbit
    · rw [hmod, BitVec.getLsbD_twoPow]
      simp
      omega

/-! ### What is known of the keys that the user holds -/

theorem and_ne_zero {a b : Modifiers} :
    a &&& b ≠ 0 ↔ ∃ i, a.getLsbD i = true ∧ b.getLsbD i = true := by
  constructor
  · intro h
    by_contra hnone
    refine h (BitVec.eq_of_getLsbD_eq fun i _ => ?_)
    have hzero : (0 : Modifiers).getLsbD i = false := by simp
    rw [BitVec.getLsbD_and, hzero, Bool.and_eq_false_iff]
    by_contra hboth
    rw [not_or, Bool.not_eq_false, Bool.not_eq_false] at hboth
    exact hnone ⟨i, hboth⟩
  · rintro ⟨i, ha, hb⟩ hzero
    have hbit : (a &&& b).getLsbD i = true := by
      rw [BitVec.getLsbD_and, ha, hb]
      rfl
    rw [hzero] at hbit
    simp at hbit

def switchMods : Modifiers := .altBit ||| .metaBit

/-- An Alt or Command key. -/
def Switching (key : ℕ) : Prop := modifier key &&& switchMods ≠ 0

instance (key : ℕ) : Decidable (Switching key) := inferInstanceAs (Decidable (_ ≠ _))

/-- What the mapper knows of the user's keys, as far as task switching goes. -/
structure Known (m : Mapper) (source : Finset ℕ) : Prop where
  known : ∀ k ∈ source, Switching k → k ∈ m.held ∨ m.suppressed &&& modifier k ≠ 0
  apart : m.snapshot &&& m.suppressed = 0
  free : ∀ k ∈ m.held, m.suppressed &&& modifier k = 0
  -- an inferred key stands for one that nobody has seen
  stood : ∀ j ∈ m.inferred, ∀ k ∈ source, Switching k → modifier k ≠ modifier j
  left : ∀ j ∈ m.inferred, j ∈ ({0xe0, 0xe1, 0xe2, 0xe3} : Finset ℕ)

theorem known_new (client host : KeyboardPlatform) (mode : ShortcutMode)
    (profile : ShortcutProfile) : (new client host mode profile).Known ∅ where
  known := nofun
  apart := by
    show (0 : Modifiers) &&& 0 = 0
    simp
  free := nofun
  stood := nofun
  left := nofun

theorem modifier_eq_twoPow {key i : ℕ} (h : (modifier key).getLsbD i = true) :
    modifier key = BitVec.twoPow 16 i := by
  obtain hzero | ⟨a, ha, hmod⟩ := modifier_cases key
  · rw [hzero] at h
    simp at h
  · rw [hmod, BitVec.getLsbD_twoPow, Bool.and_eq_true_iff] at h
    rw [hmod, of_decide_eq_true h.2]

theorem modifier_eq_of_bit {k j i : ℕ} (hk : (modifier k).getLsbD i = true)
    (hj : (modifier j).getLsbD i = true) : modifier k = modifier j := by
  rw [modifier_eq_twoPow hk, modifier_eq_twoPow hj]

theorem meet_of_modifier {a b : Modifiers} {key : ℕ} (ha : a &&& modifier key ≠ 0)
    (hb : b &&& modifier key ≠ 0) : a &&& b ≠ 0 := by
  obtain ⟨i, hai, hi⟩ := and_ne_zero.mp ha
  rw [modifier_eq_twoPow hi] at hb
  have hlt : i < 16 := BitVec.lt_of_getLsbD hai
  exact and_ne_zero.mpr ⟨i, hai, (and_twoPow_ne_zero b hlt).mp hb⟩

theorem left_inj {j k : ℕ} (hj : j ∈ ({0xe0, 0xe1, 0xe2, 0xe3} : Finset ℕ))
    (hk : k ∈ ({0xe0, 0xe1, 0xe2, 0xe3} : Finset ℕ)) (h : modifier j = modifier k) : j = k := by
  have hpair : ∀ a ∈ ({0xe0, 0xe1, 0xe2, 0xe3} : Finset ℕ),
      ∀ b ∈ ({0xe0, 0xe1, 0xe2, 0xe3} : Finset ℕ), modifier a = modifier b → a = b := by
    decide
  exact hpair j hj k hk h

variable {source source' : Finset ℕ}

theorem Known.of_subset (h : m.Known source) (hsub : source' ⊆ source) : m.Known source' where
  known := fun k hk => h.known k (hsub hk)
  __ := h
  stood := fun j hj k hk => h.stood j hj k (hsub hk)

theorem Known.insert_plain (h : m.Known source) {key : ℕ} (hkey : ¬ Switching key) :
    m.Known (insert key source) where
  known := by
    intro k hk hswitch
    obtain rfl | hk := Finset.mem_insert.mp hk
    · exact absurd hswitch hkey
    · exact h.known k hk hswitch
  __ := h
  stood := by
    intro j hj k hk hswitch
    obtain rfl | hk := Finset.mem_insert.mp hk
    · exact absurd hswitch hkey
    · exact h.stood j hj k hk hswitch

theorem Known.restored (h : m.Known source) (hr : Restored m m') : m'.Known source where
  known := by
    intro k hk hswitch
    rw [hr.suppressed]
    exact (h.known k hk hswitch).imp_left fun hheld => hr.held hheld
  apart := by
    rw [hr.snapshot, hr.suppressed]
    exact h.apart
  free := by
    intro k hk
    rw [hr.suppressed]
    obtain hk | ⟨hsnap, -, -⟩ := hr.added k hk
    · exact h.free k hk
    · -- what the snapshot shows is not suppressed
      by_contra hne
      exact meet_of_modifier hsnap hne h.apart
  stood := by
    intro j hj k hk hswitch heq
    obtain hj | ⟨hsnap, hnone, -⟩ := hr.inferred j hj
    · exact h.stood j hj k hk hswitch heq
    · obtain hheld | hsup := h.known k hk hswitch
      · exact hnone k hheld heq
      · rw [heq] at hsup
        exact meet_of_modifier hsnap hsup h.apart
  left := by
    intro j hj
    obtain hj | ⟨-, -, hleft⟩ := hr.inferred j hj
    · exact h.left j hj
    · exact hleft

theorem Known.unsuppressed (h : m.Known source) {key : ℕ}
    (hlast : modifier key &&& m.suppressed ≠ 0 → ∀ k ∈ source, modifier k = modifier key → k = key) :
    (m.unsuppress key).Known (source.erase key) := by
  unfold unsuppress
  split
  · rename_i hsup
    refine ⟨?_, ?_, ?_, ?_, h.left⟩
    · intro k hk hswitch
      obtain ⟨hne, hmem⟩ := Finset.mem_erase.mp hk
      refine (h.known k hmem hswitch).imp_right fun hk => ?_
      obtain ⟨i, hi, hki⟩ := and_ne_zero.mp hk
      refine and_ne_zero.mpr ⟨i, ?_, hki⟩
      rw [BitVec.getLsbD_and, hi, Bool.true_and, BitVec.getLsbD_not, Bool.and_eq_true_iff]
      refine ⟨decide_eq_true (BitVec.lt_of_getLsbD hi), ?_⟩
      rw [Bool.not_eq_true']
      by_contra hbit
      rw [Bool.not_eq_false] at hbit
      exact hne (hlast hsup k hmem (modifier_eq_of_bit hki hbit))
    · by_contra hne
      obtain ⟨i, hsnap, hi⟩ := and_ne_zero.mp hne
      rw [BitVec.getLsbD_and, Bool.and_eq_true_iff] at hsnap hi
      exact and_ne_zero.mpr ⟨i, hsnap.1, hi.1⟩ h.apart
    · intro k hk
      by_contra hne
      obtain ⟨i, hi, hki⟩ := and_ne_zero.mp hne
      rw [BitVec.getLsbD_and, Bool.and_eq_true_iff] at hi
      exact and_ne_zero.mpr ⟨i, hi.1, hki⟩ (h.free k hk)
    · exact fun j hj k hk => h.stood j hj k (Finset.mem_of_mem_erase hk)
  · exact h.of_subset (Finset.erase_subset _ _)

theorem find_none {bit : Modifiers} (h : m.inferredFor bit = none) :
    ∀ j ∈ m.inferred, modifier j ≠ bit := by
  intro j hj heq
  unfold inferredFor at h
  rw [List.find?_eq_none] at h
  exact h j (mem_ascending.mpr hj) (decide_eq_true heq)

/-- A key goes down that may have been inferred: no other key stands for it then. -/
theorem Known.handOff (h : m.Known source) (ht : m.Tracked) (key : ℕ) :
    (m.handOff key).1.Known source ∧ (m.handOff key).1.suppressed = m.suppressed ∧
    (m.handOff key).1.snapshot = m.snapshot ∧
    (Switching key → ∀ j ∈ (m.handOff key).1.inferred, modifier key ≠ modifier j) := by
  obtain ⟨-, -, ⟨heq, hnone⟩ | ⟨j, hj, hbit, hne, mods, heq⟩ | ⟨hkey, heq⟩⟩ :=
    handOff_sends ht key
  · rw [heq]
    refine ⟨h, rfl, rfl, ?_⟩
    intro hswitch j hj hmod
    obtain hzero | hnone := hnone
    · rw [Switching, hzero] at hswitch
      simp at hswitch
    · exact find_none hnone j hj hmod.symm
  · rw [heq]
    refine ⟨⟨?_, h.apart, ?_, ?_, ?_⟩, rfl, rfl, ?_⟩
    · intro k hk hswitch
      refine (h.known k hk hswitch).imp_left fun hheld => Finset.mem_erase.mpr ⟨?_, hheld⟩
      rintro rfl
      exact h.stood k hj k hk hswitch rfl
    · exact fun k hk => h.free k (Finset.mem_of_mem_erase hk)
    · exact fun i hi => h.stood i (Finset.mem_of_mem_erase hi)
    · exact fun i hi => h.left i (Finset.mem_of_mem_erase hi)
    · intro _ i hi hmod
      obtain ⟨hij, hi⟩ := Finset.mem_erase.mp hi
      exact hij (left_inj (h.left i hi) (h.left j hj) (hmod.symm.trans hbit.symm))
  · rw [heq]
    refine ⟨⟨h.known, h.apart, h.free, ?_, ?_⟩, rfl, rfl, ?_⟩
    · exact fun i hi => h.stood i (Finset.mem_of_mem_erase hi)
    · exact fun i hi => h.left i (Finset.mem_of_mem_erase hi)
    · intro _ i hi hmod
      obtain ⟨hij, hi⟩ := Finset.mem_erase.mp hi
      exact hij (left_inj (h.left i hi) (h.left key hkey) hmod.symm)

theorem Known.insert_held (h : m.Known source) {key : ℕ} (hheld : key ∈ m.held)
    (hstood : Switching key → ∀ j ∈ m.inferred, modifier key ≠ modifier j) :
    m.Known (insert key source) where
  known := by
    intro k hk hswitch
    obtain rfl | hk := Finset.mem_insert.mp hk
    · exact .inl hheld
    · exact h.known k hk hswitch
  __ := h
  stood := by
    intro j hj k hk hswitch
    obtain rfl | hk := Finset.mem_insert.mp hk
    · exact hstood hswitch j hj
    · exact h.stood j hj k hk hswitch

variable {event : InputEvent}

theorem Known.record_down (h : m.Known source) (hdown : event.kind = .keyDown)
    (hfree : m.suppressed &&& modifier event.key = 0) : (m.record event).Known source := by
  unfold record
  rw [if_pos hdown]
  refine ⟨?_, ?_, ?_, h.stood, h.left⟩
  · exact fun k hk hswitch => (h.known k hk hswitch).imp_left fun hheld => Finset.mem_insert_of_mem hheld
  · by_contra hne
    obtain ⟨i, hi, hsup⟩ := and_ne_zero.mp hne
    rw [BitVec.getLsbD_or, Bool.or_eq_true_iff] at hi
    obtain hi | hi := hi
    · exact and_ne_zero.mpr ⟨i, hi, hsup⟩ h.apart
    · exact and_ne_zero.mpr ⟨i, hsup, hi⟩ hfree
  · intro k hk
    obtain rfl | hk := Finset.mem_insert.mp hk
    · exact hfree
    · exact h.free k hk

theorem Known.record_up (h : m.Known source) (hup : event.kind ≠ .keyDown)
    (hgone : ∀ k ∈ source, Switching k → k ≠ event.key) : (m.record event).Known source := by
  unfold record
  rw [if_neg hup]
  refine ⟨?_, ?_, fun k hk => h.free k (Finset.mem_of_mem_erase hk),
    fun j hj => h.stood j (Finset.mem_of_mem_erase hj),
    fun j hj => h.left j (Finset.mem_of_mem_erase hj)⟩
  · intro k hk hswitch
    exact (h.known k hk hswitch).imp_left fun hheld =>
      Finset.mem_erase.mpr ⟨hgone k hk hswitch, hheld⟩
  · dsimp only
    split
    · exact h.apart
    · by_contra hne
      obtain ⟨i, hi, hsup⟩ := and_ne_zero.mp hne
      rw [BitVec.getLsbD_and, Bool.and_eq_true_iff] at hi
      exact and_ne_zero.mpr ⟨i, hi.1, hsup⟩ h.apart

/-! ### Each call -/

theorem Known.observe (h : m.Known source) (ht : m.Tracked) (snapshot : Modifiers) :
    (m.observeModifiers snapshot).1.Known
      (source.filter fun k => modifier k = 0 ∨ snapshot &&& modifier k ≠ 0) := by
  obtain ⟨-, -, mods, heq⟩ := observeModifiers_sends ht snapshot
  rw [heq]
  refine ⟨?_, ?_, ?_, ?_, ?_⟩
  · intro k hk hswitch
    obtain ⟨hk, hseen⟩ := Finset.mem_filter.mp hk
    have hmod : modifier k ≠ 0 := by
      intro hzero
      rw [Switching, hzero] at hswitch
      simp at hswitch
    obtain ⟨i, hsnap, hki⟩ := and_ne_zero.mp (hseen.resolve_left hmod)
    obtain hheld | hsup := h.known k hk hswitch
    · -- it is not suppressed, so the snapshot shows it
      left
      refine Finset.mem_sdiff.mpr ⟨hheld, ?_⟩
      intro hout
      have hzero := (Finset.mem_filter.mp hout).2.2
      refine and_ne_zero.mpr ⟨i, ?_, hki⟩ hzero
      have hlt : i < 4 := by
        obtain hz | ⟨a, ha, hbit⟩ := modifier_cases k
        · exact absurd hz hmod
        · rw [hbit] at hki
          exact masked_twoPow ha i hki
      have hmask : modifierMask.getLsbD i = true := by
        obtain rfl | rfl | rfl | rfl : i = 0 ∨ i = 1 ∨ i = 2 ∨ i = 3 := by omega
        all_goals decide
      rw [BitVec.getLsbD_and, BitVec.getLsbD_and, hsnap, hmask, BitVec.getLsbD_not,
        BitVec.getLsbD_and, hsnap, Bool.and_true, Bool.and_true, Bool.true_and, Bool.and_eq_true_iff]
      refine ⟨decide_eq_true (by omega), ?_⟩
      rw [Bool.not_eq_true']
      by_contra hsup
      rw [Bool.not_eq_false] at hsup
      exact and_ne_zero.mpr ⟨i, hsup, hki⟩ (h.free k hheld)
    · right
      obtain ⟨i', hsup, hki'⟩ := and_ne_zero.mp hsup
      refine and_ne_zero.mpr ⟨i', ?_, hki'⟩
      rw [BitVec.getLsbD_and, hsup, Bool.true_and]
      have hboth := hseen.resolve_left hmod
      rw [modifier_eq_twoPow hki', and_twoPow_ne_zero _ (BitVec.lt_of_getLsbD hsup)] at hboth
      exact hboth
  · by_contra hne
    obtain ⟨i, hi, hsup⟩ := and_ne_zero.mp hne
    rw [BitVec.getLsbD_and, BitVec.getLsbD_not, hsup, Bool.not_true] at hi
    simp at hi
  · intro k hk
    by_contra hne
    obtain ⟨i, hi, hki⟩ := and_ne_zero.mp hne
    rw [BitVec.getLsbD_and, Bool.and_eq_true_iff] at hi
    exact and_ne_zero.mpr ⟨i, hi.1, hki⟩ (h.free k (Finset.mem_sdiff.mp hk).1)
  · exact fun j hj k hk => h.stood j (Finset.mem_sdiff.mp hj).1 k (Finset.mem_filter.mp hk).1
  · exact fun j hj => h.left j (Finset.mem_sdiff.mp hj).1

/-- The user's keys after a key event. -/
def pressed (event : InputEvent) (again : Bool) (source : Finset ℕ) : Finset ℕ :=
  match event.kind with
  | .keyDown => if again then source else insert event.key source
  | .keyUp => source.erase event.key
  | _ => source

theorem unsuppress_of_free {key : ℕ} (h : modifier key &&& m.suppressed = 0) :
    m.unsuppress key = m := by
  unfold unsuppress
  rw [if_neg (not_not.mpr h)]

theorem Known.pressed_down (h : m.Known (insert event.key source))
    (hdown : event.kind = .keyDown) (again : Bool) : m.Known (pressed event again source) := by
  unfold pressed
  rw [hdown]
  dsimp only
  split
  · exact h.of_subset (Finset.subset_insert _ _)
  · exact h

theorem Known.key (h : m.Known source) (ht : m.Tracked) (event : InputEvent) (again : Bool)
    (hlast : event.kind = .keyUp → modifier event.key &&& m.suppressed ≠ 0 →
      ∀ k ∈ source, modifier k = modifier event.key → k = event.key) :
    (m.key event again).1.Known (pressed event again source) := by
  obtain ⟨heq, hwhy⟩ | ⟨hdown, htab, -, heq⟩ | ⟨hfree, hkey⟩ := key_cases event again m
  · rw [heq]
    obtain ⟨hnotdown, hnotup⟩ | ⟨hdown, hsup⟩ := hwhy
    · unfold pressed
      split
      · exact absurd ‹_› hnotdown
      · exact absurd ‹_› hnotup
      · exact h
    · -- a suppressed modifier: nothing that is held, let alone inferred, has its bit
      refine .pressed_down ⟨?_, h.apart, h.free, ?_, h.left⟩ hdown again
      · intro k hk hswitch
        obtain rfl | hk := Finset.mem_insert.mp hk
        · right
          rwa [BitVec.and_comm]
        · exact h.known k hk hswitch
      · intro j hj k hk hswitch hmod
        obtain rfl | hk := Finset.mem_insert.mp hk
        · rw [hmod, BitVec.and_comm] at hsup
          exact hsup (h.free j (ht.inferredHeld hj))
        · exact h.stood j hj k hk hswitch hmod
  · rw [heq, (releaseAll_sends m).2]
    have hplain : ¬ Switching event.key := by
      rw [htab]
      decide
    have hempty : ∀ k ∈ (∅ : Finset ℕ), False := fun k hk => absurd hk (Finset.notMem_empty k)
    refine .pressed_down (.insert_plain ⟨?_, ?_, fun k hk => (hempty k hk).elim,
      fun j hj => (hempty j hj).elim, fun j hj => (hempty j hj).elim⟩ hplain) hdown again
    · -- whatever was known of a switching key goes into what is suppressed
      intro k hk hswitch
      right
      obtain ⟨i, hki, hsw⟩ := and_ne_zero.mp hswitch
      refine and_ne_zero.mpr ⟨i, ?_, hki⟩
      show (m.localSwitchModifiers event).getLsbD i = true
      unfold localSwitchModifiers
      rw [BitVec.getLsbD_and, Bool.and_eq_true_iff]
      refine ⟨?_, hsw⟩
      rw [BitVec.getLsbD_or, BitVec.getLsbD_or, BitVec.getLsbD_or, Bool.or_eq_true_iff,
        Bool.or_eq_true_iff, Bool.or_eq_true_iff]
      obtain hheld | hsup := h.known k hk hswitch
      · exact .inr ((getLsbD_modifiersOf _ _).mpr ⟨k, hheld, hki⟩)
      · rw [modifier_eq_twoPow hki, and_twoPow_ne_zero _ (BitVec.lt_of_getLsbD hki)] at hsup
        exact .inl (.inl (.inr hsup))
    · show (0 : Modifiers) &&& _ = 0
      simp
  obtain hup | ⟨hdown, hfree⟩ := hfree
  swap
  · have hfree' : m.suppressed &&& modifier event.key = 0 := by rwa [BitVec.and_comm]
    obtain ⟨hhand, hsup, -, hstood⟩ := h.handOff ht event.key
    rw [unsuppress_of_free hfree] at hkey
    obtain ⟨heq, ⟨hup, -⟩ | ⟨hagain, -⟩⟩ | ⟨-, hmem, heq⟩ | ⟨-, heq⟩ | ⟨hup, -⟩ := hkey
    · rw [hdown] at hup
      cases hup
    · rw [heq]
      unfold pressed
      rw [hdown]
      dsimp only
      rw [if_pos hagain]
      exact h
    · rw [heq]
      exact (hhand.insert_held hmem hstood).pressed_down hdown again
    · rw [heq]
      obtain ⟨-, hht, -⟩ := handOff_sends ht event.key
      obtain ⟨-, -, mods, hforward⟩ := forward_sends hht (.inl hdown) again
      obtain ⟨-, -, hrestored⟩ := prepared_sends hht event
      have hrecord := (hhand.restored hrestored).record_down hdown
        (by rw [hrestored.suppressed, hsup]; exact hfree')
      have hheld : event.key ∈ ((Mapper.prepared event (m.handOff event.key).1).1.record event).held := by
        unfold record
        rw [if_pos hdown]
        exact Finset.mem_insert_self _ _
      have hinsert : ((Mapper.prepared event (m.handOff event.key).1).1.record event).Known
          (insert event.key source) := by
        by_cases hswitch : Switching event.key
        · refine hrecord.insert_held hheld fun _ j hj => ?_
          have hmod : modifier event.key ≠ 0 := by
            intro hzero
            rw [Switching, hzero] at hswitch
            simp at hswitch
          unfold record prepared at hj
          rw [if_pos hdown, if_neg hmod] at hj
          exact hstood hswitch j hj
        · exact hrecord.insert_plain hswitch
      dsimp only
      rw [hforward]
      have hdone := hinsert.pressed_down hdown again
      exact { hdone with }
    · rw [hdown] at hup
      cases hup
  · have hnotdown : event.kind ≠ .keyDown := by rw [hup]; decide
    have hpressed : pressed event again source = source.erase event.key := by
      unfold pressed
      rw [hup]
    have hun := h.unsuppressed (hlast hup)
    rw [hpressed]
    obtain ⟨heq, -⟩ | ⟨hdown, -⟩ | ⟨hdown, -⟩ | ⟨-, resolved, hresolve, heq⟩ := hkey
    · rw [heq]
      exact hun
    · exact absurd hdown hnotdown
    · exact absurd hdown hnotdown
    · rw [heq]
      have htun := ht.unsuppress event.key
      obtain ⟨hkind, hwhich, hheld⟩ := resolve_held htun hresolve
      obtain ⟨-, -, mods, hforward⟩ := forward_sends htun
        (.inr ⟨hkind.trans hup, hheld.resolve_left hnotdown⟩) again
      obtain ⟨-, -, hrestored⟩ := prepared_sends htun resolved
      rw [hforward]
      have hdone := (hun.restored hrestored).record_up (by rw [hkind]; exact hnotdown) (by
        intro k hk hswitch
        rintro rfl
        obtain rfl | ⟨hinferred, -⟩ := hwhich
        · exact Finset.notMem_erase _ _ hk
        · exact hun.stood _ hinferred _ hk hswitch rfl)
      exact { hdone with }

/-- `releaseAll` only releases. -/
theorem releaseAll_up (m : Mapper) : ∀ e ∈ m.releaseAll.2, e.kind = .keyUp := by
  have hheld : ∀ e ∈ m.releaseHeld, e.kind = .keyUp := by
    refine foldl_of_steps (R := fun r s : Modifiers × List InputEvent =>
      (∀ e ∈ r.2, e.kind = .keyUp) → ∀ e ∈ s.2, e.kind = .keyUp) (fun _ => id)
      (fun _ _ _ h h' hr => h' (h hr)) ?_ (m.remoteMods, []) nofun
    intro r key _ hr
    dsimp only
    split
    · intro e he
      obtain he | he := List.mem_append.mp he
      · exact hr e he
      · obtain rfl := List.mem_singleton.mp he
        rfl
    · exact hr
  have hmods : ∀ n : Mapper, ∀ e ∈ (n.reconcile 0).2, e.kind = .keyUp := by
    intro n
    rw [reconcile_zero]
    refine foldl_of_steps (R := fun r s : Mapper × List InputEvent =>
      (∀ e ∈ r.2, e.kind = .keyUp) → ∀ e ∈ s.2, e.kind = .keyUp) (fun _ => id)
      (fun _ _ _ h h' hr => h' (h hr)) ?_ (n, []) nofun
    intro r p _ hr
    unfold releaseUndesired
    split
    · intro e he
      obtain he | he := List.mem_append.mp he
      · exact hr e he
      · obtain rfl := List.mem_singleton.mp he
        rfl
    · exact hr
  unfold releaseAll
  dsimp only
  split
  · intro e he
    obtain he | he := List.mem_append.mp he
    · exact hheld e he
    · exact hmods _ e he
  · exact hheld

end Mapper

/-- The user's keyboard after a call: which keys have gone down and not up again, as
far as the window has seen it.  A window that releases everything sees no more. -/
def MapperCall.source (source : Finset ℕ) : MapperCall → Finset ℕ
  | .key event again => Mapper.pressed event again source
  | .synthetic event => Mapper.pressed event false source
  | .observe snapshot => source.filter fun k => modifier k = 0 ∨ snapshot &&& modifier k ≠ 0
  | .restore | .reconcile _ => source
  | .releaseAll => ∅

/-- A mapper between the user's keyboard and the host's. -/
structure Typing where
  mapper : Mapper
  source : Finset ℕ
  remote : Finset ℕ

namespace Typing

open Mapper

variable {t t' : Typing} {c : MapperCall}

def start (client host : KeyboardPlatform) (mode : ShortcutMode) (profile : ShortcutProfile) :
    Typing := ⟨.new client host mode profile, ∅, ∅⟩

/-- A call, unless its events release a key that is not down at the host. -/
def step (t : Typing) (c : MapperCall) : Option Typing :=
  (plays t.remote (presses (t.mapper.call c).2)).map fun remote =>
    ⟨(t.mapper.call c).1, c.source t.source, remote⟩

/-- Alt or Command is held: the event says so, the mapper's record does, or one of
the keys is down. -/
def SwitchHeld (t : Typing) (event : InputEvent) : Prop :=
  BitVec.ofNat 16 event.modifiers &&& switchMods ≠ 0 ∨
    t.mapper.sourceModifiers &&& switchMods ≠ 0 ∨ ∃ k ∈ t.source, Switching k

/-- A release of a suppressed modifier while its other key is still down. -/
def halfReleases (t : Typing) : MapperCall → Bool
  | .key event _ | .synthetic event =>
    event.kind = .keyUp && modifier event.key &&& t.mapper.suppressed ≠ 0 &&
      decide (∃ k ∈ t.source, modifier k = modifier event.key ∧ k ≠ event.key)
  | _ => false

def stepWithin (t : Typing) (c : MapperCall) : Option Typing :=
  if t.halfReleases c then none else t.step c

/-- The host's keyboard is what the mapper makes of it. -/
structure Mirrored (t : Typing) : Prop where
  tracked : t.mapper.Tracked
  remote : t.remote = t.mapper.remote

theorem mirrored_start (client host : KeyboardPlatform) (mode : ShortcutMode)
    (profile : ShortcutProfile) : (start client host mode profile).Mirrored where
  tracked := tracked_new client host mode profile
  remote := by
    show ∅ = (new client host mode profile).remote
    unfold Mapper.remote
    split
    · ext key
      rw [Finset.mem_union, Finset.mem_filter, mem_leftKeys]
      simp [new]
    · rfl

theorem step_of_mirrored (h : t.Mirrored) (c : MapperCall) :
    t.step c = some ⟨(t.mapper.call c).1, c.source t.source, (t.mapper.call c).1.remote⟩ := by
  obtain ⟨out, hout, hplay⟩ := (call_sends h.tracked c).1
  unfold step
  rw [hout, h.remote]
  show (plays t.mapper.remote (presses ([] ++ out))).map _ = _
  rw [List.nil_append, hplay]
  rfl

theorem mirrored_step (h : t.Mirrored) (hs : t.step c = some t') : t'.Mirrored := by
  rw [step_of_mirrored h c] at hs
  cases hs
  exact ⟨(call_sends h.tracked c).2, rfl⟩

variable {event : InputEvent}

theorem last_of_clean {again : Bool} (h : t.halfReleases (.key event again) = false)
    (hup : event.kind = .keyUp) (hsup : modifier event.key &&& t.mapper.suppressed ≠ 0) :
    ∀ k ∈ t.source, modifier k = modifier event.key → k = event.key := by
  intro k hk hmod
  by_contra hne
  rw [halfReleases, hup] at h
  have hother : ∃ k ∈ t.source, modifier k = modifier event.key ∧ k ≠ event.key := ⟨k, hk, hmod, hne⟩
  simp only [decide_true, Bool.true_and, Bool.and_eq_false_iff, decide_eq_false_iff_not, not_not] at h
  exact h.elim hsup fun hnone => hnone hother

theorem known_step (hm : t.Mirrored) (h : t.mapper.Known t.source)
    (hs : t.stepWithin c = some t') : t'.mapper.Known t'.source := by
  unfold stepWithin at hs
  split at hs
  · cases hs
  rename_i hclean
  rw [Bool.not_eq_true] at hclean
  rw [step_of_mirrored hm c] at hs
  cases hs
  cases c with
  | key event again => exact h.key hm.tracked event again (last_of_clean hclean)
  | synthetic event =>
    show (t.mapper.syntheticKey event).1.Known (pressed event false t.source)
    unfold syntheticKey
    split
    · have hplain : t.halfReleases (.key event false) = false := hclean
      exact h.key hm.tracked event false (last_of_clean hplain)
    · -- a plain key, which the mapper does not hear of
      rename_i hplain
      rw [not_or, not_not] at hplain
      have hswitch : ¬ Switching event.key := by
        rw [Switching, hplain.1]
        simp
      unfold pressed
      split
      · exact h.insert_plain hswitch
      · exact h.of_subset (Finset.erase_subset _ _)
      · exact h
  | observe snapshot => exact h.observe hm.tracked snapshot
  | restore => exact h.restored (restoreModifiers_sends hm.tracked).2.2
  | reconcile desired =>
    show (if t.mapper.semantic then t.mapper.reconcile desired else (t.mapper, [])).1.Known t.source
    split
    · obtain ⟨mods, out, heq, -⟩ := reconcile_reconciles desired t.mapper
      rw [heq]
      exact { h with }
    · exact h
  | releaseAll =>
    show t.mapper.releaseAll.1.Known ∅
    rw [(releaseAll_sends t.mapper).2]
    have hempty : ∀ k ∈ (∅ : Finset ℕ), False := fun k hk => absurd hk (Finset.notMem_empty k)
    refine ⟨fun k hk => (hempty k hk).elim, ?_, fun k hk => (hempty k hk).elim,
      fun j hj => (hempty j hj).elim, fun j hj => (hempty j hj).elim⟩
    show (0 : Modifiers) &&& 0 = 0
    simp

theorem localSwitch_of_held (h : t.mapper.Known t.source)
    (hheld : t.SwitchHeld event) : t.mapper.localSwitchModifiers event ≠ 0 := by
  have hbits : ∀ i, switchMods.getLsbD i = true →
      ((BitVec.ofNat 16 event.modifiers).getLsbD i = true ∨ t.mapper.suppressed.getLsbD i = true) ∨
        t.mapper.snapshot.getLsbD i = true ∨ (modifiersOf t.mapper.held).getLsbD i = true →
      t.mapper.localSwitchModifiers event ≠ 0 := by
    intro i hswitch hbit
    refine and_ne_zero.mpr ⟨i, ?_, hswitch⟩
    rw [BitVec.getLsbD_or, BitVec.getLsbD_or, BitVec.getLsbD_or, Bool.or_eq_true_iff,
      Bool.or_eq_true_iff, Bool.or_eq_true_iff, or_assoc]
    exact hbit
  obtain hflag | hrecord | ⟨k, hk, hswitch⟩ := hheld
  · obtain ⟨i, hi, hs⟩ := and_ne_zero.mp hflag
    exact hbits i hs (.inl (.inl hi))
  · obtain ⟨i, hi, hs⟩ := and_ne_zero.mp hrecord
    unfold sourceModifiers at hi
    rw [BitVec.getLsbD_or, Bool.or_eq_true_iff] at hi
    obtain hi | hi := hi
    · exact hbits i hs (.inr (.inl hi))
    · exact hbits i hs (.inl (.inr hi))
  · obtain ⟨i, hki, hs⟩ := and_ne_zero.mp hswitch
    obtain hheld | hsup := h.known k hk hswitch
    · exact hbits i hs (.inr (.inr ((getLsbD_modifiersOf _ _).mpr ⟨k, hheld, hki⟩)))
    · rw [modifier_eq_twoPow hki, and_twoPow_ne_zero _ (BitVec.lt_of_getLsbD hki)] at hsup
      exact hbits i hs (.inl (.inr hsup))

theorem tab_reserved {m : Mapper} (hdown : event.kind = .keyDown)
    (htab : event.key = tabKey) (hswitch : m.localSwitchModifiers event ≠ 0) {c : MapperCall}
    (hc : c = .synthetic event ∨ ∃ again, c = .key event again) :
    ∀ e ∈ (m.call c).2, e.kind = .keyUp := by
  have hkey : ∀ again, (m.key event again).2 = m.releaseAll.2 := by
    intro again
    unfold Mapper.key
    dsimp only
    rw [if_neg (by rw [hdown]; decide), if_pos ⟨hdown, htab, hswitch⟩]
  obtain rfl | ⟨again, rfl⟩ := hc
  · show ∀ e ∈ (m.syntheticKey event).2, _
    unfold syntheticKey
    rw [if_pos (.inr ⟨htab, hswitch⟩), hkey]
    exact releaseAll_up m
  · show ∀ e ∈ (m.key event again).2, _
    rw [hkey]
    exact releaseAll_up m

/-- **Shortcut mapper balance.** -/
theorem shortcut_balance (client host : KeyboardPlatform) (mode : ShortcutMode)
    (profile : ShortcutProfile) :
    (∀ t, Reach step (start client host mode profile) t →
      (∀ c, (t.step c).isSome) ∧ t.mapper.remoteMods = modifiersOf t.remote ∧
      ∀ t', t.step .releaseAll = some t' → t'.remote = ∅) ∧
    ∀ t, Reach stepWithin (start client host mode profile) t → ∀ event : InputEvent,
      event.kind = .keyDown → event.key = tabKey → t.SwitchHeld event →
      ∀ c, c = .synthetic event ∨ (∃ again, c = .key event again) →
      ∀ e ∈ (t.mapper.call c).2, e.kind = .keyUp := by
  constructor
  · intro t ht
    have hm : t.Mirrored := ht.invariant (mirrored_start client host mode profile)
      fun _ _ _ h hs => mirrored_step h hs
    refine ⟨?_, ?_, ?_⟩
    · intro c
      rw [step_of_mirrored hm c]
      rfl
    · rw [hm.remote, modifiersOf_remote hm.tracked]
    · intro t' hs
      rw [step_of_mirrored hm] at hs
      obtain rfl := Option.some.inj hs
      have hnone := (releaseAll_sends t.mapper).2
      show t.mapper.releaseAll.1.remote = ∅
      rw [hnone]
      unfold Mapper.remote
      split
      · ext key
        rw [Finset.mem_union, Finset.mem_filter, mem_leftKeys]
        simp
      · rfl
  · intro t ht event hdown htab hheld c hc
    have hboth : t.Mirrored ∧ t.mapper.Known t.source :=
      ht.invariant (P := fun t => t.Mirrored ∧ t.mapper.Known t.source)
        ⟨mirrored_start client host mode profile, known_new client host mode profile⟩ (by
          intro s s' a hi hs
          refine ⟨?_, known_step hi.1 hi.2 hs⟩
          unfold stepWithin at hs
          split at hs
          · cases hs
          · exact mirrored_step hi.1 hs)
    exact tab_reserved hdown htab (localSwitch_of_held hboth.2 hheld) hc

def keyEvent (kind : InputKind) (key : ℕ) : InputEvent := .ofKey kind key 0

def altLetter : List MapperCall :=
  [.key (keyEvent .keyDown 0xe2) false, .key (keyEvent .keyDown 0x04) false]

theorem shortcut_balance_alt_letter :
    (tryRun stepWithin (start .windows .mac .semantic .editing) altLetter).map
      (fun t => decide (t.remote = {0xe2, 0x04} ∧ 0xe2 ∈ t.source)) = some true ∧
    ∀ t, tryRun stepWithin (start .windows .mac .semantic .editing) altLetter = some t →
      ∀ e ∈ (t.mapper.call (.key (keyEvent .keyDown tabKey) false)).2, e.kind = .keyUp := by
  have hrun : (tryRun stepWithin (start .windows .mac .semantic .editing) altLetter).map
      (fun t => decide (t.remote = {0xe2, 0x04} ∧ 0xe2 ∈ t.source)) = some true := by
    decide +kernel
  refine ⟨hrun, ?_⟩
  intro t ht
  rw [ht] at hrun
  obtain ⟨-, hsource⟩ := of_decide_eq_true (Option.some.inj hrun)
  exact (shortcut_balance .windows .mac .semantic .editing).2 t (reach_of_tryRun .init ht)
    (keyEvent .keyDown tabKey) rfl rfl (.inr (.inr ⟨0xe2, hsource, by decide⟩)) _
    (.inr ⟨false, rfl⟩)

/-- Alt is held on both sides, Tab is kept back, and one side goes up. -/
def bothAlts : List MapperCall :=
  [.key (keyEvent .keyDown 0xe2) false, .key (keyEvent .keyDown 0xe6) false,
    .key (keyEvent .keyDown tabKey) false, .key (keyEvent .keyUp 0xe2) false]

/-- The other side is still held, and Tab is sent. -/
theorem half_released_alt : ∃ t, Reach step (start .windows .mac .physical .physical) t ∧
    t.SwitchHeld (keyEvent .keyDown tabKey) ∧
    ∃ e ∈ (t.mapper.call (.key (keyEvent .keyDown tabKey) false)).2,
      e.kind = .keyDown ∧ e.key = tabKey := by
  have hrun : (tryRun step (start .windows .mac .physical .physical) bothAlts).map (fun t =>
      (decide (0xe6 ∈ t.source), (t.mapper.call (.key (keyEvent .keyDown tabKey) false)).2)) =
      some (true, [keyEvent .keyDown tabKey]) := by
    decide +kernel
  obtain ⟨t, ht, heq⟩ := Option.map_eq_some_iff.mp hrun
  obtain ⟨hsource, hout⟩ := Prod.mk.inj heq
  refine ⟨t, reach_of_tryRun .init ht, .inr (.inr ⟨0xe6, of_decide_eq_true hsource, by decide⟩), ?_⟩
  rw [hout]
  exact ⟨_, List.mem_singleton.mpr rfl, rfl, rfl⟩

end Typing

end NebulaDesk
