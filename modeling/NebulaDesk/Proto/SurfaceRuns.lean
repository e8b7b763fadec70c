/-
The surface registry stays a forest of never reused ids.

`SurfaceRegistry.Inv` holds after every sequence of `upsert` and `remove` calls
from the empty registry (`inv_run`).  The parent walk of `upsert` is exact: it
refuses an update that would close a cycle (`upsert_refuses_cycle`) and never
runs out of its bound (`walk_ne_some`).  `surfaceRegistry_sound` collects what
follows for every state of every run.
-/
import NebulaDesk.Proto.Surface
import NebulaDesk.Lib.Runs

namespace NebulaDesk

open Forest Runs
open Std (ExtTreeMap)

namespace SurfaceRegistry

variable {r : SurfaceRegistry} {surface : SurfaceInfo}

theorem mem_live {id : ℕ} : id ∈ r.live ↔ ∃ s, r.live[id]? = some s := by
  rw [ExtTreeMap.mem_iff_isSome_getElem?, Option.isSome_iff_exists]

theorem getElem?_insert (id a : ℕ) (s : SurfaceInfo) :
    (r.live.insert id s)[a]? = if id = a then some s else r.live[a]? := by
  simp [ExtTreeMap.getElem?_insert]

theorem up_insert (id : ℕ) (s : SurfaceInfo) (used : ℕ → Bool) :
    up ⟨r.maxSurfaces, used, r.live.insert id s⟩ =
      Function.update r.up id s.parentSurfaceId := by
  funext a
  rw [up, getElem?_insert, Function.update_apply]
  by_cases h : id = a
  · subst h
    simp
  · rw [if_neg h, if_neg (Ne.symm h)]
    rfl

theorem Inv.upsert (h : r.Inv) {r' : SurfaceRegistry}
    (hu : r.upsert surface = (.ok (), r')) : r'.Inv := by
  obtain ⟨hv, hlt, -, -, hw, rfl⟩ := upsert_ok hu
  refine ⟨h.bounded, ?_, ?_, ?_, ?_⟩
  · intro id s hs
    rw [getElem?_insert] at hs
    split at hs
    · rename_i hid
      cases hs
      subst hid
      exact ⟨rfl, hlt, by simp⟩
    · rename_i hid
      obtain ⟨h1, h2, h3⟩ := h.keyed id s hs
      refine ⟨h1, h2, ?_⟩
      show Function.update r.used surface.surfaceId true id = true
      rw [Function.update_of_ne (Ne.symm hid), h3]
  · intro id s hs
    rw [getElem?_insert] at hs
    split at hs
    · cases hs
      exact hv
    · exact h.valid id s hs
  · intro id s p hs hp
    rw [getElem?_insert] at hs
    rw [ExtTreeMap.mem_insert]
    split at hs
    · cases hs
      rw [hp] at hw
      exact Or.inr (avoids_of_walk hw).2
    · exact Or.inr (h.parents id s p hs hp)
  · rw [up_insert]
    cases hp : surface.parentSurfaceId with
    | none => exact wellFounded_cut h.forest _
    | some p =>
      rw [hp] at hw
      exact wellFounded_update h.forest (avoids_of_walk hw).1

theorem getElem?_erase (id a : ℕ) :
    (r.live.erase id)[a]? = if id = a then none else r.live[a]? := by
  simp [ExtTreeMap.getElem?_erase]

theorem Inv.remove (h : r.Inv) {id : ℕ} {r' : SurfaceRegistry}
    (hr : r.remove id = (.ok (), r')) : r'.Inv := by
  obtain ⟨hmem, hleaf, rfl⟩ := remove_ok hr
  have hsub : ∀ (a : ℕ) (s : SurfaceInfo), (r.live.erase id)[a]? = some s →
      r.live[a]? = some s := by
    intro a s hs
    rw [getElem?_erase] at hs
    split at hs
    · cases hs
    · exact hs
  refine ⟨h.bounded, fun a s hs => h.keyed a s (hsub a s hs),
    fun a s hs => h.valid a s (hsub a s hs), ?_, ?_⟩
  · intro a s p hs hp
    have hs' := hsub a s hs
    rw [ExtTreeMap.mem_erase]
    refine ⟨?_, h.parents a s p hs' hp⟩
    intro hc
    have hid : id = p := by simpa using hc
    subst hid
    exact hleaf a s hs' hp
  · refine Subrelation.wf ?_ h.forest
    intro p c hpc
    obtain ⟨s, hs, hp⟩ := Option.bind_eq_some_iff.mp hpc
    exact Option.bind_eq_some_iff.mpr ⟨s, hsub c s hs, hp⟩

/-! ### The parent walk -/

theorem climb_of_walk (h : r.Inv) {id fuel p q : ℕ} (hw : r.walk id fuel (some p) = .ok (some q)) :
    ∃ l, climb r.up fuel p = some l ∧ (∀ b ∈ l, b = q ∨ b ∈ r.live) ∧
      (p ∈ r.live → q ∈ r.live) := by
  induction fuel generalizing p with
  | zero =>
    obtain rfl := Option.some.inj (Except.ok.inj hw)
    exact ⟨[p], rfl, by simp, fun hp => hp⟩
  | succ fuel ih =>
    unfold walk at hw
    split at hw
    · cases hw
    · split at hw
      · cases hw
      · rename_i s hs
        cases hp : s.parentSurfaceId with
        | none =>
          rw [hp] at hw
          cases fuel <;> cases hw
        | some p' =>
          rw [hp] at hw
          obtain ⟨l, hl, hlive, hq⟩ := ih hw
          have hup : r.up p = some p' := by rw [up, hs]; exact hp
          refine ⟨p :: l, ?_, ?_, fun _ => hq (h.parents p s p' hs hp)⟩
          · rw [climb, hup]
            simp [hl]
          · intro b hb
            rcases List.mem_cons.mp hb with rfl | hb
            · exact Or.inr (mem_live.mpr ⟨s, hs⟩)
            · exact hlive b hb

/-- The live ids, as a finite set. -/
def ids (r : SurfaceRegistry) : Finset ℕ := r.live.keys.toFinset

theorem mem_ids {id : ℕ} : id ∈ r.ids ↔ id ∈ r.live := by
  simp [ids]

theorem card_ids_le (h : r.Inv) : r.ids.card ≤ r.maxSurfaces := by
  have hsub : r.ids ⊆ Finset.range r.maxSurfaces := by
    intro id hid
    obtain ⟨s, hs⟩ := mem_live.mp (mem_ids.mp hid)
    exact Finset.mem_range.mpr (h.keyed id s hs).2.1
  simpa using Finset.card_le_card hsub

/-- **The bound of the parent walk is never what ends it.** -/
theorem walk_ne_some (h : r.Inv) (id : ℕ) (parent : Option ℕ) (q : ℕ) :
    r.walk id maxApplicationSurfaces parent ≠ .ok (some q) := by
  intro hw
  cases parent with
  | none => cases hw
  | some p =>
    have hp : p ∈ r.live := by
      by_contra hp
      have hnone : r.live[p]? = none := ExtTreeMap.getElem?_eq_none hp
      rw [maxApplicationSurfaces, walk, hnone] at hw
      split at hw <;> cases hw
    obtain ⟨l, hl, hmem, hq⟩ := climb_of_walk h hw
    have hqlive := hq hp
    have hcard := climb_length_le (acyclic_of_wellFounded h.forest) hl (by
      intro b hb
      rcases hmem b hb with rfl | hb
      · exact mem_ids.mpr hqlive
      · exact mem_ids.mpr hb)
    have := card_ids_le h
    have := h.bounded.2
    omega

/-- **An update that would close a cycle is refused.** -/
theorem upsert_refuses_cycle (h : r.Inv)
    (hc : ¬ Acyclic (Function.update r.up surface.surfaceId surface.parentSurfaceId)) :
    ∃ e, (r.upsert surface).1 = .error e := by
  cases hu : r.upsert surface with
  | mk result r' =>
    cases result with
    | error e => exact ⟨e, rfl⟩
    | ok u =>
      have hinv := h.upsert hu
      obtain ⟨-, -, -, -, -, rfl⟩ := upsert_ok hu
      have hf := acyclic_of_wellFounded hinv.forest
      rw [up_insert] at hf
      exact absurd hf hc

/-! ### Runs -/

end SurfaceRegistry

/-- A lifecycle call on a registry. -/
inductive SurfaceOp
  | upsert (surface : SurfaceInfo)
  | remove (surfaceId : ℕ)

/-- What a generation guards. -/
def SurfaceInfo.geometry (s : SurfaceInfo) : ℕ × ℕ × F32 := (s.width, s.height, s.scale)

theorem SurfaceInfo.minScale_le {s : SurfaceInfo} (h : s.validate = .ok ()) :
    minScale.le s.scale = true := by
  unfold SurfaceInfo.validate at h
  split at h
  · cases h
  · rename_i hc
    simp only [not_or, Bool.not_eq_true', Bool.not_eq_false, Bool.and_eq_true] at hc
    exact hc.2.2.2.2.2.2.1.1

namespace SurfaceRegistry

variable {r : SurfaceRegistry} {surface : SurfaceInfo}

def apply (r : SurfaceRegistry) : SurfaceOp → Except ProtoError Unit × SurfaceRegistry
  | .upsert surface => r.upsert surface
  | .remove id => r.remove id

def step (r : SurfaceRegistry) (op : SurfaceOp) : SurfaceRegistry := (r.apply op).2

theorem apply_error {op : SurfaceOp} {e : ProtoError} (h : (r.apply op).1 = .error e) :
    (r.apply op).2 = r := by
  cases op with
  | upsert s => exact upsert_error (Prod.ext h rfl)
  | remove id => exact remove_error (Prod.ext h rfl)

theorem step_cases (r : SurfaceRegistry) (op : SurfaceOp) :
    r.step op = r ∨
      (∃ s, op = .upsert s ∧ r.upsert s = (.ok (), r.step op)) ∨
      (∃ id, op = .remove id ∧ r.remove id = (.ok (), r.step op)) := by
  cases hres : (r.apply op).1 with
  | error e => exact Or.inl (apply_error hres)
  | ok u =>
    cases op with
    | upsert s => exact Or.inr (Or.inl ⟨s, rfl, Prod.ext hres rfl⟩)
    | remove id => exact Or.inr (Or.inr ⟨id, rfl, Prod.ext hres rfl⟩)

theorem inv_step (h : r.Inv) (op : SurfaceOp) : (r.step op).Inv := by
  rcases step_cases r op with heq | ⟨s, -, hu⟩ | ⟨id, -, hr⟩
  · rw [heq]
    exact h
  · exact h.upsert hu
  · exact h.remove hr

theorem inv_run (h : r.Inv) (ops : List SurfaceOp) : (run step r ops).Inv :=
  run_invariant (P := Inv) (fun _ op hr => inv_step hr op) h ops

theorem maxSurfaces_step (r : SurfaceRegistry) (op : SurfaceOp) :
    (r.step op).maxSurfaces = r.maxSurfaces := by
  rcases step_cases r op with heq | ⟨s, -, hu⟩ | ⟨id, -, hr⟩
  · rw [heq]
  · obtain ⟨-, -, -, -, -, heq⟩ := upsert_ok hu
    rw [heq]
  · obtain ⟨-, -, heq⟩ := remove_ok hr
    rw [heq]

theorem maxSurfaces_run (r : SurfaceRegistry) (ops : List SurfaceOp) :
    (run step r ops).maxSurfaces = r.maxSurfaces :=
  run_invariant (P := fun q : SurfaceRegistry => q.maxSurfaces = r.maxSurfaces)
    (fun _ op hq => (maxSurfaces_step _ op).trans hq) rfl ops

/-- An id that was used and is no longer live. -/
def Retired (r : SurfaceRegistry) (id : ℕ) : Prop := r.used id = true ∧ id ∉ r.live

variable {id : ℕ}

theorem Retired.upsert_error (h : r.Retired id) (hid : surface.surfaceId = id) :
    ∃ e, (r.upsert surface).1 = .error e := by
  cases hu : r.upsert surface with
  | mk result r' =>
    cases result with
    | error e => exact ⟨e, rfl⟩
    | ok u =>
      obtain ⟨-, -, hused, -⟩ := upsert_ok hu
      rw [hid] at hused
      exact absurd (hused h.1) h.2

theorem Retired.step (h : r.Retired id) (op : SurfaceOp) : (r.step op).Retired id := by
  rcases step_cases r op with heq | ⟨s, -, hu⟩ | ⟨id', -, hr⟩
  · rw [heq]
    exact h
  · have hne : s.surfaceId ≠ id := by
      intro hid
      obtain ⟨e, he⟩ := h.upsert_error hid
      rw [hu] at he
      cases he
    obtain ⟨-, -, -, -, -, heq⟩ := upsert_ok hu
    rw [heq]
    refine ⟨?_, ?_⟩
    · show Function.update r.used s.surfaceId true id = true
      rw [Function.update_of_ne hne.symm, h.1]
    · rw [ExtTreeMap.mem_insert]
      rintro (hc | hc)
      · exact hne (by simpa using hc)
      · exact h.2 hc
  · obtain ⟨-, -, heq⟩ := remove_ok hr
    rw [heq]
    exact ⟨h.1, fun hc => h.2 (ExtTreeMap.mem_of_mem_erase hc)⟩

theorem Retired.run (h : r.Retired id) (ops : List SurfaceOp) :
    (Runs.run SurfaceRegistry.step r ops).Retired id :=
  run_invariant (P := fun q : SurfaceRegistry => q.Retired id) (fun _ op hq => hq.step op) h ops

theorem retired_of_remove (h : r.Inv) {r' : SurfaceRegistry}
    (hr : r.remove id = (.ok (), r')) : r'.Retired id := by
  obtain ⟨hmem, -, rfl⟩ := remove_ok hr
  obtain ⟨s, hs⟩ := mem_live.mp hmem
  exact ⟨(h.keyed id s hs).2.2, by simp⟩

/-- `s'` may follow `s` under one id: the generation does not decrease, and
grows if the geometry changed. -/
def Follows (s s' : SurfaceInfo) : Prop :=
  s.geometryGeneration ≤ s'.geometryGeneration ∧
    (s.geometry ≠ s'.geometry → s.geometryGeneration < s'.geometryGeneration)

theorem Follows.trans {s t u : SurfaceInfo} (h : Follows s t) (h' : Follows t u) : Follows s u := by
  refine ⟨le_trans h.1 h'.1, fun hne => ?_⟩
  by_cases hst : s.geometry = t.geometry
  · exact lt_of_le_of_lt h.1 (h'.2 (hst ▸ hne))
  · exact lt_of_lt_of_le (h.2 hst) h'.1

theorem follows_of_upsert (h : r.Inv) {s : SurfaceInfo} {r' : SurfaceRegistry}
    (hu : r.upsert surface = (.ok (), r')) (hs : r.live[surface.surfaceId]? = some s) :
    Follows s surface := by
  obtain ⟨hv, -, -, hstale, -, -⟩ := upsert_ok hu
  have hscale : s.scale.feq surface.scale = true ↔ s.scale = surface.scale :=
    F32.feq_iff_of_le (by decide) (SurfaceInfo.minScale_le (h.valid _ s hs))
      (SurfaceInfo.minScale_le hv)
  rw [staleGeometry, hs] at hstale
  simp only [Bool.or_eq_false_iff, decide_eq_false_iff_not, Bool.and_eq_false_imp,
    Bool.or_eq_true, decide_eq_true_eq, Bool.not_eq_true', not_lt] at hstale
  refine ⟨hstale.1, fun hne => lt_of_le_of_ne hstale.1 ?_⟩
  have hchanged : (s.width ≠ surface.width ∨ s.height ≠ surface.height) ∨
      s.scale.feq surface.scale = false := by
    by_contra hc
    push Not at hc
    refine hne ?_
    rw [SurfaceInfo.geometry, SurfaceInfo.geometry, hc.1.1, hc.1.2,
      hscale.mp (by simpa using hc.2)]
  exact fun heq => hstale.2 hchanged heq.symm

theorem follows_step (h : r.Inv) (op : SurfaceOp) {s s' : SurfaceInfo}
    (hs : r.live[id]? = some s) (hs' : (r.step op).live[id]? = some s') : Follows s s' := by
  have hrefl : ∀ t, r.live[id]? = some t → Follows s t := by
    intro t ht
    rw [hs] at ht
    cases ht
    exact ⟨le_rfl, fun hne => absurd rfl hne⟩
  rcases step_cases r op with heq | ⟨t, -, hu⟩ | ⟨id', -, hr⟩
  · rw [heq] at hs'
    exact hrefl s' hs'
  · have hup := follows_of_upsert h (s := s) hu
    obtain ⟨-, -, -, -, -, heq⟩ := upsert_ok hu
    rw [heq, getElem?_insert] at hs'
    split at hs'
    · rename_i hid
      cases hs'
      exact hup (hid ▸ hs)
    · exact hrefl s' hs'
  · obtain ⟨-, -, heq⟩ := remove_ok hr
    rw [heq, getElem?_erase] at hs'
    split at hs'
    · cases hs'
    · exact hrefl s' hs'

/-- Over any run the generation of an id never decreases, and grows when the
geometry it guards changed. -/
theorem follows_run (h : r.Inv) (ops : List SurfaceOp) {s s' : SurfaceInfo}
    (hs : r.live[id]? = some s) (hs' : (run step r ops).live[id]? = some s') : Follows s s' := by
  induction ops generalizing r s with
  | nil =>
    rw [run_nil, hs] at hs'
    cases hs'
    exact ⟨le_rfl, fun hne => absurd rfl hne⟩
  | cons op ops ih =>
    rw [run_cons] at hs'
    cases hmid : (r.step op).live[id]? with
    | some t => exact (follows_step h op hs hmid).trans (ih (inv_step h op) hmid hs')
    | none =>
      -- The id was retired by this step, so it cannot be live at the end.
      have hgone : id ∉ (r.step op).live := by
        intro hc
        obtain ⟨t, ht⟩ := mem_live.mp hc
        rw [hmid] at ht
        cases ht
      have hret : (r.step op).Retired id := by
        rcases step_cases r op with heq | ⟨t, -, hu⟩ | ⟨id', -, hr⟩
        · rw [heq, hs] at hmid
          cases hmid
        · obtain ⟨-, -, -, -, -, heq⟩ := upsert_ok hu
          rw [heq, getElem?_insert] at hmid
          split at hmid
          · cases hmid
          · rw [hs] at hmid
            cases hmid
        · refine ⟨?_, hgone⟩
          obtain ⟨-, -, heq⟩ := remove_ok hr
          rw [heq]
          exact (h.keyed id s hs).2.2
      exact absurd (mem_live.mpr ⟨s', hs'⟩) (hret.run ops).2

/-- What the registry guarantees after a run. -/
structure Sound (r : SurfaceRegistry) : Prop where
  parents : ∀ (id : ℕ) (s : SurfaceInfo) (p : ℕ), r.live[id]? = some s →
    s.parentSurfaceId = some p → p ∈ r.live
  acyclic : Acyclic r.up
  counts : r.live.size ≤ r.maxSurfaces ∧ r.maxSurfaces ≤ maxApplicationSurfaces ∧
    ∀ id ∈ r.live, id < r.maxSurfaces
  retired : ∀ id later, (r.remove id).1 = .ok () →
    ∀ s : SurfaceInfo, s.surfaceId = id →
      ∃ e, ((run step (r.remove id).2 later).upsert s).1 = .error e
  generations : ∀ (later : List SurfaceOp) (id : ℕ) (s s' : SurfaceInfo), r.live[id]? = some s →
    (run step r later).live[id]? = some s' → Follows s s'
  refused : ∀ op e, (r.apply op).1 = .error e → (r.apply op).2 = r
  walk : ∀ id parent q, r.walk id maxApplicationSurfaces parent ≠ .ok (some q)
  cycles : ∀ s : SurfaceInfo, ¬ Acyclic (Function.update r.up s.surfaceId s.parentSurfaceId) →
    ∃ e, (r.upsert s).1 = .error e

theorem sound_of_inv (h : r.Inv) : r.Sound where
  parents := h.parents
  acyclic := acyclic_of_wellFounded h.forest
  counts := by
    refine ⟨?_, h.bounded.2, ?_⟩
    · have hcard : r.ids.card = r.live.size := by
        rw [ids, List.toFinset_card_of_nodup ExtTreeMap.nodup_keys, ExtTreeMap.length_keys]
      rw [← hcard]
      exact card_ids_le h
    · intro id hid
      obtain ⟨s, hs⟩ := mem_live.mp hid
      exact (h.keyed id s hs).2.1
  retired := by
    intro id later hok s hid
    exact ((retired_of_remove h (Prod.ext hok rfl)).run later).upsert_error hid
  generations := by
    intro later id s s' hs hs'
    exact follows_run h later hs hs'
  refused := fun op e he => apply_error he
  walk := fun id parent q => walk_ne_some h id parent q
  cycles := fun s hc => upsert_refuses_cycle h hc

end SurfaceRegistry

open SurfaceRegistry in
/-- **The surface registry is sound** after every sequence of calls from the
empty registry, whatever each call returned. -/
theorem surfaceRegistry_sound {n : ℕ} {r : SurfaceRegistry}
    (hnew : SurfaceRegistry.new n = .ok r) (ops : List SurfaceOp) :
    (run step r ops).Sound ∧ (run step r ops).maxSurfaces = n := by
  obtain ⟨hinv, hmax⟩ := inv_new hnew
  exact ⟨sound_of_inv (inv_run hinv ops), (maxSurfaces_run r ops).trans hmax⟩

/-- A window of the given id, parent and generation. -/
def SurfaceInfo.sample (id : ℕ) (parent : Option ℕ) (generation : ℕ) : SurfaceInfo :=
  ⟨id, generation, [], 640, 480, ⟨0x3f800000⟩, parent, parent.isSome, false⟩

open SurfaceRegistry in
/-- A dialog opened over a window, then closed; its id is spent. -/
theorem surfaceRegistry_sound_dialog :
    let r : SurfaceRegistry := ⟨2, fun _ => false, ∅⟩
    let ops : List SurfaceOp := [.upsert (.sample 0 none 1), .upsert (.sample 1 (some 0) 1),
      .remove 0, .remove 1, .upsert (.sample 1 none 2)]
    SurfaceRegistry.new 2 = .ok r ∧ (run step r ops).live.keys = [0] ∧
      (run step r ops).Sound ∧ (run step r ops).maxSurfaces = 2 :=
  ⟨rfl, by decide +kernel, surfaceRegistry_sound rfl _⟩

end NebulaDesk
