/-
Which snapshots `reconcile` accepts (`nebula-agent/src/application.rs`).

A snapshot is judged against the windows now live, seen here by their native ids:
`window` is the live surface of a native window and `above` its recorded parent.
The first loop retires the windows that are gone, which works out unless one that
stays was recorded under one that goes (`KeepsParents`).  The second announces
the snapshot in `announceOrder`, each window at the moment its parent is known,
which works out unless the links recorded by then place that parent below the
window itself (`Untangled`).
-/
import NebulaDesk.Agent.SurfacesRuns

namespace NebulaDesk

open Forest
open Std (ExtTreeMap)

/-- The parent each window of a snapshot reports. -/
def parentIn (snapshot : List NativeSurface) (n : ℕ) : Option ℕ :=
  (snapshot.find? (·.nativeId = n)).bind (·.parent)

/-- Metadata a surface may be announced with, whatever its title. -/
structure Presentable (s : NativeSurface) : Prop where
  generation : s.geometryGeneration ≠ 0
  size : validSize s.width s.height = true
  finite : s.scale.isFinite = true
  scale : (minScale.le s.scale && s.scale.le maxScale) = true

/-- The generation did not decrease, and increased with every change of geometry. -/
def Fresher (old s : NativeSurface) : Prop :=
  old.geometryGeneration ≤ s.geometryGeneration ∧
    ((old.width ≠ s.width ∨ old.height ≠ s.height ∨ old.scale.feq s.scale = false) →
      old.geometryGeneration < s.geometryGeneration)

/-- The windows of a snapshot in the order `reconcile` announces them: always the
first one whose parent is known. -/
def announceOrder : ℕ → (ℕ → Bool) → List NativeSurface → List NativeSurface
  | 0, _, _ => []
  | fuel + 1, known, pending =>
    match pending.findIdx? fun s => s.parent.all known with
    | none => []
    | some position =>
      match pending[position]? with
      | none => []
      | some s =>
        s :: announceOrder fuel (fun n => n = s.nativeId || known n) (pending.eraseIdx position)

/-- Each window is announced under a parent that the links recorded by then do
not place below it. -/
def Untangled (above : ℕ → Option ℕ) : List NativeSurface → Prop
  | [] => True
  | s :: rest =>
    (∀ p, s.parent = some p → Avoids above s.nativeId p) ∧
      Untangled (Function.update above s.nativeId s.parent) rest

namespace Surfaces

variable {st st₁ : Surfaces}

/-- The live surface of a native window. -/
def window (st : Surfaces) (n : ℕ) : Option NativeSurface := st.native[n]?.bind (st.live[·]?)

/-- The parent recorded for a native window. -/
def above (st : Surfaces) (n : ℕ) : Option ℕ := (st.window n).bind (·.parent)

/-- Whether a native window has an id. -/
def knows (st : Surfaces) (n : ℕ) : Bool := st.native.contains n

theorem Inv.window_eq (h : st.Inv) {n : ℕ} :
    st.window n = some s ↔ ∃ id : ℕ, st.live[id]? = some s ∧ s.nativeId = n := by
  constructor
  · intro hw
    obtain ⟨id, hid, hs⟩ := Option.bind_eq_some_iff.mp hw
    exact ⟨id, hs, h.injective _ _ id (h.windows id s hs) hid⟩
  · rintro ⟨id, hs, rfl⟩
    exact Option.bind_eq_some_iff.mpr ⟨id, h.windows id s hs, hs⟩

theorem knows_iff (hfull : st.Full) {n : ℕ} : st.knows n = true ↔ ∃ s, st.window n = some s := by
  unfold knows window
  rw [ExtTreeMap.contains_iff_mem, ExtTreeMap.mem_iff_isSome_getElem?]
  constructor
  · intro hsome
    obtain ⟨id, hid⟩ := Option.isSome_iff_exists.mp hsome
    obtain ⟨s, hs⟩ := hfull n id hid
    exact ⟨s, by rw [hid]; exact hs⟩
  · rintro ⟨s, hs⟩
    obtain ⟨id, hid, -⟩ := Option.bind_eq_some_iff.mp hs
    rw [hid]
    rfl

/-- The ids handed out are below the next one, and all of them may be used. -/
structure Seated (st : Surfaces) : Prop where
  max : st.registry.maxSurfaces = maxApplicationSurfaces
  used : ∀ id, st.registry.used id = true → id < st.next

theorem seated_new : new.Seated := ⟨rfl, nofun⟩

theorem Seated.retire (h : st.Seated) (hinv : st.Inv) (leaf : ℕ) : (st.retire leaf).2.Seated := by
  rcases retire_cases hinv leaf with ⟨e, he⟩ | ⟨old, -, r, hr, heq⟩
  · rw [he]
    exact h
  · rw [heq]
    obtain ⟨-, -, rfl⟩ := SurfaceRegistry.remove_ok hr
    exact ⟨h.max, h.used⟩

theorem Seated.announce (h : st.Seated) (hinv : st.Inv) (surface : NativeSurface) :
    (st.announce surface).2.Seated := by
  simp only [Surfaces.announce]
  cases ha : st.allocate (clean surface).nativeId with
  | mk result st₁ =>
    cases result with
    | error e =>
      obtain ⟨rfl, -⟩ := allocate_error ha
      exact h
    | ok id =>
      obtain ⟨hinv₁, hreg, -, hnative, -⟩ := allocate_ok hinv ha
      have hnext : st.next ≤ st₁.next := by
        unfold allocate at ha
        split at ha
        · cases ha
          exact le_rfl
        · split at ha
          · cases ha
            exact Nat.le_succ _
          · cases ha
      have h₁ : st₁.Seated := by
        constructor
        · rw [hreg]
          exact h.max
        · intro i hi
          rw [hreg] at hi
          exact lt_of_lt_of_le (h.used i hi) hnext
      dsimp only
      cases hu : st₁.registry.upsert (st₁.infoOf id (clean surface)) with
      | mk result r =>
        cases result with
        | error e =>
          obtain rfl := SurfaceRegistry.upsert_error hu
          exact h₁
        | ok u =>
          have hseated : Seated { st₁ with registry := r } := by
            obtain ⟨-, -, -, -, -, rfl⟩ := SurfaceRegistry.upsert_ok hu
            refine ⟨h₁.max, ?_⟩
            intro i hi
            by_cases hid : i = id
            · rw [hid]
              exact hinv₁.allocated _ id hnative
            · exact h₁.used i (by simpa [Function.update_of_ne hid, infoOf] using hi)
          dsimp only
          split
          · exact hseated
          · exact ⟨hseated.max, hseated.used⟩

/-! ### Retiring -/

theorem isLeaf_iff {id : ℕ} : st.isLeaf id = true ↔
    ∀ (c : ℕ) (s : NativeSurface), st.live[c]? = some s → s.parent.bind (st.native[·]?) ≠ some id := by
  unfold isLeaf
  rw [Bool.not_eq_true', List.any_eq_false]
  constructor
  · intro h c s hs
    simpa using h (c, s) (ExtTreeMap.mem_toList_iff_getElem?_eq_some.mpr hs)
  · rintro h ⟨c, s⟩ hmem
    simpa using h c s (ExtTreeMap.mem_toList_iff_getElem?_eq_some.mp hmem)

theorem retire_leaf (h : st.Inv) {leaf : ℕ} {old : NativeSurface}
    (hold : st.live[leaf]? = some old) (hleaf : st.isLeaf leaf = true) :
    ∃ r, st.registry.remove leaf = (.ok (), r) ∧ st.retire leaf =
      (.ok (.surfaceRemove leaf),
        { st with
          registry := r
          live := st.live.erase leaf
          native := st.native.erase old.nativeId
          retired := insert old.nativeId st.retired }) := by
  have hmem : leaf ∈ st.registry.live := by
    refine SurfaceRegistry.mem_live.mpr ⟨st.infoOf leaf old, ?_⟩
    rw [h.mirror, hold]
    rfl
  have hchild : st.registry.live.toList.any
      (fun x => x.2.parentSurfaceId = some leaf) = false := by
    rw [List.any_eq_false]
    rintro ⟨c, info⟩ hc
    have hinfo := ExtTreeMap.mem_toList_iff_getElem?_eq_some.mp hc
    rw [h.mirror] at hinfo
    obtain ⟨s, hs, rfl⟩ := Option.map_eq_some_iff.mp hinfo
    show ¬ decide ((st.infoOf c s).parentSurfaceId = some leaf) = true
    rw [decide_eq_true_iff]
    exact isLeaf_iff.mp hleaf c s hs
  have hremove : st.registry.remove leaf =
      (.ok (), { st.registry with live := st.registry.live.erase leaf }) := by
    have hcontains : st.registry.live.contains leaf = true := hmem
    rw [SurfaceRegistry.remove, hchild, hcontains]
    rfl
  exact ⟨_, hremove, by rw [retire, hremove, hold]⟩

/-- The first loop at work: `removed` are the live ids of the windows that are gone. -/
structure Retiring (st : Surfaces) (present : Finset ℕ) (removed : List ℕ) : Prop where
  inv : st.Inv
  full : st.Full
  seated : st.Seated
  nodup : removed.Nodup
  mem : ∀ id, id ∈ removed ↔ ∃ s, st.live[id]? = some s ∧ s.nativeId ∉ present

/-- Every window that stays was recorded under one that stays too, or under none. -/
def KeepsParents (st : Surfaces) (present : Finset ℕ) : Prop :=
  ∀ n ∈ present, ∀ p, st.above n = some p → p ∈ present

theorem Retiring.retire (h : Retiring st present removed) {leaf : ℕ}
    (hmem : leaf ∈ removed) (hleaf : st.isLeaf leaf = true) :
    ∃ message st₁, st.retire leaf = (.ok message, st₁) ∧
      Retiring st₁ present (removed.erase leaf) ∧ st₁.next = st.next ∧
      ∀ n ∈ present, st₁.window n = st.window n := by
  obtain ⟨old, hold, hgone⟩ := (h.mem leaf).mp hmem
  obtain ⟨r, hr, heq⟩ := retire_leaf h.inv hold hleaf
  have hround := round_retire h.inv leaf
  have hseated := h.seated.retire h.inv leaf
  rw [heq] at hround hseated
  refine ⟨_, _, heq, ⟨hround.inv, (hround.sent _ rfl).2 h.full, hseated,
    h.nodup.erase leaf, ?_⟩, rfl, ?_⟩
  · intro id
    rw [h.nodup.mem_erase_iff, h.mem]
    simp only [getElem?_live_erase]
    constructor
    · rintro ⟨hne, s, hs, hs'⟩
      exact ⟨s, by rw [if_neg (Ne.symm hne)]; exact hs, hs'⟩
    · rintro ⟨s, hs, hs'⟩
      split at hs
      · cases hs
      · rename_i hne
        exact ⟨Ne.symm hne, s, hs, hs'⟩
  · -- a window that stays is neither the leaf nor under its native id
    intro n hn
    have hne : old.nativeId ≠ n := by
      rintro rfl
      exact hgone hn
    unfold window
    simp only [getElem?_native_erase, if_neg hne]
    cases hid : st.native[n]? with
    | none => rfl
    | some id =>
      have hleafne : leaf ≠ id := by
        rintro rfl
        exact hne (h.inv.injective _ _ _ (h.inv.windows _ old hold) hid)
      exact (getElem?_live_erase _ _).trans (if_neg hleafne)

theorem Retiring.exists_leaf (h : Retiring st present removed) (hkeeps : st.KeepsParents present)
    (hne : removed ≠ []) : ∃ leaf ∈ removed, st.isLeaf leaf = true := by
  have hnonempty : removed.toFinset.Nonempty := by
    rw [List.toFinset_nonempty_iff]
    exact hne
  obtain ⟨leaf, hmem, hleaf⟩ :=
    Forest.exists_leaf (acyclic_of_wellFounded h.inv.registry.forest) hnonempty
  rw [List.mem_toFinset] at hmem
  refine ⟨leaf, hmem, isLeaf_iff.mpr ?_⟩
  intro c s hs hparent
  have hup : st.registry.up c = some leaf := by
    rw [SurfaceRegistry.up, h.inv.mirror, hs]
    exact hparent
  by_cases hc : c ∈ removed
  · exact hleaf c (List.mem_toFinset.mpr hc) hup
  · -- a window that stays, under one that goes
    obtain ⟨old, hold, hgone⟩ := (h.mem leaf).mp hmem
    have hstays : s.nativeId ∈ present := by
      by_contra hs'
      exact hc ((h.mem c).mpr ⟨s, hs, hs'⟩)
    obtain ⟨p, hp, hnative⟩ := Option.bind_eq_some_iff.mp hparent
    have habove : st.above s.nativeId = some p := by
      rw [above, h.inv.window_eq.mpr ⟨c, hs, rfl⟩]
      exact hp
    have hold' : old.nativeId = p := h.inv.injective _ _ _ (h.inv.windows leaf old hold) hnative
    exact hgone (hold' ▸ hkeeps _ hstays p habove)

theorem KeepsParents.congr (h : ∀ n ∈ present, st₁.window n = st.window n) :
    st₁.KeepsParents present ↔ st.KeepsParents present := by
  unfold KeepsParents above
  constructor
  · intro hk n hn p hp
    exact hk n hn p (by rw [h n hn]; exact hp)
  · intro hk n hn p hp
    exact hk n hn p (by rw [← h n hn]; exact hp)

/-- What the first loop leaves: the windows that stay, as they were. -/
structure Remaining (st st₁ : Surfaces) (present : Finset ℕ) : Prop where
  inv : st₁.Inv
  full : st₁.Full
  seated : st₁.Seated
  next : st₁.next = st.next
  kept : ∀ n ∈ present, st₁.window n = st.window n
  only : ∀ n s, st₁.window n = some s → n ∈ present

theorem retireAll_keeps (h : Retiring st present removed)
    (hkeeps : st.KeepsParents present) (messages : List ApplicationMessage) :
    ∃ sent st₁, retireAll removed.length st removed messages = (.ok sent, st₁) ∧
      Remaining st st₁ present := by
  induction hlen : removed.length generalizing st removed messages with
  | zero =>
    have hnil : removed = [] := List.eq_nil_of_length_eq_zero hlen
    refine ⟨messages, st, rfl, h.inv, h.full, h.seated, rfl, fun _ _ => rfl, ?_⟩
    intro n s hs
    obtain ⟨id, hid, rfl⟩ := h.inv.window_eq.mp hs
    by_contra hgone
    have hmem := (h.mem id).mpr ⟨s, hid, hgone⟩
    rw [hnil] at hmem
    cases hmem
  | succ len ih =>
    have hne : removed ≠ [] := by
      rintro rfl
      cases hlen
    obtain ⟨leaf₀, hmem₀, hleaf₀⟩ := h.exists_leaf hkeeps hne
    have hempty : removed.isEmpty = false := by simpa using hne
    have hfound : (removed.find? st.isLeaf).isSome = true :=
      List.find?_isSome.mpr ⟨leaf₀, hmem₀, hleaf₀⟩
    obtain ⟨leaf, hfind⟩ := Option.isSome_iff_exists.mp hfound
    have hmem := List.mem_of_find?_eq_some hfind
    obtain ⟨message, st₁, hretire, h₁, hnext, hkept⟩ :=
      h.retire hmem (List.find?_some hfind)
    obtain ⟨sent, st₂, hrest, hremaining⟩ := ih h₁ ((KeepsParents.congr hkept).mpr hkeeps)
      (messages ++ [message]) (by rw [List.length_erase_of_mem hmem, hlen]; rfl)
    refine ⟨sent, st₂, ?_, hremaining.inv, hremaining.full, hremaining.seated,
      hremaining.next.trans hnext, ?_, hremaining.only⟩
    · rw [retireAll, hempty, hfind]
      simp only [Bool.false_eq_true, if_false, hretire]
      exact hrest
    · intro n hn
      rw [hremaining.kept n hn, hkept n hn]

/-- The first loop, when one does: the parent it lost never becomes a leaf. -/
theorem retireAll_orphans (h : Retiring st present removed)
    (hkeeps : ¬ st.KeepsParents present) (messages : List ApplicationMessage) :
    (retireAll removed.length st removed messages).1 =
      .error (.text "invalid native parent removal") := by
  induction hlen : removed.length generalizing st removed messages with
  | zero =>
    have hnil : removed = [] := List.eq_nil_of_length_eq_zero hlen
    unfold KeepsParents at hkeeps
    push Not at hkeeps
    obtain ⟨n, -, p, hp, hgone⟩ := hkeeps
    obtain ⟨s, hs, hparent⟩ := Option.bind_eq_some_iff.mp hp
    obtain ⟨id, hid, rfl⟩ := h.inv.window_eq.mp hs
    obtain ⟨q, hq⟩ := h.inv.parents id s p hid hparent
    obtain ⟨t, ht⟩ := h.full p q hq
    have htp : t.nativeId = p := h.inv.injective _ _ q (h.inv.windows q t ht) hq
    have hmem := (h.mem q).mpr ⟨t, ht, by rw [htp]; exact hgone⟩
    rw [hnil] at hmem
    cases hmem
  | succ len ih =>
    have hempty : removed.isEmpty = false := by
      cases removed with
      | nil => cases hlen
      | cons => rfl
    rw [retireAll, hempty]
    simp only [Bool.false_eq_true, if_false]
    cases hfind : removed.find? st.isLeaf with
    | none => rfl
    | some leaf =>
      have hmem := List.mem_of_find?_eq_some hfind
      obtain ⟨message, st₁, hretire, h₁, -, hkept⟩ := h.retire hmem (List.find?_some hfind)
      simp only [hretire]
      refine ih h₁ ?_ _ (by rw [List.length_erase_of_mem hmem, hlen]; rfl)
      rw [KeepsParents.congr hkept]
      exact hkeeps

/-! ### Announcing one window -/

theorem trimTitle_len {fuel : ℕ} {title : Text} (h : title.length ≤ fuel) :
    (trimTitle fuel title).len ≤ maxSurfaceTitleBytes := by
  induction fuel generalizing title with
  | zero =>
    have hnil : title = [] := List.eq_nil_of_length_eq_zero (Nat.le_zero.mp h)
    rw [hnil, trimTitle]
    exact Nat.zero_le _
  | succ fuel ih =>
    rw [trimTitle]
    split
    · refine ih ?_
      rw [List.length_dropLast]
      omega
    · rename_i hle
      omega

theorem mem_of_mem_trimTitle {fuel : ℕ} {title : Text} {c : Char}
    (h : c ∈ trimTitle fuel title) : c ∈ title := by
  induction fuel generalizing title with
  | zero => exact h
  | succ fuel ih =>
    rw [trimTitle] at h
    split at h
    · exact List.dropLast_subset _ (ih h)
    · exact h

/-- A cleaned surface passes the checks of the registry, under an id and a parent
id in range. -/
theorem validate_clean (h : Presentable s) {id : ℕ} (hid : id < maxApplicationSurfaces)
    (hparent : ∀ q, s.parent.bind (st.native[·]?) = some q → q < maxApplicationSurfaces ∧ q ≠ id) :
    (st.infoOf id (clean s)).validate = .ok () := by
  have htitle : (clean s).title.len ≤ maxSurfaceTitleBytes := trimTitle_len le_rfl
  have hcontrol : (clean s).title.any isControl = false := by
    rw [List.any_eq_false]
    intro c hc
    have hmem := List.mem_filter.mp (mem_of_mem_trimTitle hc)
    simpa using hmem.2
  unfold SurfaceInfo.validate
  rw [if_neg]
  rintro (hbad | hbad | hbad | hbad | hbad | hbad | hbad | hbad)
  · exact absurd hbad (Nat.not_le.mpr hid)
  · exact h.generation hbad
  · exact absurd htitle (Nat.not_le.mpr hbad)
  · exact absurd (hcontrol.symm.trans hbad) (by decide)
  · have hsize : validSize (clean s).width (clean s).height = true := h.size
    rw [show (st.infoOf id (clean s)).width = (clean s).width from rfl,
      show (st.infoOf id (clean s)).height = (clean s).height from rfl, hsize] at hbad
    exact absurd hbad (by decide)
  · rw [show (st.infoOf id (clean s)).scale = s.scale from rfl, h.finite] at hbad
    exact absurd hbad (by decide)
  · rw [show (st.infoOf id (clean s)).scale = s.scale from rfl, h.scale] at hbad
    exact absurd hbad (by decide)
  · obtain ⟨q, hq, hbad⟩ := (Option.any_eq_true _ _).mp hbad
    obtain ⟨hlt, hne⟩ := hparent q hq
    rcases Bool.or_eq_true_iff.mp hbad with hge | heq
    · exact absurd (of_decide_eq_true hge) (Nat.not_le.mpr hlt)
    · exact hne (of_decide_eq_true heq)

theorem Inv.walk_avoids (h : st.Inv) {x id : ℕ} (hx : st.native[x]? = some id)
    (hseen : ∀ p q : ℕ, st.native[p]? = some q → p ≠ x → ∃ s, st.live[q]? = some s)
    {p q : ℕ} (hq : st.native[p]? = some q) (ha : Avoids st.above x p) (fuel : ℕ)
    (e : ProtoError) : st.registry.walk id fuel (some q) ≠ .error e := by
  -- one step of the walk, at a node that is not `x`
  have hnode : ∀ a q : ℕ, st.native[a]? = some q → a ≠ x → ∃ t, st.above a = t.parent ∧
      q ≠ id ∧ st.registry.live[q]? = some (st.infoOf q t) ∧ st.live[q]? = some t := by
    intro a q hq hne
    obtain ⟨t, ht⟩ := hseen a q hq hne
    refine ⟨t, ?_, ?_, ?_, ht⟩
    · rw [above, window, hq]
      show (st.live[q]?).bind _ = _
      rw [ht]
      rfl
    · rintro rfl
      exact hne (h.injective _ _ _ hq hx)
    · rw [h.mirror, ht]
      rfl
  induction ha generalizing q fuel with
  | root hne hup =>
    cases fuel with
    | zero => exact fun hw => by cases hw
    | succ fuel =>
      obtain ⟨t, habove, hid, hlive, -⟩ := hnode _ q hq hne
      rw [hup] at habove
      have hnone : (st.infoOf q t).parentSurfaceId = none := by
        rw [infoOf, ← habove]
        rfl
      rw [SurfaceRegistry.walk, if_neg hid, hlive]
      simp only [hnone]
      cases fuel <;> exact fun hw => by cases hw
  | step hne hup _ ih =>
    rename_i a b _
    cases fuel with
    | zero => exact fun hw => by cases hw
    | succ fuel =>
      obtain ⟨t, habove, hid, hlive, ht⟩ := hnode _ q hq hne
      rw [hup] at habove
      obtain ⟨q', hq'⟩ := h.parents q t _ ht habove.symm
      have hparent : (st.infoOf q t).parentSurfaceId = some q' := by
        rw [infoOf, ← habove]
        exact hq'
      rw [SurfaceRegistry.walk, if_neg hid, hlive]
      simp only [hparent]
      exact ih hq' fuel

theorem upsert_clean (h : st.Inv) (hseated : st.Seated) {id : ℕ}
    (hs : Presentable s) (hnative : st.native[s.nativeId]? = some id)
    (hid : id < maxApplicationSurfaces)
    (hseen : ∀ p q : ℕ, st.native[p]? = some q → p ≠ s.nativeId → ∃ t, st.live[q]? = some t)
    (hused : st.registry.used id = true → ∃ t, st.live[id]? = some t)
    (hfresh : ∀ old, st.live[id]? = some old → Fresher old s)
    (hparent : ∀ p, s.parent = some p →
      (∃ q, st.native[p]? = some q) ∧ Avoids st.above s.nativeId p) :
    ∃ r, st.registry.upsert (st.infoOf id (clean s)) = (.ok (), r) := by
  have hvalid : (st.infoOf id (clean s)).validate = .ok () := by
    refine validate_clean hs hid ?_
    intro q hq
    obtain ⟨p, hp, hnat⟩ := Option.bind_eq_some_iff.mp hq
    obtain ⟨-, havoid⟩ := hparent p hp
    obtain ⟨t, ht⟩ := hseen p q hnat havoid.ne
    have hinfo : st.registry.live[q]? = some (st.infoOf q t) := by rw [h.mirror, ht]; rfl
    refine ⟨lt_of_lt_of_le (h.registry.keyed q _ hinfo).2.1 h.registry.bounded.2, ?_⟩
    rintro rfl
    exact havoid.ne (h.injective _ _ _ hnat hnative)
  have hlive : ∀ t, st.live[id]? = some t → st.registry.live[id]? = some (st.infoOf id t) := by
    intro t ht
    rw [h.mirror, ht]
    rfl
  have hstale : st.registry.staleGeometry (st.infoOf id (clean s)) = false := by
    unfold SurfaceRegistry.staleGeometry
    dsimp only [infoOf, clean]
    cases hold : st.registry.live[id]? with
    | none => rfl
    | some previous =>
      rw [h.mirror] at hold
      obtain ⟨old, hold', rfl⟩ := Option.map_eq_some_iff.mp hold
      obtain ⟨hle, hlt⟩ := hfresh old hold'
      simp only [infoOf, Bool.or_eq_false_iff, Bool.and_eq_false_iff]
      refine ⟨decide_eq_false (Nat.not_lt.mpr hle), ?_⟩
      by_cases hgeo : old.width ≠ s.width ∨ old.height ≠ s.height ∨ old.scale.feq s.scale = false
      · exact .inr (decide_eq_false (Nat.ne_of_gt (hlt hgeo)))
      · push Not at hgeo
        obtain ⟨hw, hh, hsc⟩ := hgeo
        left
        simp [hw, hh, hsc]
  have hwalk : st.registry.walk id maxApplicationSurfaces
      (st.infoOf id (clean s)).parentSurfaceId = .ok none := by
    cases hp : s.parent with
    | none =>
      have hnone : (st.infoOf id (clean s)).parentSurfaceId = none := by
        show s.parent.bind _ = none
        rw [hp]
        rfl
      rw [hnone]
      rfl
    | some p =>
      obtain ⟨⟨q, hq⟩, havoid⟩ := hparent p hp
      have hsome : (st.infoOf id (clean s)).parentSurfaceId = some q := by
        show s.parent.bind _ = some q
        rw [hp]
        exact hq
      rw [hsome]
      cases hw : st.registry.walk id maxApplicationSurfaces (some q) with
      | error e => exact absurd hw (h.walk_avoids hnative hseen hq havoid _ e)
      | ok result =>
        cases result with
        | none => rfl
        | some q' => exact absurd hw (SurfaceRegistry.walk_ne_some h.registry id _ q')
  have hrange : ¬ ((st.infoOf id (clean s)).surfaceId ≥ st.registry.maxSurfaces ∨
      (st.registry.used (st.infoOf id (clean s)).surfaceId ∧
        (st.infoOf id (clean s)).surfaceId ∉ st.registry.live)) := by
    rintro (hge | ⟨hu, hnot⟩)
    · rw [hseated.max] at hge
      exact absurd hid (Nat.not_lt.mpr hge)
    · obtain ⟨t, ht⟩ := hused hu
      exact hnot (SurfaceRegistry.mem_live.mpr ⟨_, hlive t ht⟩)
  unfold SurfaceRegistry.upsert
  rw [hvalid]
  simp only [if_neg hrange, hstale, Bool.false_eq_true, if_false]
  rw [show (st.infoOf id (clean s)).surfaceId = id from rfl, hwalk]
  exact ⟨_, rfl⟩

end Surfaces

end NebulaDesk
