/-
A macOS session: each snapshot is reconciled (`nebula-agent/src/application.rs`,
`Runtime::refresh`).

`Mirrors` is what `Surfaces` knows of the application's windows after each call.

* **`snapshots_well_formed`** — over every run of coherent answers, the snapshots are
  well formed, ids keep their windows, and `reconcile` fails at none but its limits;
* **`snapshot_malformed`** — a remembered sheet whose parent has vanished, a sheet of a
  sheet that is left out, and two windows that are sheets of each other.
-/
import NebulaDesk.Agent.MacRuns

namespace NebulaDesk

open Std (ExtTreeMap)
open Relation (TransGen ReflTransGen)
open Forest

namespace Surfaces

variable {st : Surfaces} {n : ℕ}

theorem retireAll_retired {fuel : ℕ} {removed : List ℕ} {messages : List ApplicationMessage}
    (h : n ∈ (retireAll fuel st removed messages).2.retired) :
    n ∈ st.retired ∨ ∃ id ∈ removed, ∃ s, st.live[id]? = some s ∧ s.nativeId = n := by
  induction fuel generalizing st removed messages with
  | zero => exact .inl h
  | succ fuel ih =>
    unfold retireAll at h
    split at h
    · exact .inl h
    · split at h
      · exact .inl h
      · next leaf hfind =>
        have hleaf := List.mem_of_find?_eq_some hfind
        unfold retire at h
        split at h
        · next heq =>
          split at heq
          · cases heq
            exact .inl h
          · split at heq
            · cases heq
              exact .inl h
            · cases heq
        · next heq =>
          split at heq
          · cases heq
          · split at heq
            · cases heq
            · next old hold =>
              cases heq
              rcases ih h with hret | ⟨id, hid, s, hs, hn⟩
              · rcases Finset.mem_insert.mp hret with rfl | hret
                · exact .inr ⟨leaf, hleaf, old, hold, rfl⟩
                · exact .inl hret
              · have hs' : st.live[id]? = some s := by
                  by_cases hidleaf : id = leaf
                  · subst hidleaf
                    rw [show (st.live.erase id)[id]? = none from getElem?_erase_same ..] at hs
                    cases hs
                  · rwa [show (st.live.erase leaf)[id]? = st.live[id]? from
                      getElem?_erase_other _ hidleaf] at hs
                exact .inr ⟨id, List.mem_of_mem_erase hid, s, hs', hn⟩

theorem announce_retired (st : Surfaces) (surface : NativeSurface) :
    (st.announce surface).2.retired = st.retired := by
  have halloc : ∀ {id : ℕ} {res : Except Failure ℕ} {st₁ : Surfaces},
      st.allocate id = (res, st₁) → st₁.retired = st.retired := by
    intro id res st₁ h
    unfold allocate at h
    split at h
    · cases h
      rfl
    · split at h
      · cases h
        rfl
      · cases h
        rfl
  unfold announce
  dsimp only
  split
  · next heq => exact halloc heq
  · next heq =>
    have hret := halloc heq
    split
    · exact hret
    · split
      · exact hret
      · exact hret

theorem announceAll_retired {fuel : ℕ} {pending : List NativeSurface}
    {messages : List ApplicationMessage} :
    (announceAll fuel st pending messages).2.retired = st.retired := by
  induction fuel generalizing st pending messages with
  | zero => rfl
  | succ fuel ih =>
    unfold announceAll
    split
    · rfl
    · split
      · rfl
      · split
        · rfl
        · next surface _ =>
          have hone := announce_retired st surface
          split
          · next heq =>
            rw [heq] at hone
            exact hone
          · next heq =>
            rw [heq] at hone
            exact ih.trans hone

/-- What `reconcile` retires was live and is not in the snapshot. -/
theorem reconcile_retired (hinv : st.Inv) {snapshot : List NativeSurface}
    (h : n ∈ (st.reconcile snapshot).2.retired) :
    n ∈ st.retired ∨ ((∃ s, st.window n = some s) ∧ ∀ s ∈ snapshot, s.nativeId ≠ n) := by
  unfold reconcile at h
  split at h
  · exact .inl h
  · split at h
    · exact .inl h
    · dsimp only at h
      split at h
      · exact .inl h
      · split at h
        · exact .inl h
        · generalize hremoved : List.map (·.1) (List.filter _ st.live.toList) = removed at h
          have hret : n ∈ (retireAll removed.length st removed []).2.retired := by
            split at h
            · next heq =>
              rw [heq]
              exact h
            · next heq =>
              rw [heq]
              rwa [announceAll_retired] at h
          rcases retireAll_retired hret with hret | ⟨id, hid, s, hs, rfl⟩
          · exact .inl hret
          · right
            refine ⟨⟨s, hinv.window_eq.mpr ⟨id, hs, rfl⟩⟩, ?_⟩
            rw [← hremoved] at hid
            obtain ⟨⟨id', s'⟩, hmem, rfl⟩ := List.mem_map.mp hid
            obtain ⟨hlive, hgone⟩ := List.mem_filter.mp hmem
            rw [ExtTreeMap.mem_toList_iff_getElem?_eq_some.mp hlive] at hs
            cases hs
            simp only [decide_eq_true_eq, List.mem_toFinset, List.mem_map, not_exists,
              not_and] at hgone
            exact fun u hu heq => hgone u hu heq

end Surfaces

theorem mem_of_mem_announceOrder {fuel : ℕ} {known : ℕ → Bool} {pending : List NativeSurface}
    {s : NativeSurface} (h : s ∈ announceOrder fuel known pending) : s ∈ pending := by
  induction fuel generalizing known pending with
  | zero => cases h
  | succ fuel ih =>
    unfold announceOrder at h
    split at h
    · cases h
    · split at h
      · cases h
      · next position _ _ hget =>
        rcases List.mem_cons.mp h with rfl | h
        · exact List.mem_of_getElem? hget
        · exact List.mem_of_mem_eraseIdx (ih h)

variable {β : Type} {g : Geometry β} {app app' : MacApplication β} {st : Surfaces}

namespace MacApplication

/-- The surfaces that are live are the windows of the last snapshot, and an id that is
retired does not come back. -/
structure Mirrors (app : MacApplication β) (st : Surfaces) : Prop where
  inv : st.Inv
  full : st.Full
  seated : st.Seated
  window : ∀ n : ℕ, st.window n = app.windows[n]?.map fun w => Surfaces.clean w.surface
  retired : ∀ n ∈ st.retired, n < app.nextId ∧ app.windows[n]? = none

theorem mirrors_launch : (launch : MacApplication β).Mirrors .new where
  inv := Surfaces.inv_new
  full := by
    intro a id h
    simp [Surfaces.new] at h
  seated := Surfaces.seated_new
  window := by
    intro n
    simp [launch, Surfaces.window, Surfaces.new]
  retired := fun n h => absurd h (Finset.notMem_empty n)

theorem Mirrors.same (h : app.Mirrors st) (hle : app.nextId ≤ app'.nextId)
    (heq : ∀ id : ℕ, app'.windows[id]? = app.windows[id]?) : app'.Mirrors st := by
  refine ⟨h.inv, h.full, h.seated, ?_, ?_⟩
  · intro n
    rw [heq]
    exact h.window n
  · intro n hn
    obtain ⟨hlt, hnone⟩ := h.retired n hn
    rw [heq]
    exact ⟨lt_of_lt_of_le hlt hle, hnone⟩

theorem Mirrors.above_eq (h : app.Mirrors st) (n : ℕ) : st.above n = app.parentOf n := by
  rw [Surfaces.above, h.window, parentOf]
  cases app.windows[n]? <;> rfl

theorem mem_presentIn (h : app'.Inv g) {n : ℕ} :
    n ∈ Surfaces.presentIn app'.surfaces ↔ ∃ w, app'.windows[n]? = some w := by
  rw [Surfaces.mem_presentIn]
  constructor
  · rintro ⟨s, hs, rfl⟩
    obtain ⟨id, w, hw, rfl⟩ := mem_surfaces.mp hs
    rw [h.tables.keyed id w hw]
    exact ⟨w, hw⟩
  · rintro ⟨w, hw⟩
    exact ⟨w.surface, mem_surfaces.mpr ⟨n, w, hw, rfl⟩, h.tables.keyed n w hw⟩

/-- A later snapshot is well formed for what `Surfaces` knows. -/
theorem Mirrors.wellFormed (h : app.Mirrors st) (hinv : app.Inv g) (hinv' : app'.Inv g)
    (hev : Evolves app app') : st.WellFormed app'.surfaces := by
  have horder : Orderly app'.surfaces := by
    refine ⟨hinv'.nodup_surfaces, ?_, ?_, ?_⟩
    · intro s hs p hp
      obtain ⟨id, w, hw, rfl⟩ := mem_surfaces.mp hs
      obtain ⟨wp, hwp⟩ := hinv'.parents id p w hw hp
      exact ⟨wp.surface, mem_surfaces.mpr ⟨p, wp, hwp, rfl⟩, hinv'.tables.keyed p wp hwp⟩
    · rw [hinv'.parentIn_eq]
      exact hinv'.acyclic
    · intro s hs
      obtain ⟨id, w, hw, rfl⟩ := mem_surfaces.mp hs
      exact presentable_of_sound (hinv'.tables.sound id w hw)
  refine ⟨horder, ?_, ?_⟩
  · intro s hs hret
    obtain ⟨id, w, hw, rfl⟩ := mem_surfaces.mp hs
    rw [hinv'.tables.keyed id w hw] at hret
    obtain ⟨hlt, hnone⟩ := h.retired id hret
    rcases hev.2 id w hw with ⟨old, hold, -⟩ | hle
    · rw [hnone] at hold
      cases hold
    · omega
  · intro s hs old hold
    obtain ⟨id, w, hw, rfl⟩ := mem_surfaces.mp hs
    rw [hinv'.tables.keyed id w hw, h.window] at hold
    obtain ⟨v, hv, rfl⟩ := Option.map_eq_some_iff.mp hold
    rcases hev.2 id w hw with ⟨v', hv', hnewer⟩ | hle
    · rw [hv] at hv'
      cases hv'
      exact fresher_of_newer (hinv.tables.sound id v hv) (hinv'.tables.sound id w hw) hnewer
    · have := hinv.tables.fresh id v hv
      omega

theorem Mirrors.untangled (h : app.Mirrors st) (hinv' : app'.Inv g) (hs : Succession app app') :
    Untangled (st.aboveAmong (Surfaces.presentIn app'.surfaces)) (st.orderOf app'.surfaces) := by
  have habove : ∀ p c, st.aboveAmong (Surfaces.presentIn app'.surfaces) c = some p →
      Above app app' p c := by
    intro p c hc
    unfold Surfaces.aboveAmong at hc
    split at hc
    · next hpresent =>
      rw [h.above_eq] at hc
      exact .inr ⟨hc, (mem_presentIn hinv').mp hpresent⟩
    · cases hc
  refine untangled_of_acyclic hs.acyclic ?_ habove ?_
  · refine wellFounded_of_finite ?_ (Surfaces.presentIn app'.surfaces) ?_
    · intro a ha
      exact hs.acyclic a (ha.lift id habove)
    · intro c hc
      unfold Surfaces.aboveAmong at hc
      split at hc
      · next hpresent => exact hpresent
      · exact absurd rfl hc
  · intro s hmem p hp
    obtain ⟨id, w, hw, rfl⟩ := mem_surfaces.mp (mem_of_mem_announceOrder hmem)
    rw [hinv'.tables.keyed id w hw]
    refine .inl ?_
    rw [parentOf, hw]
    exact hp

/-- `reconcile` takes the snapshot over, or refuses it for one of its limits. -/
theorem Mirrors.reconcile (h : app.Mirrors st) (hinv : app.Inv g) (hinv' : app'.Inv g)
    (hev : Evolves app app') (hs : Succession app app') :
    (∃ messages, (st.reconcile app'.surfaces).1 = .ok messages ∧
      app'.Mirrors (st.reconcile app'.surfaces).2) ∨
    (st.reconcile app'.surfaces).1 = .error .surfaceLimit ∨
    (st.reconcile app'.surfaces).1 =
      .error (.text "aggregate application capture dimensions exceed memory budget") := by
  have hkeeps : st.KeepsParents (Surfaces.presentIn app'.surfaces) := by
    intro n hn p hp
    rw [h.above_eq] at hp
    obtain ⟨old, hold, hparent⟩ := Option.bind_eq_some_iff.mp hp
    obtain ⟨w, hw⟩ := (mem_presentIn hinv').mp hn
    exact (mem_presentIn hinv').mpr (hs.keeps n p old w hold hparent hw)
  rcases Surfaces.reconcile_cases h.inv h.full h.seated (h.wellFormed hinv hinv' hev) hkeeps
      (h.untangled hinv' hs) with ⟨messages, st₁, hok, hdone⟩ | ⟨-, hlimit⟩
  · left
    refine ⟨messages, by rw [hok], ?_⟩
    have hretired : ∀ n ∈ st₁.retired, n < app'.nextId ∧ app'.windows[n]? = none := by
      intro n hn
      have hn' : n ∈ (st.reconcile app'.surfaces).2.retired := by
        rw [hok]
        exact hn
      rcases Surfaces.reconcile_retired h.inv hn' with hold | ⟨⟨s, hwin⟩, hgone⟩
      · obtain ⟨hlt, hnone⟩ := h.retired n hold
        refine ⟨lt_of_lt_of_le hlt hev.1, ?_⟩
        cases hw : app'.windows[n]? with
        | none => rfl
        | some w =>
          rcases hev.2 n w hw with ⟨old, hold, -⟩ | hle
          · rw [hnone] at hold
            cases hold
          · omega
      · rw [h.window] at hwin
        obtain ⟨v, hv, -⟩ := Option.map_eq_some_iff.mp hwin
        refine ⟨lt_of_lt_of_le (hinv.tables.fresh n v hv) hev.1, ?_⟩
        cases hw : app'.windows[n]? with
        | none => rfl
        | some w =>
          exact absurd (hinv'.tables.keyed n w hw)
            (hgone w.surface (mem_surfaces.mpr ⟨n, w, hw, rfl⟩))
    rw [hok]
    refine ⟨hdone.inv, hdone.full, hdone.seated, ?_, hretired⟩
    intro n
    cases hw : app'.windows[n]? with
    | some w =>
      have hmem := mem_surfaces.mpr ⟨n, w, hw, rfl⟩
      have hwin := (hdone.done w.surface hmem).resolve_left List.not_mem_nil
      rw [hinv'.tables.keyed n w hw] at hwin
      exact hwin
    | none =>
      cases hwin : st₁.window n with
      | none => rfl
      | some t =>
        obtain ⟨s, hmem, hn⟩ := hdone.only n t hwin
        obtain ⟨id, w, hw', rfl⟩ := mem_surfaces.mp hmem
        rw [hinv'.tables.keyed id w hw'] at hn
        rw [← hn, hw'] at hw
        cases hw
  · exact .inr hlimit

theorem inv_launch (g : Geometry β) : (launch : MacApplication β).Inv g := by
  have hnone : ∀ id : ℕ, (launch : MacApplication β).windows[id]? = none :=
    fun _ => ExtTreeMap.getElem?_empty
  have hno : ∀ {id : ℕ} {w : MacWindow β}, (launch : MacApplication β).windows[id]? ≠ some w := by
    intro id w hw
    rw [hnone] at hw
    cases hw
  refine ⟨⟨?_, ?_, ?_, ?_⟩, ?_, ?_, ?_, fun _ => hnone⟩
  · exact fun id w hw => absurd hw hno
  · exact fun id w hw => absurd hw hno
  · exact fun id w hw => absurd hw hno
  · exact fun i j w w' hw => absurd hw hno
  · exact fun id p w hw => absurd hw hno
  · refine acyclic_of_lt fun c p hp => ?_
    rw [parentOf, hnone] at hp
    cases hp
  · exact fun id hid => absurd hid (Finset.notMem_empty id)

end MacApplication

/-! ### Sessions -/

/-- An application, and what has been announced of it. -/
structure MacSession (β : Type) where
  app : MacApplication β
  surfaces : Surfaces
  failure : Option Failure

namespace MacSession

def launch : MacSession β := ⟨.launch, .new, none⟩

variable [DecidableEq β] {s s' : MacSession β} {o : Observation β}

/-- A snapshot, and its reconciliation; nothing more is asked after one that failed. -/
def refresh (g : Geometry β) (s : MacSession β) (o : Observation β) : Option (MacSession β) :=
  match s.failure with
  | some _ => none
  | none =>
    match s.app.snapshot g o with
    | (.error _, app) => some { s with app }
    | (.ok snapshot, app) =>
      match s.surfaces.reconcile snapshot with
      | (.ok _, surfaces) => some ⟨app, surfaces, none⟩
      | (.error e, surfaces) => some ⟨app, surfaces, some e⟩

def Refreshes (g : Geometry β) (s s' : MacSession β) : Prop :=
  ∃ o, s.app.CoherentAt g o ∧ s.refresh g o = some s'

/-- What holds of a session. -/
structure Sound (g : Geometry β) (s : MacSession β) : Prop where
  inv : s.app.Inv g
  mirrors : s.failure = none → s.app.Mirrors s.surfaces

theorem refreshes_cases (hs : s.Sound g) (h : Refreshes g s s') :
    s'.Sound g ∧ s.app.Evolves s'.app := by
  obtain ⟨o, hc, hrefresh⟩ := h
  have ht := MacApplication.taken_snapshot hs.inv hc
  unfold refresh at hrefresh
  split at hrefresh
  · cases hrefresh
  · next hfailure =>
    have hm := hs.mirrors hfailure
    split at hrefresh
    · next e app heq =>
      cases hrefresh
      rw [heq] at ht
      exact ⟨⟨ht.inv, fun _ => hm.same ht.evolves.1 (ht.refused e rfl)⟩, ht.evolves⟩
    · next snapshot app heq =>
      rw [heq] at ht
      obtain rfl : snapshot = app.surfaces := (ht.accepted snapshot rfl).1
      have hrec := hm.reconcile hs.inv ht.inv ht.evolves ht.succession
      split at hrefresh
      · next messages surfaces hok =>
        cases hrefresh
        refine ⟨⟨ht.inv, fun _ => ?_⟩, ht.evolves⟩
        rw [hok] at hrec
        rcases hrec with ⟨_, -, hm'⟩ | hlimit | hlimit
        · exact hm'
        · cases hlimit
        · cases hlimit
      · cases hrefresh
        exact ⟨⟨ht.inv, nofun⟩, ht.evolves⟩

theorem sound_of_reached (h : ReflTransGen (Refreshes g) launch s) : s.Sound g := by
  induction h with
  | refl => exact ⟨MacApplication.inv_launch g, fun _ => MacApplication.mirrors_launch⟩
  | tail _ hstep ih => exact (refreshes_cases ih hstep).1

theorem evolves_of_reached (hs : s.Sound g) (h : ReflTransGen (Refreshes g) s s') :
    s'.Sound g ∧ s.app.Evolves s'.app := by
  induction h with
  | refl => exact ⟨hs, .refl _⟩
  | tail _ hstep ih =>
    obtain ⟨hsound, hev⟩ := refreshes_cases ih.1 hstep
    exact ⟨hsound, ih.2.trans hev⟩

/-- In every run of coherent answers: a snapshot that is returned is well formed; from
any state of the run to any later one, ids keep their windows, are not used again, and
have generations that grow with every change; and `reconcile` of the snapshot fails for
no reason but the number and the size of the surfaces. -/
theorem snapshots_well_formed (hr : ReflTransGen (Refreshes g) launch s)
    (hc : s.app.CoherentAt g o) {snapshot : List NativeSurface} {app : MacApplication β}
    (h : s.app.snapshot g o = (.ok snapshot, app)) :
    MacApplication.WellFormed snapshot app.unavailable ∧ s.app.Evolves app ∧
      (∀ s', ReflTransGen (Refreshes g) s s' → s.app.Evolves s'.app) ∧
      (s.failure = none → ∀ e, (s.surfaces.reconcile snapshot).1 = .error e →
        e = .surfaceLimit ∨
          e = .text "aggregate application capture dimensions exceed memory budget") := by
  have hs := sound_of_reached hr
  have ht := MacApplication.taken_snapshot hs.inv hc
  rw [h] at ht
  have hclosed := (ht.accepted snapshot rfl).2
  obtain rfl : snapshot = app.surfaces := (ht.accepted snapshot rfl).1
  refine ⟨ht.inv.wellFormed hclosed, ht.evolves, fun s' hs' => (evolves_of_reached hs hs').2, ?_⟩
  intro hfailure e he
  have hrec := (hs.mirrors hfailure).reconcile hs.inv ht.inv ht.evolves ht.succession
  rw [he] at hrec
  rcases hrec with ⟨_, hok, -⟩ | hlimit | hlimit
  · cases hok
  · exact .inl (Except.error.inj hlimit)
  · exact .inr (Except.error.inj hlimit)

/-! ### A document and its sheets -/

/-- Bounds are places. -/
def sampleGeometry : Geometry ℕ where
  agree a b := a = b
  valid _ := true
  size _ := (640, 480)
  validSize_size _ _ := by decide

/-- Answers of a running application; the window at bounds `n` of the list is matched by
the accessibility window at the same bounds. -/
def sampleAnswers (windows : List (ℕ × ℕ)) (distinct : (windows.map (·.1)).Nodup) (roots : List ℕ)
    (sheets : ℕ → List ℕ) (bounds : ℕ → Option ℕ) (owns : ℕ → Except MacError Bool)
    (live : ℕ → Bool) : Observation ℕ where
  terminated := false
  identity := .ok ()
  windows := .ok windows
  distinct := by
    intro l hl
    obtain rfl := Except.ok.inj hl
    exact distinct
  application := .ok ()
  roots := .ok roots
  sheets n := .ok (sheets n)
  bounds := bounds
  owns := owns
  minimized _ := none
  title _ := none
  modal _ := none
  live := live
  stillMinimized _ := none
  verified _ := false
  late := false

def sampleDocument (sheet : Except MacError Bool) : Observation ℕ :=
  sampleAnswers [(100, 1), (200, 2)] (by decide) [11] (fun n => if n = 0 then [12] else [])
    (fun n => if n = 0 then some 1 else some 2) (fun n => if n = 0 then .ok true else sheet)
    fun _ => true

/-- The document is gone, and the sheet not ready. -/
def sampleOrphan : Observation ℕ :=
  sampleAnswers [(200, 2)] (by decide) [12] (fun _ => []) (fun _ => some 2)
    (fun _ => .error (.axAttribute "AXChildren" (-25204))) fun id => id ≠ 1

/-- Only the sheet of a document and the sheet of that sheet are matched. -/
def sampleNested : Observation ℕ :=
  sampleAnswers [(200, 2), (300, 3)] (by decide) [11]
    (fun n => if n = 0 then [12] else if n = 1 then [13] else [])
    (fun n => if n = 0 then none else some (n + 1)) (fun _ => .ok true) fun _ => true

/-- Two windows are sheets of each other. -/
def sampleCycle : Observation ℕ :=
  sampleAnswers [(100, 1), (200, 2)] (by decide) [11, 12]
    (fun n => if n = 0 then [12] else if n = 1 then [11] else []) (fun n => some (n + 1))
    (fun _ => .ok true) fun _ => true

def idsAndParents (snapshot : List NativeSurface) : List (ℕ × Option ℕ) :=
  snapshot.map fun s => (s.nativeId, s.parent)

/-- What comes of some answers: the snapshot, and the failure of its reconciliation. -/
def outcome (s : MacSession ℕ) (o : Observation ℕ) :
    Option (List (ℕ × Option ℕ) × Option Failure) :=
  match s.app.snapshot sampleGeometry o with
  | (.ok snapshot, _) =>
    match (s.surfaces.reconcile snapshot).1 with
    | .ok _ => some (idsAndParents snapshot, none)
    | .error e => some (idsAndParents snapshot, some e)
  | (.error _, _) => none

theorem outcome_spec {s : MacSession ℕ} {o : Observation ℕ} {ids : List (ℕ × Option ℕ)}
    {failure : Option Failure} (h : outcome s o = some (ids, failure)) :
    ∃ snapshot app, s.app.snapshot sampleGeometry o = (.ok snapshot, app) ∧
      idsAndParents snapshot = ids ∧
      ∀ e, failure = some e → (s.surfaces.reconcile snapshot).1 = .error e := by
  unfold outcome at h
  split at h
  · next snapshot app hsnapshot =>
    refine ⟨snapshot, app, hsnapshot, ?_⟩
    split at h
    · cases h
      exact ⟨rfl, nofun⟩
    · next e he =>
      cases h
      refine ⟨rfl, ?_⟩
      intro e' he'
      rw [← Option.some.inj he']
      exact he
  · cases h

theorem not_wellFormed_of_absent {snapshot : List NativeSurface} {unavailable : Finset ℕ} {id p : ℕ}
    (h : (id, some p) ∈ idsAndParents snapshot) (hno : p ∉ (idsAndParents snapshot).map (·.1)) :
    ¬ MacApplication.WellFormed snapshot unavailable := by
  intro hwf
  obtain ⟨s, hs, heq⟩ := List.mem_map.mp h
  obtain ⟨t, ht, rfl⟩ := hwf.parents s hs p (Prod.mk.inj heq).2
  exact hno (List.mem_map.mpr ⟨_, List.mem_map_of_mem ht, rfl⟩)

theorem parentIn_of_mem {snapshot : List NativeSurface} {unavailable : Finset ℕ} {id p : ℕ}
    (hwf : MacApplication.WellFormed snapshot unavailable)
    (h : (id, some p) ∈ idsAndParents snapshot) : parentIn snapshot id = some p := by
  obtain ⟨s, hs, heq⟩ := List.mem_map.mp h
  obtain ⟨rfl, hp⟩ := Prod.mk.inj heq
  rw [parentIn_eq hwf.unique hs, hp]

/-- A remembered sheet keeps a parent that has vanished, the sheet of a sheet that is
left out keeps it as its parent, and two sheets of each other make a cycle: the first
snapshot takes the parent away from `reconcile`, the others are unknown or cyclic to
it. -/
theorem snapshot_malformed :
    (∃ s snapshot app, Runs.Reach (refresh sampleGeometry) launch s ∧ s.failure = none ∧
      s.app.snapshot sampleGeometry sampleOrphan = (.ok snapshot, app) ∧
      ¬ MacApplication.WellFormed snapshot app.unavailable ∧
      (s.surfaces.reconcile snapshot).1 = .error (.text "invalid native parent removal")) ∧
    (∃ snapshot app,
      MacApplication.launch.snapshot sampleGeometry sampleNested = (.ok snapshot, app) ∧
      ¬ MacApplication.WellFormed snapshot app.unavailable ∧
      (Surfaces.new.reconcile snapshot).1 = .error (.text "unknown or cyclic native parent")) ∧
    ∃ snapshot app,
      MacApplication.launch.snapshot sampleGeometry sampleCycle = (.ok snapshot, app) ∧
      ¬ MacApplication.WellFormed snapshot app.unavailable ∧
      (Surfaces.new.reconcile snapshot).1 = .error (.text "unknown or cyclic native parent") := by
  refine ⟨?_, ?_, ?_⟩
  · have hrun : (Runs.tryRun (refresh sampleGeometry) launch [sampleDocument (.ok true)]).map
        (fun s => s.failure.isNone && decide (outcome s sampleOrphan =
          some ([(2, some 1)], some (.text "invalid native parent removal")))) = some true := by
      decide +kernel
    obtain ⟨s, htry, hs⟩ := Option.map_eq_some_iff.mp hrun
    obtain ⟨hnone, hdecide⟩ := Bool.and_eq_true_iff.mp hs
    have hfailure := Option.isNone_iff_eq_none.mp hnone
    have houtcome := of_decide_eq_true hdecide
    obtain ⟨snapshot, app, hsnapshot, hids, hfail⟩ := outcome_spec houtcome
    refine ⟨s, snapshot, app, Runs.reach_of_tryRun .init htry, hfailure, hsnapshot, ?_,
      hfail _ rfl⟩
    exact not_wellFormed_of_absent (hids ▸ List.mem_singleton_self (2, some 1))
      (by rw [hids]; decide)
  · have houtcome : outcome launch sampleNested =
        some ([(2, some 1)], some (.text "unknown or cyclic native parent")) := by
      decide +kernel
    obtain ⟨snapshot, app, hsnapshot, hids, hfail⟩ := outcome_spec houtcome
    refine ⟨snapshot, app, hsnapshot, ?_, hfail _ rfl⟩
    exact not_wellFormed_of_absent (hids ▸ List.mem_singleton_self (2, some 1))
      (by rw [hids]; decide)
  · have houtcome : outcome launch sampleCycle =
        some ([(1, some 2), (2, some 1)], some (.text "unknown or cyclic native parent")) := by
      decide +kernel
    obtain ⟨snapshot, app, hsnapshot, hids, hfail⟩ := outcome_spec houtcome
    refine ⟨snapshot, app, hsnapshot, ?_, hfail _ rfl⟩
    intro hwf
    have h₁ : parentIn snapshot 1 = some 2 := parentIn_of_mem hwf (by rw [hids]; decide)
    have h₂ : parentIn snapshot 2 = some 1 := parentIn_of_mem hwf (by rw [hids]; decide)
    exact hwf.acyclic 1 (TransGen.tail (.single h₂) h₁)

/-! ### Coherent answers -/

/-- The tree of `sampleDocument`. -/
def sampleTree : AxTree := [(11, none), (12, some 0)]

def sampleReading (app : MacApplication ℕ) (sheet : Except MacError Bool) : Reading ℕ :=
  ⟨sampleGeometry, app, sampleDocument sheet, [(100, 1), (200, 2)], sampleTree⟩

variable {app : MacApplication ℕ}

/-- The fates of the two windows of `sampleDocument`. -/
theorem fate_sampleDocument {sheet : Except MacError Bool} {f₂ : Fate}
    (h₁ : app.fate sampleGeometry (sampleDocument sheet) sampleTree 0 (100, 1) = .ok (.matched 0))
    (h₂ : app.fate sampleGeometry (sampleDocument sheet) sampleTree 1 (200, 2) = .ok f₂) {cg : ℕ}
    {f : Fate} (h : (sampleReading app sheet).Meets cg f) :
    (cg = 100 ∧ f = .matched 0) ∨ (cg = 200 ∧ f = f₂) := by
  obtain ⟨n, hn, b, hb, hf⟩ := h
  replace hn : n < 2 := hn
  interval_cases n
  · cases hb
    exact .inl ⟨rfl, Except.ok.inj (hf.symm.trans h₁)⟩
  · cases hb
    exact .inr ⟨rfl, Except.ok.inj (hf.symm.trans h₂)⟩

theorem windowTree_sampleDocument (sheet : Except MacError Bool) :
    (sampleDocument sheet).windowTree = .ok sampleTree := by
  rfl

theorem enumerate_sampleDocument (sheet : Except MacError Bool) :
    (sampleDocument sheet).enumerate = .ok [(100, 1), (200, 2)] := by
  rfl

theorem coherentAt_sampleDocument {sheet : Except MacError Bool} {f₂ : Fate}
    (h₁ : app.fate sampleGeometry (sampleDocument sheet) sampleTree 0 (100, 1) =
      .ok (.matched 0))
    (h₂ : app.fate sampleGeometry (sampleDocument sheet) sampleTree 1 (200, 2) = .ok f₂)
    (hf₂ : f₂ ≠ .matched 0)
    (happ : ∀ (id p : ℕ) w wp, app.windows[id]? = some w → w.surface.parent = some p →
      app.windows[p]? = some wp → wp.cgId = 100 ∧ w.cgId = 200) :
    app.CoherentAt sampleGeometry (sampleDocument sheet) := by
  intro _ windows tree henum htree
  rw [enumerate_sampleDocument] at henum
  rw [windowTree_sampleDocument] at htree
  cases henum
  cases htree
  change (sampleReading app sheet).Coherent
  have hmeets : (sampleReading app sheet).Meets 100 (.matched 0) :=
    ⟨0, Nat.zero_lt_two, 1, rfl, h₁⟩
  have hauth : (sampleReading app sheet).Authorized 100 := ⟨0, hmeets, nofun⟩
  have hfirst : ∀ {p : ℕ}, (sampleReading app sheet).Meets p (.matched 0) → p = 100 := by
    intro p hp
    rcases fate_sampleDocument h₁ h₂ hp with ⟨rfl, -⟩ | ⟨-, hf⟩
    · rfl
    · exact absurd hf.symm hf₂
  -- Only the window at index 1 has a parent, and it is the one at index 0.
  have hparent : ∀ {i j : ℕ}, sampleTree.parentAt i = some j →
      i = 1 ∧ j = 0 := by
    intro i j h
    match i with
    | 0 => cases h
    | 1 => exact ⟨rfl, (Option.some.inj h).symm⟩
    | i + 2 => cases h
  refine ⟨?_, ?_, ?_⟩
  · intro id p w wp hw hp hwp _
    rw [Reading.Stays, (happ id p w wp hw hp hwp).1]
    exact .inr (.inl hauth)
  · intro c i j p _ hj hp
    obtain ⟨-, rfl⟩ := hparent hj
    rw [hfirst hp]
    exact .inl hauth
  · have hlt : ∀ p c, (sampleReading app sheet).Link p c → p < c := by
      intro p c hlink
      cases hlink with
      | sheet hc hj hp =>
        obtain ⟨rfl, rfl⟩ := hparent hj
        rw [hfirst hp]
        rcases fate_sampleDocument h₁ h₂ hc with ⟨-, hf⟩ | ⟨rfl, -⟩
        · cases hf
        · decide
      | remembered hw hp hwp =>
        obtain ⟨h100, h200⟩ := happ _ _ _ _ hw hp hwp
        rw [h100, h200]
        decide
    intro c hc
    have htrans : ∀ {a b : ℕ}, TransGen (sampleReading app sheet).Link a b → a < b := by
      intro a b hab
      induction hab with
      | single h => exact hlt _ _ h
      | tail _ h ih => exact ih.trans (hlt _ _ h)
    exact lt_irrefl c (htrans hc)

/-- Every window with a parent among the windows is the sheet, and its parent the
document. -/
def sheetOnly (app : MacApplication ℕ) : Bool :=
  app.windows.toList.all fun entry => (entry.2.surface.parent.bind (app.windows[·]?)).all
    fun parent => parent.cgId == 100 && entry.2.cgId == 200

theorem sheetOnly_spec (h : sheetOnly app = true) (id p : ℕ)
    (w wp : MacWindow ℕ) (hw : app.windows[id]? = some w) (hp : w.surface.parent = some p)
    (hwp : app.windows[p]? = some wp) : wp.cgId = 100 ∧ w.cgId = 200 := by
  have hmem := ExtTreeMap.mem_toList_iff_getElem?_eq_some.mpr hw
  have hall := List.all_eq_true.mp h (id, w) hmem
  simpa [hp, hwp] using hall

/-- A sheet that is not ready stays with its document. -/
theorem snapshots_well_formed_sheet :
    ∃ s snapshot app, ReflTransGen (Refreshes sampleGeometry) launch s ∧ s.failure = none ∧
      s.app.snapshot sampleGeometry (sampleDocument (.error (.axAttribute "AXChildren" (-25204)))) =
        (.ok snapshot, app) ∧
      idsAndParents snapshot = [(1, none), (2, some 1)] ∧
      MacApplication.WellFormed snapshot app.unavailable := by
  have hfirst : (launch : MacSession ℕ).app.CoherentAt sampleGeometry
      (sampleDocument (.ok true)) := by
    have h₂ : MacApplication.launch.fate sampleGeometry (sampleDocument (.ok true)) sampleTree 1
        (200, 2) = .ok (.matched 1) := rfl
    refine coherentAt_sampleDocument rfl h₂ nofun ?_
    intro id p w wp hw
    cases hw
  have hrun : (launch.refresh sampleGeometry (sampleDocument (.ok true))).map (fun s =>
      s.failure.isNone && sheetOnly s.app && decide (s.app.retired = ∅) &&
        decide (outcome s (sampleDocument (.error (.axAttribute "AXChildren" (-25204)))) =
          some ([(1, none), (2, some 1)], none))) = some true := by
    decide +kernel
  obtain ⟨s, hrefresh, hs⟩ := Option.map_eq_some_iff.mp hrun
  simp only [Bool.and_eq_true, decide_eq_true_eq, Option.isNone_iff_eq_none] at hs
  obtain ⟨⟨⟨hfailure, hsheet⟩, hretired⟩, houtcome⟩ := hs
  obtain ⟨snapshot, app, hsnapshot, hids, -⟩ := outcome_spec houtcome
  have hreach : ReflTransGen (Refreshes sampleGeometry) launch s := .single ⟨_, hfirst, hrefresh⟩
  have hfate : ∀ {n : ℕ} {w : ℕ × ℕ} {f : Fate},
      MacApplication.launch.fate sampleGeometry
        (sampleDocument (.error (.axAttribute "AXChildren" (-25204)))) sampleTree n w = .ok f →
      s.app.fate sampleGeometry
        (sampleDocument (.error (.axAttribute "AXChildren" (-25204)))) sampleTree n w = .ok f := by
    intro n w f h
    unfold MacApplication.fate at h ⊢
    rw [hretired]
    exact h
  have hsecond : s.app.CoherentAt sampleGeometry
      (sampleDocument (.error (.axAttribute "AXChildren" (-25204)))) :=
    coherentAt_sampleDocument (hfate rfl) (hfate rfl) nofun (sheetOnly_spec hsheet)
  exact ⟨s, snapshot, app, hreach, hfailure, hsnapshot, hids,
    (snapshots_well_formed hreach hsecond hsnapshot).1⟩

end MacSession

end NebulaDesk
