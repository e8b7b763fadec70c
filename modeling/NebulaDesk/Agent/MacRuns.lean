/-
Runs of macOS snapshots, each followed by `Surfaces.reconcile`.

`Inv` is what holds of the windows in every state, and `Succession` what leads from one
snapshot to the next: ids keep their windows, generations grow with every change, and
the links of before and after make no cycle.  That is what `reconcile` asks for, so that
it fails at none but its limits (`Mirrors.reconcile`).
-/
import NebulaDesk.Agent.MacSnapshots
import NebulaDesk.Agent.AcceptanceRuns

namespace NebulaDesk

open Std (ExtTreeMap)
open Relation (TransGen ReflTransGen)
open Forest

variable {β : Type} {g : Geometry β}

namespace MacApplication

def parentOf (app : MacApplication β) (id : ℕ) : Option ℕ :=
  app.windows[id]?.bind (·.surface.parent)

structure Inv (g : Geometry β) (app : MacApplication β) : Prop where
  tables : app.Tables g
  parents : ∀ (id p : ℕ) w, app.windows[id]? = some w → w.surface.parent = some p →
    ∃ wp, app.windows[p]? = some wp
  acyclic : Acyclic app.parentOf
  unavailable : ∀ id ∈ app.unavailable, ∃ w, app.windows[id]? = some w
  seen : app.seenWindow = false → ∀ id : ℕ, app.windows[id]? = none

/-- Ids keep their windows and are not used again, and generations grow with every
change. -/
def Evolves (app app' : MacApplication β) : Prop :=
  app.nextId ≤ app'.nextId ∧ ∀ (id : ℕ) w', app'.windows[id]? = some w' →
    (∃ w, app.windows[id]? = some w ∧ w.Newer w') ∨ app.nextId ≤ id

/-- `p` is above `c`, or was and `c` is still there. -/
def Above (app app' : MacApplication β) (p c : ℕ) : Prop :=
  app'.parentOf c = some p ∨ (app.parentOf c = some p ∧ ∃ w, app'.windows[c]? = some w)

/-- What leads from one snapshot to the next. -/
structure Succession (app app' : MacApplication β) : Prop where
  keeps : ∀ (id p : ℕ) old w, app.windows[id]? = some old → old.surface.parent = some p →
    app'.windows[id]? = some w → ∃ wp, app'.windows[p]? = some wp
  acyclic : ∀ a, ¬ TransGen (Above app app') a a

/-- The sheets of suspended windows are suspended. -/
def Closed (app : MacApplication β) : Prop :=
  ∀ (id p : ℕ) w, app.windows[id]? = some w → w.surface.parent = some p → p ∈ app.unavailable →
    id ∈ app.unavailable

/-- The answers to a snapshot that reads the tree are coherent. -/
def CoherentAt (g : Geometry β) (app : MacApplication β) (o : Observation β) : Prop :=
  (app.seenWindow && o.terminated) = false → ∀ windows tree, o.enumerate = .ok windows →
    o.windowTree = .ok tree → (⟨g, app, o, windows, tree⟩ : Reading β).Coherent

variable {app app' : MacApplication β} {o : Observation β}

theorem Evolves.refl (app : MacApplication β) : Evolves app app :=
  ⟨le_rfl, fun _ w hw => .inl ⟨w, hw, .refl w⟩⟩

theorem Evolves.trans {app'' : MacApplication β} (h : Evolves app app') (h' : Evolves app' app'') :
    Evolves app app'' := by
  refine ⟨le_trans h.1 h'.1, ?_⟩
  intro id w'' hw''
  rcases h'.2 id w'' hw'' with ⟨w', hw', hnewer'⟩ | hle
  · rcases h.2 id w' hw' with ⟨w, hw, hnewer⟩ | hle
    · exact .inl ⟨w, hw, hnewer.trans hnewer'⟩
    · exact .inr hle
  · exact .inr (le_trans h.1 hle)

theorem Succession.of_eq (h : app.Inv g) (heq : ∀ id : ℕ, app'.windows[id]? = app.windows[id]?) :
    Succession app app' := by
  have hparent : app'.parentOf = app.parentOf := by
    funext id
    rw [parentOf, heq]
    rfl
  constructor
  · intro id p old w hold hp _
    rw [heq]
    exact h.parents id p old hold hp
  · intro a ha
    refine h.acyclic a (ha.lift id ?_)
    rintro p c (hp | ⟨hp, -⟩)
    · rw [hparent] at hp
      exact hp
    · exact hp

theorem Inv.of_eq (h : app.Inv g) (heq : ∀ id : ℕ, app'.windows[id]? = app.windows[id]?)
    (hle : app.nextId ≤ app'.nextId) (hseen : app'.seenWindow = app.seenWindow)
    (hun : ∀ id ∈ app'.unavailable, ∃ w, app.windows[id]? = some w) : app'.Inv g := by
  have hparent : app'.parentOf = app.parentOf := by
    funext id
    rw [parentOf, heq]
    rfl
  constructor
  case tables =>
    constructor
    · intro id w hw
      exact h.tables.keyed id w (heq id ▸ hw)
    · intro id w hw
      exact lt_of_lt_of_le (h.tables.fresh id w (heq id ▸ hw)) hle
    · intro id w hw
      exact h.tables.sound id w (heq id ▸ hw)
    · intro i j w w' hw hw'
      exact h.tables.injective i j w w' (heq i ▸ hw) (heq j ▸ hw')
  case parents =>
    intro id p w hw hp
    rw [heq]
    exact h.parents id p w (heq id ▸ hw) hp
  case acyclic =>
    rw [hparent]
    exact h.acyclic
  case unavailable =>
    intro id hid
    rw [heq]
    exact hun id hid
  case seen =>
    intro hs id
    rw [heq]
    exact h.seen (hseen ▸ hs) id

/-! ### Loops that stop half-way -/

/-- What a loop leaves even when it fails: ids are used up, and only known windows are
suspended. -/
def Leaves (app : MacApplication β) (scan scan' : Scan β) : Prop :=
  scan.nextId ≤ scan'.nextId ∧ ∀ id ∈ scan'.unavailable,
    id ∈ scan.unavailable ∨ ∃ w, app.windows[id]? = some w

theorem Leaves.refl (scan : Scan β) : app.Leaves scan scan := ⟨le_rfl, fun _ h => .inl h⟩

theorem Leaves.trans {scan scan' scan'' : Scan β} (h : app.Leaves scan scan')
    (h' : app.Leaves scan' scan'') : app.Leaves scan scan'' := by
  refine ⟨le_trans h.1 h'.1, ?_⟩
  intro id hid
  rcases h'.2 id hid with hid | hw
  · exact h.2 id hid
  · exact .inr hw

theorem preserveAll_unavailable {tree : AxTree} {rejected : Finset ℕ} {olds : List (MacWindow β)}
    {r : Remembering β} {id : ℕ} (h : id ∈ (preserveAll g o tree rejected olds r).2.unavailable) :
    id ∈ r.unavailable ∨ ∃ old ∈ olds, old.surface.nativeId = id := by
  induction olds generalizing r with
  | nil => exact .inl h
  | cons old olds ih =>
    have hone : ∀ id ∈ (preserve g o tree rejected old r).2.unavailable,
        id ∈ r.unavailable ∨ old.surface.nativeId = id := by
      intro id hid
      unfold preserve at hid
      dsimp only at hid
      split at hid
      · exact .inl hid
      · split at hid
        · exact .inl hid
        · split at hid
          · split at hid
            · exact .inl hid
            · dsimp only at hid
              split at hid
              · rcases Finset.mem_insert.mp hid with heq | hid
                · exact .inr heq.symm
                · exact .inl hid
              · exact .inl hid
          · exact .inl hid
    have hfirst : ∀ {r₁ : Remembering β}, (preserve g o tree rejected old r).2 = r₁ →
        id ∈ r₁.unavailable → id ∈ r.unavailable ∨ ∃ o ∈ old :: olds, o.surface.nativeId = id := by
      rintro r₁ rfl hid
      rcases hone id hid with hid | heq
      · exact .inl hid
      · exact .inr ⟨old, List.mem_cons_self, heq⟩
    unfold preserveAll at h
    split at h
    · next r₁ heq => exact hfirst (congrArg Prod.snd heq) h
    · next r₁ heq =>
      rcases ih h with hid | ⟨old', hmem, hid⟩
      · exact hfirst (congrArg Prod.snd heq) hid
      · exact .inr ⟨old', List.mem_cons_of_mem old hmem, hid⟩

section Loops

variable [DecidableEq β] {scan : Scan β}

theorem leaves_authorize {tree : AxTree} {n index : ℕ} {w : ℕ × β} :
    app.Leaves scan (app.authorize g o tree n w index scan).2 := by
  have hle : scan.nextId ≤ if (app.find w.1).isSome then scan.nextId else scan.nextId + 1 := by
    split <;> omega
  unfold authorize
  dsimp only
  generalize (if (app.find w.1).isSome then scan.nextId else scan.nextId + 1) = nextId at hle ⊢
  split
  · exact .refl scan
  · split
    · exact ⟨hle, fun _ h => .inl h⟩
    · exact ⟨hle, fun _ h => .inl h⟩

theorem leaves_scanWindow (ht : app.Tables g) {tree : AxTree} {n : ℕ} {w : ℕ × β} :
    app.Leaves scan (app.scanWindow g o tree n w scan).2 := by
  unfold scanWindow
  split
  · exact .refl scan
  · exact .refl scan
  · split
    · exact .refl scan
    · next old hfind =>
      obtain ⟨id, hold, -⟩ := find_some hfind
      refine ⟨le_rfl, ?_⟩
      intro id' hid'
      rcases Finset.mem_insert.mp hid' with rfl | hid'
      · rw [ht.keyed id old hold]
        exact .inr ⟨old, hold⟩
      · exact .inl hid'
  · exact ⟨le_rfl, fun _ h => .inl h⟩
  · exact leaves_authorize

theorem leaves_scanAll (ht : app.Tables g) {tree : AxTree} {n : ℕ} {windows : List (ℕ × β)} :
    app.Leaves scan (app.scanAll g o tree n windows scan).2 := by
  induction windows generalizing n scan with
  | nil => exact .refl scan
  | cons w windows ih =>
    have hone : app.Leaves scan (app.scanWindow g o tree n w scan).2 := leaves_scanWindow ht
    unfold scanAll
    split
    · next scan₁ heq =>
      rw [heq] at hone
      exact hone
    · next scan₁ heq =>
      rw [heq] at hone
      exact hone.trans ih

end Loops

/-! ### One snapshot -/

/-- What a snapshot does; one that fails leaves the windows. -/
structure Taken (g : Geometry β) (app : MacApplication β)
    (res : Except MacError (List NativeSurface) × MacApplication β) : Prop where
  inv : res.2.Inv g
  evolves : Evolves app res.2
  succession : Succession app res.2
  refused : ∀ e, res.1 = .error e → ∀ id : ℕ, res.2.windows[id]? = app.windows[id]?
  accepted : ∀ snapshot, res.1 = .ok snapshot → snapshot = res.2.surfaces ∧ res.2.Closed

theorem Taken.same (h : app.Inv g) {res : Except MacError (List NativeSurface)}
    (heq : app'.windows = app.windows) (hle : app.nextId ≤ app'.nextId)
    (hseen : app'.seenWindow = app.seenWindow)
    (hun : ∀ id ∈ app'.unavailable, ∃ w, app.windows[id]? = some w)
    (hok : ∀ snapshot, res = .ok snapshot → snapshot = app'.surfaces ∧ app'.Closed) :
    Taken g app (res, app') := by
  have hwindows : ∀ id : ℕ, app'.windows[id]? = app.windows[id]? := by
    intro id
    rw [heq]
  refine ⟨h.of_eq hwindows hle hseen hun, ⟨hle, ?_⟩, .of_eq h hwindows, fun _ _ => hwindows, hok⟩
  intro id w hw
  rw [hwindows] at hw
  exact .inl ⟨w, hw, .refl w⟩

theorem surfaces_eq_nil (h : ∀ id : ℕ, app.windows[id]? = none) : app.surfaces = [] := by
  rw [surfaces, List.map_eq_nil_iff, List.eq_nil_iff_forall_not_mem]
  rintro ⟨id, w⟩ hmem
  rw [mem_windows, h] at hmem
  cases hmem

theorem taken_axNotReady (h : app.Inv g) (e : MacError) : Taken g app (app.axNotReady o e) := by
  unfold axNotReady
  split
  · exact .same h rfl le_rfl rfl h.unavailable nofun
  · split
    · next hseen =>
      have hnone := h.seen (by simpa using hseen)
      refine .same h rfl le_rfl rfl h.unavailable ?_
      intro snapshot hok
      split at hok
      · cases hok
      · cases hok
        refine ⟨(surfaces_eq_nil hnone).symm, ?_⟩
        intro id p w hw
        rw [hnone] at hw
        cases hw
    · refine .same h rfl le_rfl rfl ?_ ?_
      · intro id hid
        obtain ⟨⟨id', w⟩, hmem, rfl⟩ := List.mem_map.mp (List.mem_toFinset.mp hid)
        exact ⟨w, mem_windows.mp (List.mem_filter.mp hmem).1⟩
      · rintro snapshot hok
        cases hok
        refine ⟨rfl, ?_⟩
        -- A sheet is never verified.
        intro id p w hw hp _
        refine List.mem_toFinset.mpr (List.mem_map.mpr ⟨(id, w), List.mem_filter.mpr ⟨?_, ?_⟩, rfl⟩)
        · exact mem_windows.mpr hw
        · simp [hp]

/-- The state after the loops. -/
def settled (app : MacApplication β) (scan : Scan β) (kept : Remembering β) : MacApplication β where
  windows := kept.current
  unavailable := suspend kept.current (kept.current.size + 1) kept.unavailable
  retired := kept.retired
  nextId := scan.nextId
  seenWindow := app.seenWindow || !kept.current.isEmpty

theorem taken_looped (h : app.Inv g) {windows : List (ℕ × β)} {tree : AxTree}
    (hc : (⟨g, app, o, windows, tree⟩ : Reading β).Coherent) {scan : Scan β}
    {current : ExtTreeMap ℕ (MacWindow β)} {kept : Remembering β}
    (hl : (⟨g, app, o, windows, tree⟩ : Reading β).Looped scan current kept) :
    (app.settled scan kept).Inv g ∧ Evolves app (app.settled scan kept) ∧
      Succession app (app.settled scan kept) ∧ (app.settled scan kept).Closed := by
  generalize happ : app.settled scan kept = app'
  have hwindows : app'.windows = kept.current := by rw [← happ]; rfl
  have hnext : app'.nextId = scan.nextId := by rw [← happ]; rfl
  have hun : app'.unavailable = suspend kept.current (kept.current.size + 1) kept.unavailable := by
    rw [← happ]
    rfl
  have hseen : app'.seenWindow = (app.seenWindow || !kept.current.isEmpty) := by
    rw [← happ]
    rfl
  have hlinks : ∀ {p c : ℕ}, Above app app' p c → ∃ w wp, kept.current[c]? = some w ∧
      kept.current[p]? = some wp ∧
      (⟨g, app, o, windows, tree⟩ : Reading β).Link wp.cgId w.cgId := by
    rintro p c (hp | ⟨hp, w, hw⟩)
    · obtain ⟨w, hw, hparent⟩ := Option.bind_eq_some_iff.mp hp
      rw [hwindows] at hw
      obtain ⟨wp, hwp, hlink⟩ := hl.links hc h.parents hw hparent
      exact ⟨w, wp, hw, hwp, hlink⟩
    · obtain ⟨old, hold, hparent⟩ := Option.bind_eq_some_iff.mp hp
      rw [hwindows] at hw
      obtain ⟨wp, hwp, hlink⟩ := hl.old_links hc h.parents hold hparent hw
      exact ⟨w, wp, hw, hwp, hlink⟩
  -- Seen by their numbers, the links are among those that are read or remembered.
  have hacyclic : ∀ a, ¬ TransGen (Above app app') a a := by
    intro a ha
    refine hc.acyclic _ (ha.lift (fun id => (kept.current[id]?.map (·.cgId)).getD 0) ?_)
    intro p c hp
    obtain ⟨w, wp, hw, hwp, hlink⟩ := hlinks hp
    unfold Function.onFun
    beta_reduce
    rw [hw, hwp]
    exact hlink
  have hpresent : ∀ id ∈ app'.unavailable, ∃ w, app'.windows[id]? = some w := by
    intro id hid
    rw [hun] at hid
    rw [hwindows]
    rcases suspend_cases _ hid with hid | hid
    · exact hl.suspended_present hid
    · obtain ⟨k, w, hw, rfl⟩ := mem_ids.mp hid
      rw [(hl.row hw).1]
      exact ⟨w, hw⟩
  refine ⟨⟨⟨?_, ?_, ?_, ?_⟩, ?_, ?_, hpresent, ?_⟩, ⟨?_, ?_⟩, ⟨?_, hacyclic⟩, ?_⟩
  · intro id w hw
    rw [hwindows] at hw
    exact (hl.row hw).1
  · intro id w hw
    rw [hwindows] at hw
    rw [hnext]
    exact (hl.row hw).2.1
  · intro id w hw
    rw [hwindows] at hw
    exact (hl.row hw).2.2.1
  · intro i j w w' hw hw' hcg
    rw [hwindows] at hw hw'
    exact hl.injective hw hw' hcg
  · intro id p w hw hp
    rw [hwindows] at hw ⊢
    obtain ⟨wp, hwp, -⟩ := hl.links hc h.parents hw hp
    exact ⟨wp, hwp⟩
  · intro a ha
    exact hacyclic a (ha.lift id fun p c hp => .inl hp)
  · intro hs id
    rw [hseen, Bool.or_eq_false_iff, Bool.not_eq_false'] at hs
    rw [hwindows, ExtTreeMap.isEmpty_iff.mp hs.2]
    exact ExtTreeMap.getElem?_empty
  · rw [hnext]
    exact hl.scanned.le
  · intro id w' hw'
    rw [hwindows] at hw'
    rcases (hl.row hw').2.2.2 with hold | ⟨hle, -⟩
    · exact .inl hold
    · exact .inr hle
  · intro id p old w hold hp hw
    rw [hwindows] at hw ⊢
    obtain ⟨wp, hwp, -⟩ := hl.old_links hc h.parents hold hp hw
    exact ⟨wp, hwp⟩
  · intro id p w hw hp hsuspended
    rw [hwindows] at hw
    rw [hun] at hsuspended ⊢
    have hclosed := suspend_closed hw hp hsuspended
    rw [(hl.row hw).1] at hclosed
    exact hclosed

theorem enumerate_windows {windows : List (ℕ × β)} (h : o.enumerate = .ok windows) :
    o.windows = .ok windows := by
  unfold Observation.enumerate at h
  cases hw : o.windows with
  | error e =>
    rw [hw] at h
    cases hi : o.identity with
    | error e' | ok _ =>
      rw [hi] at h
      cases h
  | ok l =>
    rw [hw] at h
    cases hi : o.identity with
    | error e' =>
      rw [hi] at h
      cases h
    | ok _ =>
      cases ha : o.application with
      | error e' =>
        rw [hi, ha] at h
        cases h
      | ok _ =>
        rw [hi, ha] at h
        cases h
        rfl

section Snapshot

variable [DecidableEq β]

theorem taken_readWindows (h : app.Inv g) {windows : List (ℕ × β)} {tree : AxTree}
    (hnodup : (windows.map (·.1)).Nodup)
    (hc : (⟨g, app, o, windows, tree⟩ : Reading β).Coherent) :
    Taken g app (app.readWindows g o windows tree) := by
  have hleaves : app.Leaves ⟨∅, ∅, [], [], ∅, app.nextId⟩
      (app.scanAll g o tree 0 windows ⟨∅, ∅, [], [], ∅, app.nextId⟩).2 := leaves_scanAll h.tables
  unfold readWindows
  generalize hscan : app.scanAll g o tree 0 windows ⟨∅, ∅, [], [], ∅, app.nextId⟩ = out
    at hleaves ⊢
  obtain ⟨res, scan⟩ := out
  have hknown : ∀ id ∈ scan.unavailable, ∃ w, app.windows[id]? = some w := by
    intro id hid
    rcases hleaves.2 id hid with hid | hw
    · exact absurd hid (Finset.notMem_empty id)
    · exact hw
  cases res with
  | error e => exact .same h rfl hleaves.1 rfl hknown nofun
  | ok _ =>
    dsimp only
    split
    · exact .same h rfl hleaves.1 rfl hknown nofun
    · next current hlink =>
      split
      · next e r hkeep =>
        refine .same h rfl hleaves.1 rfl ?_ nofun
        intro id hid
        have hid' : id ∈ (preserveAll g o tree scan.rejected (app.windows.toList.map (·.2))
            ⟨current, scan.unavailable, app.retired⟩).2.unavailable := by
          rw [hkeep]
          exact hid
        rcases preserveAll_unavailable hid' with hid | ⟨old, hmem, rfl⟩
        · exact hknown id hid
        · obtain ⟨⟨id, old⟩, hold, rfl⟩ := List.mem_map.mp hmem
          rw [mem_windows] at hold
          rw [h.tables.keyed id old hold]
          exact ⟨old, hold⟩
      · next r hkeep =>
        have hrest : (⟨g, app, o, windows, tree⟩ : Reading β).windows.drop 0 = windows := rfl
        have hscanned := Reading.scanInv_scanAll h.tables hnodup hrest (Reading.scanInv_start _) hscan
        rw [Nat.zero_add] at hscanned
        have hl : (⟨g, app, o, windows, tree⟩ : Reading β).Looped scan current r :=
          ⟨h.tables, hnodup, hscanned, hlink, preserveAll_kept hkeep⟩
        obtain ⟨hinv, hevolves, hsuccession, hclosed⟩ := taken_looped h hc hl
        split
        · next hlate =>
          refine ⟨hinv, hevolves, hsuccession, ?_, nofun⟩
          -- No window has been seen, so there is none before and after.
          rintro e - id
          rw [Bool.and_eq_true, Bool.not_eq_true'] at hlate
          have hbefore := (Bool.or_eq_false_iff.mp hlate.1).1
          exact (hinv.seen hlate.1 id).trans (h.seen hbefore id).symm
        · refine ⟨hinv, hevolves, hsuccession, nofun, ?_⟩
          rintro snapshot hok
          cases hok
          exact ⟨rfl, hclosed⟩

/-- **One snapshot.** -/
theorem taken_snapshot (h : app.Inv g) (hc : app.CoherentAt g o) :
    Taken g app (app.snapshot g o) := by
  unfold snapshot
  split
  · -- The process is gone: so are its windows.
    have hnone : ∀ id : ℕ, (∅ : ExtTreeMap ℕ (MacWindow β))[id]? = none :=
      fun _ => ExtTreeMap.getElem?_empty
    have hno : ∀ {id : ℕ} {w : MacWindow β}, (∅ : ExtTreeMap ℕ (MacWindow β))[id]? ≠ some w := by
      intro id w hw
      rw [hnone] at hw
      cases hw
    refine ⟨⟨⟨?_, ?_, ?_, ?_⟩, ?_, ?_, ?_, ?_⟩, ⟨le_rfl, ?_⟩, ⟨?_, ?_⟩, nofun, ?_⟩
    · exact fun id w hw => absurd hw hno
    · exact fun id w hw => absurd hw hno
    · exact fun id w hw => absurd hw hno
    · exact fun i j w w' hw => absurd hw hno
    · exact fun id p w hw => absurd hw hno
    · exact acyclic_of_lt fun c p hp => absurd hp (by simp [parentOf])
    · exact fun id hid => absurd hid (Finset.notMem_empty id)
    · exact fun _ id => hnone id
    · exact fun id w hw => absurd hw hno
    · exact fun id p old w _ _ hw => absurd hw hno
    · intro a ha
      have hedge : ∀ p c, ¬ Above app { app with windows := ∅, unavailable := ∅ } p c := by
        rintro p c (hp | ⟨-, w, hw⟩)
        · simp [parentOf] at hp
        · exact hno hw
      cases ha with
      | single hp => exact hedge _ _ hp
      | tail _ hp => exact hedge _ _ hp
    · rintro snapshot hok
      cases hok
      exact ⟨(surfaces_eq_nil hnone).symm, fun id p w hw => absurd hw hno⟩
  · next hterm =>
    have hterm' : (app.seenWindow && o.terminated) = false := by simpa using hterm
    split
    · exact .same h rfl le_rfl rfl h.unavailable nofun
    · next windows henum =>
      split
      · exact taken_axNotReady h _
      · next tree htree =>
        exact taken_readWindows h (o.distinct _ (enumerate_windows henum))
          (hc hterm' windows tree henum htree)

end Snapshot

/-! ### The snapshot as a list -/

theorem mem_surfaces {s : NativeSurface} :
    s ∈ app.surfaces ↔ ∃ (id : ℕ) (w : MacWindow β), app.windows[id]? = some w ∧ w.surface = s := by
  unfold surfaces
  rw [List.mem_map]
  constructor
  · rintro ⟨⟨id, w⟩, hmem, rfl⟩
    exact ⟨id, w, mem_windows.mp hmem, rfl⟩
  · rintro ⟨id, w, hw, rfl⟩
    exact ⟨(id, w), mem_windows.mpr hw, rfl⟩

theorem Inv.nodup_surfaces (h : app.Inv g) : (app.surfaces.map (·.nativeId)).Nodup := by
  have hkeys : app.surfaces.map (·.nativeId) = app.windows.toList.map (·.1) := by
    rw [surfaces, List.map_map]
    refine List.map_congr_left ?_
    rintro ⟨id, w⟩ hmem
    exact h.tables.keyed id w (mem_windows.mp hmem)
  rw [hkeys, ExtTreeMap.map_fst_toList_eq_keys]
  exact ExtTreeMap.nodup_keys

theorem Inv.parentIn_eq (h : app.Inv g) : parentIn app.surfaces = app.parentOf := by
  funext n
  cases hw : app.windows[n]? with
  | some w =>
    have hmem : w.surface ∈ app.surfaces := mem_surfaces.mpr ⟨n, w, hw, rfl⟩
    have hparent := NebulaDesk.parentIn_eq h.nodup_surfaces hmem
    rw [h.tables.keyed n w hw] at hparent
    rw [hparent, parentOf, hw]
    rfl
  | none =>
    rw [parentOf, hw, Option.bind_none, parentIn, Option.bind_eq_none_iff]
    intro s hs
    obtain ⟨id, w, hw', rfl⟩ := mem_surfaces.mp (List.mem_of_find?_eq_some hs)
    have hid : w.surface.nativeId = n := by simpa using List.find?_some hs
    rw [h.tables.keyed id w hw'] at hid
    rw [← hid, hw'] at hw
    cases hw

/-- Ids are unique, every parent is there, no window is above itself, and what is
suspended is there with its sheets. -/
structure WellFormed (snapshot : List NativeSurface) (unavailable : Finset ℕ) : Prop where
  unique : (snapshot.map (·.nativeId)).Nodup
  parents : ∀ s ∈ snapshot, ∀ p, s.parent = some p → ∃ t ∈ snapshot, t.nativeId = p
  acyclic : Acyclic (parentIn snapshot)
  suspended : ∀ id ∈ unavailable, ∃ s ∈ snapshot, s.nativeId = id
  closed : ∀ s ∈ snapshot, ∀ p ∈ unavailable, s.parent = some p → s.nativeId ∈ unavailable

theorem Inv.wellFormed (h : app.Inv g) (hclosed : app.Closed) :
    WellFormed app.surfaces app.unavailable := by
  have hthere : ∀ {id : ℕ} {w : MacWindow β}, app.windows[id]? = some w →
      ∃ s ∈ app.surfaces, s.nativeId = id :=
    fun hw => ⟨_, mem_surfaces.mpr ⟨_, _, hw, rfl⟩, h.tables.keyed _ _ hw⟩
  refine ⟨h.nodup_surfaces, ?_, ?_, ?_, ?_⟩
  · intro s hs p hp
    obtain ⟨id, w, hw, rfl⟩ := mem_surfaces.mp hs
    obtain ⟨wp, hwp⟩ := h.parents id p w hw hp
    exact hthere hwp
  · rw [h.parentIn_eq]
    exact h.acyclic
  · intro id hid
    obtain ⟨w, hw⟩ := h.unavailable id hid
    exact hthere hw
  · intro s hs p hp hparent
    obtain ⟨id, w, hw, rfl⟩ := mem_surfaces.mp hs
    rw [h.tables.keyed id w hw]
    exact hclosed id p w hw hparent hp

/-! ### The links before and after, for `reconcile` -/

theorem presentable_of_sound {w : MacWindow β} (h : w.Sound g) : Presentable w.surface := by
  obtain ⟨hvalid, hwidth, hheight, hscale, hgen⟩ := h
  refine ⟨hgen, ?_, ?_, ?_⟩
  · rw [hwidth, hheight]
    exact g.validSize_size _ hvalid
  · rw [hscale]
    decide
  · rw [hscale]
    decide

/-- The same window later on is fresher for `reconcile`. -/
theorem fresher_of_newer {old w : MacWindow β} (hold : old.Sound g) (hw : w.Sound g)
    (h : old.Newer w) : Fresher (Surfaces.clean old.surface) w.surface := by
  refine ⟨h.2.1, ?_⟩
  intro hchange
  refine h.2.2 (.inl ?_)
  intro hbounds
  obtain ⟨-, hwidth, hheight, hscale, -⟩ := hold
  obtain ⟨-, hwidth', hheight', hscale', -⟩ := hw
  rcases hchange with hne | hne | hne
  · exact hne (by rw [hwidth', hbounds]; exact hwidth)
  · exact hne (by rw [hheight', hbounds]; exact hheight)
  · have heq : (Surfaces.clean old.surface).scale = w.surface.scale := hscale.trans hscale'.symm
    rw [heq, hscale'] at hne
    exact absurd hne (by decide)

end MacApplication

theorem untangled_of_acyclic {R : ℕ → ℕ → Prop} (hR : ∀ a, ¬ TransGen R a a)
    {above : ℕ → Option ℕ} (hwf : WellFounded (Parent above))
    (habove : ∀ p c, above c = some p → R p c) {order : List NativeSurface}
    (horder : ∀ s ∈ order, ∀ p, s.parent = some p → R p s.nativeId) : Untangled above order := by
  induction order generalizing above with
  | nil => trivial
  | cons s rest ih =>
    have havoids : ∀ p, s.parent = some p → Avoids above s.nativeId p := by
      intro p hp
      refine avoids_of_not_ancestor hwf ?_
      intro hup
      have hlink := horder s List.mem_cons_self p hp
      refine hR p (TransGen.head' hlink ?_)
      exact hup.lift id fun a b hab => habove a b hab
    have hrest : ∀ u ∈ rest, ∀ p, u.parent = some p → R p u.nativeId :=
      fun u hu => horder u (List.mem_cons_of_mem s hu)
    refine ⟨havoids, ih ?_ ?_ hrest⟩
    · cases hp : s.parent with
      | none => exact wellFounded_cut hwf s.nativeId
      | some p => exact wellFounded_update hwf (havoids p hp)
    · intro p c hc
      by_cases hcs : c = s.nativeId
      · subst hcs
        rw [Function.update_self] at hc
        exact horder s List.mem_cons_self p hc
      · rw [Function.update_of_ne hcs] at hc
        exact habove p c hc

end NebulaDesk
