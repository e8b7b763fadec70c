/-
macOS snapshots: the parent links.

A window in the result has the parent the accessibility tree gives it now, or the one
it is remembered with, and the two are not checked against each other.  `Coherent` is
what the answers of the system must satisfy for the links to work out:

* no window goes while one that was a sheet of it stays;
* no sheet hangs on a sheet that is left out for want of its own parent;
* the links that are read and those that are remembered make no cycle.

`Looped` says what a snapshot leaves, and `Looped.links` that every link then leads to
a window of the snapshot.
-/
import NebulaDesk.Agent.MacScan

namespace NebulaDesk

open Std (ExtTreeMap)
open Relation (TransGen)

variable {β : Type}

namespace Reading

/-- The fate of a listed window. -/
def Meets (r : Reading β) (cg : ℕ) (f : Fate) : Prop := r.Judged r.windows.length cg f

/-- The window is matched, and so is the one it is a sheet of, if any. -/
def Authorized (r : Reading β) (cg : ℕ) : Prop :=
  ∃ i, r.Meets cg (.matched i) ∧
    ∀ j, r.tree.parentAt i = some j → ∃ cg', r.Meets cg' (.matched j)

/-- A known window is not ready, or matched with its parent, or nothing matches it and
its native handle is live. -/
def Stays (r : Reading β) (old : MacWindow β) : Prop :=
  r.Meets old.cgId .unready ∨ r.Authorized old.cgId ∨
    (¬ r.Meets old.cgId .rejected ∧ r.o.live old.surface.nativeId = true)

/-- `p` is the parent of `c`: it is read from the tree, or remembered. -/
inductive Link (r : Reading β) : (p c : ℕ) → Prop
  | sheet {p c i j : ℕ} : r.Meets c (.matched i) → r.tree.parentAt i = some j →
      r.Meets p (.matched j) → Link r p c
  | remembered {id q : ℕ} {w wq : MacWindow β} : r.app.windows[id]? = some w →
      w.surface.parent = some q → r.app.windows[q]? = some wq → Link r wq.cgId w.cgId

/-- What the answers of the system must satisfy. -/
structure Coherent (r : Reading β) : Prop where
  keeps : ∀ (id p : ℕ) w wp, r.app.windows[id]? = some w → w.surface.parent = some p →
    r.app.windows[p]? = some wp → r.Stays w → r.Stays wp
  attached : ∀ c i j p, r.Meets c (.matched i) → r.tree.parentAt i = some j →
    r.Meets p (.matched j) → r.Authorized p ∨
      ∃ (id : ℕ) (w : MacWindow β), r.app.windows[id]? = some w ∧ w.cgId = p ∧ r.o.live id = true
  acyclic : ∀ c, ¬ TransGen r.Link c c

/-! ### What the loops leave together -/

variable {r : Reading β} {scan : Scan β} {current : ExtTreeMap ℕ (MacWindow β)}
  {kept : MacApplication.Remembering β}

structure Looped (r : Reading β) (scan : Scan β) (current : ExtTreeMap ℕ (MacWindow β))
    (kept : MacApplication.Remembering β) : Prop where
  tables : r.app.Tables r.g
  nodup : (r.windows.map (·.1)).Nodup
  scanned : r.ScanInv r.windows.length scan
  linked : MacApplication.linkSheets scan.axToNative scan.parents scan.current = .ok current
  keeping : MacApplication.Kept r.g r.o r.tree scan.rejected (r.app.windows.toList.map (·.2))
    ⟨current, scan.unavailable, r.app.retired⟩ kept

/-- Why a window is in the result. -/
inductive Origin (r : Reading β) (scan : Scan β) (id : ℕ) (w : MacWindow β) : Prop
  | remembered {old : MacWindow β} : r.app.windows[id]? = some old → old.Newer w →
      w.surface.parent = old.surface.parent → r.Stays old → Origin r scan id w
  | authorized {v : MacWindow β} {i : ℕ} : scan.current[id]? = some v → w.cgId = v.cgId →
      r.app.Issues id w → r.Meets w.cgId (.matched i) → r.Authorized w.cgId →
      (∀ p, w.surface.parent = some p →
        ∃ j, r.tree.parentAt i = some j ∧ (j, p) ∈ scan.axToNative) → Origin r scan id w

namespace Looped

theorem sheets_nodup (h : r.Looped scan current kept) : (scan.parents.map (·.1)).Nodup := by
  rw [h.scanned.parents, List.map_map]
  exact h.scanned.nodup

variable {id : ℕ} {w : MacWindow β}

theorem not_sheet (h : r.Looped scan current kept)
    (hno : ∀ i, (i, id) ∉ scan.axToNative) : current[id]? = scan.current[id]? := by
  refine (MacApplication.linkSheets_spec h.sheets_nodup h.linked).1 id ?_
  rw [h.scanned.parents, List.map_map]
  intro hmem
  obtain ⟨⟨i, id'⟩, hpair, rfl⟩ := List.mem_map.mp hmem
  exact hno i hpair

theorem sheet (h : r.Looped scan current kept) {i id : ℕ} (hmem : (i, id) ∈ scan.axToNative) :
    current[id]? =
      scan.current[id]?.bind (MacApplication.linked scan.axToNative (r.tree.parentAt i)) := by
  refine (MacApplication.linkSheets_spec h.sheets_nodup h.linked).2 id _ ?_
  rw [h.scanned.parents]
  exact List.mem_map.mpr ⟨(i, id), hmem, rfl⟩

theorem unique (h : r.Looped scan current kept) {cg : ℕ} {f f' : Fate} (hf : r.Meets cg f)
    (hf' : r.Meets cg f') : f = f' := hf.unique h.nodup hf'

theorem matched (h : r.Looped scan current kept) {i id : ℕ} (hmem : (i, id) ∈ scan.axToNative) :
    ∃ v, scan.current[id]? = some v ∧ r.Meets v.cgId (.matched i) ∧ v.surface.parent = none ∧
      r.app.Issues id v := by
  obtain ⟨v, hv, hj⟩ := h.scanned.matched i id hmem
  rcases h.scanned.entry id v hv with ⟨hun, -⟩ | ⟨i', -, -, hparent, hissue⟩
  · cases h.unique hun hj
  · exact ⟨v, hv, hj, hparent, hissue⟩

theorem isSome_find (h : r.Looped scan current kept) {j cg : ℕ} (hj : r.Meets cg (.matched j)) :
    ∃ p, scan.axToNative.find? (·.1 = j) = some p := by
  obtain ⟨id, w, hmem, -⟩ := h.scanned.hasMatched cg j hj
  refine Option.isSome_iff_exists.mp (List.find?_isSome.mpr ⟨(j, id), hmem, ?_⟩)
  exact decide_eq_true rfl

theorem find_mem {j : ℕ} {p : ℕ × ℕ} (h : scan.axToNative.find? (·.1 = j) = some p) :
    (j, p.2) ∈ scan.axToNative := by
  have hj : p.1 = j := by simpa using List.find?_some h
  rw [← hj]
  exact List.mem_of_find?_eq_some h

theorem origin_linked (h : r.Looped scan current kept)
    (hw : current[id]? = some w) : r.Origin scan id w := by
  by_cases hsheet : ∃ i, (i, id) ∈ scan.axToNative
  · obtain ⟨i, hmem⟩ := hsheet
    obtain ⟨v, hv, hj, hparent, hissue⟩ := h.matched hmem
    rw [h.sheet hmem, hv, Option.bind_some] at hw
    cases hp : r.tree.parentAt i with
    | none =>
      rw [hp] at hw
      cases hw
      refine .authorized hv rfl hissue hj ⟨i, hj, ?_⟩ ?_
      · intro j hj'
        rw [hp] at hj'
        cases hj'
      · intro p hp'
        rw [hparent] at hp'
        cases hp'
    | some j =>
      rw [hp] at hw
      obtain ⟨p, hfind, rfl⟩ := Option.map_eq_some_iff.mp hw
      obtain ⟨u, -, hju, -⟩ := h.matched (find_mem hfind)
      refine .authorized hv rfl hissue hj ⟨i, hj, ?_⟩ ?_
      · intro j' hj'
        rw [hp] at hj'
        cases hj'
        exact ⟨u.cgId, hju⟩
      · intro q hq
        cases hq
        exact ⟨j, hp, find_mem hfind⟩
  · rw [h.not_sheet fun i hmem => hsheet ⟨i, hmem⟩] at hw
    rcases h.scanned.entry id w hw with ⟨hun, hold⟩ | ⟨i, -, hmem, -⟩
    · exact .remembered hold (.refl w) rfl (.inl hun)
    · exact absurd ⟨i, hmem⟩ hsheet

theorem origin (h : r.Looped scan current kept)
    (hw : kept.current[id]? = some w) : r.Origin scan id w := by
  rcases h.keeping.origin id w hw with hcurrent | ⟨-, old, hmem, hid, hrej, hlive, suspended, hpre⟩
  · exact h.origin_linked hcurrent
  · obtain ⟨⟨id', old'⟩, hold, rfl⟩ := List.mem_map.mp hmem
    rw [MacApplication.mem_windows] at hold
    have hkey := h.tables.keyed id' old' hold
    obtain rfl : id' = id := hkey.symm.trans hid
    obtain ⟨hnewer, -, hparent, -⟩ := MacApplication.preserved_spec hpre
    refine .remembered hold hnewer hparent (.inr (.inr ⟨?_, ?_⟩))
    · intro hr
      exact hrej ((h.scanned.rejected _).mpr hr)
    · rw [hkey]
      exact hlive

theorem authorized_present (h : r.Looped scan current kept) {i id : ℕ}
    (hmem : (i, id) ∈ scan.axToNative)
    (hparent : ∀ j, r.tree.parentAt i = some j → ∃ cg, r.Meets cg (.matched j)) :
    ∃ w, kept.current[id]? = some w := by
  obtain ⟨v, hv, -⟩ := h.matched hmem
  have hcurrent := h.sheet hmem
  rw [hv, Option.bind_some] at hcurrent
  cases hp : r.tree.parentAt i with
  | none =>
    rw [hp] at hcurrent
    exact ⟨v, h.keeping.held id v hcurrent⟩
  | some j =>
    obtain ⟨cg, hj⟩ := hparent j hp
    obtain ⟨p, hfind⟩ := h.isSome_find hj
    rw [hp, MacApplication.linked, hfind, Option.map_some] at hcurrent
    exact ⟨_, h.keeping.held id _ hcurrent⟩

theorem id_of_known (h : r.Looped scan current kept) {id id' : ℕ} {old v : MacWindow β}
    (hold : r.app.windows[id]? = some old) (hissue : r.app.Issues id' v)
    (hcg : old.cgId = v.cgId) : id' = id := by
  rcases hissue with ⟨old', hold', hnewer⟩ | ⟨-, hnew⟩
  · exact h.tables.injective id' id old' old hold' hold (hnewer.1.symm.trans hcg.symm)
  · exact absurd hcg (hnew id old hold)

theorem present (h : r.Looped scan current kept) {old : MacWindow β}
    (hold : r.app.windows[id]? = some old) (hstays : r.Stays old) :
    ∃ w, kept.current[id]? = some w := by
  rcases hstays with hun | ⟨i, hj, hparent⟩ | ⟨hrej, hlive⟩
  · have hcurrent := h.scanned.hasUnready id old hold hun
    have hno : ∀ i, (i, id) ∉ scan.axToNative := by
      intro i hmem
      obtain ⟨v, hv, hj, -⟩ := h.matched hmem
      rw [hcurrent] at hv
      cases hv
      cases h.unique hun hj
    rw [← h.not_sheet hno] at hcurrent
    exact ⟨old, h.keeping.held id old hcurrent⟩
  · obtain ⟨id', w, hmem, hw, hcg⟩ := h.scanned.hasMatched old.cgId i hj
    obtain ⟨v, hv, -, -, hissue⟩ := h.matched hmem
    rw [hw] at hv
    cases hv
    obtain rfl := h.id_of_known hold hissue hcg.symm
    exact h.authorized_present hmem hparent
  · have hmem : old ∈ r.app.windows.toList.map (·.2) :=
      List.mem_map.mpr ⟨(id, old), MacApplication.mem_windows.mpr hold, rfl⟩
    obtain ⟨w, hw⟩ := h.keeping.complete old hmem (fun hr => hrej ((h.scanned.rejected _).mp hr)) hlive
    rw [h.tables.keyed id old hold] at hw
    exact ⟨w, hw⟩

theorem stays (h : r.Looped scan current kept) {old w : MacWindow β}
    (hold : r.app.windows[id]? = some old) (hw : kept.current[id]? = some w) :
    r.Stays old ∧ w.cgId = old.cgId := by
  cases h.origin hw with
  | remembered hold' hnewer _ hstays =>
    rw [hold] at hold'
    cases hold'
    exact ⟨hstays, hnewer.1⟩
  | authorized _ _ hissue _ hauth _ =>
    rcases hissue with ⟨old', hold', hnewer⟩ | ⟨hle, -⟩
    · rw [hold] at hold'
      cases hold'
      rw [hnewer.1] at hauth
      exact ⟨.inr (.inl hauth), hnewer.1⟩
    · have := h.tables.fresh id old hold
      omega

theorem parent_present (h : r.Looped scan current kept) (hc : r.Coherent) {c i j p : ℕ}
    (hi : r.Meets c (.matched i)) (hj : r.tree.parentAt i = some j)
    (hmem : (j, p) ∈ scan.axToNative) :
    ∃ wp, kept.current[p]? = some wp ∧ r.Meets wp.cgId (.matched j) := by
  obtain ⟨v, hv, hvj, -, hissue⟩ := h.matched hmem
  have hpresent : ∃ wp, kept.current[p]? = some wp := by
    rcases hc.attached c i j v.cgId hi hj hvj with ⟨j', hj', hparent⟩ | ⟨id, old, hold, hcg, hlive⟩
    · obtain rfl : j' = j := by simpa using h.unique hj' hvj
      exact h.authorized_present hmem hparent
    · obtain rfl := h.id_of_known hold hissue hcg
      refine h.present hold (.inr (.inr ⟨?_, ?_⟩))
      · intro hr
        rw [hcg] at hr
        cases h.unique hr hvj
      · rw [h.tables.keyed p old hold]
        exact hlive
  obtain ⟨wp, hwp⟩ := hpresent
  refine ⟨wp, hwp, ?_⟩
  have hcg : wp.cgId = v.cgId := by
    cases h.origin hwp with
    | remembered hold hnewer _ _ =>
      -- A known id was issued to the number it belongs to.
      rcases hissue with ⟨old', hold', hnewer'⟩ | ⟨hle, -⟩
      · rw [hold] at hold'
        cases hold'
        exact hnewer.1.trans hnewer'.1.symm
      · have := h.tables.fresh p _ hold
        omega
    | authorized hv' hcg _ _ _ _ =>
      rw [hv] at hv'
      cases hv'
      exact hcg
  rw [hcg]
  exact hvj

theorem links (h : r.Looped scan current kept) (hc : r.Coherent)
    (hparents : ∀ (id p : ℕ) w, r.app.windows[id]? = some w → w.surface.parent = some p → ∃ wp, r.app.windows[p]? = some wp)
    {id p : ℕ} (hw : kept.current[id]? = some w) (hp : w.surface.parent = some p) :
    ∃ wp, kept.current[p]? = some wp ∧ r.Link wp.cgId w.cgId := by
  cases h.origin hw with
  | remembered hold hnewer hparent hstays =>
    rw [hp] at hparent
    obtain ⟨oldp, holdp⟩ := hparents id p _ hold hparent.symm
    have hstaysp := hc.keeps id p _ oldp hold hparent.symm holdp hstays
    obtain ⟨wp, hwp⟩ := h.present holdp hstaysp
    refine ⟨wp, hwp, ?_⟩
    rw [(h.stays holdp hwp).2, hnewer.1]
    exact .remembered hold hparent.symm holdp
  | authorized _ _ _ hi _ hsheet =>
    obtain ⟨j, hj, hmem⟩ := hsheet p hp
    obtain ⟨wp, hwp, hwpj⟩ := h.parent_present hc hi hj hmem
    exact ⟨wp, hwp, .sheet hi hj hwpj⟩

theorem old_links (h : r.Looped scan current kept) (hc : r.Coherent)
    (hparents : ∀ (id p : ℕ) w, r.app.windows[id]? = some w → w.surface.parent = some p → ∃ wp, r.app.windows[p]? = some wp)
    {id p : ℕ} {old w : MacWindow β} (hold : r.app.windows[id]? = some old)
    (hp : old.surface.parent = some p) (hw : kept.current[id]? = some w) :
    ∃ wp, kept.current[p]? = some wp ∧ r.Link wp.cgId w.cgId := by
  obtain ⟨hstays, hcg⟩ := h.stays hold hw
  obtain ⟨oldp, holdp⟩ := hparents id p old hold hp
  obtain ⟨wp, hwp⟩ := h.present holdp (hc.keeps id p old oldp hold hp holdp hstays)
  refine ⟨wp, hwp, ?_⟩
  rw [(h.stays holdp hwp).2, hcg]
  exact .remembered hold hp holdp

theorem row (h : r.Looped scan current kept) (hw : kept.current[id]? = some w) :
    w.surface.nativeId = id ∧ id < scan.nextId ∧ w.Sound r.g ∧ r.app.Issues id w := by
  have hold : ∀ {old : MacWindow β}, r.app.windows[id]? = some old → id < scan.nextId :=
    fun hold => lt_of_lt_of_le (h.tables.fresh id _ hold) h.scanned.le
  rcases h.keeping.origin id w hw with hcurrent | ⟨-, old, hmem, hid, -, -, suspended, hpre⟩
  · by_cases hsheet : ∃ i, (i, id) ∈ scan.axToNative
    · obtain ⟨i, hmem⟩ := hsheet
      obtain ⟨v, hv, -, -, hissue⟩ := h.matched hmem
      obtain ⟨hkey, hlt, hsound⟩ := h.scanned.keyed id v hv
      have hlink := h.sheet hmem
      rw [hcurrent, hv, Option.bind_some] at hlink
      -- A link changes nothing else of the window.
      cases hp : r.tree.parentAt i with
      | none =>
        rw [hp] at hlink
        cases hlink
        exact ⟨hkey, hlt, hsound, hissue⟩
      | some j =>
        rw [hp] at hlink
        obtain ⟨p, -, rfl⟩ := Option.map_eq_some_iff.mp hlink.symm
        exact ⟨hkey, hlt, hsound, hissue⟩
    · have hentry := hcurrent
      rw [h.not_sheet fun i hmem => hsheet ⟨i, hmem⟩] at hentry
      obtain ⟨hkey, hlt, hsound⟩ := h.scanned.keyed id w hentry
      rcases h.scanned.entry id w hentry with ⟨-, hold'⟩ | ⟨i, -, hmem, -⟩
      · exact ⟨hkey, hlt, hsound, .inl ⟨w, hold', .refl w⟩⟩
      · exact absurd ⟨i, hmem⟩ hsheet
  · obtain ⟨⟨id', old'⟩, hold', rfl⟩ := List.mem_map.mp hmem
    rw [MacApplication.mem_windows] at hold'
    have hkey := h.tables.keyed id' old' hold'
    obtain rfl : id' = id := hkey.symm.trans hid
    obtain ⟨hnewer, hid', -, hsound⟩ := MacApplication.preserved_spec hpre
    exact ⟨hid'.trans hkey, hold hold', hsound (h.tables.sound _ _ hold'), .inl ⟨_, hold', hnewer⟩⟩

theorem injective (h : r.Looped scan current kept) {i j : ℕ} {w w' : MacWindow β}
    (hw : kept.current[i]? = some w) (hw' : kept.current[j]? = some w') (hcg : w.cgId = w'.cgId) :
    i = j := by
  obtain ⟨-, -, -, hissue⟩ := h.row hw
  obtain ⟨-, -, -, hissue'⟩ := h.row hw'
  rcases hissue with ⟨old, hold, hnewer⟩ | ⟨-, hnew⟩
  · exact (h.id_of_known hold hissue' (hnewer.1.symm.trans hcg)).symm
  · rcases hissue' with ⟨old', hold', hnewer'⟩ | ⟨-, -⟩
    · exact absurd (hnewer'.1.symm.trans hcg.symm) (hnew j old' hold')
    · -- Both are new, so both were held by the first loop.
      have hheld : ∀ {id : ℕ} {u : MacWindow β}, kept.current[id]? = some u → u.cgId = w.cgId →
          ∃ v, scan.current[id]? = some v ∧ v.cgId = u.cgId := by
        intro id u hu hucg
        cases h.origin hu with
        | remembered hold hnewer _ _ => exact absurd (hnewer.1.symm.trans hucg) (hnew id _ hold)
        | authorized hv hvcg _ _ _ _ => exact ⟨_, hv, hvcg.symm⟩
      obtain ⟨v, hv, hvcg⟩ := hheld hw rfl
      obtain ⟨v', hv', hvcg'⟩ := hheld hw' hcg.symm
      exact h.scanned.injective i j v v' hv hv' (hvcg.trans (hcg.trans hvcg'.symm))

theorem suspended_present (h : r.Looped scan current kept)
    (hid : id ∈ kept.unavailable) : ∃ w, kept.current[id]? = some w := by
  rcases h.keeping.unavailable id hid with hun | hw
  · obtain ⟨old, hold, hj⟩ := h.scanned.unavailable id hun
    exact h.present hold (.inl hj)
  · exact hw

end Looped

end Reading

namespace MacApplication

/-! ### The last loop -/

section Suspend

variable {current : ExtTreeMap ℕ (MacWindow β)} {unavailable : Finset ℕ} {id : ℕ}

def ids (current : ExtTreeMap ℕ (MacWindow β)) : Finset ℕ :=
  (current.toList.map (·.2.surface.nativeId)).toFinset

theorem mem_dependents : id ∈ dependents current unavailable ↔
    ∃ (k : ℕ) (w : MacWindow β), current[k]? = some w ∧ w.surface.nativeId = id ∧
      id ∉ unavailable ∧ ∃ p ∈ unavailable, w.surface.parent = some p := by
  constructor
  · intro h
    obtain ⟨⟨k, w⟩, hw, rfl⟩ := List.mem_map.mp h
    obtain ⟨hmem, hcond⟩ := List.mem_filter.mp hw
    rw [Bool.and_eq_true, decide_eq_true_eq] at hcond
    obtain ⟨hnot, hany⟩ := hcond
    cases hparent : w.surface.parent with
    | none => simp [hparent] at hany
    | some p =>
      refine ⟨k, w, ExtTreeMap.mem_toList_iff_getElem?_eq_some.mp hmem, rfl, hnot, p, ?_, hparent⟩
      simpa [hparent] using hany
  · rintro ⟨k, w, hw, rfl, hnot, p, hp, hparent⟩
    refine List.mem_map.mpr ⟨(k, w), List.mem_filter.mpr ⟨?_, ?_⟩, rfl⟩
    · exact ExtTreeMap.mem_toList_iff_getElem?_eq_some.mpr hw
    · simp [hnot, hparent, hp]

theorem mem_ids : id ∈ ids current ↔
    ∃ (k : ℕ) (w : MacWindow β), current[k]? = some w ∧ w.surface.nativeId = id := by
  unfold ids
  rw [List.mem_toFinset, List.mem_map]
  constructor
  · rintro ⟨⟨k, w⟩, hmem, rfl⟩
    exact ⟨k, w, ExtTreeMap.mem_toList_iff_getElem?_eq_some.mp hmem, rfl⟩
  · rintro ⟨k, w, hw, rfl⟩
    exact ⟨(k, w), ExtTreeMap.mem_toList_iff_getElem?_eq_some.mpr hw, rfl⟩

theorem suspend_cases (fuel : ℕ) (h : id ∈ suspend current fuel unavailable) :
    id ∈ unavailable ∨ id ∈ ids current := by
  induction fuel generalizing unavailable with
  | zero => exact .inl h
  | succ fuel ih =>
    unfold suspend at h
    dsimp only at h
    split at h
    · exact .inl h
    · rcases ih h with h | h
      · rcases Finset.mem_union.mp h with h | h
        · exact .inl h
        · obtain ⟨k, w, hw, hid, -⟩ := mem_dependents.mp (List.mem_toFinset.mp h)
          exact .inr (mem_ids.mpr ⟨k, w, hw, hid⟩)
      · exact .inr h

theorem dependents_suspend {fuel : ℕ} (hfuel : (ids current \ unavailable).card < fuel) :
    dependents current (suspend current fuel unavailable) = [] := by
  induction fuel generalizing unavailable with
  | zero => omega
  | succ fuel ih =>
    unfold suspend
    dsimp only
    split
    · next hempty => exact List.isEmpty_iff.mp hempty
    · next hempty =>
      refine ih ?_
      obtain ⟨id, hid⟩ := List.exists_mem_of_ne_nil _ fun h => hempty (List.isEmpty_iff.mpr h)
      obtain ⟨k, w, hw, hwid, hnot, -⟩ := mem_dependents.mp hid
      have hlt : (ids current \ (unavailable ∪ (dependents current unavailable).toFinset)).card <
          (ids current \ unavailable).card := by
        refine Finset.card_lt_card (Finset.ssubset_iff_of_subset ?_ |>.mpr ⟨id, ?_, ?_⟩)
        · exact Finset.sdiff_subset_sdiff (Finset.Subset.refl _) Finset.subset_union_left
        · exact Finset.mem_sdiff.mpr ⟨mem_ids.mpr ⟨k, w, hw, hwid⟩, hnot⟩
        · rw [Finset.mem_sdiff]
          rintro ⟨-, hout⟩
          exact hout (Finset.mem_union_right _ (List.mem_toFinset.mpr hid))
      omega

theorem card_ids_le (current : ExtTreeMap ℕ (MacWindow β)) : (ids current).card ≤ current.size := by
  refine le_trans (List.toFinset_card_le _) ?_
  rw [List.length_map, ExtTreeMap.length_toList]

theorem suspend_closed {k p : ℕ} {w : MacWindow β} (hw : current[k]? = some w)
    (hparent : w.surface.parent = some p)
    (hp : p ∈ suspend current (current.size + 1) unavailable) :
    w.surface.nativeId ∈ suspend current (current.size + 1) unavailable := by
  have hfuel : (ids current \ unavailable).card < current.size + 1 := by
    have hsub := Finset.card_le_card (Finset.sdiff_subset : ids current \ unavailable ⊆ ids current)
    have := card_ids_le current
    omega
  by_contra hnot
  have hmem := mem_dependents.mpr ⟨k, w, hw, rfl, hnot, p, hp, hparent⟩
  rw [dependents_suspend hfuel] at hmem
  exact List.not_mem_nil hmem

end Suspend

end MacApplication

end NebulaDesk
