/-
What the loops of a macOS snapshot leave.

`Reading.Judged` is the fate of a listed window.  `ScanInv` says what the first loop
knows after some of the list: every window it holds is a remembered one that is not
ready or a matched one, and no judged window is missing.  The other two loops are
described row by row (`linkSheets_spec`, `preserveAll_kept`).
-/
import NebulaDesk.Agent.MacApplication

namespace NebulaDesk

open Std (ExtTreeMap)

section Maps

variable {α : Type} (m : ExtTreeMap ℕ α)

theorem getElem?_insert_same (k : ℕ) (v : α) : (m.insert k v)[k]? = some v := by
  rw [ExtTreeMap.getElem?_insert, if_pos (by simp)]

theorem getElem?_insert_other {k a : ℕ} (h : a ≠ k) (v : α) : (m.insert k v)[a]? = m[a]? := by
  rw [ExtTreeMap.getElem?_insert, if_neg]
  simp only [Nat.compare_eq_eq]
  exact fun heq => h heq.symm

theorem getElem?_erase_same (k : ℕ) : (m.erase k)[k]? = none := by
  rw [ExtTreeMap.getElem?_erase, if_pos (by simp)]

theorem getElem?_erase_other {k a : ℕ} (h : a ≠ k) : (m.erase k)[a]? = m[a]? := by
  rw [ExtTreeMap.getElem?_erase, if_neg]
  simp only [Nat.compare_eq_eq]
  exact fun heq => h heq.symm

end Maps

variable {β : Type}

namespace MacWindow

/-- The window goes by the same number, and its generation has grown with every change. -/
def Newer (old w : MacWindow β) : Prop :=
  w.cgId = old.cgId ∧ old.surface.geometryGeneration ≤ w.surface.geometryGeneration ∧
    (w.bounds ≠ old.bounds ∨ w.axIdentity ≠ old.axIdentity ∨
      w.surface.minimized ≠ old.surface.minimized →
        old.surface.geometryGeneration < w.surface.geometryGeneration)

/-- The metadata are those of the bounds. -/
def Sound (g : Geometry β) (w : MacWindow β) : Prop :=
  g.valid w.bounds = true ∧ w.surface.width = (g.size w.bounds).1 ∧
    w.surface.height = (g.size w.bounds).2 ∧ w.surface.scale = ⟨0x3f800000⟩ ∧
    w.surface.geometryGeneration ≠ 0

theorem Newer.refl (w : MacWindow β) : w.Newer w := by
  refine ⟨rfl, le_rfl, ?_⟩
  rintro (h | h | h)
  · exact absurd rfl h
  · exact absurd rfl h
  · exact absurd rfl h

theorem Newer.trans {u v w : MacWindow β} (h : u.Newer v) (h' : v.Newer w) : u.Newer w := by
  refine ⟨h'.1.trans h.1, le_trans h.2.1 h'.2.1, ?_⟩
  intro hchange
  by_cases hsame : v.bounds = u.bounds ∧ v.axIdentity = u.axIdentity ∧
      v.surface.minimized = u.surface.minimized
  · obtain ⟨h1, h2, h3⟩ := hsame
    rw [← h1, ← h2, ← h3] at hchange
    exact lt_of_le_of_lt h.2.1 (h'.2.2 hchange)
  · refine lt_of_lt_of_le (h.2.2 ?_) h'.2.1
    by_contra hno
    simp only [not_or, ne_eq, not_not] at hno
    exact hsame hno

end MacWindow

namespace MacApplication

structure Tables (g : Geometry β) (app : MacApplication β) : Prop where
  keyed : ∀ (id : ℕ) w, app.windows[id]? = some w → w.surface.nativeId = id
  fresh : ∀ (id : ℕ) w, app.windows[id]? = some w → id < app.nextId
  sound : ∀ (id : ℕ) w, app.windows[id]? = some w → w.Sound g
  injective : ∀ (i j : ℕ) w w', app.windows[i]? = some w → app.windows[j]? = some w' →
    w.cgId = w'.cgId → i = j

/-- The id goes to a known window again, or is a new one for a new window. -/
def Issues (app : MacApplication β) (id : ℕ) (w : MacWindow β) : Prop :=
  (∃ old, app.windows[id]? = some old ∧ old.Newer w) ∨
    (app.nextId ≤ id ∧ ∀ (i : ℕ) old, app.windows[i]? = some old → old.cgId ≠ w.cgId)

variable {app : MacApplication β} {cg : ℕ} {w : MacWindow β}

theorem mem_windows {id : ℕ} : (id, w) ∈ app.windows.toList ↔ app.windows[id]? = some w :=
  ExtTreeMap.mem_toList_iff_getElem?_eq_some

theorem find_some (h : app.find cg = some w) : ∃ id : ℕ, app.windows[id]? = some w ∧ w.cgId = cg := by
  obtain ⟨⟨id, w'⟩, hfind, rfl⟩ := Option.map_eq_some_iff.mp h
  refine ⟨id, mem_windows.mp (List.mem_of_find?_eq_some hfind), ?_⟩
  simpa using List.find?_some hfind

theorem find_none (h : app.find cg = none) {id : ℕ} (hw : app.windows[id]? = some w) :
    w.cgId ≠ cg := by
  have hnone := List.find?_eq_none.mp (Option.map_eq_none_iff.mp h) (id, w) (mem_windows.mpr hw)
  simpa using hnone

end MacApplication

structure Reading (β : Type) where
  g : Geometry β
  app : MacApplication β
  o : Observation β
  windows : List (ℕ × β)
  tree : AxTree

namespace Reading

/-- One of the first `k` listed windows has this fate. -/
def Judged (r : Reading β) (k cg : ℕ) (f : Fate) : Prop :=
  ∃ n < k, ∃ b, r.windows[n]? = some (cg, b) ∧ r.app.fate r.g r.o r.tree n (cg, b) = .ok f

variable {r : Reading β} {k n cg : ℕ} {f f' : Fate} {b : β}

theorem Judged.mono (h : r.Judged k cg f) {k' : ℕ} (hle : k ≤ k') : r.Judged k' cg f := by
  obtain ⟨n, hn, hrest⟩ := h
  exact ⟨n, lt_of_lt_of_le hn hle, hrest⟩

theorem position_unique (hnodup : (r.windows.map (·.1)).Nodup) {m : ℕ} {b' : β}
    (hn : r.windows[n]? = some (cg, b)) (hm : r.windows[m]? = some (cg, b')) : n = m := by
  have hn' : (r.windows.map (·.1))[n]? = some cg := by
    rw [List.getElem?_map, hn]
    rfl
  have hm' : (r.windows.map (·.1))[m]? = some cg := by
    rw [List.getElem?_map, hm]
    rfl
  have hlt : n < (r.windows.map (·.1)).length := (List.getElem?_eq_some_iff.mp hn').1
  exact (List.getElem?_inj hlt hnodup).mp (hn'.trans hm'.symm)

theorem Judged.unique (hnodup : (r.windows.map (·.1)).Nodup) (h : r.Judged k cg f)
    (h' : r.Judged k cg f') : f = f' := by
  obtain ⟨n, -, b, hn, hf⟩ := h
  obtain ⟨m, -, b', hm, hf'⟩ := h'
  obtain rfl := position_unique hnodup hn hm
  rw [hn] at hm
  cases hm
  rw [hf] at hf'
  exact Except.ok.inj hf'

variable {w : ℕ × β}

theorem Judged.ne (hnodup : (r.windows.map (·.1)).Nodup) (h : r.Judged k cg f)
    (hk : r.windows[k]? = some w) : cg ≠ w.1 := by
  rintro rfl
  obtain ⟨n, hn, b, hb, -⟩ := h
  exact absurd (position_unique hnodup hb hk) (Nat.ne_of_lt hn)

theorem judged_here (hk : r.windows[k]? = some w)
    (hf : r.app.fate r.g r.o r.tree k w = .ok f) : r.Judged (k + 1) w.1 f :=
  ⟨k, Nat.lt_succ_self k, w.2, hk, hf⟩

theorem Judged.cases_succ (hk : r.windows[k]? = some w) (h : r.Judged (k + 1) cg f) :
    r.Judged k cg f ∨ (cg = w.1 ∧ r.app.fate r.g r.o r.tree k w = .ok f) := by
  obtain ⟨n, hn, b, hb, hf⟩ := h
  rcases Nat.lt_succ_iff_lt_or_eq.mp hn with hlt | rfl
  · exact .inl ⟨n, hlt, b, hb, hf⟩
  · rw [hk] at hb
    cases hb
    exact .inr ⟨rfl, hf⟩

/-! ### The first loop -/

structure ScanInv (r : Reading β) (k : ℕ) (scan : Scan β) : Prop where
  le : r.app.nextId ≤ scan.nextId
  keyed : ∀ (id : ℕ) w, scan.current[id]? = some w →
    w.surface.nativeId = id ∧ id < scan.nextId ∧ w.Sound r.g
  entry : ∀ (id : ℕ) w, scan.current[id]? = some w →
    (r.Judged k w.cgId .unready ∧ r.app.windows[id]? = some w) ∨
    ∃ i, r.Judged k w.cgId (.matched i) ∧ (i, id) ∈ scan.axToNative ∧ w.surface.parent = none ∧
      r.app.Issues id w
  matched : ∀ i id, (i, id) ∈ scan.axToNative →
    ∃ w, scan.current[id]? = some w ∧ r.Judged k w.cgId (.matched i)
  parents : scan.parents = scan.axToNative.map fun p => (p.2, r.tree.parentAt p.1)
  nodup : (scan.axToNative.map (·.2)).Nodup
  injective : ∀ (i j : ℕ) w w', scan.current[i]? = some w → scan.current[j]? = some w' →
    w.cgId = w'.cgId → i = j
  hasUnready : ∀ (id : ℕ) w, r.app.windows[id]? = some w → r.Judged k w.cgId .unready →
    scan.current[id]? = some w
  hasMatched : ∀ cg i, r.Judged k cg (.matched i) →
    ∃ (id : ℕ) (w : MacWindow β), (i, id) ∈ scan.axToNative ∧ scan.current[id]? = some w ∧
      w.cgId = cg
  rejected : ∀ cg, cg ∈ scan.rejected ↔ r.Judged k cg .rejected
  unavailable : ∀ id ∈ scan.unavailable,
    ∃ w, r.app.windows[id]? = some w ∧ r.Judged k w.cgId .unready

theorem scanInv_start (r : Reading β) : r.ScanInv 0 ⟨∅, ∅, [], [], ∅, r.app.nextId⟩ := by
  have hnever : ∀ {cg f}, ¬ r.Judged 0 cg f := by
    rintro cg f ⟨n, hn, -⟩
    exact Nat.not_lt_zero n hn
  constructor
  case le => exact le_rfl
  case rejected =>
    intro cg
    exact ⟨fun h => absurd h (Finset.notMem_empty cg), fun h => absurd h hnever⟩
  case unavailable => exact fun id h => absurd h (Finset.notMem_empty id)
  case hasUnready => exact fun _ _ _ h => absurd h hnever
  case hasMatched => exact fun _ _ h => absurd h hnever
  case parents => rfl
  case nodup => exact List.nodup_nil
  case matched => exact fun _ _ h => absurd h List.not_mem_nil
  all_goals simp

variable {scan scan' : Scan β} {w : ℕ × β}

theorem ScanInv.ne (h : r.ScanInv k scan) (hnodup : (r.windows.map (·.1)).Nodup)
    (hk : r.windows[k]? = some w) {id : ℕ} {v : MacWindow β} (hv : scan.current[id]? = some v) :
    v.cgId ≠ w.1 := by
  rcases h.entry id v hv with ⟨hj, -⟩ | ⟨i, hj, -⟩
  · exact hj.ne hnodup hk
  · exact hj.ne hnodup hk

theorem ScanInv.vacant (h : r.ScanInv k scan) (ht : r.app.Tables r.g)
    (hnodup : (r.windows.map (·.1)).Nodup) (hk : r.windows[k]? = some w) {id : ℕ}
    (hid : (∃ old, r.app.windows[id]? = some old ∧ old.cgId = w.1) ∨ scan.nextId ≤ id) :
    scan.current[id]? = none := by
  cases hv : scan.current[id]? with
  | none => rfl
  | some v =>
    exfalso
    have hne := h.ne hnodup hk hv
    rcases hid with ⟨old, hold, hcg⟩ | hle
    · rcases h.entry id v hv with ⟨-, hv'⟩ | ⟨i, -, -, -, hissue⟩
      · rw [hold] at hv'
        exact hne (Option.some.inj hv' ▸ hcg)
      · rcases hissue with ⟨old', hold', hnewer⟩ | ⟨hle, -⟩
        · rw [hold] at hold'
          rw [← Option.some.inj hold'] at hnewer
          exact hne (hnewer.1.trans hcg)
        · have := ht.fresh id old hold
          omega
    · have := (h.keyed id v hv).2.1
      omega

theorem Judged.other {f g : Fate} (hk : r.windows[k]? = some w)
    (hf : r.app.fate r.g r.o r.tree k w = .ok f) (hne : g ≠ f) (h : r.Judged (k + 1) cg g) :
    r.Judged k cg g := by
  rcases h.cases_succ hk with h | ⟨-, hg⟩
  · exact h
  · rw [hf] at hg
    exact absurd (Except.ok.inj hg).symm hne

/-- A window that changes nothing: it is skipped, or not ready and unknown. -/
theorem ScanInv.pass (h : r.ScanInv k scan) (hk : r.windows[k]? = some w)
    (hf : r.app.fate r.g r.o r.tree k w = .ok f) (hfate : f = .skipped ∨ f = .unready)
    (hunknown : f = .unready → ∀ (id : ℕ) v, r.app.windows[id]? = some v → v.cgId ≠ w.1) :
    r.ScanInv (k + 1) scan where
  __ := h
  entry := by
    intro id v hv
    rcases h.entry id v hv with ⟨hj, hrest⟩ | ⟨i, hj, hrest⟩
    · exact .inl ⟨hj.mono (Nat.le_succ k), hrest⟩
    · exact .inr ⟨i, hj.mono (Nat.le_succ k), hrest⟩
  matched := by
    intro i id hmem
    obtain ⟨v, hv, hj⟩ := h.matched i id hmem
    exact ⟨v, hv, hj.mono (Nat.le_succ k)⟩
  hasUnready := by
    intro id v hv hj
    rcases hj.cases_succ hk with hj | ⟨hcg, hg⟩
    · exact h.hasUnready id v hv hj
    · rw [hf] at hg
      exact absurd hcg (hunknown (Except.ok.inj hg) id v hv)
  hasMatched := by
    intro cg i hj
    refine h.hasMatched cg i (hj.other hk hf ?_)
    rcases hfate with rfl | rfl <;> simp
  rejected := by
    intro cg
    rw [h.rejected cg]
    constructor
    · exact fun hj => hj.mono (Nat.le_succ k)
    · intro hj
      refine hj.other hk hf ?_
      rcases hfate with rfl | rfl <;> simp
  unavailable := by
    intro id hid
    obtain ⟨v, hv, hj⟩ := h.unavailable id hid
    exact ⟨v, hv, hj.mono (Nat.le_succ k)⟩

theorem ScanInv.reject (h : r.ScanInv k scan) (hk : r.windows[k]? = some w)
    (hf : r.app.fate r.g r.o r.tree k w = .ok .rejected) :
    r.ScanInv (k + 1) { scan with rejected := insert w.1 scan.rejected } where
  __ := h
  entry := by
    intro id v hv
    rcases h.entry id v hv with ⟨hj, hrest⟩ | ⟨i, hj, hrest⟩
    · exact .inl ⟨hj.mono (Nat.le_succ k), hrest⟩
    · exact .inr ⟨i, hj.mono (Nat.le_succ k), hrest⟩
  matched := by
    intro i id hmem
    obtain ⟨v, hv, hj⟩ := h.matched i id hmem
    exact ⟨v, hv, hj.mono (Nat.le_succ k)⟩
  hasUnready := fun id v hv hj => h.hasUnready id v hv (hj.other hk hf (by simp))
  hasMatched := fun cg i hj => h.hasMatched cg i (hj.other hk hf (by simp))
  rejected := by
    intro cg
    rw [Finset.mem_insert, h.rejected cg]
    constructor
    · rintro (rfl | hj)
      · exact judged_here hk hf
      · exact hj.mono (Nat.le_succ k)
    · intro hj
      rcases hj.cases_succ hk with hj | ⟨hcg, -⟩
      · exact .inr hj
      · exact .inl hcg
  unavailable := by
    intro id hid
    obtain ⟨v, hv, hj⟩ := h.unavailable id hid
    exact ⟨v, hv, hj.mono (Nat.le_succ k)⟩

/-- Why the loop holds a window: it is known and not ready, or matched; `more` is what
is recorded of the match. -/
inductive Held (r : Reading β) (id : ℕ) (v : MacWindow β) : Fate → List (ℕ × ℕ) → Prop
  | unready : r.app.windows[id]? = some v → Held r id v .unready []
  | matched (i : ℕ) : v.surface.parent = none → r.app.Issues id v →
      Held r id v (.matched i) [(i, id)]

theorem ScanInv.insert (h : r.ScanInv k scan) (ht : r.app.Tables r.g)
    (hnodup : (r.windows.map (·.1)).Nodup) (hk : r.windows[k]? = some w)
    (hf : r.app.fate r.g r.o r.tree k w = .ok f) {id nextId : ℕ} {v : MacWindow β}
    {more : List (ℕ × ℕ)} {unavailable : Finset ℕ} (hheld : r.Held id v f more)
    (hvacant : scan.current[id]? = none) (hcg : v.cgId = w.1) (hkeyed : v.surface.nativeId = id)
    (hlt : id < nextId) (hle : scan.nextId ≤ nextId) (hsound : v.Sound r.g)
    (hunavailable : ∀ i ∈ unavailable, i ∈ scan.unavailable ∨ (i = id ∧ f = .unready)) :
    r.ScanInv (k + 1) { scan with
      current := scan.current.insert id v
      unavailable
      axToNative := scan.axToNative ++ more
      parents := scan.parents ++ more.map fun p => (p.2, r.tree.parentAt p.1)
      nextId } := by
  have hhere : r.Judged (k + 1) v.cgId f := hcg ▸ judged_here hk hf
  have hne : ∀ {id' : ℕ} {u : MacWindow β}, scan.current[id']? = some u → id' ≠ id := by
    rintro id' u hu rfl
    rw [hvacant] at hu
    cases hu
  constructor
  case le => exact le_trans h.le hle
  case keyed =>
    intro id' u hu
    by_cases hid : id' = id
    · subst hid
      rw [getElem?_insert_same] at hu
      cases hu
      exact ⟨hkeyed, hlt, hsound⟩
    · rw [getElem?_insert_other _ hid] at hu
      obtain ⟨h1, h2, h3⟩ := h.keyed id' u hu
      exact ⟨h1, lt_of_lt_of_le h2 hle, h3⟩
  case entry =>
    intro id' u hu
    by_cases hid : id' = id
    · subst hid
      rw [getElem?_insert_same] at hu
      cases hu
      cases hheld with
      | unready hold => exact .inl ⟨hhere, hold⟩
      | matched i hparent hissue =>
        exact .inr ⟨i, hhere, List.mem_append_right _ (List.mem_singleton_self _), hparent, hissue⟩
    · rw [getElem?_insert_other _ hid] at hu
      rcases h.entry id' u hu with ⟨hj, hrest⟩ | ⟨i, hj, hmem, hrest⟩
      · exact .inl ⟨hj.mono (Nat.le_succ k), hrest⟩
      · exact .inr ⟨i, hj.mono (Nat.le_succ k), List.mem_append_left _ hmem, hrest⟩
  case matched =>
    intro i id' hmem
    rcases List.mem_append.mp hmem with hmem | hmem
    · obtain ⟨u, hu, hj⟩ := h.matched i id' hmem
      refine ⟨u, ?_, hj.mono (Nat.le_succ k)⟩
      rw [getElem?_insert_other _ (hne hu)]
      exact hu
    · cases hheld with
      | unready _ => cases hmem
      | matched i' _ _ =>
        obtain ⟨rfl, rfl⟩ := Prod.mk.inj (List.mem_singleton.mp hmem)
        exact ⟨v, getElem?_insert_same .., hhere⟩
  case parents =>
    rw [List.map_append, h.parents]
  case nodup =>
    rw [List.map_append]
    refine List.nodup_append'.mpr ⟨h.nodup, ?_, ?_⟩
    · cases hheld with
      | unready _ => exact List.nodup_nil
      | matched i _ _ => exact List.nodup_singleton _
    · intro id' hmem hmore
      obtain ⟨⟨i, id''⟩, hpair, rfl⟩ := List.mem_map.mp hmem
      obtain ⟨u, hu, -⟩ := h.matched i id'' hpair
      cases hheld with
      | unready _ => cases hmore
      | matched i' _ _ => exact hne hu (List.mem_singleton.mp hmore)
  case injective =>
    intro i j u u' hu hu' hsame
    by_cases hi : i = id
    · by_cases hj : j = id
      · rw [hi, hj]
      · subst hi
        rw [getElem?_insert_same] at hu
        rw [getElem?_insert_other _ hj] at hu'
        cases hu
        exact absurd (hsame.symm.trans hcg) (h.ne hnodup hk hu')
    · rw [getElem?_insert_other _ hi] at hu
      by_cases hj : j = id
      · subst hj
        rw [getElem?_insert_same] at hu'
        cases hu'
        exact absurd (hsame.trans hcg) (h.ne hnodup hk hu)
      · rw [getElem?_insert_other _ hj] at hu'
        exact h.injective i j u u' hu hu' hsame
  case hasUnready =>
    intro id' u hu hj
    rcases hj.cases_succ hk with hj | ⟨hcg', hg⟩
    · have hu' := h.hasUnready id' u hu hj
      rw [getElem?_insert_other _ (hne hu')]
      exact hu'
    · rw [hf] at hg
      cases hheld with
      | matched _ _ _ => cases hg
      | unready hold =>
        obtain rfl := ht.injective id' id u v hu hold (hcg'.trans hcg.symm)
        rw [getElem?_insert_same, ← hold, hu]
  case hasMatched =>
    intro cg i hj
    rcases hj.cases_succ hk with hj | ⟨hcg', hg⟩
    · obtain ⟨id', u, hmem, hu, hcg'⟩ := h.hasMatched cg i hj
      refine ⟨id', u, List.mem_append_left _ hmem, ?_, hcg'⟩
      rw [getElem?_insert_other _ (hne hu)]
      exact hu
    · rw [hf] at hg
      cases hheld with
      | unready _ => cases hg
      | matched i' _ _ =>
        cases hg
        exact ⟨id, v, List.mem_append_right _ (List.mem_singleton_self _),
          getElem?_insert_same .., hcg.trans hcg'.symm⟩
  case rejected =>
    intro cg
    rw [h.rejected cg]
    constructor
    · exact fun hj => hj.mono (Nat.le_succ k)
    · intro hj
      refine hj.other hk hf ?_
      cases hheld <;> simp
  case unavailable =>
    intro id' hid'
    rcases hunavailable id' hid' with hid' | ⟨rfl, rfl⟩
    · obtain ⟨u, hu, hj⟩ := h.unavailable id' hid'
      exact ⟨u, hu, hj.mono (Nat.le_succ k)⟩
    · cases hheld with
      | unready hold => exact ⟨v, hold, hhere⟩

theorem valid_of_matched {i : ℕ} (hf : r.app.fate r.g r.o r.tree k w = .ok (.matched i)) :
    r.g.valid w.2 = true := by
  unfold MacApplication.fate at hf
  split at hf
  · cases hf
  · next h =>
    simp only [not_or, Bool.not_eq_false] at h
    exact h.2

section Step

variable [DecidableEq β]

theorem newer_of_generation {old v : MacWindow β} {resumable : Option ℕ} {generation : ℕ}
    (h : MacApplication.generation (some old) v.bounds v.axIdentity v.surface.minimized resumable = some generation)
    (hcg : v.cgId = old.cgId) (hgen : v.surface.geometryGeneration = generation) : old.Newer v := by
  unfold MacApplication.generation at h
  dsimp only at h
  split at h
  · next hsame =>
    cases h
    refine ⟨hcg, hgen.ge, ?_⟩
    simp only [MacApplication.unchanged, Bool.and_eq_true, decide_eq_true_eq] at hsame
    obtain ⟨⟨⟨⟨hb, -⟩, hax⟩, hmin⟩, -⟩ := hsame
    rintro (hne | hne | hne)
    · exact absurd hb.symm hne
    · exact absurd hax.symm hne
    · exact absurd hmin.symm hne
  · split at h
    · cases h
      refine ⟨hcg, by omega, ?_⟩
      intro _
      omega
    · cases h

theorem generation_ne_zero {previous : Option (MacWindow β)} {bounds : β} {element : Option ℕ}
    {minimized : Bool} {resumable : Option ℕ} {generation : ℕ}
    (h : MacApplication.generation previous bounds element minimized resumable = some generation)
    (hprevious : ∀ old, previous = some old → old.surface.geometryGeneration ≠ 0) :
    generation ≠ 0 := by
  unfold MacApplication.generation at h
  split at h
  · cases h
    exact Nat.one_ne_zero
  · next old =>
    split at h
    · cases h
      exact hprevious old rfl
    · split at h
      · cases h
        exact Nat.succ_ne_zero _
      · cases h

theorem scanInv_authorize (h : r.ScanInv k scan) (ht : r.app.Tables r.g)
    (hnodup : (r.windows.map (·.1)).Nodup) (hk : r.windows[k]? = some w) {i : ℕ}
    (hf : r.app.fate r.g r.o r.tree k w = .ok (.matched i))
    (hs : r.app.authorize r.g r.o r.tree k w i scan = (.ok (), scan')) :
    r.ScanInv (k + 1) scan' := by
  have hvalid := valid_of_matched hf
  cases hfind : r.app.find w.1 with
  | none =>
    simp only [MacApplication.authorize, hfind, Option.map_none, Option.getD_none,
      Option.isSome_none, Bool.false_eq_true, if_false] at hs
    split at hs
    · cases hs
    · split at hs
      · cases hs
      · next generation hgen =>
        cases hs
        refine h.insert ht hnodup hk hf (.matched i rfl (.inr ⟨h.le, ?_⟩)) ?_ rfl rfl
          (Nat.lt_succ_self _) (Nat.le_succ _) ⟨hvalid, rfl, rfl, rfl, ?_⟩ fun _ hi => .inl hi
        · exact fun id old hold => MacApplication.find_none hfind hold
        · exact h.vacant ht hnodup hk (.inr le_rfl)
        · exact generation_ne_zero hgen nofun
  | some old =>
    obtain ⟨id, hold, hcg⟩ := MacApplication.find_some hfind
    obtain rfl := ht.keyed id old hold
    simp only [MacApplication.authorize, hfind, Option.map_some, Option.getD_some,
      Option.isSome_some, if_true] at hs
    split at hs
    · cases hs
    · split at hs
      · cases hs
      · next generation hgen =>
        cases hs
        refine h.insert ht hnodup hk hf
          (.matched i rfl (.inl ⟨old, hold, newer_of_generation hgen hcg.symm rfl⟩)) ?_ rfl rfl
          (lt_of_lt_of_le (ht.fresh _ old hold) h.le) le_rfl ⟨hvalid, rfl, rfl, rfl, ?_⟩
          fun _ hi => .inl hi
        · exact h.vacant ht hnodup hk (.inl ⟨old, hold, hcg⟩)
        · refine generation_ne_zero hgen ?_
          intro old' heq
          rw [← Option.some.inj heq]
          exact (ht.sound _ old hold).2.2.2.2

theorem scanInv_step (h : r.ScanInv k scan) (ht : r.app.Tables r.g)
    (hnodup : (r.windows.map (·.1)).Nodup) (hk : r.windows[k]? = some w)
    (hs : r.app.scanWindow r.g r.o r.tree k w scan = (.ok (), scan')) :
    r.ScanInv (k + 1) scan' := by
  unfold MacApplication.scanWindow at hs
  split at hs
  · cases hs
  · next hf =>
    cases hs
    exact h.pass hk hf (.inl rfl) nofun
  · next hf =>
    split at hs
    · next hfind =>
      cases hs
      exact h.pass hk hf (.inr rfl) fun _ id v hv => MacApplication.find_none hfind hv
    · next old hfind =>
      cases hs
      obtain ⟨id, hold, hcg⟩ := MacApplication.find_some hfind
      obtain rfl := ht.keyed id old hold
      have hun : ∀ i ∈ insert old.surface.nativeId scan.unavailable,
          i ∈ scan.unavailable ∨ (i = old.surface.nativeId ∧ Fate.unready = .unready) := by
        intro i hi
        rcases Finset.mem_insert.mp hi with rfl | hi
        · exact .inr ⟨rfl, rfl⟩
        · exact .inl hi
      have hinsert := h.insert ht hnodup hk hf (.unready hold)
        (h.vacant ht hnodup hk (.inl ⟨old, hold, hcg⟩)) hcg rfl
        (lt_of_lt_of_le (ht.fresh _ old hold) h.le) le_rfl (ht.sound _ old hold) hun
      simpa using hinsert
  · next hf =>
    cases hs
    exact h.reject hk hf
  · next i hf => exact scanInv_authorize h ht hnodup hk hf hs

theorem scanInv_scanAll (ht : r.app.Tables r.g) (hnodup : (r.windows.map (·.1)).Nodup)
    {rest : List (ℕ × β)} (hrest : r.windows.drop k = rest) (h : r.ScanInv k scan)
    (hs : r.app.scanAll r.g r.o r.tree k rest scan = (.ok (), scan')) :
    r.ScanInv (k + rest.length) scan' := by
  induction rest generalizing k scan with
  | nil =>
    cases hs
    exact h
  | cons w rest ih =>
    have hk : r.windows[k]? = some w := by
      rw [← List.head?_drop, hrest]
      rfl
    have hdrop : r.windows.drop (k + 1) = rest := by
      rw [← List.tail_drop, hrest]
      rfl
    unfold MacApplication.scanAll at hs
    split at hs
    · cases hs
    · next scan₁ hw =>
      have hnext := ih hdrop (scanInv_step h ht hnodup hk hw) hs
      rw [List.length_cons, show k + (rest.length + 1) = k + 1 + rest.length by omega]
      exact hnext

end Step

end Reading

namespace MacApplication

/-! ### The sheets -/

/-- What becomes of a matched window with this parent in the tree. -/
def linked (axToNative : List (ℕ × ℕ)) : Option ℕ → MacWindow β → Option (MacWindow β)
  | none, w => some w
  | some j, w => (axToNative.find? (·.1 = j)).map fun p =>
      { w with surface := { w.surface with parent := some p.2 } }

theorem linkSheet_spec {axToNative : List (ℕ × ℕ)} {id : ℕ} {parent : Option ℕ}
    {current current' : ExtTreeMap ℕ (MacWindow β)}
    (h : linkSheet axToNative current (id, parent) = .ok current') :
    current'[id]? = current[id]?.bind (linked axToNative parent) ∧
      ∀ a : ℕ, a ≠ id → current'[a]? = current[a]? := by
  cases parent with
  | none =>
    cases h
    refine ⟨?_, fun _ _ => rfl⟩
    cases current[id]? <;> rfl
  | some j =>
    simp only [linkSheet] at h
    split at h
    · next hfind =>
      cases h
      refine ⟨?_, fun a ha => getElem?_erase_other _ ha⟩
      rw [getElem?_erase_same]
      cases current[id]? <;> simp [linked, hfind]
    · next j' p hfind =>
      split at h
      · cases h
      · next w hw =>
        cases h
        refine ⟨?_, fun a ha => getElem?_insert_other _ ha _⟩
        rw [getElem?_insert_same, hw]
        simp [linked, hfind]

theorem linkSheets_spec {axToNative : List (ℕ × ℕ)} {sheets : List (ℕ × Option ℕ)}
    {current current' : ExtTreeMap ℕ (MacWindow β)} (hnodup : (sheets.map (·.1)).Nodup)
    (h : linkSheets axToNative sheets current = .ok current') :
    (∀ id : ℕ, id ∉ sheets.map (·.1) → current'[id]? = current[id]?) ∧
      ∀ (id : ℕ) parent, (id, parent) ∈ sheets →
        current'[id]? = current[id]?.bind (linked axToNative parent) := by
  induction sheets generalizing current with
  | nil =>
    cases h
    exact ⟨fun _ _ => rfl, fun _ _ h => absurd h List.not_mem_nil⟩
  | cons sheet rest ih =>
    obtain ⟨id₀, parent₀⟩ := sheet
    rw [List.map_cons, List.nodup_cons] at hnodup
    unfold linkSheets at h
    split at h
    · cases h
    · next current₁ hone =>
      obtain ⟨hself, hothers⟩ := linkSheet_spec hone
      obtain ⟨hkeep, hlink⟩ := ih hnodup.2 h
      constructor
      · intro id hid
        rw [List.map_cons, List.mem_cons, not_or] at hid
        rw [hkeep id hid.2, hothers id hid.1]
      · intro id parent hmem
        rcases List.mem_cons.mp hmem with heq | hrest
        · obtain ⟨rfl, rfl⟩ := Prod.mk.inj heq
          rw [hkeep id hnodup.1, hself]
        · have hne : id ≠ id₀ := by
            rintro rfl
            exact hnodup.1 (List.mem_map.mpr ⟨(id, parent), hrest, rfl⟩)
          rw [hlink id parent hrest, hothers id hne]

/-! ### The remembered windows -/

variable {g : Geometry β} {o : Observation β} {tree : AxTree} {rejected : Finset ℕ}
  {old w : MacWindow β} {r r' : Remembering β} {olds : List (MacWindow β)}

theorem preserved_spec {suspended : Bool} (h : preserved g o tree old = some (w, suspended)) :
    old.Newer w ∧ w.surface.nativeId = old.surface.nativeId ∧
      w.surface.parent = old.surface.parent ∧ (old.Sound g → w.Sound g) := by
  have hsame : old.Newer old ∧ old.surface.nativeId = old.surface.nativeId ∧
      old.surface.parent = old.surface.parent ∧ (old.Sound g → old.Sound g) :=
    ⟨.refl old, rfl, rfl, id⟩
  unfold preserved at h
  split at h
  · split at h
    · cases h
      exact hsame
    · split at h
      · cases h
        exact hsame
      · split at h
        · cases h
          refine ⟨⟨rfl, Nat.le_succ _, fun _ => Nat.lt_succ_self _⟩, rfl, rfl, ?_⟩
          rintro ⟨hvalid, hwidth, hheight, hscale, -⟩
          exact ⟨hvalid, hwidth, hheight, hscale, Nat.succ_ne_zero _⟩
        · cases h
  · cases h
    exact hsame

structure Kept (g : Geometry β) (o : Observation β) (tree : AxTree) (rejected : Finset ℕ)
    (olds : List (MacWindow β)) (r r' : Remembering β) : Prop where
  held : ∀ (id : ℕ) w, r.current[id]? = some w → r'.current[id]? = some w
  origin : ∀ (id : ℕ) w, r'.current[id]? = some w → r.current[id]? = some w ∨
    (r.current[id]? = none ∧ ∃ old ∈ olds, old.surface.nativeId = id ∧ old.cgId ∉ rejected ∧
      o.live id = true ∧ ∃ suspended, preserved g o tree old = some (w, suspended))
  complete : ∀ old ∈ olds, old.cgId ∉ rejected → o.live old.surface.nativeId = true →
    ∃ w, r'.current[old.surface.nativeId]? = some w
  unavailable : ∀ id ∈ r'.unavailable, id ∈ r.unavailable ∨ ∃ w, r'.current[id]? = some w

theorem Kept.trans {olds' : List (MacWindow β)} {r'' : Remembering β}
    (h : Kept g o tree rejected olds r r') (h' : Kept g o tree rejected olds' r' r'') :
    Kept g o tree rejected (olds ++ olds') r r'' where
  held := fun id w hw => h'.held id w (h.held id w hw)
  origin := by
    intro id w hw
    rcases h'.origin id w hw with hw' | ⟨hnone, old, hmem, hrest⟩
    · rcases h.origin id w hw' with hw'' | ⟨hnone, old, hmem, hrest⟩
      · exact .inl hw''
      · exact .inr ⟨hnone, old, List.mem_append_left _ hmem, hrest⟩
    · refine .inr ⟨?_, old, List.mem_append_right _ hmem, hrest⟩
      cases hr : r.current[id]? with
      | none => rfl
      | some u =>
        rw [h.held id u hr] at hnone
        cases hnone
  complete := by
    intro old hmem hrej hlive
    rcases List.mem_append.mp hmem with hmem | hmem
    · obtain ⟨w, hw⟩ := h.complete old hmem hrej hlive
      exact ⟨w, h'.held _ w hw⟩
    · exact h'.complete old hmem hrej hlive
  unavailable := by
    intro id hid
    rcases h'.unavailable id hid with hid | hw
    · rcases h.unavailable id hid with hid | ⟨w, hw⟩
      · exact .inl hid
      · exact .inr ⟨w, h'.held id w hw⟩
    · exact .inr hw

theorem preserve_kept (h : preserve g o tree rejected old r = (.ok (), r')) :
    Kept g o tree rejected [old] r r' := by
  unfold preserve at h
  dsimp only at h
  split at h
  · next hcontains =>
    cases h
    refine ⟨fun _ _ hw => hw, fun _ _ hw => .inl hw, ?_, fun _ hid => .inl hid⟩
    intro old' hmem _ _
    obtain rfl := List.mem_singleton.mp hmem
    rw [ExtTreeMap.contains_iff_mem, ExtTreeMap.mem_iff_isSome_getElem?] at hcontains
    exact Option.isSome_iff_exists.mp hcontains
  · next hcontains =>
    split at h
    · next hrej =>
      cases h
      refine ⟨fun _ _ hw => hw, fun _ _ hw => .inl hw, ?_, fun _ hid => .inl hid⟩
      intro old' hmem hnot
      obtain rfl := List.mem_singleton.mp hmem
      exact absurd hrej hnot
    · next hrej =>
      split at h
      · next hlive =>
        split at h
        · cases h
        · next w suspended hpreserved =>
          cases h
          have hnone : r.current[old.surface.nativeId]? = none := by
            rw [ExtTreeMap.contains_iff_mem, ExtTreeMap.mem_iff_isSome_getElem?] at hcontains
            simpa using hcontains
          refine ⟨?_, ?_, ?_, ?_⟩
          · intro id u hu
            have hne : id ≠ old.surface.nativeId := by
              rintro rfl
              rw [hnone] at hu
              cases hu
            rw [getElem?_insert_other _ hne]
            exact hu
          · intro id u hu
            by_cases hid : id = old.surface.nativeId
            · subst hid
              rw [getElem?_insert_same] at hu
              cases hu
              exact .inr ⟨hnone, old, List.mem_singleton_self _, rfl, hrej, hlive, suspended,
                hpreserved⟩
            · rw [getElem?_insert_other _ hid] at hu
              exact .inl hu
          · intro old' hmem _ _
            obtain rfl := List.mem_singleton.mp hmem
            exact ⟨w, getElem?_insert_same ..⟩
          · intro id hid
            by_cases heq : id = old.surface.nativeId
            · subst heq
              exact .inr ⟨w, getElem?_insert_same ..⟩
            · left
              dsimp only at hid
              split at hid
              · exact (Finset.mem_insert.mp hid).resolve_left heq
              · exact hid
      · next hlive =>
        cases h
        refine ⟨fun _ _ hw => hw, fun _ _ hw => .inl hw, ?_, fun _ hid => .inl hid⟩
        intro old' hmem _ hlive'
        obtain rfl := List.mem_singleton.mp hmem
        exact absurd hlive' hlive

theorem preserveAll_kept (h : preserveAll g o tree rejected olds r = (.ok (), r')) :
    Kept g o tree rejected olds r r' := by
  induction olds generalizing r with
  | nil =>
    cases h
    exact ⟨fun _ _ hw => hw, fun _ _ hw => .inl hw, fun _ h => absurd h List.not_mem_nil,
      fun _ hid => .inl hid⟩
  | cons old olds ih =>
    unfold preserveAll at h
    split at h
    · cases h
    · next r₁ hone => exact (preserve_kept hone).trans (ih h)

end MacApplication

end NebulaDesk
