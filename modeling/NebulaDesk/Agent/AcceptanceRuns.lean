/-
Well-formed snapshots are accepted (`nebula-agent/src/application.rs`).

`announceAll_spec` follows the second loop of `reconcile` in `announceOrder`:
it announces every window of the snapshot or runs out of ids.
`reconcile_accepts` puts both loops together, for every state a worker reaches.
-/
import NebulaDesk.Agent.Acceptance

namespace NebulaDesk

open Runs Forest
open Std (ExtTreeMap)

namespace Surfaces

variable {st : Surfaces}

/-- What announcing a window does to the windows and the ids. -/
structure Announced (st st₁ : Surfaces) (s : NativeSurface) : Prop where
  inv : st₁.Inv
  full : st₁.Full
  seated : st₁.Seated
  window : st₁.window = Function.update st.window s.nativeId (some (clean s))
  next : st₁.next = st.next + if (st.window s.nativeId).isNone then 1 else 0

theorem allocate_known {n id : ℕ} (h : st.native[n]? = some id) : st.allocate n = (.ok id, st) := by
  rw [allocate, h]

theorem allocate_new {n : ℕ} (h : st.native[n]? = none) (hnext : st.next < maxApplicationSurfaces) :
    st.allocate n = (.ok st.next,
      { st with next := st.next + 1, native := st.native.insert n st.next }) := by
  rw [allocate, h]
  simp only [if_pos hnext]

theorem native_eq_none (hfull : st.Full) {n : ℕ} (h : st.window n = none) :
    st.native[n]? = none := by
  cases hn : st.native[n]? with
  | none => rfl
  | some id =>
    obtain ⟨s, hs⟩ := hfull n id hn
    rw [window, hn] at h
    exact absurd (h.symm.trans hs) (by simp)

theorem window_allocate (h : st.Inv) (hseated : st.Seated) {n : ℕ} (hn : st.native[n]? = none) :
    Surfaces.window { st with next := st.next + 1, native := st.native.insert n st.next } =
      st.window := by
  funext m
  unfold window
  simp only [getElem?_native_insert]
  by_cases hm : n = m
  · subst hm
    rw [if_pos rfl, hn]
    show st.live[st.next]? = none
    cases hs : st.live[st.next]? with
    | none => rfl
    | some s =>
      have hinfo : st.registry.live[st.next]? = some (st.infoOf st.next s) := by
        rw [h.mirror, hs]
        rfl
      exact absurd (hseated.used _ (h.registry.keyed _ _ hinfo).2.2) (lt_irrefl _)
  · rw [if_neg hm]

theorem announced_of_upsert (h : st.Inv) {id : ℕ} {r : SurfaceRegistry}
    (hnative : st.native[s.nativeId]? = some id)
    (hu : st.registry.upsert (st.infoOf id (clean s)) = (.ok (), r)) :
    (if st.live[id]?.any (NativeSurface.eq · (clean s)) then { st with registry := r }
      else { st with registry := r, live := st.live.insert id (clean s) }).window =
        Function.update st.window s.nativeId (some (clean s)) := by
  funext n
  split
  · rename_i hany
    -- the live surface is already the one announced
    obtain ⟨t, ht, heq⟩ := (Option.any_eq_true _ _).mp hany
    obtain ⟨-, rfl⟩ := h.upsert_unchanged hu ht heq
    by_cases hn : n = s.nativeId
    · rw [hn, Function.update_self]
      show st.window s.nativeId = _
      rw [window, hnative]
      exact ht
    · rw [Function.update_of_ne hn]
      rfl
  · unfold window
    by_cases hn : n = s.nativeId
    · rw [hn, Function.update_self, hnative]
      exact (getElem?_live_insert _ _ _).trans (if_pos rfl)
    · rw [Function.update_of_ne hn]
      cases hid : st.native[n]? with
      | none => rfl
      | some i =>
        have hne : id ≠ i := by
          rintro rfl
          exact hn (h.injective _ _ _ hid hnative)
        exact (getElem?_live_insert _ _ _).trans (if_neg hne)

/-- Announcing a window in good order: it is live afterwards, or no id is left. -/
theorem announce_spec (h : st.Inv) (hfull : st.Full) (hseated : st.Seated) (hs : Presentable s)
    (hfresh : ∀ old, st.window s.nativeId = some old → Fresher old s)
    (hparent : ∀ p, s.parent = some p → st.knows p = true ∧ Avoids st.above s.nativeId p) :
    (∃ sent st₁, st.announce s = (.ok sent, st₁) ∧ Announced st st₁ s) ∨
      (st.window s.nativeId = none ∧ maxApplicationSurfaces ≤ st.next ∧
        (st.announce s).1 = .error .surfaceLimit) := by
  have hknown : ∀ p, s.parent = some p → ∃ q, st.native[p]? = some q := by
    intro p hp
    exact Option.isSome_iff_exists.mp
      (ExtTreeMap.mem_iff_isSome_getElem?.mp ((hparent p hp).1))
  have hround := round_announce h s hknown
  have hseat := hseated.announce h s
  -- enough to find the state after allocation in which the registry accepts
  have hfinish : ∀ (id : ℕ) (sa : Surfaces), st.allocate s.nativeId = (.ok id, sa) →
      sa.Inv → sa.native[s.nativeId]? = some id → sa.window = st.window →
      (sa.next = st.next + if (st.window s.nativeId).isNone then 1 else 0) →
      (∃ r, sa.registry.upsert (sa.infoOf id (clean s)) = (.ok (), r)) →
      ∃ sent st₁, st.announce s = (.ok sent, st₁) ∧ Announced st st₁ s := by
    intro id sa ha hinv hnative hwindow hnext hup
    obtain ⟨r, hr⟩ := hup
    have hannounce : st.announce s =
        (if sa.live[id]?.any (NativeSurface.eq · (clean s)) then
          (.ok [], { sa with registry := r })
        else (.ok [.surfaceUpsert (sa.infoOf id (clean s))],
          { sa with registry := r, live := sa.live.insert id (clean s) })) := by
      simp only [announce]
      rw [show (clean s).nativeId = s.nativeId from rfl, ha]
      simp only [hr]
    have hwin := announced_of_upsert hinv hnative hr
    rw [hannounce] at hround hseat ⊢
    rw [hwindow] at hwin
    split at hround
    · rename_i hany
      rw [if_pos hany] at hseat hwin ⊢
      exact ⟨_, _, rfl, hround.inv, (hround.sent _ rfl).2 hfull, hseat, hwin, hnext⟩
    · rename_i hany
      rw [if_neg hany] at hseat hwin ⊢
      exact ⟨_, _, rfl, hround.inv, (hround.sent _ rfl).2 hfull, hseat, hwin, hnext⟩
  cases hw : st.window s.nativeId with
  | some old =>
    obtain ⟨id, hnative, hold⟩ := Option.bind_eq_some_iff.mp hw
    have hinfo : st.registry.live[id]? = some (st.infoOf id old) := by rw [h.mirror, hold]; rfl
    have hid : id < maxApplicationSurfaces :=
      lt_of_lt_of_le (h.registry.keyed id _ hinfo).2.1 h.registry.bounded.2
    refine .inl (hfinish id st (allocate_known hnative) h hnative rfl (by rw [hw]; rfl) ?_)
    refine upsert_clean h hseated hs hnative hid (fun p q hq _ => hfull p q hq) (fun _ => ⟨old, hold⟩)
      ?_ (fun p hp => ⟨hknown p hp, (hparent p hp).2⟩)
    intro old' hold'
    rw [hold] at hold'
    cases hold'
    exact hfresh _ hw
  | none =>
    have hnone := native_eq_none hfull hw
    by_cases hnext : st.next < maxApplicationSurfaces
    · left
      have ha := allocate_new hnone hnext
      obtain ⟨hinv, hreg, hlive, hnative, hkeep, hback, -⟩ := allocate_ok h ha
      have hwindow := window_allocate h hseated hnone
      have habove : above { st with
          next := st.next + 1, native := st.native.insert s.nativeId st.next } = st.above := by
        funext n
        rw [above, above, hwindow]
      refine hfinish st.next _ ha hinv hnative hwindow (by rw [hw]; rfl) ?_
      have hempty : st.live[st.next]? = none := by
        cases hs' : st.live[st.next]? with
        | none => rfl
        | some t =>
          have hinfo : st.registry.live[st.next]? = some (st.infoOf st.next t) := by
            rw [h.mirror, hs']
            rfl
          exact absurd (hseated.used _ (h.registry.keyed _ _ hinfo).2.2) (lt_irrefl _)
      refine upsert_clean hinv ⟨hseated.max, fun i hi => Nat.lt_succ_of_lt (hseated.used i hi)⟩ hs
        hnative hnext ?_ ?_ ?_ ?_
      · intro p q hq hne
        rcases hback p q hq with heq | hq
        · exact absurd heq hne
        · exact hfull p q hq
      · intro hused
        exact absurd (hseated.used _ hused) (lt_irrefl _)
      · intro old hold
        rw [show Surfaces.live { st with
          next := st.next + 1, native := st.native.insert s.nativeId st.next } = st.live from rfl,
          hempty] at hold
        cases hold
      · intro p hp
        obtain ⟨q, hq⟩ := hknown p hp
        exact ⟨⟨q, hkeep p q hq⟩, by rw [habove]; exact (hparent p hp).2⟩
    · right
      refine ⟨rfl, Nat.le_of_not_lt hnext, ?_⟩
      have ha : st.allocate s.nativeId = (.error .surfaceLimit, st) := by
        rw [allocate, hnone]
        simp only [if_neg hnext]
      simp only [announce]
      rw [show (clean s).nativeId = s.nativeId from rfl, ha]

theorem allocate_window (h : st.Inv) (hfull : st.Full) (hseated : st.Seated) {n id : ℕ}
    (ha : st.allocate n = (.ok id, st₁)) :
    st₁.window = st.window ∧ st₁.next = st.next + if (st.window n).isNone then 1 else 0 := by
  cases hw : st.window n with
  | some old =>
    obtain ⟨i, hnative, -⟩ := Option.bind_eq_some_iff.mp hw
    rw [allocate_known hnative] at ha
    cases ha
    exact ⟨rfl, rfl⟩
  | none =>
    have hnone := native_eq_none hfull hw
    by_cases hnext : st.next < maxApplicationSurfaces
    · rw [allocate_new hnone hnext] at ha
      cases ha
      exact ⟨window_allocate h hseated hnone, rfl⟩
    · rw [allocate, hnone] at ha
      simp only [if_neg hnext] at ha
      cases ha

/-- What a successful announcement sends: nothing, or the surface that the client's
registry takes as the agent's did. -/
theorem announced_of_ok (h : st.Inv) (hfull : st.Full) (hseated : st.Seated)
    (hknown : ∀ p, s.parent = some p → ∃ q, st.native[p]? = some q)
    {sent : List ApplicationMessage} (hok : st.announce s = (.ok sent, st₁)) :
    Announced st st₁ s ∧
      ((sent = [] ∧ st.window s.nativeId = some (clean s) ∧ st₁.registry = st.registry ∧
          st₁.live = st.live) ∨
        ∃ info : SurfaceInfo, sent = [.surfaceUpsert info] ∧
          info.width = s.width ∧ info.height = s.height ∧
          st.registry.upsert info = (.ok (), st₁.registry) ∧
          st₁.live = st.live.insert info.surfaceId (clean s) ∧
          ∀ (i : ℕ) t, st.live[i]? = some t → (i = info.surfaceId ↔ t.nativeId = s.nativeId)) := by
  have hround := round_announce h s hknown
  have hseat := hseated.announce h s
  rw [hok] at hround hseat
  have hannounced : st₁.window = Function.update st.window s.nativeId (some (clean s)) →
      (st₁.next = st.next + if (st.window s.nativeId).isNone then 1 else 0) → Announced st st₁ s :=
    fun hwin hnext => ⟨hround.inv, (hround.sent _ rfl).2 hfull, hseat, hwin, hnext⟩
  simp only [announce] at hok
  rw [show (clean s).nativeId = s.nativeId from rfl] at hok
  cases ha : st.allocate s.nativeId with
  | mk result sa =>
    rw [ha] at hok
    cases result with
    | error e => cases hok
    | ok id =>
      obtain ⟨hinv, hreg, hlive, hnative, -, -, -⟩ := allocate_ok h ha
      obtain ⟨hwindow, hnext⟩ := allocate_window h hfull hseated ha
      dsimp only at hok
      cases hu : sa.registry.upsert (sa.infoOf id (clean s)) with
      | mk result r =>
        rw [hu] at hok
        cases result with
        | error e => cases hok
        | ok u =>
          have hwin := announced_of_upsert hinv hnative hu
          rw [hwindow] at hwin
          dsimp only at hok
          split at hok
          · rename_i hany
            rw [if_pos hany] at hwin
            cases hok
            obtain ⟨t, ht, heq⟩ := (Option.any_eq_true _ _).mp hany
            obtain ⟨rfl, rfl⟩ := hinv.upsert_unchanged hu ht heq
            refine ⟨hannounced hwin hnext, .inl ⟨rfl, ?_, hreg, hlive⟩⟩
            rw [← hwindow, window, hnative]
            exact ht
          · rename_i hany
            rw [if_neg hany] at hwin
            cases hok
            refine ⟨hannounced hwin hnext, .inr ⟨_, rfl, rfl, rfl, ?_, ?_, ?_⟩⟩
            · rw [← hreg]
              exact hu
            · rw [← hlive]
              rfl
            · intro i t ht
              rw [← hlive] at ht
              constructor
              · rintro rfl
                exact hinv.injective _ _ _ (hinv.windows _ t ht) hnative
              · intro heq
                have hi := hinv.windows i t ht
                rw [heq, hnative] at hi
                exact (Option.some.inj hi).symm

end Surfaces

/-- A snapshot in good order by itself. -/
structure Orderly (snapshot : List NativeSurface) : Prop where
  unique : (snapshot.map (·.nativeId)).Nodup
  parents : ∀ s ∈ snapshot, ∀ p, s.parent = some p → ∃ t ∈ snapshot, t.nativeId = p
  acyclic : Acyclic (parentIn snapshot)
  presentable : ∀ s ∈ snapshot, Presentable s

section Orderly

variable {snapshot : List NativeSurface}

theorem eq_of_nativeId (h : (snapshot.map (·.nativeId)).Nodup) (hs : s ∈ snapshot)
    (ht : t ∈ snapshot) (heq : s.nativeId = t.nativeId) : s = t :=
  List.inj_on_of_nodup_map h hs ht heq

theorem parentIn_eq (h : (snapshot.map (·.nativeId)).Nodup) (hs : s ∈ snapshot) :
    parentIn snapshot s.nativeId = s.parent := by
  have hfound : (snapshot.find? (·.nativeId = s.nativeId)).isSome = true :=
    List.find?_isSome.mpr ⟨s, hs, by simp⟩
  obtain ⟨t, ht⟩ := Option.isSome_iff_exists.mp hfound
  have hid : t.nativeId = s.nativeId := by simpa using List.find?_some ht
  have hts := eq_of_nativeId h (List.mem_of_find?_eq_some ht) hs hid
  rw [parentIn, ht, hts]
  rfl

end Orderly

namespace Surfaces

variable {st : Surfaces}

/-- How many windows of the list would take a new id. -/
def newcomers (st : Surfaces) (pending : List NativeSurface) : ℕ :=
  (pending.filter fun s => (st.window s.nativeId).isNone).length

/-- The second loop at work. -/
structure Announcing (st : Surfaces) (snapshot pending : List NativeSurface) : Prop where
  inv : st.Inv
  full : st.Full
  seated : st.Seated
  sub : ∀ s ∈ pending, s ∈ snapshot
  nodup : (pending.map (·.nativeId)).Nodup
  done : ∀ s ∈ snapshot, s ∈ pending ∨ st.window s.nativeId = some (clean s)
  fresh : ∀ s ∈ pending, ∀ old, st.window s.nativeId = some old → Fresher old s
  only : ∀ n t, st.window n = some t → ∃ s ∈ snapshot, s.nativeId = n

theorem Announcing.exists_ready (h : Announcing st snapshot pending) (ho : Orderly snapshot)
    (hne : pending ≠ []) : ∃ s ∈ pending, s.parent.all st.knows = true := by
  have hnonempty : (pending.map (·.nativeId)).toFinset.Nonempty := by
    rw [List.toFinset_nonempty_iff]
    simpa using hne
  obtain ⟨n, hn, hroot⟩ := exists_root ho.acyclic hnonempty
  obtain ⟨s, hs, rfl⟩ := List.mem_map.mp (List.mem_toFinset.mp hn)
  refine ⟨s, hs, ?_⟩
  rw [Option.all_eq_true_iff_get]
  intro hsome
  obtain ⟨p, hp⟩ := Option.isSome_iff_exists.mp hsome
  obtain ⟨t, ht, rfl⟩ := ho.parents s (h.sub s hs) p hp
  rcases h.done t ht with hpending | hdone
  · -- its parent cannot be pending: the window is a root among those
    refine absurd ?_ (hroot t.nativeId (List.mem_toFinset.mpr (List.mem_map.mpr ⟨t, hpending, rfl⟩)))
    rw [parentIn_eq ho.unique (h.sub s hs), hp]
  · simp only [hp, Option.get_some]
    exact (knows_iff h.full).mpr ⟨_, hdone⟩

theorem Announced.knows (ha : Announced st st₁ s) (hfull : st.Full) :
    st₁.knows = fun n => n = s.nativeId || st.knows n := by
  funext n
  rw [Bool.eq_iff_iff, knows_iff ha.full, ha.window, Bool.or_eq_true, decide_eq_true_iff,
    knows_iff hfull]
  by_cases hn : n = s.nativeId
  · simp [hn]
  · simp [hn]

theorem Announced.above (ha : Announced st st₁ s) :
    st₁.above = Function.update st.above s.nativeId s.parent := by
  funext n
  unfold Surfaces.above
  rw [ha.window]
  by_cases hn : n = s.nativeId
  · rw [hn, Function.update_self, Function.update_self]
    rfl
  · rw [Function.update_of_ne hn, Function.update_of_ne hn]

theorem Announced.newcomers {rest : List NativeSurface} (ha : Announced st st₁ s)
    (hperm : pending.Perm (s :: rest)) (hne : ∀ t ∈ rest, t.nativeId ≠ s.nativeId) :
    st₁.next + st₁.newcomers rest = st.next + st.newcomers pending := by
  have hrest : rest.filter (fun t => (st₁.window t.nativeId).isNone) =
      rest.filter fun t => (st.window t.nativeId).isNone := by
    refine List.filter_congr ?_
    intro t ht
    rw [ha.window, Function.update_of_ne (hne t ht)]
  have hlen : st.newcomers pending =
      ((s :: rest).filter fun t => (st.window t.nativeId).isNone).length :=
    (hperm.filter _).length_eq
  rw [hlen, List.filter_cons, ha.next, Surfaces.newcomers, hrest]
  split
  · rw [List.length_cons]
    omega
  · omega

theorem Announcing.announced (h : Announcing st snapshot pending) (ho : Orderly snapshot)
    {rest : List NativeSurface} (hperm : pending.Perm (s :: rest))
    (ha : Announced st st₁ s) : Announcing st₁ snapshot rest := by
  have hnodup : s.nativeId ∉ rest.map (·.nativeId) ∧ (rest.map (·.nativeId)).Nodup := by
    have := (hperm.map (·.nativeId)).nodup_iff.mp h.nodup
    rwa [List.map_cons, List.nodup_cons] at this
  have hne : ∀ t ∈ rest, t.nativeId ≠ s.nativeId := by
    intro t ht heq
    exact hnodup.1 (List.mem_map.mpr ⟨t, ht, heq⟩)
  have hmem : s ∈ pending := hperm.mem_iff.mpr List.mem_cons_self
  refine ⟨ha.inv, ha.full, ha.seated, ?_, hnodup.2, ?_, ?_, ?_⟩
  · intro t ht
    exact h.sub t (hperm.mem_iff.mpr (List.mem_cons_of_mem _ ht))
  · intro t ht
    rw [ha.window]
    by_cases heq : t.nativeId = s.nativeId
    · right
      obtain rfl := eq_of_nativeId ho.unique ht (h.sub s hmem) heq
      rw [Function.update_self]
    · rw [Function.update_of_ne heq]
      rcases h.done t ht with hpending | hdone
      · rcases List.mem_cons.mp (hperm.mem_iff.mp hpending) with rfl | hrest
        · exact absurd rfl heq
        · exact .inl hrest
      · exact .inr hdone
  · intro t ht old hold
    rw [ha.window, Function.update_of_ne (hne t ht)] at hold
    exact h.fresh t (hperm.mem_iff.mpr (List.mem_cons_of_mem _ ht)) old hold
  · intro n t hn
    rw [ha.window] at hn
    by_cases heq : n = s.nativeId
    · exact ⟨s, h.sub s hmem, heq.symm⟩
    · rw [Function.update_of_ne heq] at hn
      exact h.only n t hn

/-- **The second loop** announces every window, or runs out of ids. -/
theorem announceAll_spec (ho : Orderly snapshot) (h : Announcing st snapshot pending)
    (hu : Untangled st.above (announceOrder pending.length st.knows pending))
    (messages : List ApplicationMessage) :
    (∃ sent st₁, announceAll pending.length st pending messages = (.ok sent, st₁) ∧
      Announcing st₁ snapshot []) ∨
    ((announceAll pending.length st pending messages).1 = .error .surfaceLimit ∧
      maxApplicationSurfaces < st.next + st.newcomers pending) := by
  induction hlen : pending.length generalizing st pending messages with
  | zero =>
    obtain rfl := List.eq_nil_of_length_eq_zero hlen
    exact .inl ⟨messages, st, rfl, h⟩
  | succ len ih =>
    have hne : pending ≠ [] := by
      rintro rfl
      cases hlen
    obtain ⟨s₀, hs₀, hready₀⟩ := h.exists_ready ho hne
    have hsome : (pending.findIdx? fun s => s.parent.all st.knows).isSome = true :=
      List.findIdx?_isSome.trans (List.any_eq_true.mpr ⟨s₀, hs₀, hready₀⟩)
    obtain ⟨position, hposition⟩ := Option.isSome_iff_exists.mp hsome
    obtain ⟨hlt, hready, -⟩ := List.findIdx?_eq_some_iff_getElem.mp hposition
    have hget := List.getElem?_eq_getElem hlt
    have hperm : pending.Perm (pending[position] :: pending.eraseIdx position) :=
      (List.getElem_cons_eraseIdx_perm hlt).symm
    have hsmem := List.getElem_mem hlt
    generalize pending[position] = s at hready hget hperm hsmem
    have hrestlen : (pending.eraseIdx position).length = len := by
      rw [List.length_eraseIdx_of_lt hlt, hlen]
      rfl
    -- the order begins with the window found
    rw [hlen, announceOrder, hposition] at hu
    simp only [hget] at hu
    obtain ⟨havoid, hu⟩ := hu
    have hparent : ∀ p, s.parent = some p →
        st.knows p = true ∧ Avoids st.above s.nativeId p := by
      intro p hp
      refine ⟨?_, havoid p hp⟩
      rw [hp] at hready
      simpa using hready
    have hposition' : (pending.findIdx? fun s => s.parent.all st.native.contains) =
        some position := hposition
    have hempty : pending.isEmpty = false := by simpa using hne
    rcases announce_spec h.inv h.full h.seated (ho.presentable s (h.sub s hsmem))
      (h.fresh s hsmem) hparent with ⟨sent, st₁, hannounce, ha⟩ | ⟨hnew, hfull, herror⟩
    · have h₁ := h.announced ho hperm ha
      have hnodup : ∀ t ∈ pending.eraseIdx position, t.nativeId ≠ s.nativeId := by
        intro t ht heq
        have hcons := (hperm.map (·.nativeId)).nodup_iff.mp h.nodup
        rw [List.map_cons, List.nodup_cons] at hcons
        exact hcons.1 (List.mem_map.mpr ⟨t, ht, heq⟩)
      have hcount := ha.newcomers hperm hnodup
      rw [← ha.above, ← ha.knows h.full, ← hrestlen] at hu
      have hrun : announceAll (len + 1) st pending messages =
          announceAll len st₁ (pending.eraseIdx position) (messages ++ sent) := by
        rw [announceAll, hempty, hposition']
        simp only [Bool.false_eq_true, if_false, hget, hannounce]
      rw [hrun, ← hcount]
      exact ih h₁ hu (messages ++ sent) hrestlen
    · right
      constructor
      · rw [announceAll, hempty, hposition']
        simp only [Bool.false_eq_true, if_false, hget]
        cases hannounce : st.announce s with
        | mk result st₁ =>
          rw [hannounce] at herror
          dsimp only at herror
          rw [herror]
      · have hone : 0 < st.newcomers pending := by
          refine List.length_pos_of_mem (List.mem_filter.mpr ⟨hsmem, ?_⟩)
          rw [hnew]
          rfl
        omega

/-! ### Both loops -/

/-- A snapshot in good order for this state. -/
structure WellFormed (st : Surfaces) (snapshot : List NativeSurface) : Prop where
  orderly : Orderly snapshot
  unretired : ∀ s ∈ snapshot, s.nativeId ∉ st.retired
  fresh : ∀ s ∈ snapshot, ∀ old, st.window s.nativeId = some old → Fresher old s

/-- The limits on surfaces, pixels and ids. -/
structure WithinLimits (st : Surfaces) (snapshot : List NativeSurface) : Prop where
  count : snapshot.length ≤ maxApplicationSurfaces
  area : captureArea snapshot ≤ 64 * 1024 * 1024
  ids : st.next + st.newcomers snapshot ≤ maxApplicationSurfaces

/-- The native ids of a snapshot. -/
def presentIn (snapshot : List NativeSurface) : Finset ℕ := (snapshot.map (·.nativeId)).toFinset

theorem mem_presentIn {n : ℕ} : n ∈ presentIn snapshot ↔ ∃ s ∈ snapshot, s.nativeId = n := by
  simp [presentIn]

/-- The links that are recorded when the announcements begin. -/
def aboveAmong (st : Surfaces) (present : Finset ℕ) (n : ℕ) : Option ℕ :=
  if n ∈ present then st.above n else none

/-- The order in which the windows of a snapshot are announced. -/
def orderOf (st : Surfaces) (snapshot : List NativeSurface) : List NativeSurface :=
  announceOrder snapshot.length (fun n => n ∈ presentIn snapshot && st.knows n) snapshot

theorem retiring_start (h : st.Inv) (hfull : st.Full) (hseated : st.Seated)
    (present : Finset ℕ) :
    Retiring st present
      ((st.live.toList.filter fun (_, s) => s.nativeId ∉ present).map (·.1)) where
  inv := h
  full := hfull
  seated := hseated
  nodup := by
    have hkeys : (st.live.toList.map (·.1)).Nodup := by
      rw [ExtTreeMap.map_fst_toList_eq_keys]
      exact ExtTreeMap.nodup_keys
    exact hkeys.sublist (List.filter_sublist.map _)
  mem := by
    intro id
    constructor
    · intro hid
      obtain ⟨⟨i, s⟩, hs, rfl⟩ := List.mem_map.mp hid
      obtain ⟨hmem, hgone⟩ := List.mem_filter.mp hs
      exact ⟨s, ExtTreeMap.mem_toList_iff_getElem?_eq_some.mp hmem, by simpa using hgone⟩
    · rintro ⟨s, hs, hgone⟩
      refine List.mem_map.mpr ⟨(id, s), List.mem_filter.mpr ⟨?_, by simpa using hgone⟩, rfl⟩
      exact ExtTreeMap.mem_toList_iff_getElem?_eq_some.mpr hs

theorem Remaining.announcing (h : Remaining st st₁ (presentIn snapshot))
    (hwf : st.WellFormed snapshot) : Announcing st₁ snapshot snapshot where
  __ := h
  sub := fun _ hs => hs
  nodup := hwf.orderly.unique
  done := fun _ hs => .inl hs
  fresh := by
    intro s hs old hold
    rw [h.kept s.nativeId (mem_presentIn.mpr ⟨s, hs, rfl⟩)] at hold
    exact hwf.fresh s hs old hold
  only := fun n t hn => mem_presentIn.mp (h.only n t hn)

theorem Remaining.window_eq (h : Remaining st st₁ present) (n : ℕ) :
    st₁.window n = if n ∈ present then st.window n else none := by
  by_cases hn : n ∈ present
  · rw [if_pos hn, h.kept n hn]
  · rw [if_neg hn]
    cases hw : st₁.window n with
    | none => rfl
    | some s => exact absurd (h.only n s hw) hn

theorem Remaining.above (h : Remaining st st₁ present) : st₁.above = st.aboveAmong present := by
  funext n
  rw [Surfaces.above, h.window_eq, aboveAmong]
  split
  · rfl
  · rfl

theorem Remaining.knows (h : Remaining st st₁ present) (hfull : st.Full) :
    st₁.knows = fun n => n ∈ present && st.knows n := by
  funext n
  rw [Bool.eq_iff_iff, knows_iff h.full, h.window_eq, Bool.and_eq_true, decide_eq_true_iff,
    knows_iff hfull]
  by_cases hn : n ∈ present
  · simp [hn]
  · simp [hn]

theorem Remaining.newcomers (h : Remaining st st₁ (presentIn snapshot)) :
    st₁.newcomers snapshot = st.newcomers snapshot := by
  unfold Surfaces.newcomers
  refine congrArg List.length (List.filter_congr ?_)
  intro s hs
  rw [h.kept s.nativeId (mem_presentIn.mpr ⟨s, hs, rfl⟩)]

/-- What `reconcile` runs once its first four checks have passed. -/
theorem reconcile_eq (st : Surfaces) (hcount : snapshot.length ≤ maxApplicationSurfaces)
    (harea : captureArea snapshot ≤ 64 * 1024 * 1024)
    (hunique : (snapshot.map (·.nativeId)).Nodup)
    (hunretired : ∀ s ∈ snapshot, s.nativeId ∉ st.retired) :
    st.reconcile snapshot =
      (let removed :=
        (st.live.toList.filter fun (_, s) => s.nativeId ∉ presentIn snapshot).map (·.1)
      match retireAll removed.length st removed [] with
      | (.error e, st) => (.error e, st)
      | (.ok messages, st) => announceAll snapshot.length st snapshot messages) := by
  have hcard : (snapshot.map (·.nativeId)).toFinset.card = snapshot.length := by
    rw [List.toFinset_card_of_nodup hunique, List.length_map]
  have hdisjoint : Disjoint (snapshot.map (·.nativeId)).toFinset st.retired := by
    rw [Finset.disjoint_left]
    intro n hn
    obtain ⟨s, hs, rfl⟩ := mem_presentIn.mp hn
    exact hunretired s hs
  unfold reconcile
  rw [if_neg (by simpa using hcount), if_neg (by simpa using harea)]
  simp only [hcard, ne_eq, not_true_eq_false, if_false, hdisjoint]
  rfl

/-- A window that stays was recorded under one that goes: refused. -/
theorem reconcile_orphans (h : st.Inv) (hfull : st.Full) (hseated : st.Seated)
    (hwf : st.WellFormed snapshot) (hlimits : st.WithinLimits snapshot)
    (hkeeps : ¬ st.KeepsParents (presentIn snapshot)) :
    (st.reconcile snapshot).1 = .error (.text "invalid native parent removal") := by
  rw [reconcile_eq st hlimits.count hlimits.area hwf.orderly.unique hwf.unretired]
  have hretire := retireAll_orphans (retiring_start h hfull hseated (presentIn snapshot)) hkeeps []
  dsimp only
  generalize retireAll _ st _ [] = out at hretire ⊢
  obtain ⟨result, st₁⟩ := out
  dsimp only at hretire
  rw [hretire]

/-- A well-formed snapshot whose links work out is taken over, or one of the
limits refuses it. -/
theorem reconcile_cases (h : st.Inv) (hfull : st.Full) (hseated : st.Seated)
    (hwf : st.WellFormed snapshot) (hkeeps : st.KeepsParents (presentIn snapshot))
    (hu : Untangled (st.aboveAmong (presentIn snapshot)) (st.orderOf snapshot)) :
    (∃ messages st₁, st.reconcile snapshot = (.ok messages, st₁) ∧ Announcing st₁ snapshot []) ∨
    (¬ st.WithinLimits snapshot ∧
      ((st.reconcile snapshot).1 = .error .surfaceLimit ∨ (st.reconcile snapshot).1 =
        .error (.text "aggregate application capture dimensions exceed memory budget"))) := by
  by_cases hcount : snapshot.length ≤ maxApplicationSurfaces
  swap
  · refine .inr ⟨fun hl => hcount hl.count, .inl ?_⟩
    rw [reconcile, if_pos hcount]
  by_cases harea : captureArea snapshot ≤ 64 * 1024 * 1024
  swap
  · refine .inr ⟨fun hl => harea hl.area, .inr ?_⟩
    rw [reconcile, if_neg (by simpa using hcount), if_pos harea]
  have heq := reconcile_eq st hcount harea hwf.orderly.unique hwf.unretired
  obtain ⟨sent, st₁, hretire, hremaining⟩ :=
    retireAll_keeps (retiring_start h hfull hseated (presentIn snapshot)) hkeeps []
  dsimp only at heq
  rw [hretire] at heq
  have hu₁ : Untangled st₁.above (announceOrder snapshot.length st₁.knows snapshot) := by
    rw [hremaining.above, hremaining.knows hfull]
    exact hu
  rcases announceAll_spec hwf.orderly (hremaining.announcing hwf) hu₁ sent with
    ⟨messages, st₂, hannounce, hdone⟩ | ⟨herror, hmany⟩
  · exact .inl ⟨messages, st₂, heq.trans hannounce, hdone⟩
  · refine .inr ⟨?_, .inl (by rw [heq]; exact herror)⟩
    intro hl
    have hids := hl.ids
    rw [hremaining.newcomers, hremaining.next] at hmany
    omega

theorem seated_retireAll (h : st.Inv) (hseated : st.Seated) (fuel : ℕ) (removed : List ℕ)
    (messages : List ApplicationMessage) : (retireAll fuel st removed messages).2.Seated := by
  induction fuel generalizing st removed messages with
  | zero => exact hseated
  | succ fuel ih =>
    rw [retireAll]
    split
    · exact hseated
    · split
      · exact hseated
      · rename_i leaf _
        have hinv := (round_retire h leaf).inv
        have hnext := hseated.retire h leaf
        split
        · rename_i e st₁ hr
          rw [hr] at hnext
          exact hnext
        · rename_i message st₁ hr
          rw [hr] at hinv hnext
          exact ih hinv hnext _ _

theorem seated_announceAll (h : st.Inv) (hseated : st.Seated) (fuel : ℕ)
    (pending : List NativeSurface) (messages : List ApplicationMessage) :
    (announceAll fuel st pending messages).2.Seated := by
  induction fuel generalizing st pending messages with
  | zero => exact hseated
  | succ fuel ih =>
    rw [announceAll]
    split
    · exact hseated
    · split
      · exact hseated
      · rename_i position hposition
        split
        · exact hseated
        · rename_i surface hsurface
          have hinv := (round_announce h surface (known_of_findIdx hposition hsurface)).inv
          have hnext := hseated.announce h surface
          split
          · rename_i e st₁ hr
            rw [hr] at hnext
            exact hnext
          · rename_i sent st₁ hr
            rw [hr] at hinv hnext
            exact ih hinv hnext _ _

theorem seated_reconcile (h : st.Inv) (hseated : st.Seated) (snapshot : List NativeSurface) :
    (st.reconcile snapshot).2.Seated := by
  unfold reconcile
  split
  · exact hseated
  split
  · exact hseated
  dsimp only
  split
  · exact hseated
  split
  · exact hseated
  split
  · rename_i e st₁ hr
    rw [← congrArg Prod.snd hr]
    exact seated_retireAll h hseated _ _ []
  · rename_i messages st₁ hr
    have hst : _ = st₁ := congrArg Prod.snd hr
    have hinv : st₁.Inv := by
      rw [← hst]
      obtain ⟨rest, hround, -⟩ := round_retireAll h _ _ []
      exact hround.inv
    refine seated_announceAll hinv ?_ _ _ _
    rw [← hst]
    exact seated_retireAll h hseated _ _ []

end Surfaces

theorem Worker.seated_run (snapshots : List (List NativeSurface)) :
    (run Worker.step Worker.new snapshots).surfaces.Seated := by
  refine (run_invariant (P := fun w : Worker => w.Inv ∧ w.surfaces.Seated) ?_
    ⟨Worker.inv_new, Surfaces.seated_new⟩ snapshots).2
  rintro w snapshot ⟨hw, hseated⟩
  refine ⟨Worker.inv_step hw snapshot, ?_⟩
  have hnext := Surfaces.seated_reconcile hw.surfaces hseated snapshot
  unfold Worker.step
  split
  · exact hseated
  · split
    · rename_i e st heq
      rw [heq] at hnext
      exact hnext
    · rename_i messages st heq
      rw [heq] at hnext
      exact hnext

/-- **Well-formed snapshots.**  In every state a worker reaches, a well-formed
snapshot within the limits is refused if a window that stays was recorded under
one that goes.  If none was, and no window is announced under one that the links
recorded by then place below it, the snapshot is accepted and the live windows
are exactly its own. -/
theorem reconcile_accepts (snapshots : List (List NativeSurface)) (snapshot : List NativeSurface)
    (hrun : (run Worker.step Worker.new snapshots).failure = none)
    (hwf : (run Worker.step Worker.new snapshots).surfaces.WellFormed snapshot)
    (hlimits : (run Worker.step Worker.new snapshots).surfaces.WithinLimits snapshot) :
    let st := (run Worker.step Worker.new snapshots).surfaces
    (¬ st.KeepsParents (Surfaces.presentIn snapshot) →
      (st.reconcile snapshot).1 = .error (.text "invalid native parent removal")) ∧
    (st.KeepsParents (Surfaces.presentIn snapshot) →
      Untangled (st.aboveAmong (Surfaces.presentIn snapshot)) (st.orderOf snapshot) →
      ∃ messages st₁, st.reconcile snapshot = (.ok messages, st₁) ∧
        ∀ t, (∃ id : ℕ, st₁.live[id]? = some t) ↔ ∃ s ∈ snapshot, t = Surfaces.clean s) := by
  intro st
  have hw := Worker.inv_run snapshots
  have hseated := Worker.seated_run snapshots
  refine ⟨Surfaces.reconcile_orphans hw.surfaces (hw.full hrun) hseated hwf hlimits, ?_⟩
  intro hkeeps hu
  rcases Surfaces.reconcile_cases hw.surfaces (hw.full hrun) hseated hwf hkeeps hu with
    ⟨messages, st₁, hok, hdone⟩ | ⟨hnot, -⟩
  · refine ⟨messages, st₁, hok, ?_⟩
    have hall : ∀ s ∈ snapshot, st₁.window s.nativeId = some (Surfaces.clean s) := by
      intro s hs
      exact (hdone.done s hs).resolve_left (List.not_mem_nil)
    intro t
    constructor
    · rintro ⟨id, hid⟩
      have hwin := hdone.inv.window_eq.mpr ⟨id, hid, rfl⟩
      obtain ⟨s, hs, hn⟩ := hdone.only _ t hwin
      have hclean := hall s hs
      rw [hn, hwin] at hclean
      exact ⟨s, hs, Option.some.inj hclean⟩
    · rintro ⟨s, hs, rfl⟩
      obtain ⟨id, hid, -⟩ := hdone.inv.window_eq.mp (hall s hs)
      exact ⟨id, hid⟩
  · exact absurd hlimits hnot

def sampleDialog : List NativeSurface := [.sample 1 none 640, .sample 2 (some 1) 640]

theorem sample_presentable (n : ℕ) (parent : Option ℕ) : Presentable (.sample n parent 640) :=
  ⟨Nat.one_ne_zero, rfl, rfl, rfl⟩

theorem sample_fresher (n : ℕ) (parent : Option ℕ) {old : NativeSurface}
    (hold : old = .sample 1 none 640 ∨ old = .sample 2 (some 1) 640) :
    Fresher old (.sample n parent 640) := by
  obtain ⟨hw, hh, hs, hg⟩ : old.width = 640 ∧ old.height = 480 ∧ old.scale = ⟨0x3f800000⟩ ∧
      old.geometryGeneration = 1 := by
    rcases hold with rfl | rfl
    · exact ⟨rfl, rfl, rfl, rfl⟩
    · exact ⟨rfl, rfl, rfl, rfl⟩
  refine ⟨hg.le, ?_⟩
  rintro (h | h | h)
  · exact absurd hw h
  · exact absurd hh h
  · rw [hs] at h
    cases h

theorem sample_window {n : ℕ} {old : NativeSurface}
    (h : (run Worker.step Worker.new [sampleDialog]).surfaces.window n = some old) :
    old = .sample 1 none 640 ∨ old = .sample 2 (some 1) 640 := by
  have hinv := (Worker.inv_run [sampleDialog]).surfaces
  obtain ⟨id, hid, -⟩ := hinv.window_eq.mp h
  have hlive : (run Worker.step Worker.new [sampleDialog]).surfaces.live.toList =
      [(0, .sample 1 none 640), (1, .sample 2 (some 1) 640)] := by decide +kernel
  have hmem := ExtTreeMap.mem_toList_iff_getElem?_eq_some.mpr hid
  rw [hlive] at hmem
  simp only [List.mem_cons, List.not_mem_nil, or_false, Prod.mk.injEq] at hmem
  rcases hmem with ⟨-, h⟩ | ⟨-, h⟩
  · exact .inl h
  · exact .inr h

theorem reconcile_accepts_dialog :
    let st := (run Worker.step Worker.new [sampleDialog]).surfaces
    let snapshot : List NativeSurface := [.sample 2 (some 1) 640, .sample 1 none 640]
    ∃ messages st₁, st.reconcile snapshot = (.ok messages, st₁) ∧
      ∀ t, (∃ id : ℕ, st₁.live[id]? = some t) ↔ ∃ s ∈ snapshot, t = Surfaces.clean s := by
  intro st snapshot
  have hmem : ∀ s ∈ snapshot, s = .sample 2 (some 1) 640 ∨ s = .sample 1 none 640 := by
    intro s hs
    simpa [snapshot] using hs
  have hwf : st.WellFormed snapshot := by
    refine ⟨⟨by decide, ?_, ?_, ?_⟩, ?_, ?_⟩
    · intro s hs p hp
      refine ⟨.sample 1 none 640, by simp [snapshot], ?_⟩
      rcases hmem s hs with rfl | rfl
      · exact Option.some.inj hp
      · cases hp
    · refine acyclic_of_lt ?_
      intro c p hp
      obtain ⟨s, hs, hp'⟩ := Option.bind_eq_some_iff.mp hp
      have hid : s.nativeId = c := by simpa using List.find?_some hs
      rcases hmem s (List.mem_of_find?_eq_some hs) with rfl | rfl
      · have hp₁ : 1 = p := Option.some.inj hp'
        have hc : 2 = c := hid
        omega
      · cases hp'
    · intro s hs
      rcases hmem s hs with rfl | rfl
      · exact sample_presentable 2 (some 1)
      · exact sample_presentable 1 none
    · intro s hs
      rcases hmem s hs with rfl | rfl
      · decide +kernel
      · decide +kernel
    · intro s hs old hold
      rcases hmem s hs with rfl | rfl
      · exact sample_fresher 2 (some 1) (sample_window hold)
      · exact sample_fresher 1 none (sample_window hold)
  have hlimits : st.WithinLimits snapshot := ⟨by decide, by decide, by decide +kernel⟩
  have horder : st.orderOf snapshot = snapshot := by decide +kernel
  refine (reconcile_accepts [sampleDialog] snapshot (by decide +kernel) hwf hlimits).2 ?_ ?_
  · intro n _ p hp
    obtain ⟨old, hold, hparent⟩ := Option.bind_eq_some_iff.mp hp
    rcases sample_window hold with rfl | rfl
    · cases hparent
    · obtain rfl := Option.some.inj hparent
      decide
  · have hroot : st.aboveAmong (Surfaces.presentIn snapshot) 1 = none := by decide +kernel
    rw [show (run Worker.step Worker.new [sampleDialog]).surfaces.orderOf snapshot = snapshot
      from horder]
    refine ⟨?_, ?_, trivial⟩
    · intro p hp
      obtain rfl := Option.some.inj hp
      exact .root (by decide) hroot
    · intro p hp
      cases hp

/-- A window whose parent disappears in the snapshot that reports it without a
parent: the snapshot is well formed and ends the session. -/
theorem orphaned_window_refused :
    let st := (run Worker.step Worker.new [sampleDialog]).surfaces
    (run Worker.step Worker.new [sampleDialog]).failure = none ∧
      st.WellFormed [.sample 2 none 640] ∧ st.WithinLimits [.sample 2 none 640] ∧
      (st.reconcile [.sample 2 none 640]).1 =
        .error (.text "invalid native parent removal") := by
  refine ⟨by decide +kernel, ⟨⟨by decide, ?_, ?_, ?_⟩, ?_, ?_⟩,
    ⟨by decide, by decide, by decide +kernel⟩, by decide +kernel⟩
  · intro s hs p hp
    rw [List.mem_singleton.mp hs] at hp
    cases hp
  · refine acyclic_of_lt ?_
    intro c p hp
    obtain ⟨s, hs, hp'⟩ := Option.bind_eq_some_iff.mp hp
    rw [List.mem_singleton.mp (List.mem_of_find?_eq_some hs)] at hp'
    cases hp'
  · intro s hs
    rw [List.mem_singleton.mp hs]
    exact sample_presentable 2 none
  · intro s hs
    rw [List.mem_singleton.mp hs]
    decide +kernel
  · intro s hs old hold
    rw [List.mem_singleton.mp hs]
    exact sample_fresher 2 none (sample_window hold)

/-- Two windows that exchange their roles pass in one order of enumeration and
not in the other. -/
example :
    let st := (run Worker.step Worker.new [sampleDialog]).surfaces
    (st.reconcile [.sample 2 none 640, .sample 1 (some 2) 640]).1.isOk = true ∧
      (st.reconcile [.sample 1 (some 2) 640, .sample 2 none 640]).1 = .error (.proto invalid) := by
  decide +kernel

end NebulaDesk
