/-
The pixel budgets of agent and client (`nebula-agent/src/application.rs`,
`nebula-client/src/application.rs`).

The agent bounds the area of a whole snapshot, the client each surface and the
running sum after every message.  `Affordable` follows the client's sums along
the order of announcement, in terms of the windows before the snapshot and the
snapshot alone; `budgets_agree_iff` says that this is exactly what keeps a client
from ending the session over its budget.
-/
import NebulaDesk.Client.Surfaces
import NebulaDesk.Agent.AcceptanceRuns

namespace NebulaDesk

open Runs
open Std (ExtTreeMap)

/-- The area of a window, in pixels of its capture. -/
def NativeSurface.area (s : NativeSurface) : ℕ := s.width * s.height

/-- Every window to be announced is within the limit of one surface, and the sum
over all windows is within that of a session as each takes its new size. -/
def Affordable (present : Finset ℕ) : (ℕ → ℕ) → List NativeSurface → Prop
  | _, [] => True
  | areas, s :: rest =>
    s.area ≤ maxSurfacePixels ∧
      ∑ n ∈ present, Function.update areas s.nativeId s.area n ≤ maxSessionPixels ∧
      Affordable present (Function.update areas s.nativeId s.area) rest

theorem Affordable.congr {present : Finset ℕ} {areas areas' : ℕ → ℕ} {order : List NativeSurface}
    (h : ∀ n ∈ present, areas' n = areas n) :
    Affordable present areas' order ↔ Affordable present areas order := by
  induction order generalizing areas areas' with
  | nil => exact Iff.rfl
  | cons s rest ih =>
    have hupdate : ∀ n ∈ present, Function.update areas' s.nativeId s.area n =
        Function.update areas s.nativeId s.area n := by
      intro n hn
      by_cases hs : n = s.nativeId
      · rw [hs, Function.update_self, Function.update_self]
      · rw [Function.update_of_ne hs, Function.update_of_ne hs, h n hn]
    unfold Affordable
    rw [Finset.sum_congr rfl hupdate, ih hupdate]

namespace Surfaces

variable {st st₁ : Surfaces} {present : Finset ℕ} {c : ClientSurfaces} {s : NativeSurface}

/-- The area of a live window, and nothing for any other. -/
def areaOf (st : Surfaces) (n : ℕ) : ℕ := (st.window n).elim 0 NativeSurface.area

/-- The client has the agent's surfaces. -/
structure Mirrored (st : Surfaces) (c : ClientSurfaces) : Prop where
  registry : c.registry = st.registry
  pixels : c.pixels = st.live.map fun _ s => s.area

/-- The live windows are within the limits of the client. -/
structure Solvent (st : Surfaces) : Prop where
  each : ∀ n s, st.window n = some s → s.area ≤ maxSurfacePixels
  sum : ∀ windows : Finset ℕ, ∑ n ∈ windows, st.areaOf n ≤ maxSessionPixels

theorem Mirrored.others (hm : Mirrored st c) (h : st.Inv)
    (hpresent : ∀ n t, st.window n = some t → n ∈ present) {n id : ℕ}
    (hid : ∀ (i : ℕ) t, st.live[i]? = some t → (i = id ↔ t.nativeId = n)) :
    c.others id = ∑ m ∈ present.erase n, st.areaOf m := by
  have htoList : c.pixels.toList = st.live.toList.map fun p => (p.1, p.2.area) := by
    rw [hm.pixels, ExtTreeMap.toList_map]
  have hlive : ∀ p ∈ st.live.toList, st.live[p.1]? = some p.2 := by
    intro p hp
    exact ExtTreeMap.mem_toList_iff_getElem?_eq_some.mp hp
  have hnodup : (((st.live.toList.filter (·.1 ≠ id)).map (·.2.nativeId))).Nodup := by
    have hkeys : (st.live.toList.map (·.1)).Nodup := by
      rw [ExtTreeMap.map_fst_toList_eq_keys]
      exact ExtTreeMap.nodup_keys
    refine List.Nodup.map_on ?_ (hkeys.of_map.filter _)
    intro p hp q hq heq
    have hp' := hlive p (List.mem_of_mem_filter hp)
    have hq' := hlive q (List.mem_of_mem_filter hq)
    have hpn := h.windows _ _ hp'
    have hqn := h.windows _ _ hq'
    rw [heq, hqn] at hpn
    have hkey := Option.some.inj hpn
    rw [hkey, hp'] at hq'
    exact Prod.ext hkey.symm (Option.some.inj hq')
  have hsum : c.others id =
      (((st.live.toList.filter (·.1 ≠ id)).map (·.2.nativeId)).map st.areaOf).sum := by
    unfold ClientSurfaces.others
    rw [htoList, List.filter_map, List.map_map, List.map_map]
    refine congrArg List.sum (List.map_congr_left ?_)
    intro p hp
    have hwin := h.window_eq.mpr ⟨p.1, hlive p (List.mem_of_mem_filter hp), rfl⟩
    simp [areaOf, hwin]
  rw [hsum, ← List.sum_toFinset _ hnodup]
  refine Finset.sum_subset ?_ ?_
  · intro m hm'
    obtain ⟨p, hp, rfl⟩ := List.mem_map.mp (List.mem_toFinset.mp hm')
    obtain ⟨hp, hne⟩ := List.mem_filter.mp hp
    have hwin := h.window_eq.mpr ⟨p.1, hlive p hp, rfl⟩
    refine Finset.mem_erase.mpr ⟨?_, hpresent _ _ hwin⟩
    intro hn
    exact absurd ((hid _ _ (hlive p hp)).mpr hn) (by simpa using hne)
  · intro m hm' hnot
    obtain ⟨hmn, -⟩ := Finset.mem_erase.mp hm'
    cases hwin : st.window m with
    | none => rw [areaOf, hwin]; rfl
    | some t =>
      obtain ⟨i, hi, rfl⟩ := h.window_eq.mp hwin
      refine absurd (List.mem_toFinset.mpr (List.mem_map.mpr ⟨(i, t), ?_, rfl⟩)) hnot
      refine List.mem_filter.mpr ⟨ExtTreeMap.mem_toList_iff_getElem?_eq_some.mpr hi, ?_⟩
      have hine : i ≠ id := fun heq => hmn ((hid i t hi).mp heq)
      simpa using hine

/-! ### The first loop -/

variable {sent : List ApplicationMessage}

theorem Mirrored.retireAll (hm : Mirrored st c) (h : st.Inv) (fuel : ℕ) (removed : List ℕ)
    (messages : List ApplicationMessage)
    (hok : Surfaces.retireAll fuel st removed messages = (.ok sent, st₁)) :
    ∃ rest c', sent = messages ++ rest ∧ c.feed rest = .ok c' ∧ Mirrored st₁ c' := by
  induction fuel generalizing st removed messages c with
  | zero =>
    cases hok
    exact ⟨[], c, (List.append_nil _).symm, rfl, hm⟩
  | succ fuel ih =>
    rw [Surfaces.retireAll] at hok
    split at hok
    · cases hok
      exact ⟨[], c, (List.append_nil _).symm, rfl, hm⟩
    · split at hok
      · cases hok
      · rename_i leaf _
        rcases retire_cases h leaf with ⟨e, he⟩ | ⟨old, -, r, hr, heq⟩
        · rw [he] at hok
          cases hok
        · have hinv := (round_retire h leaf).inv
          rw [heq] at hok hinv
          -- the client's registry is the agent's, and loses the same surface
          have hremove : c.feed [.surfaceRemove leaf] = .ok ⟨r, c.pixels.erase leaf⟩ := by
            rw [ClientSurfaces.feed_singleton, ClientSurfaces.onMessage, ClientSurfaces.onRemove,
              hm.registry, hr]
          have hnext : Mirrored { st with
              registry := r
              live := st.live.erase leaf
              native := st.native.erase old.nativeId
              retired := insert old.nativeId st.retired } ⟨r, c.pixels.erase leaf⟩ := by
            refine ⟨rfl, ?_⟩
            show c.pixels.erase leaf = (st.live.erase leaf).map _
            rw [hm.pixels]
            refine ExtTreeMap.ext_getElem? ?_
            intro i
            simp only [ExtTreeMap.getElem?_erase, ExtTreeMap.getElem?_map]
            split
            · rfl
            · rfl
          obtain ⟨rest, c', hsent, hfeed, hm'⟩ := ih hnext hinv _ _ hok
          refine ⟨.surfaceRemove leaf :: rest, c', ?_, ?_, hm'⟩
          · rw [hsent, List.append_assoc]
            rfl
          · rw [← List.singleton_append, ClientSurfaces.feed_append_of_ok hremove]
            exact hfeed

theorem Remaining.areaOf (h : Remaining st st₁ present) (n : ℕ) :
    st₁.areaOf n = if n ∈ present then st.areaOf n else 0 := by
  rw [Surfaces.areaOf, h.window_eq]
  split
  · rfl
  · rfl

theorem Remaining.solvent (h : Remaining st st₁ present) (hsolvent : st.Solvent) : st₁.Solvent := by
  constructor
  · intro n s hs
    have hn := h.only n s hs
    rw [h.kept n hn] at hs
    exact hsolvent.each n s hs
  · intro windows
    refine le_trans (Finset.sum_le_sum ?_) (hsolvent.sum windows)
    intro n _
    rw [h.areaOf]
    split
    · exact le_rfl
    · exact Nat.zero_le _

/-! ### The second loop -/

theorem Announced.areaOf (ha : Announced st st₁ s) :
    st₁.areaOf = Function.update st.areaOf s.nativeId s.area := by
  funext n
  unfold Surfaces.areaOf
  rw [ha.window]
  by_cases hn : n = s.nativeId
  · rw [hn, Function.update_self, Function.update_self]
    rfl
  · rw [Function.update_of_ne hn, Function.update_of_ne hn]

theorem Announced.solvent (ha : Announced st st₁ s) (hsolvent : st.Solvent)
    (honly : ∀ n t, st₁.window n = some t → n ∈ present) (heach : s.area ≤ maxSurfacePixels)
    (hsum : ∑ n ∈ present, Function.update st.areaOf s.nativeId s.area n ≤ maxSessionPixels) :
    st₁.Solvent := by
  constructor
  · intro n t ht
    rw [ha.window] at ht
    by_cases hn : n = s.nativeId
    · rw [hn, Function.update_self] at ht
      cases ht
      exact heach
    · rw [Function.update_of_ne hn] at ht
      exact hsolvent.each n t ht
  · intro windows
    rw [← ha.areaOf] at hsum
    refine le_trans (Finset.sum_le_sum_of_ne_zero ?_) hsum
    intro n _ hne
    unfold Surfaces.areaOf at hne
    cases hw : st₁.window n with
    | none =>
      rw [hw] at hne
      exact absurd rfl hne
    | some t => exact honly n t hw

/-- One announcement at the client: what is sent is taken exactly if the window
and the new sum are within the limits. -/
theorem announce_affordable (h : st.Inv) (hfull : st.Full) (hseated : st.Seated)
    (hm : Mirrored st c) (hsolvent : st.Solvent) (honly : ∀ n t, st.window n = some t → n ∈ present)
    (hmem : s.nativeId ∈ present) (hknown : ∀ p, s.parent = some p → ∃ q, st.native[p]? = some q)
    (hok : st.announce s = (.ok sent, st₁)) :
    ((∃ c', c.feed sent = .ok c') ↔ s.area ≤ maxSurfacePixels ∧
      ∑ n ∈ present, Function.update st.areaOf s.nativeId s.area n ≤ maxSessionPixels) ∧
      ∀ c', c.feed sent = .ok c' → Mirrored st₁ c' := by
  obtain ⟨-, hsent⟩ := announced_of_ok h hfull hseated hknown hok
  rcases hsent with ⟨rfl, hwin, hreg, hlive⟩ | ⟨info, rfl, hw, hh, hup, hlive, hid⟩
  · -- the window is live as it is: nothing is sent, and its area is accounted for
    have harea : st.areaOf s.nativeId = s.area := by
      rw [areaOf, hwin]
      rfl
    refine ⟨⟨fun _ => ?_, fun _ => ⟨c, rfl⟩⟩, ?_⟩
    · have heach : (clean s).area ≤ maxSurfacePixels := hsolvent.each _ _ hwin
      refine ⟨heach, ?_⟩
      rw [← harea, Function.update_eq_self]
      exact hsolvent.sum present
    · intro c' hc'
      cases hc'
      exact ⟨hm.registry.trans hreg.symm, by rw [hlive]; exact hm.pixels⟩
  · have hothers := hm.others h honly hid
    have harea : info.width * info.height = s.area := by
      rw [hw, hh]
      rfl
    have hsum : ∑ n ∈ present, Function.update st.areaOf s.nativeId s.area n =
        s.area + ∑ n ∈ present.erase s.nativeId, st.areaOf n := by
      rw [Finset.sum_update_of_mem hmem, Finset.sdiff_singleton_eq_erase]
    rw [hsum, ← hothers, ClientSurfaces.feed_singleton, ClientSurfaces.onMessage,
      ClientSurfaces.onUpsert, harea]
    by_cases heach : s.area > maxSurfacePixels
    · rw [if_pos heach]
      refine ⟨⟨nofun, ?_⟩, nofun⟩
      rintro ⟨hle, -⟩
      omega
    rw [if_neg heach]
    by_cases htotal : c.others info.surfaceId + s.area > maxSessionPixels
    · rw [if_pos htotal]
      refine ⟨⟨nofun, ?_⟩, nofun⟩
      rintro ⟨-, hle⟩
      omega
    rw [if_neg htotal, hm.registry, hup]
    refine ⟨⟨fun _ => ⟨by omega, by omega⟩, fun _ => ⟨_, rfl⟩⟩, ?_⟩
    intro c' hc'
    cases hc'
    refine ⟨rfl, ?_⟩
    rw [hlive, hm.pixels]
    refine ExtTreeMap.ext_getElem? ?_
    intro i
    simp only [ExtTreeMap.getElem?_insert, ExtTreeMap.getElem?_map]
    split
    · rfl
    · rfl

theorem announceAll_affordable (h : st.Inv) (hfull : st.Full) (hseated : st.Seated)
    (hm : Mirrored st c) (hsolvent : st.Solvent) (honly : ∀ n t, st.window n = some t → n ∈ present)
    (fuel : ℕ) (pending : List NativeSurface) (hpending : ∀ s ∈ pending, s.nativeId ∈ present)
    (messages : List ApplicationMessage)
    (hok : announceAll fuel st pending messages = (.ok sent, st₁)) :
    ∃ rest, sent = messages ++ rest ∧
      ((∃ c', c.feed rest = .ok c') ↔
        Affordable present st.areaOf (announceOrder fuel st.knows pending)) ∧
      ∀ c', c.feed rest = .ok c' → Mirrored st₁ c' ∧ st₁.Solvent := by
  induction fuel generalizing st pending messages c with
  | zero =>
    cases hok
    refine ⟨[], (List.append_nil _).symm, ⟨fun _ => trivial, fun _ => ⟨c, rfl⟩⟩, ?_⟩
    intro c' hc'
    cases hc'
    exact ⟨hm, hsolvent⟩
  | succ fuel ih =>
    rw [announceAll] at hok
    cases hposition : pending.findIdx? fun s => s.parent.all st.native.contains with
    | none =>
      -- nothing can be announced: the loop ends well only when nothing is left
      have hnone : (pending.findIdx? fun s => s.parent.all st.knows) = none := hposition
      rw [hposition] at hok
      split at hok
      · cases hok
        refine ⟨[], (List.append_nil _).symm, ⟨fun _ => ?_, fun _ => ⟨c, rfl⟩⟩, ?_⟩
        · rw [announceOrder, hnone]
          trivial
        · intro c' hc'
          cases hc'
          exact ⟨hm, hsolvent⟩
      · cases hok
    | some position =>
      obtain ⟨hlt, -, -⟩ := List.findIdx?_eq_some_iff_getElem.mp hposition
      have hempty : pending.isEmpty = false := by
        cases pending with
        | nil => exact absurd hlt (Nat.not_lt_zero _)
        | cons => rfl
      have hget := List.getElem?_eq_getElem hlt
      have hsmem := List.getElem_mem hlt
      have hknown := known_of_findIdx hposition hget
      generalize pending[position] = s at hget hsmem hknown
      have hposition' : (pending.findIdx? fun s => s.parent.all st.knows) = some position :=
        hposition
      rw [announceOrder, hposition']
      simp only [hget]
      rw [hempty, hposition] at hok
      simp only [Bool.false_eq_true, if_false, hget] at hok
      cases hannounce : st.announce s with
      | mk result st₂ =>
        rw [hannounce] at hok
        cases result with
        | error e => cases hok
        | ok sent₁ =>
          dsimp only at hok
          have hs := hpending s hsmem
          obtain ⟨ha, -⟩ := announced_of_ok h hfull hseated hknown hannounce
          obtain ⟨hiff, hmirror⟩ := announce_affordable h hfull hseated hm hsolvent honly hs hknown
            hannounce
          have honly₂ : ∀ n t, st₂.window n = some t → n ∈ present := by
            intro n t ht
            rw [ha.window] at ht
            by_cases hn : n = s.nativeId
            · rw [hn]
              exact hs
            · rw [Function.update_of_ne hn] at ht
              exact honly n t ht
          have hrest : ∀ t ∈ pending.eraseIdx position, t.nativeId ∈ present := by
            intro t ht
            exact hpending t (List.mem_of_mem_eraseIdx ht)
          cases hfeed : c.feed sent₁ with
          | error e =>
            -- the client has ended the session here
            obtain ⟨result, -, hrest⟩ := round_announceAll ha.inv fuel (pending.eraseIdx position)
              (messages ++ sent₁)
            obtain ⟨rest, -, hsent⟩ : ∃ rest, result = .ok rest ∧ sent = messages ++ sent₁ ++ rest := by
              rw [hok] at hrest
              cases result with
              | error e => cases hrest
              | ok rest => exact ⟨rest, rfl, Except.ok.inj hrest⟩
            have herror : c.feed (sent₁ ++ rest) = .error e := by
              rw [ClientSurfaces.feed_append, hfeed]
              rfl
            have hnot : ¬ ∃ c', c.feed sent₁ = .ok c' := by
              rw [hfeed]
              rintro ⟨c', hc'⟩
              cases hc'
            refine ⟨sent₁ ++ rest, by rw [hsent, List.append_assoc], ?_, ?_⟩
            · rw [herror]
              constructor
              · rintro ⟨c', hc'⟩
                cases hc'
              · rintro ⟨heach, hsum, -⟩
                exact absurd (hiff.mpr ⟨heach, hsum⟩) hnot
            · intro c' hc'
              rw [herror] at hc'
              cases hc'
          | ok c₂ =>
            obtain ⟨heach, hsum⟩ := hiff.mp ⟨c₂, hfeed⟩
            have hsolvent₂ := ha.solvent hsolvent honly₂ heach hsum
            obtain ⟨rest, hsent, hiff', hend⟩ := ih ha.inv ha.full ha.seated (hmirror c₂ hfeed)
              hsolvent₂ honly₂ _ hrest _ hok
            have hfeed' : c.feed (sent₁ ++ rest) = c₂.feed rest :=
              ClientSurfaces.feed_append_of_ok hfeed
            refine ⟨sent₁ ++ rest, by rw [hsent, List.append_assoc], ?_, ?_⟩
            · rw [hfeed', hiff', ha.areaOf, ha.knows hfull, Affordable]
              exact ⟨fun hrest => ⟨heach, hsum, hrest⟩, fun hall => hall.2.2⟩
            · intro c' hc'
              rw [hfeed'] at hc'
              exact hend c' hc'

/-! ### Whole snapshots -/

theorem reconcile_ok {snapshot : List NativeSurface}
    (hok : st.reconcile snapshot = (.ok sent, st₁)) :
    ∃ messages st₂,
      retireAll
        ((st.live.toList.filter fun (_, s) => s.nativeId ∉ presentIn snapshot).map (·.1)).length st
        ((st.live.toList.filter fun (_, s) => s.nativeId ∉ presentIn snapshot).map (·.1)) [] =
          (.ok messages, st₂) ∧
      announceAll snapshot.length st₂ snapshot messages = (.ok sent, st₁) := by
  unfold reconcile at hok
  split at hok
  · cases hok
  split at hok
  · cases hok
  dsimp only at hok
  split at hok
  · cases hok
  split at hok
  · cases hok
  split at hok
  · cases hok
  · rename_i messages st₂ hretire
    exact ⟨messages, st₂, hretire, hok⟩

theorem reconcile_affordable (h : st.Inv) (hfull : st.Full) (hseated : st.Seated)
    (hm : Mirrored st c) (hsolvent : st.Solvent) {snapshot : List NativeSurface}
    (hok : st.reconcile snapshot = (.ok sent, st₁)) :
    ((∃ c', c.feed sent = .ok c') ↔
      Affordable (presentIn snapshot) st.areaOf (st.orderOf snapshot)) ∧
      ∀ c', c.feed sent = .ok c' → Mirrored st₁ c' ∧ st₁.Solvent := by
  obtain ⟨messages, st₂, hretire, hannounce⟩ := reconcile_ok hok
  have hstart := retiring_start h hfull hseated (presentIn snapshot)
  have hkeeps : st.KeepsParents (presentIn snapshot) := by
    by_contra hnot
    have herror := retireAll_orphans hstart hnot []
    rw [hretire] at herror
    cases herror
  obtain ⟨sent', st₂', hretire', hremaining⟩ := retireAll_keeps hstart hkeeps []
  rw [hretire] at hretire'
  cases hretire'
  obtain ⟨rest, c₂, hrest, hfeed, hm₂⟩ := hm.retireAll h _ _ _ hretire
  rw [List.nil_append] at hrest
  subst hrest
  obtain ⟨tail, rfl, hiff, hend⟩ := announceAll_affordable hremaining.inv hremaining.full
    hremaining.seated hm₂ (hremaining.solvent hsolvent) hremaining.only _ _
    (fun s hs => mem_presentIn.mpr ⟨s, hs, rfl⟩) _ hannounce
  rw [ClientSurfaces.feed_append_of_ok hfeed, hiff, hremaining.knows hfull]
  refine ⟨Affordable.congr ?_, hend⟩
  intro n hn
  rw [hremaining.areaOf, if_pos hn]

end Surfaces

/-- A worker and the client that has taken everything it sent. -/
structure Worker.Agrees (w : Worker) (c : ClientSurfaces) : Prop where
  inv : w.Inv
  seated : w.surfaces.Seated
  running : w.failure = none
  mirrored : w.surfaces.Mirrored c
  solvent : w.surfaces.Solvent

theorem Worker.agrees_new : Worker.new.Agrees .new where
  inv := Worker.inv_new
  seated := Surfaces.seated_new
  running := rfl
  mirrored := by
    refine ⟨rfl, ExtTreeMap.ext_getElem? ?_⟩
    intro i
    rw [ExtTreeMap.getElem?_map]
    rfl
  solvent := by
    refine ⟨nofun, ?_⟩
    intro windows
    have hzero : ∀ n ∈ windows, Worker.new.surfaces.areaOf n = 0 := fun _ _ => rfl
    rw [Finset.sum_eq_zero hzero]
    exact Nat.zero_le _

theorem Worker.failure_run {w : Worker} {e : Failure} (h : w.failure = some e)
    (snapshots : List (List NativeSurface)) : (run Worker.step w snapshots).failure = some e := by
  refine run_invariant (P := fun q : Worker => q.failure = some e) ?_ h snapshots
  intro q snapshot hq
  unfold Worker.step
  rw [hq]
  exact hq

theorem Worker.sent_run (w : Worker) (snapshots : List (List NativeSurface)) :
    ∃ rest, (run Worker.step w snapshots).sent = w.sent ++ rest := by
  refine run_invariant (P := fun q : Worker => ∃ rest, q.sent = w.sent ++ rest) ?_
    ⟨[], (List.append_nil _).symm⟩ snapshots
  rintro q snapshot ⟨rest, hq⟩
  unfold Worker.step
  split
  · exact ⟨rest, hq⟩
  · split
    · exact ⟨rest, hq⟩
    · rename_i messages st _
      refine ⟨rest ++ messages, ?_⟩
      show q.sent ++ messages = _
      rw [hq, List.append_assoc]

theorem Worker.Agrees.run {w : Worker} {c : ClientSurfaces} (h : w.Agrees c)
    (snapshots : List (List NativeSurface))
    (hrun : (Runs.run Worker.step w snapshots).failure = none) :
    ∃ rest, (Runs.run Worker.step w snapshots).sent = w.sent ++ rest ∧
      ((∃ c', c.feed rest = .ok c') ↔
        ∀ before snapshot after, snapshots = before ++ snapshot :: after →
          let st := (Runs.run Worker.step w before).surfaces
          Affordable (Surfaces.presentIn snapshot) st.areaOf (st.orderOf snapshot)) := by
  induction snapshots generalizing w c with
  | nil =>
    refine ⟨[], (List.append_nil _).symm, ⟨fun _ => ?_, fun _ => ⟨c, rfl⟩⟩⟩
    intro before snapshot after heq
    simp at heq
  | cons first others ih =>
    have hstep : Runs.run Worker.step w (first :: others) =
        Runs.run Worker.step (w.step first) others := rfl
    have hhead : ∀ P : List (List NativeSurface) → List NativeSurface → Prop,
        (∀ before snapshot after, first :: others = before ++ snapshot :: after → P before snapshot) ↔
          P [] first ∧ ∀ before snapshot after, others = before ++ snapshot :: after →
            P (first :: before) snapshot := by
      intro P
      constructor
      · intro hall
        refine ⟨hall [] first others rfl, ?_⟩
        intro before snapshot after heq
        exact hall (first :: before) snapshot after (by rw [heq]; rfl)
      · rintro ⟨hfirst, hall⟩ before snapshot after heq
        cases before with
        | nil =>
          cases heq
          exact hfirst
        | cons b before =>
          obtain ⟨rfl, htail⟩ := List.cons.inj heq
          exact hall before snapshot after htail
    rw [hstep] at hrun ⊢
    cases hreconcile : w.surfaces.reconcile first with
    | mk result st =>
      cases result with
      | error e =>
        have hfail : (w.step first).failure = some e := by
          unfold Worker.step
          rw [h.running]
          simp only [hreconcile]
        rw [Worker.failure_run hfail others] at hrun
        cases hrun
      | ok sent =>
        have hnext : w.step first = { w with surfaces := st, sent := w.sent ++ sent } := by
          unfold Worker.step
          rw [h.running]
          simp only [hreconcile]
        obtain ⟨hiff, hend⟩ := Surfaces.reconcile_affordable h.inv.surfaces (h.inv.full h.running)
          h.seated h.mirrored h.solvent hreconcile
        rw [hhead fun before snapshot =>
          let st := (Runs.run Worker.step w before).surfaces
          Affordable (Surfaces.presentIn snapshot) st.areaOf (st.orderOf snapshot)]
        have hfirst : Affordable (Surfaces.presentIn first)
            (Runs.run Worker.step w []).surfaces.areaOf
            ((Runs.run Worker.step w []).surfaces.orderOf first) ↔ ∃ c', c.feed sent = .ok c' :=
          hiff.symm
        cases hfeed : c.feed sent with
        | error e =>
          obtain ⟨rest, hsent⟩ := Worker.sent_run (w.step first) others
          refine ⟨sent ++ rest, ?_, ?_⟩
          · rw [hsent, hnext]
            exact List.append_assoc _ _ _
          · have hnot : ¬ ∃ c', c.feed sent = .ok c' := by
              rw [hfeed]
              rintro ⟨c', hc'⟩
              cases hc'
            constructor
            · rintro ⟨c', hc'⟩
              rw [ClientSurfaces.feed_append, hfeed] at hc'
              cases hc'
            · rintro ⟨haffordable, -⟩
              exact absurd (hfirst.mp haffordable) hnot
        | ok c₁ =>
          obtain ⟨hm, hsolvent⟩ := hend c₁ hfeed
          have hinv := Worker.inv_step h.inv first
          have hseated := Surfaces.seated_reconcile h.inv.surfaces h.seated first
          rw [hreconcile] at hseated
          have hagrees : (w.step first).Agrees c₁ := by
            refine ⟨hinv, ?_, ?_, ?_, ?_⟩ <;> rw [hnext]
            · exact hseated
            · exact h.running
            · exact hm
            · exact hsolvent
          obtain ⟨rest, hsent, hrest⟩ := ih hagrees hrun
          refine ⟨sent ++ rest, ?_, ?_⟩
          · rw [hsent, hnext]
            exact List.append_assoc _ _ _
          · rw [ClientSurfaces.feed_append_of_ok hfeed, hrest]
            constructor
            · intro hall
              exact ⟨hfirst.mpr ⟨c₁, hfeed⟩, hall⟩
            · rintro ⟨-, hall⟩
              exact hall

/-- **Budgets.**  While the agent accepts its snapshots, the client takes every
message sent for them exactly if each snapshot is affordable in the state it
meets. -/
theorem budgets_agree_iff (snapshots : List (List NativeSurface))
    (hrun : (run Worker.step Worker.new snapshots).failure = none) :
    (∃ c, ClientSurfaces.new.feed (run Worker.step Worker.new snapshots).sent = .ok c) ↔
      ∀ before snapshot after, snapshots = before ++ snapshot :: after →
        let st := (run Worker.step Worker.new before).surfaces
        Affordable (Surfaces.presentIn snapshot) st.areaOf (st.orderOf snapshot) := by
  obtain ⟨rest, hsent, hiff⟩ := Worker.agrees_new.run snapshots hrun
  rw [show Worker.new.sent ++ rest = rest from rfl] at hsent
  rw [hsent]
  exact hiff

/-- A window of this size, in its first generation. -/
def NativeSurface.sized (nativeId width height : ℕ) : NativeSurface :=
  { NativeSurface.sample nativeId none width with height := height }

theorem budgets_agree_pair :
    let snapshots : List (List NativeSurface) := [[.sized 1 4096 4096, .sized 2 640 480]]
    (run Worker.step Worker.new snapshots).failure = none ∧
      ∃ c, ClientSurfaces.new.feed (run Worker.step Worker.new snapshots).sent = .ok c := by
  intro snapshots
  have hrun : (run Worker.step Worker.new snapshots).failure = none := by decide +kernel
  refine ⟨hrun, (budgets_agree_iff snapshots hrun).mpr ?_⟩
  intro before snapshot after heq
  obtain ⟨rfl, rfl⟩ : before = [] ∧ snapshot = [.sized 1 4096 4096, .sized 2 640 480] := by
    cases before with
    | nil => exact ⟨rfl, (List.cons.inj heq).1.symm⟩
    | cons b rest =>
      obtain ⟨-, hrest⟩ := List.cons.inj heq
      simp at hrest
  have horder : Worker.new.surfaces.orderOf [.sized 1 4096 4096, .sized 2 640 480] =
      [.sized 1 4096 4096, .sized 2 640 480] := by decide +kernel
  intro st
  rw [show st.orderOf _ = _ from horder]
  exact ⟨by decide, by decide +kernel, by decide, by decide +kernel, trivial⟩

/-- A single window over the limit of one surface: the agent accepts the snapshot,
and its only message ends the session. -/
theorem large_window_refused :
    (run Worker.step Worker.new [[.sized 1 4098 4096]]).failure = none ∧
      ClientSurfaces.new.feed (run Worker.step Worker.new [[.sized 1 4098 4096]]).sent =
        .error "Application window exceeds the supported capture size" := by
  constructor
  · decide +kernel
  · have hsent : (run Worker.step Worker.new [[.sized 1 4098 4096]]).sent =
        [.surfaceUpsert ⟨0, 1, [], 4098, 4096, ⟨0x3f800000⟩, none, false, false⟩] := by
      decide +kernel
    rw [hsent]
    rfl

end NebulaDesk
