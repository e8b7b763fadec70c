/-
The agent's reconciliation refines the client's registry.

The client applies the lifecycle messages it receives to a registry of its own
(`SurfaceRegistry.feed`).  One round of either loop of `reconcile` sends exactly
the messages that take the client from the agent's registry before the round to
its registry after it (`Round`); the loops and the whole call compose such rounds
(`Round.trans`).  A failing call keeps the weaker `Surfaces.Inv`, under which
`target` cannot panic.  `surfaces_refine_registry` collects what follows for
every worker, which stops at its first failing call.
-/
import NebulaDesk.Agent.Surfaces
import NebulaDesk.Proto.SurfaceRuns

namespace NebulaDesk

open Runs
open Std (ExtTreeMap)

/-- The client's handling of one lifecycle message. -/
def SurfaceRegistry.feedOne (r : SurfaceRegistry) :
    ApplicationMessage → Except ProtoError SurfaceRegistry
  | .surfaceUpsert surface =>
    match r.upsert surface with
    | (.error e, _) => .error e
    | (.ok (), r') => .ok r'
  | .surfaceRemove id =>
    match r.remove id with
    | (.error e, _) => .error e
    | (.ok (), r') => .ok r'
  | _ => .error invalid

/-- The client's registry after a list of messages, none of them refused. -/
def SurfaceRegistry.feed (r : SurfaceRegistry) (messages : List ApplicationMessage) :
    Except ProtoError SurfaceRegistry :=
  messages.foldlM SurfaceRegistry.feedOne r

namespace SurfaceRegistry

variable {r r' : SurfaceRegistry}

@[simp] theorem feed_nil (r : SurfaceRegistry) : r.feed [] = .ok r := rfl

theorem feed_append (r : SurfaceRegistry) (ms ns : List ApplicationMessage) :
    r.feed (ms ++ ns) = r.feed ms >>= fun r' => r'.feed ns := by
  rw [feed, List.foldlM_append]
  rfl

theorem feed_append_ok (ms : List ApplicationMessage) {ns : List ApplicationMessage}
    (h : r.feed (ms ++ ns) = .ok r') : ∃ q, r.feed ms = .ok q ∧ q.feed ns = .ok r' := by
  rw [feed_append] at h
  cases hq : r.feed ms with
  | error e =>
    rw [hq] at h
    cases h
  | ok q =>
    rw [hq] at h
    exact ⟨q, rfl, h⟩

theorem feed_trans {ms ns : List ApplicationMessage} {q : SurfaceRegistry}
    (h : r.feed ms = .ok q) (h' : q.feed ns = .ok r') : r.feed (ms ++ ns) = .ok r' := by
  rw [feed_append, h]
  exact h'

variable {ms : List ApplicationMessage} {m : ApplicationMessage}

theorem feed_cons_ok
    (h : r.feed (m :: ms) = .ok r') : ∃ q, r.feedOne m = .ok q ∧ q.feed ms = .ok r' := by
  obtain ⟨q, hq, hms⟩ := feed_append_ok [m] h
  refine ⟨q, ?_, hms⟩
  rw [feed, List.foldlM_cons] at hq
  cases hm : r.feedOne m with
  | error e =>
    rw [hm] at hq
    cases hq
  | ok q' =>
    rw [hm] at hq
    exact congrArg _ (Except.ok.inj hq)

theorem feed_singleton (h : r.feedOne m = .ok r') : r.feed [m] = .ok r' := by
  rw [feed, List.foldlM_cons, h]
  rfl

theorem feedOne_cases (h : r.feedOne m = .ok r') :
    (∃ s, m = .surfaceUpsert s ∧ r.upsert s = (.ok (), r')) ∨
      (∃ id, m = .surfaceRemove id ∧ r.remove id = (.ok (), r')) := by
  unfold feedOne at h
  split at h
  · rename_i s
    split at h
    · cases h
    · rename_i q hq
      cases h
      exact Or.inl ⟨s, rfl, hq⟩
  · rename_i id
    split at h
    · cases h
    · rename_i q hq
      cases h
      exact Or.inr ⟨id, rfl, hq⟩
  · cases h

theorem feed_eq_run (h : r.feed ms = .ok r') : ∃ ops, r' = run step r ops := by
  induction ms generalizing r with
  | nil => exact ⟨[], (Except.ok.inj h).symm⟩
  | cons m ms ih =>
    obtain ⟨q, hm, hms⟩ := feed_cons_ok h
    obtain ⟨ops, hops⟩ := ih hms
    have hstep : ∃ op, r.step op = q := by
      rcases feedOne_cases hm with ⟨s, -, hu⟩ | ⟨id, -, hr⟩
      · exact ⟨.upsert s, congrArg Prod.snd hu⟩
      · exact ⟨.remove id, congrArg Prod.snd hr⟩
    obtain ⟨op, rfl⟩ := hstep
    exact ⟨op :: ops, hops⟩

theorem inv_feed (hinv : r.Inv) (h : r.feed ms = .ok r') : r'.Inv := by
  obtain ⟨ops, rfl⟩ := feed_eq_run h
  exact inv_run hinv ops

theorem not_removed_of_feed (hinv : r.Inv)
    (h : r.feed ms = .ok r') {id : ℕ} (hid : id ∈ r'.live) : .surfaceRemove id ∉ ms := by
  intro hmem
  obtain ⟨before, after, rfl⟩ := List.append_of_mem hmem
  obtain ⟨q, hq, hafter⟩ := feed_append_ok _ h
  obtain ⟨q', hone, hafter⟩ := feed_cons_ok hafter
  have hremove : q.remove id = (.ok (), q') := by
    rcases feedOne_cases hone with ⟨s, hm, -⟩ | ⟨id', hm, hr⟩
    · cases hm
    · cases hm
      exact hr
  obtain ⟨ops, rfl⟩ := feed_eq_run hafter
  exact ((retired_of_remove (inv_feed hinv hq) hremove).run ops).2 hid

theorem announced_of_feed (h : r.feed ms = .ok r') {id : ℕ}
    (hr : id ∉ r.live) (hid : id ∈ r'.live) :
    ∃ s, .surfaceUpsert s ∈ ms ∧ s.surfaceId = id := by
  induction ms generalizing r with
  | nil =>
    cases h
    exact absurd hid hr
  | cons m ms ih =>
    obtain ⟨q, hm, hms⟩ := feed_cons_ok h
    by_cases hq : id ∈ q.live
    · rcases feedOne_cases hm with ⟨s, rfl, hu⟩ | ⟨id', -, hrem⟩
      · obtain ⟨-, -, -, -, -, rfl⟩ := upsert_ok hu
        refine ⟨s, List.mem_cons_self, ?_⟩
        rw [ExtTreeMap.mem_insert] at hq
        rcases hq with hq | hq
        · simpa using hq
        · exact absurd hq hr
      · obtain ⟨-, -, rfl⟩ := remove_ok hrem
        exact absurd (ExtTreeMap.mem_of_mem_erase hq) hr
    · obtain ⟨s, hs, hid'⟩ := ih hms hq
      exact ⟨s, List.mem_cons_of_mem _ hs, hid'⟩

theorem getElem?_feed (h : r.feed ms = .ok r') {id : ℕ}
    (hup : ∀ s, .surfaceUpsert s ∈ ms → s.surfaceId ≠ id) (hrem : .surfaceRemove id ∉ ms) :
    r'.live[id]? = r.live[id]? := by
  induction ms generalizing r with
  | nil =>
    cases h
    rfl
  | cons m ms ih =>
    obtain ⟨q, hm, hms⟩ := feed_cons_ok h
    have hq := ih hms (fun s hs => hup s (List.mem_cons_of_mem _ hs))
      (fun hc => hrem (List.mem_cons_of_mem _ hc))
    rw [hq]
    rcases feedOne_cases hm with ⟨s, rfl, hu⟩ | ⟨id', rfl, hr⟩
    · obtain ⟨-, -, -, -, -, rfl⟩ := upsert_ok hu
      rw [getElem?_insert, if_neg (hup s List.mem_cons_self)]
    · obtain ⟨-, -, rfl⟩ := remove_ok hr
      have hne : id' ≠ id := by
        rintro rfl
        exact hrem List.mem_cons_self
      rw [getElem?_erase, if_neg hne]

end SurfaceRegistry

/-- Every surface is announced after its parent and removed before it. -/
structure Ordered (messages : List ApplicationMessage) : Prop where
  announced : ∀ before s after, messages = before ++ .surfaceUpsert s :: after →
    ∀ p, s.parentSurfaceId = some p →
      (∃ t, .surfaceUpsert t ∈ before ∧ t.surfaceId = p) ∧ .surfaceRemove p ∉ before
  removed : ∀ before s between id after,
    messages = before ++ .surfaceUpsert s :: (between ++ .surfaceRemove id :: after) →
    s.parentSurfaceId = some id →
    -- `s` is what was last announced under its id.
    (∀ t, .surfaceUpsert t ∈ between → t.surfaceId ≠ s.surfaceId) →
    .surfaceRemove s.surfaceId ∈ between

namespace SurfaceRegistry

variable {r r' : SurfaceRegistry}

theorem ordered_of_feed (hinv : r.Inv) (hempty : ∀ id, id ∉ r.live)
    {ms : List ApplicationMessage} (h : r.feed ms = .ok r') : Ordered ms := by
  constructor
  · rintro before s after rfl p hp
    obtain ⟨q, hbefore, hq⟩ := feed_append_ok _ h
    obtain ⟨q', hone, -⟩ := feed_cons_ok hq
    have hup : q.upsert s = (.ok (), q') := by
      rcases feedOne_cases hone with ⟨t, hm, hu⟩ | ⟨id, hm, -⟩
      · cases hm
        exact hu
      · cases hm
    obtain ⟨-, -, -, -, hw, -⟩ := upsert_ok hup
    rw [hp] at hw
    have hlive : p ∈ q.live := (avoids_of_walk hw).2
    exact ⟨announced_of_feed hbefore (hempty p) hlive, not_removed_of_feed hinv hbefore hlive⟩
  · rintro before s between id after rfl hp hlast
    by_contra hkept
    obtain ⟨q₀, -, hq₀⟩ := feed_append_ok _ h
    obtain ⟨q₁, hone, hq₁⟩ := feed_cons_ok hq₀
    obtain ⟨q₂, hbetween, hq₂⟩ := feed_append_ok _ hq₁
    obtain ⟨q₃, hrem, -⟩ := feed_cons_ok hq₂
    have hs : q₁.live[s.surfaceId]? = some s := by
      rcases feedOne_cases hone with ⟨t, hm, hu⟩ | ⟨id, hm, -⟩
      · cases hm
        obtain ⟨-, -, -, -, -, rfl⟩ := upsert_ok hu
        rw [getElem?_insert, if_pos rfl]
      · cases hm
    rw [← getElem?_feed hbetween hlast hkept] at hs
    rcases feedOne_cases hrem with ⟨t, hm, -⟩ | ⟨id', hm, hr⟩
    · cases hm
    · cases hm
      exact (remove_ok hr).2.1 _ s hs hp

end SurfaceRegistry

/-! ### One round of `reconcile` -/

namespace Surfaces

variable {st st' : Surfaces}

/-- What every state of the agent keeps, also after a failing call. -/
structure Inv (st : Surfaces) : Prop where
  registry : st.registry.Inv
  mirror : ∀ id : ℕ, st.registry.live[id]? = st.live[id]?.map (st.infoOf id)
  windows : ∀ (id : ℕ) (s : NativeSurface), st.live[id]? = some s →
    st.native[s.nativeId]? = some id
  parents : ∀ (id : ℕ) (s : NativeSurface) (p : ℕ), st.live[id]? = some s →
    s.parent = some p → ∃ q, st.native[p]? = some q
  injective : ∀ a b id : ℕ, st.native[a]? = some id → st.native[b]? = some id → a = b
  allocated : ∀ a id : ℕ, st.native[a]? = some id → id < st.next

/-- No window has an id without being live. -/
def Full (st : Surfaces) : Prop :=
  ∀ a id : ℕ, st.native[a]? = some id → ∃ s, st.live[id]? = some s

/-- The id was given to this window, and to no other since. -/
def GivenTo (st : Surfaces) (id window : ℕ) : Prop :=
  st.native[window]? = some id ∨ (id < st.next ∧ ∀ a : ℕ, st.native[a]? ≠ some id)

/-- What a part of `reconcile` does: it keeps the invariant and the owner of each
id; if it succeeds its messages carry the registry along; if not, it has not
panicked. -/
structure Round (st : Surfaces) (result : Except Failure (List ApplicationMessage))
    (st' : Surfaces) : Prop where
  inv : st'.Inv
  owners : ∀ id window, st.GivenTo id window → st'.GivenTo id window
  sent : ∀ messages, result = .ok messages →
    st.registry.feed messages = .ok st'.registry ∧ (st.Full → st'.Full)
  failed : ∀ e, result = .error e → ∀ message, e ≠ .panic message

theorem Round.trans {sent : List ApplicationMessage} {st'' : Surfaces}
    {result : Except Failure (List ApplicationMessage)} (h : Round st (.ok sent) st')
    (h' : Round st' result st'') : Round st (result.map (sent ++ ·)) st'' := by
  obtain ⟨hfeed, hfull⟩ := h.sent sent rfl
  refine ⟨h'.inv, fun id window hg => h'.owners id window (h.owners id window hg), ?_, ?_⟩
  · intro messages hm
    cases result with
    | error e => cases hm
    | ok rest =>
      cases hm
      obtain ⟨hfeed', hfull'⟩ := h'.sent rest rfl
      exact ⟨SurfaceRegistry.feed_trans hfeed hfeed', fun hf => hfull' (hfull hf)⟩
  · intro e he
    cases result with
    | error e' =>
      obtain rfl := Except.error.inj he
      exact h'.failed e' rfl
    | ok rest => cases he

theorem Round.stop (h : st.Inv) {e : Failure} (he : ∀ message, e ≠ .panic message) :
    Round st (.error e) st := by
  refine ⟨h, fun _ _ hg => hg, fun _ hm => ?_, fun e' he' => ?_⟩
  · cases hm
  · cases he'
    exact he

theorem Round.nothing (h : st.Inv) : Round st (.ok []) st := by
  refine ⟨h, fun _ _ hg => hg, fun messages hm => ?_, fun e he => ?_⟩
  · cases hm
    exact ⟨rfl, fun hf => hf⟩
  · cases he

theorem inv_new : new.Inv where
  registry := (SurfaceRegistry.inv_new (n := maxApplicationSurfaces) rfl).1
  mirror := by simp [new]
  windows := by simp [new]
  parents := by simp [new]
  injective := by simp [new]
  allocated := by simp [new]

theorem infoOf_congr (id : ℕ) (s : NativeSurface)
    (h : ∀ p, s.parent = some p → st'.native[p]? = st.native[p]?) :
    st'.infoOf id s = st.infoOf id s := by
  have hparent : s.parent.bind (st'.native[·]?) = s.parent.bind (st.native[·]?) := by
    cases hp : s.parent with
    | none => rfl
    | some p => exact h p hp
  simp only [infoOf, hparent]

theorem Inv.isSome_live (h : st.Inv) {id : ℕ} (hid : id ∈ st.registry.live) :
    ∃ s, st.live[id]? = some s := by
  obtain ⟨info, hinfo⟩ := SurfaceRegistry.mem_live.mp hid
  rw [h.mirror] at hinfo
  obtain ⟨s, hs, -⟩ := Option.map_eq_some_iff.mp hinfo
  exact ⟨s, hs⟩

theorem retire_cases (h : st.Inv) (leaf : ℕ) :
    (∃ e, st.retire leaf = (.error (.proto e), st)) ∨
      ∃ old, st.live[leaf]? = some old ∧ ∃ r, st.registry.remove leaf = (.ok (), r) ∧
        st.retire leaf = (.ok (.surfaceRemove leaf),
          { st with
            registry := r
            live := st.live.erase leaf
            native := st.native.erase old.nativeId
            retired := insert old.nativeId st.retired }) := by
  cases hr : st.registry.remove leaf with
  | mk result r =>
    cases result with
    | error e =>
      obtain rfl := SurfaceRegistry.remove_error hr
      exact Or.inl ⟨e, by rw [retire, hr]⟩
    | ok u =>
      obtain ⟨old, hold⟩ := h.isSome_live (SurfaceRegistry.remove_ok hr).1
      exact Or.inr ⟨old, hold, r, rfl, by rw [retire, hr, hold]⟩

theorem getElem?_native_erase (n a : ℕ) :
    (st.native.erase n)[a]? = if n = a then none else st.native[a]? := by
  simp [ExtTreeMap.getElem?_erase]

theorem getElem?_native_insert (n id a : ℕ) :
    (st.native.insert n id)[a]? = if n = a then some id else st.native[a]? := by
  simp [ExtTreeMap.getElem?_insert]

theorem getElem?_native_insert_new {n p q : ℕ} (id : ℕ) (hn : st.native[n]? = none)
    (hp : st.native[p]? = some q) : (st.native.insert n id)[p]? = some q := by
  have hne : n ≠ p := by
    rintro rfl
    rw [hn] at hp
    cases hp
  rw [getElem?_native_insert, if_neg hne, hp]

theorem getElem?_live_erase (id a : ℕ) :
    (st.live.erase id)[a]? = if id = a then none else st.live[a]? := by
  simp [ExtTreeMap.getElem?_erase]

theorem getElem?_live_insert (id a : ℕ) (s : NativeSurface) :
    (st.live.insert id s)[a]? = if id = a then some s else st.live[a]? := by
  simp [ExtTreeMap.getElem?_insert]

variable {r : SurfaceRegistry}

theorem Inv.no_child (h : st.Inv) {leaf : ℕ} {old : NativeSurface}
    (hold : st.live[leaf]? = some old)
    (hr : st.registry.remove leaf = (.ok (), r)) {id : ℕ} {s : NativeSurface}
    (hs : st.live[id]? = some s) : s.parent ≠ some old.nativeId := by
  intro hp
  have hinfo : st.registry.live[id]? = some (st.infoOf id s) := by rw [h.mirror, hs]; rfl
  refine (SurfaceRegistry.remove_ok hr).2.1 id _ hinfo ?_
  show s.parent.bind (st.native[·]?) = some leaf
  rw [hp]
  exact h.windows leaf old hold

theorem Inv.retire (h : st.Inv) {leaf : ℕ} {old : NativeSurface}
    (hold : st.live[leaf]? = some old)
    (hr : st.registry.remove leaf = (.ok (), r)) (retired : Finset ℕ) :
    Inv ⟨r, st.native.erase old.nativeId, st.live.erase leaf, retired, st.next⟩ := by
  have hwin := h.windows leaf old hold
  refine ⟨h.registry.remove hr, ?_, ?_, ?_, ?_, ?_⟩
  · intro id
    obtain ⟨-, -, rfl⟩ := SurfaceRegistry.remove_ok hr
    show (st.registry.live.erase leaf)[id]? = (st.live.erase leaf)[id]?.map _
    rw [SurfaceRegistry.getElem?_erase, getElem?_live_erase]
    split
    · rfl
    · rw [h.mirror]
      cases hs : st.live[id]? with
      | none => rfl
      | some s =>
        refine congrArg some (infoOf_congr id s fun p hp => ?_).symm
        have hne : old.nativeId ≠ p := by
          rintro rfl
          exact h.no_child hold hr hs hp
        exact (getElem?_native_erase _ _).trans (if_neg hne)
  · intro id s hs
    rw [getElem?_live_erase] at hs
    split at hs
    · cases hs
    · rename_i hid
      have hnat := h.windows id s hs
      have hne : old.nativeId ≠ s.nativeId := by
        intro heq
        rw [heq, hnat] at hwin
        exact hid (Option.some.inj hwin).symm
      rw [getElem?_native_erase, if_neg hne, hnat]
  · intro id s p hs hp
    rw [getElem?_live_erase] at hs
    split at hs
    · cases hs
    · obtain ⟨q, hq⟩ := h.parents id s p hs hp
      have hne : old.nativeId ≠ p := by
        rintro rfl
        exact h.no_child hold hr hs hp
      exact ⟨q, (getElem?_native_erase _ _).trans ((if_neg hne).trans hq)⟩
  · intro a b id ha hb
    rw [getElem?_native_erase] at ha hb
    split at ha
    · cases ha
    · split at hb
      · cases hb
      · exact h.injective a b id ha hb
  · intro a id ha
    rw [getElem?_native_erase] at ha
    split at ha
    · cases ha
    · exact h.allocated a id ha

theorem round_retire (h : st.Inv) (leaf : ℕ) :
    Round st ((st.retire leaf).1.map ([·])) (st.retire leaf).2 := by
  rcases retire_cases h leaf with ⟨e, he⟩ | ⟨old, hold, r, hr, heq⟩
  · rw [he]
    exact Round.stop h (fun message => by simp)
  · rw [heq]
    have hwin := h.windows leaf old hold
    refine ⟨h.retire hold hr _, ?_, ?_, ?_⟩
    · intro id window hg
      rcases hg with hg | ⟨hlt, hnone⟩
      · by_cases hw : old.nativeId = window
        · -- The window goes, and its id with it.
          subst hw
          refine Or.inr ⟨h.allocated _ id hg, fun a ha => ?_⟩
          rw [getElem?_native_erase] at ha
          split at ha
          · cases ha
          · rename_i hne
            exact hne (h.injective _ a id hg ha)
        · exact Or.inl ((getElem?_native_erase _ _).trans ((if_neg hw).trans hg))
      · refine Or.inr ⟨hlt, fun a ha => ?_⟩
        rw [getElem?_native_erase] at ha
        split at ha
        · cases ha
        · exact hnone a ha
    · intro messages hm
      cases hm
      refine ⟨SurfaceRegistry.feed_singleton ?_, ?_⟩
      · rw [SurfaceRegistry.feedOne, hr]
      · intro hfull a id ha
        rw [getElem?_native_erase] at ha
        split at ha
        · cases ha
        · rename_i hne
          obtain ⟨s, hs⟩ := hfull a id ha
          have hid : leaf ≠ id := by
            rintro rfl
            exact hne (h.injective _ a _ hwin ha)
          exact ⟨s, (getElem?_live_erase _ _).trans ((if_neg hid).trans hs)⟩
    · intro e he
      cases he

theorem Inv.allocate (h : st.Inv) {n : ℕ} (hn : st.native[n]? = none) :
    Inv { st with
      next := st.next + 1
      native := st.native.insert n st.next } := by
  refine ⟨h.registry, ?_, ?_, ?_, ?_, ?_⟩
  · intro id
    refine (h.mirror id).trans ?_
    cases hs : st.live[id]? with
    | none => rfl
    | some s =>
      refine congrArg some (infoOf_congr id s fun p hp => ?_).symm
      obtain ⟨q, hq⟩ := h.parents id s p hs hp
      exact (getElem?_native_insert_new _ hn hq).trans hq.symm
  · intro id s hs
    exact getElem?_native_insert_new _ hn (h.windows id s hs)
  · intro id s p hs hp
    obtain ⟨q, hq⟩ := h.parents id s p hs hp
    exact ⟨q, getElem?_native_insert_new _ hn hq⟩
  · intro a b id ha hb
    rw [getElem?_native_insert] at ha hb
    split at ha <;> split at hb
    · rename_i h1 h2
      exact h1.symm.trans h2
    · have := h.allocated b id hb
      have := Option.some.inj ha
      omega
    · have := h.allocated a id ha
      have := Option.some.inj hb
      omega
    · exact h.injective a b id ha hb
  · intro a id ha
    rw [getElem?_native_insert] at ha
    show id < st.next + 1
    split at ha
    · have := Option.some.inj ha
      omega
    · have := h.allocated a id ha
      omega

theorem allocate_error {n : ℕ} {e : Failure} (h : st.allocate n = (.error e, st')) :
    st' = st ∧ e = .surfaceLimit := by
  unfold allocate at h
  split at h
  · cases h
  · split at h
    · cases h
    · cases h
      exact ⟨rfl, rfl⟩

/-- An id in hand: the window has it, and nothing else moved. -/
theorem allocate_ok (h : st.Inv) {n id : ℕ} (ha : st.allocate n = (.ok id, st')) :
    st'.Inv ∧ st'.registry = st.registry ∧ st'.live = st.live ∧ st'.native[n]? = some id ∧
      (∀ p q : ℕ, st.native[p]? = some q → st'.native[p]? = some q) ∧
      (∀ p q : ℕ, st'.native[p]? = some q → p = n ∨ st.native[p]? = some q) ∧
      ∀ i window, st.GivenTo i window → st'.GivenTo i window := by
  unfold allocate at ha
  split at ha
  · rename_i id' hid
    cases ha
    exact ⟨h, rfl, rfl, hid, fun _ _ hp => hp, fun _ _ hp => Or.inr hp, fun _ _ hg => hg⟩
  · rename_i hn
    split at ha
    · cases ha
      refine ⟨h.allocate hn, rfl, rfl, ?_, fun _ _ hp => getElem?_native_insert_new _ hn hp, ?_, ?_⟩
      · exact (getElem?_native_insert _ _ _).trans (if_pos rfl)
      · intro p q hp
        rw [getElem?_native_insert] at hp
        split at hp
        · rename_i hnp
          exact Or.inl hnp.symm
        · exact Or.inr hp
      · intro i window hg
        rcases hg with hg | ⟨hlt, hnone⟩
        · exact Or.inl (getElem?_native_insert_new _ hn hg)
        · refine Or.inr ⟨Nat.lt_succ_of_lt hlt, fun a hi => ?_⟩
          rw [getElem?_native_insert] at hi
          split at hi
          · have := Option.some.inj hi
            omega
          · exact hnone a hi
    · cases ha

theorem eq_of_eq {s t : NativeSurface} (h : s.eq t = true) (hs : minScale.le s.scale = true)
    (ht : minScale.le t.scale = true) : s = t := by
  unfold NativeSurface.eq at h
  simp only [Bool.and_eq_true, decide_eq_true_eq, F32.feq_iff_of_le (by decide) hs ht] at h
  obtain ⟨⟨⟨⟨⟨⟨⟨⟨h1, h2⟩, h3⟩, h4⟩, h5⟩, h6⟩, h7⟩, h8⟩, h9⟩ := h
  cases s
  cases t
  simp only at *
  subst h1 h2 h3 h4 h5 h6 h7 h8 h9
  rfl

theorem upsert_same {r r' : SurfaceRegistry} {info : SurfaceInfo} (hinv : r.Inv)
    (hu : r.upsert info = (.ok (), r')) (hlive : r.live[info.surfaceId]? = some info) : r' = r := by
  obtain ⟨-, -, -, -, -, rfl⟩ := SurfaceRegistry.upsert_ok hu
  have hused : Function.update r.used info.surfaceId true = r.used := by
    rw [Function.update_eq_self_iff]
    exact (hinv.keyed _ info hlive).2.2.symm
  have hmap : r.live.insert info.surfaceId info = r.live := by
    refine ExtTreeMap.ext_getElem? fun id => ?_
    rw [SurfaceRegistry.getElem?_insert]
    split
    · rename_i hid
      rw [← hid, hlive]
    · rfl
  rw [hused, hmap]

theorem Inv.announce (h : st.Inv) {id : ℕ} {s : NativeSurface}
    (hnative : st.native[s.nativeId]? = some id)
    (hparent : ∀ p, s.parent = some p → ∃ q, st.native[p]? = some q)
    (hu : st.registry.upsert (st.infoOf id s) = (.ok (), r)) :
    Inv { st with
      registry := r
      live := st.live.insert id s } := by
  refine ⟨h.registry.upsert hu, ?_, ?_, ?_, h.injective, h.allocated⟩
  · intro a
    obtain ⟨-, -, -, -, -, rfl⟩ := SurfaceRegistry.upsert_ok hu
    show (st.registry.live.insert id (st.infoOf id s))[a]? = (st.live.insert id s)[a]?.map _
    rw [SurfaceRegistry.getElem?_insert, getElem?_live_insert]
    split
    · rename_i hid
      subst hid
      rfl
    · exact h.mirror a
  · intro a t ht
    rw [getElem?_live_insert] at ht
    split at ht
    · rename_i hid
      cases ht
      exact hid ▸ hnative
    · exact h.windows a t ht
  · intro a t p ht hp
    rw [getElem?_live_insert] at ht
    split at ht
    · cases ht
      exact hparent p hp
    · exact h.parents a t p ht hp

theorem Inv.upsert_unchanged (h : st.Inv) {id : ℕ} {s t : NativeSurface}
    (hu : st.registry.upsert (st.infoOf id s) = (.ok (), r)) (ht : st.live[id]? = some t)
    (heq : t.eq s = true) : r = st.registry ∧ t = s := by
  have hinfo : st.registry.live[id]? = some (st.infoOf id t) := by rw [h.mirror, ht]; rfl
  have hst : t = s := eq_of_eq heq
    (SurfaceInfo.minScale_le (h.registry.valid id _ hinfo))
    (SurfaceInfo.minScale_le (SurfaceRegistry.upsert_ok hu).1)
  subst hst
  exact ⟨upsert_same h.registry hu hinfo, rfl⟩

theorem round_announce (h : st.Inv) (surface : NativeSurface)
    (hparent : ∀ p, surface.parent = some p → ∃ q, st.native[p]? = some q) :
    Round st (st.announce surface).1 (st.announce surface).2 := by
  simp only [announce]
  have hclean : (clean surface).nativeId = surface.nativeId := rfl
  rw [hclean]
  cases ha : st.allocate surface.nativeId with
  | mk result st₁ =>
    cases result with
    | error e =>
      obtain ⟨rfl, rfl⟩ := allocate_error ha
      exact Round.stop h (fun message => by simp)
    | ok id =>
      obtain ⟨h₁, hreg, hlive, hnative, hkeep, hback, howners⟩ := allocate_ok h ha
      have hparent₁ : ∀ p, (clean surface).parent = some p → ∃ q, st₁.native[p]? = some q := by
        intro p hp
        obtain ⟨q, hq⟩ := hparent p hp
        exact ⟨q, hkeep p q hq⟩
      -- A window that was new is live afterwards; the others were before.
      have hfull : ∀ live : ExtTreeMap ℕ NativeSurface, (∃ t, live[id]? = some t) →
          (∀ (a : ℕ) t, st₁.live[a]? = some t → ∃ t, live[a]? = some t) → st.Full →
          ∀ a i : ℕ, st₁.native[a]? = some i → ∃ t, live[i]? = some t := by
        intro live hid hsub hf a i hi
        rcases hback a i hi with rfl | hi
        · rw [hnative] at hi
          exact Option.some.inj hi ▸ hid
        · obtain ⟨t, ht⟩ := hf a i hi
          exact hsub i t (by rw [hlive, ht])
      dsimp only
      cases hu : st₁.registry.upsert (st₁.infoOf id (clean surface)) with
      | mk result r =>
        cases result with
        | error e =>
          obtain rfl := SurfaceRegistry.upsert_error hu
          refine ⟨h₁, howners, ?_, ?_⟩
          · intro messages hm
            cases hm
          · intro e' he' message
            cases he'
            simp
        | ok u =>
          dsimp only
          split
          · rename_i hany
            obtain ⟨t, ht, heq⟩ := (Option.any_eq_true _ _).mp hany
            obtain ⟨rfl, rfl⟩ := h₁.upsert_unchanged hu ht heq
            refine ⟨h₁, howners, ?_, ?_⟩
            · intro messages hm
              cases hm
              refine ⟨by rw [SurfaceRegistry.feed_nil, hreg], ?_⟩
              exact hfull st₁.live ⟨_, ht⟩ (fun a t ht => ⟨t, ht⟩)
            · intro e he
              cases he
          · refine ⟨h₁.announce hnative hparent₁ hu, howners, ?_, ?_⟩
            · intro messages hm
              cases hm
              refine ⟨SurfaceRegistry.feed_singleton ?_, ?_⟩
              · rw [SurfaceRegistry.feedOne, ← hreg, hu]
              · refine hfull _ ⟨_, (getElem?_live_insert _ _ _).trans (if_pos rfl)⟩ ?_
                intro a t ht
                show ∃ t', (st₁.live.insert id (clean surface))[a]? = some t'
                rw [getElem?_live_insert]
                split
                · exact ⟨_, rfl⟩
                · exact ⟨t, ht⟩
            · intro e he
              cases he

theorem Round.collect {messages sent : List ApplicationMessage} {st'' : Surfaces}
    {result : Except Failure (List ApplicationMessage)} (h : Round st (.ok sent) st')
    (h' : ∃ rest, Round st' rest st'' ∧ result = rest.map ((messages ++ sent) ++ ·)) :
    ∃ rest, Round st rest st'' ∧ result = rest.map (messages ++ ·) := by
  obtain ⟨rest, hrest, rfl⟩ := h'
  refine ⟨_, h.trans hrest, ?_⟩
  cases rest with
  | error e => rfl
  | ok rest => exact congrArg Except.ok (List.append_assoc _ _ _)

theorem round_retireAll (h : st.Inv) (fuel : ℕ) (removed : List ℕ)
    (messages : List ApplicationMessage) :
    ∃ rest, Round st rest (retireAll fuel st removed messages).2 ∧
      (retireAll fuel st removed messages).1 = rest.map (messages ++ ·) := by
  induction fuel generalizing st removed messages with
  | zero => exact ⟨.ok [], Round.nothing h, by simp [retireAll, Except.map]⟩
  | succ fuel ih =>
    rw [retireAll]
    split
    · exact ⟨.ok [], Round.nothing h, by simp [Except.map]⟩
    · split
      · exact ⟨_, Round.stop h (fun message => by simp), rfl⟩
      · rename_i leaf hleaf
        have hround := round_retire h leaf
        cases hr : st.retire leaf with
        | mk result st₁ =>
          rw [hr] at hround
          cases result with
          | error e => exact ⟨.error e, hround, rfl⟩
          | ok message => exact Round.collect hround (ih hround.inv _ _)

theorem known_of_findIdx {pending : List NativeSurface} {position : ℕ} {surface : NativeSurface}
    (hposition : pending.findIdx? (fun s => s.parent.all st.native.contains) = some position)
    (hsurface : pending[position]? = some surface) :
    ∀ p, surface.parent = some p → ∃ q, st.native[p]? = some q := by
  intro p hp
  obtain ⟨hlt, hfound, -⟩ := List.findIdx?_eq_some_iff_getElem.mp hposition
  have hget := List.getElem?_eq_getElem hlt
  rw [hsurface] at hget
  rw [← Option.some.inj hget, hp] at hfound
  exact Option.isSome_iff_exists.mp
    (ExtTreeMap.mem_iff_isSome_getElem?.mp (by simpa using hfound))

theorem round_announceAll (h : st.Inv) (fuel : ℕ) (pending : List NativeSurface)
    (messages : List ApplicationMessage) :
    ∃ rest, Round st rest (announceAll fuel st pending messages).2 ∧
      (announceAll fuel st pending messages).1 = rest.map (messages ++ ·) := by
  induction fuel generalizing st pending messages with
  | zero => exact ⟨.ok [], Round.nothing h, by simp [announceAll, Except.map]⟩
  | succ fuel ih =>
    rw [announceAll]
    split
    · exact ⟨.ok [], Round.nothing h, by simp [Except.map]⟩
    · split
      · exact ⟨_, Round.stop h (fun message => by simp), rfl⟩
      · rename_i position hposition
        split
        · exact ⟨.ok [], Round.nothing h, by simp [Except.map]⟩
        · rename_i surface hsurface
          have hround := round_announce h surface (known_of_findIdx hposition hsurface)
          cases ha : st.announce surface with
          | mk result st₁ =>
            rw [ha] at hround
            cases result with
            | error e => exact ⟨.error e, hround, rfl⟩
            | ok sent => exact Round.collect hround (ih hround.inv _ _)

/-- **One call of `reconcile`**, successful or not. -/
theorem round_reconcile (h : st.Inv) (snapshot : List NativeSurface) :
    Round st (st.reconcile snapshot).1 (st.reconcile snapshot).2 := by
  simp only [reconcile]
  split
  · exact Round.stop h (fun message => by simp)
  split
  · exact Round.stop h (fun message => by simp)
  split
  · exact Round.stop h (fun message => by simp)
  split
  · exact Round.stop h (fun message => by simp)
  generalize hret : retireAll _ st _ [] = retired
  obtain ⟨rest, hround, hmap⟩ := round_retireAll h _ _ []
  rw [hret] at hround hmap
  obtain ⟨result, st₁⟩ := retired
  cases rest with
  | error e =>
    obtain rfl : result = .error e := hmap
    exact hround
  | ok messages =>
    obtain rfl : result = .ok messages := hmap
    obtain ⟨rest, hround', hmap'⟩ := round_announceAll hround.inv snapshot.length snapshot messages
    dsimp only
    rw [hmap']
    exact hround.trans hround'

/-! ### Runs -/

/-- The state after one more snapshot, whatever the call returned. -/
def step (st : Surfaces) (snapshot : List NativeSurface) : Surfaces := (st.reconcile snapshot).2

theorem inv_run (h : st.Inv) (snapshots : List (List NativeSurface)) :
    (run step st snapshots).Inv :=
  run_invariant (P := Inv) (fun _ snapshot hst => (round_reconcile hst snapshot).inv) h snapshots

theorem givenTo_run (h : st.Inv) {id window : ℕ} (hg : st.GivenTo id window)
    (snapshots : List (List NativeSurface)) : (run step st snapshots).GivenTo id window := by
  refine (run_invariant (P := fun q => Inv q ∧ q.GivenTo id window) ?_
    ⟨h, hg⟩ snapshots).2
  rintro q snapshot ⟨hq, hg⟩
  have hround := round_reconcile hq snapshot
  exact ⟨hround.inv, hround.owners id window hg⟩

theorem Inv.target_ne_panic (h : st.Inv) (message : ApplicationMessage) (text : String) :
    st.target message ≠ .error (.panic text) := by
  intro ht
  unfold target at ht
  split at ht
  · cases ht
  · rename_i info hinfo
    obtain ⟨id, -, hlive⟩ := SurfaceRegistry.validateCommand_ok hinfo
    obtain ⟨s, hs⟩ := h.isSome_live (SurfaceRegistry.mem_live.mpr ⟨info, hlive⟩)
    rw [(h.registry.keyed id info hlive).1, hs] at ht
    cases ht

theorem Inv.target_eq (h : st.Inv) {message : ApplicationMessage} {id generation window n : ℕ}
    (hg : st.GivenTo id window) (htarget : message.commandTarget = some (id, generation))
    (ht : st.target message = .ok n) : n = window := by
  unfold target at ht
  split at ht
  · cases ht
  · rename_i info hinfo
    obtain ⟨id', htarget', hlive⟩ := SurfaceRegistry.validateCommand_ok hinfo
    rw [htarget] at htarget'
    obtain rfl : id = id' := congrArg Prod.fst (Option.some.inj htarget')
    rw [(h.registry.keyed id info hlive).1] at ht
    split at ht
    · cases ht
    · rename_i s hs
      cases ht
      have hnative := h.windows id s hs
      rcases hg with hg | ⟨-, hnone⟩
      · exact h.injective _ _ id hnative hg
      · exact absurd hnative (hnone _)

/-- The three views of the live windows agree. -/
structure Bijective (st : Surfaces) : Prop where
  registry : ∀ id : ℕ, st.registry.live[id]? = st.live[id]?.map (st.infoOf id)
  native : ∀ window id : ℕ, st.native[window]? = some id ↔
    ∃ s, st.live[id]? = some s ∧ s.nativeId = window

theorem Inv.bijective (h : st.Inv) (hfull : st.Full) : st.Bijective := by
  refine ⟨h.mirror, fun window id => ⟨fun hn => ?_, ?_⟩⟩
  · obtain ⟨s, hs⟩ := hfull window id hn
    exact ⟨s, hs, h.injective _ _ id (h.windows id s hs) hn⟩
  · rintro ⟨s, hs, rfl⟩
    exact h.windows id s hs

end Surfaces

/-- The application worker: it sends the messages of each successful call and
ends at the first failing one. -/
structure Worker where
  surfaces : Surfaces
  sent : List ApplicationMessage
  failure : Option Failure

namespace Worker

def new : Worker := ⟨.new, [], none⟩

def step (w : Worker) (snapshot : List NativeSurface) : Worker :=
  match w.failure with
  | some _ => w
  | none =>
    match w.surfaces.reconcile snapshot with
    | (.error e, surfaces) => { w with surfaces := surfaces, failure := some e }
    | (.ok messages, surfaces) => { w with surfaces := surfaces, sent := w.sent ++ messages }

/-- What a worker keeps: the client's registry, once it has applied what was sent,
is the agent's. -/
structure Inv (w : Worker) : Prop where
  surfaces : w.surfaces.Inv
  client : ∃ r, Surfaces.new.registry.feed w.sent = .ok r ∧
    (w.failure = none → r = w.surfaces.registry)
  full : w.failure = none → w.surfaces.Full
  failed : ∀ e, w.failure = some e → ∀ text, e ≠ .panic text

theorem inv_new : new.Inv where
  surfaces := Surfaces.inv_new
  client := ⟨_, rfl, fun _ => rfl⟩
  full := by simp [new, Surfaces.new, Surfaces.Full]
  failed := by simp [new]

theorem inv_step {w : Worker} (h : w.Inv) (snapshot : List NativeSurface) :
    (w.step snapshot).Inv := by
  unfold step
  split
  · exact h
  · rename_i hw
    have hround := Surfaces.round_reconcile h.surfaces snapshot
    obtain ⟨r, hfeed, hr⟩ := h.client
    split
    · rename_i e st heq
      rw [heq] at hround
      refine ⟨hround.inv, ⟨r, hfeed, ?_⟩, ?_, ?_⟩
      · simp
      · simp
      · intro e' he' text
        cases he'
        exact hround.failed e rfl text
    · rename_i messages st heq
      rw [heq] at hround
      obtain ⟨hsent, hfull⟩ := hround.sent messages rfl
      refine ⟨hround.inv, ⟨st.registry, ?_, fun _ => rfl⟩, fun _ => hfull (h.full hw), ?_⟩
      · rw [hr hw] at hfeed
        exact SurfaceRegistry.feed_trans hfeed hsent
      · intro e he
        rw [hw] at he
        cases he

theorem inv_run (snapshots : List (List NativeSurface)) : (run step new snapshots).Inv :=
  run_invariant (P := Inv) (fun _ snapshot hw => inv_step hw snapshot) inv_new snapshots

end Worker

/-- **Reconciliation refines the client's registry.**  For every sequence of
snapshots: what the worker sends is accepted by a fresh registry, in parent
order; while no call has failed the client's registry, the agent's, its native
ids and its live set agree; a failing call is an error and no panic; and, also
past failing calls, `target` does not panic and resolves an id to the window it
was given to. -/
theorem surfaces_refine_registry (snapshots : List (List NativeSurface)) :
    let w := run Worker.step Worker.new snapshots
    let st := run Surfaces.step Surfaces.new snapshots
    (∃ r₀ r, SurfaceRegistry.new maxApplicationSurfaces = .ok r₀ ∧ r₀.feed w.sent = .ok r ∧
      (w.failure = none →
        ∀ id : ℕ, r.live[id]? = w.surfaces.live[id]?.map (w.surfaces.infoOf id))) ∧
    Ordered w.sent ∧
    (w.failure = none → w.surfaces.Bijective) ∧
    (∀ text, w.failure ≠ some (.panic text)) ∧
    (∀ message text, st.target message ≠ .error (.panic text)) ∧
    (∀ (later : List (List NativeSurface)) message (id generation window n : ℕ),
      st.native[window]? = some id → message.commandTarget = some (id, generation) →
      (run Surfaces.step st later).target message = .ok n → n = window) := by
  intro w st
  have hw : w.Inv := Worker.inv_run snapshots
  have hst : st.Inv := Surfaces.inv_run Surfaces.inv_new snapshots
  obtain ⟨r, hfeed, hr⟩ := hw.client
  refine ⟨⟨_, r, rfl, hfeed, fun hok => ?_⟩, ?_, fun hok => ?_, ?_, ?_, ?_⟩
  · rw [hr hok]
    exact hw.surfaces.mirror
  · exact SurfaceRegistry.ordered_of_feed Surfaces.inv_new.registry (by simp [Surfaces.new]) hfeed
  · exact hw.surfaces.bijective (hw.full hok)
  · intro text hc
    exact hw.failed _ hc text rfl
  · exact fun message text => hst.target_ne_panic message text
  · intro later message id generation window n hnative htarget hn
    exact (Surfaces.inv_run hst later).target_eq
      (Surfaces.givenTo_run hst (Or.inl hnative) later) htarget hn

/-- A window of the given native id, parent and width. -/
def NativeSurface.sample (nativeId : ℕ) (parent : Option ℕ) (width : ℕ) : NativeSurface :=
  ⟨nativeId, parent, [], width, 480, ⟨0x3f800000⟩, 1, parent.isSome, false⟩

/-- A dialog listed before its window, then both closed. -/
theorem surfaces_refine_registry_dialog :
    let snapshots : List (List NativeSurface) := [[.sample 2 (some 1) 640, .sample 1 none 640], []]
    let w := run Worker.step Worker.new snapshots
    w.failure = none ∧
      w.sent = [.surfaceUpsert (.sample 0 none 1), .surfaceUpsert (.sample 1 (some 0) 1),
        .surfaceRemove 1, .surfaceRemove 0] ∧
      Ordered w.sent ∧ w.surfaces.Bijective := by
  intro snapshots w
  have hok : w.failure = none := by decide +kernel
  obtain ⟨-, hordered, hbij, -⟩ := surfaces_refine_registry snapshots
  exact ⟨hok, by decide +kernel, hordered, hbij hok⟩

/-- A snapshot refused at its second window has already announced the first: the
agent holds a surface the client was never told of, and repeating that window
alone is then a successful call that sends nothing. -/
theorem failing_reconcile_moves_state :
    let failing := Surfaces.new.reconcile [.sample 1 none 640, .sample 3 none 0]
    let next := failing.2.reconcile [.sample 1 none 640]
    failing.1 = .error (.proto invalid) ∧
      failing.2 ≠ Surfaces.new ∧
      next.1 = .ok [] ∧ next.2.live.keys = [0] ∧
      ∀ r, Surfaces.new.registry.feed [] = .ok r → r.live.keys = [] := by
  refine ⟨by decide +kernel, ?_, by decide +kernel, by decide +kernel, ?_⟩
  · intro hc
    have hkeys := congrArg (fun st => st.next) hc
    exact absurd hkeys (by decide +kernel)
  · intro r hr
    obtain rfl := Except.ok.inj hr
    decide +kernel

end NebulaDesk
