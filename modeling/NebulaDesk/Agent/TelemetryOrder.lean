/-
What a consumer of the file engine sees of each transfer, in every run.

What is published of one life of a key is in order (`Orderly`), and no call loses what is
waiting but as `Kept` says.
-/
import NebulaDesk.Agent.TelemetryRuns

namespace NebulaDesk

open FileTransfers

namespace Telemetry

/-! ### The invariant -/

structure Inv (s : Telemetry) : Prop where
  ranged : s.files.Ranged
  nodup : (s.files.updates.map TransferUpdate.key).Nodup
  short : s.files.updates.length ≤ maxUpdates
  /-- What is pending or published of a transfer that goes on says no more than where it is. -/
  pendingReached : ∀ u ∈ s.files.updates, ∀ n, s.files.reached u.key = some n →
    u.state.terminal = false ∧ u.transferred ≤ n
  publishedReached : ∀ p ∈ s.published, p.1 = s.life p.2.key → ∀ n,
    s.files.reached p.2.key = some n → p.2.state.terminal = false ∧ p.2.transferred ≤ n
  pendingLater : ∀ p ∈ s.published, ∀ u ∈ s.files.updates, p.2.key = u.key →
    p.1 = s.life u.key → p.2.Later u
  ordered : s.published.Pairwise fun p q => p.2.key = q.2.key → p.1 = q.1 → p.2.Later q.2
  lives : ∀ p ∈ s.published, p.1 ≤ s.life p.2.key
  freshReached : ∀ id, s.files.nextId ≤ id → s.files.reached (.send, id) = none
  freshPending : ∀ u ∈ s.files.updates, u.direction = .send → u.id < s.files.nextId
  freshPublished : ∀ p ∈ s.published, p.2.direction = .send → p.2.id < s.files.nextId

variable {p : Platform} {s s' : Telemetry} {u : TransferUpdate} {ft' : FileTransfers}
  {P : TransferUpdate → Prop}

theorem inv_new {downloads : PathBuf} {enabled : Bool} {world : World} {now : ℕ} :
    (new downloads enabled world now).Inv where
  ranged := by
    intro id r hr
    simp [new, FileTransfers.new] at hr
  nodup := List.nodup_nil
  short := Nat.zero_le _
  pendingReached _ hu := nomatch hu
  publishedReached _ hp := nomatch hp
  pendingLater _ hp := nomatch hp
  ordered := .nil
  lives _ hp := nomatch hp
  freshReached id _ := by simp [new, FileTransfers.new, reached]
  freshPending _ hu := nomatch hu
  freshPublished _ hp := nomatch hp

theorem Inv.reports (h : s.Inv) (hr : Reports s.files u s'.files)
    (hpublished : s'.published = s.published)
    (hlife : ∀ key, key ≠ u.key → s'.life key = s.life key)
    (hle : s.life u.key ≤ s'.life u.key) (hnextId : s.files.nextId ≤ s'.files.nextId)
    (hid : u.direction = .send → u.id < s'.files.nextId)
    (hlater : ∀ p ∈ s.published, p.2.key = u.key → p.1 = s'.life u.key → p.2.Later u) :
    s'.Inv where
  ranged := hr.ranged h.ranged
  nodup := by
    rw [hr.updates]
    exact nodup_recordUpdate h.nodup
  short := by
    rw [hr.updates]
    exact length_recordUpdate_le h.short
  pendingReached := by
    intro v hv n hn
    rw [hr.updates] at hv
    rw [hr.reached] at hn
    rcases of_mem_recordUpdate hv with rfl | ⟨hv, hne⟩
    · rw [if_pos rfl] at hn
      obtain ⟨hmoving, htransferred⟩ := TransferUpdate.leaves_eq_some.mp hn
      exact ⟨hmoving, htransferred.le⟩
    · rw [if_neg (Ne.symm hne)] at hn
      exact h.pendingReached v hv n hn
  publishedReached := by
    intro p hp hcurrent n hn
    rw [hpublished] at hp
    rw [hr.reached] at hn
    split at hn
    · next hkey =>
      obtain ⟨-, rfl⟩ := TransferUpdate.leaves_eq_some.mp hn
      have hpu := hlater p hp hkey.symm (hkey ▸ hcurrent)
      exact ⟨hpu.moving, hpu.progress⟩
    · next hkey =>
      rw [hlife _ (Ne.symm hkey)] at hcurrent
      exact h.publishedReached p hp hcurrent n hn
  pendingLater := by
    intro p hp v hv hkey hcurrent
    rw [hpublished] at hp
    rw [hr.updates] at hv
    rcases of_mem_recordUpdate hv with rfl | ⟨hv, hne⟩
    · exact hlater p hp hkey hcurrent
    · rw [hlife _ hne] at hcurrent
      exact h.pendingLater p hp v hv hkey hcurrent
  ordered := by
    rw [hpublished]
    exact h.ordered
  lives := by
    intro p hp
    rw [hpublished] at hp
    by_cases hkey : p.2.key = u.key
    · rw [hkey]
      exact (hkey ▸ h.lives p hp).trans hle
    · rw [hlife _ hkey]
      exact h.lives p hp
  freshReached := by
    intro id hfresh
    rw [hr.reached]
    split
    · next hkey =>
      obtain ⟨hdirection, hid'⟩ := Prod.mk.inj hkey
      have hlt := hid hdirection
      omega
    · exact h.freshReached id (hnextId.trans hfresh)
  freshPending := by
    intro v hv hdirection
    rw [hr.updates] at hv
    rcases of_mem_recordUpdate hv with rfl | ⟨hv, -⟩
    · exact hid hdirection
    · exact (h.freshPending v hv hdirection).trans_le hnextId
  freshPublished := by
    intro p hp hdirection
    rw [hpublished] at hp
    exact (h.freshPublished p hp hdirection).trans_le hnextId

theorem Inv.later_of_reached {n : ℕ} (h : s.Inv) (hactive : s.files.reached u.key = some n)
    (hle : n ≤ u.transferred) (hstate : u.state ≠ .offered) :
    (∀ p ∈ s.published, p.2.key = u.key → p.1 = s.life u.key → p.2.Later u) ∧
      ∀ v ∈ s.files.updates, v.key = u.key → v.Later u := by
  constructor
  · intro p hp hkey hcurrent
    rw [← hkey] at hactive hcurrent
    obtain ⟨hmoving, htransferred⟩ := h.publishedReached p hp hcurrent n hactive
    exact ⟨hmoving, htransferred.trans hle, hstate⟩
  · intro v hv hkey
    rw [← hkey] at hactive
    obtain ⟨hmoving, htransferred⟩ := h.pendingReached v hv n hactive
    exact ⟨hmoving, htransferred.trans hle, hstate⟩

theorem Inv.move (h : s.Inv) (hm : Move P s.files ft') : { s with files := ft' }.Inv := by
  cases hm with
  | quiet hupdates hnextId hreached hranged =>
    refine ⟨hranged h.ranged, ?_, ?_, ?_, ?_, ?_, h.ordered, h.lives, ?_, ?_, ?_⟩
    · exact hupdates ▸ h.nodup
    · exact hupdates ▸ h.short
    · intro u hu n hn
      exact h.pendingReached u (hupdates ▸ hu) n (hreached _ ▸ hn)
    · intro p hp hcurrent n hn
      exact h.publishedReached p hp hcurrent n (hreached _ ▸ hn)
    · intro p hp u hu
      exact h.pendingLater p hp u (hupdates ▸ hu)
    · intro id hid
      exact (hreached _).trans (h.freshReached id (hnextId ▸ hid))
    · intro u hu hdirection
      exact hnextId ▸ h.freshPending u (hupdates ▸ hu) hdirection
    · intro p hp hdirection
      exact hnextId ▸ h.freshPublished p hp hdirection
  | @report u n _ hactive hle hstate hnextId hreports =>
    have hid : u.direction = .send → u.id < ft'.nextId := by
      intro hdirection
      rw [hnextId]
      by_contra hfresh
      have hkey : u.key = (.send, u.id) := by rw [TransferUpdate.key, hdirection]
      rw [hkey, h.freshReached u.id (by omega)] at hactive
      cases hactive
    exact h.reports hreports rfl (fun _ _ => rfl) le_rfl hnextId.ge hid
      (h.later_of_reached hactive (hle h.ranged) hstate).1

/-! ### What is waiting -/

/-- An update waits, or a later one of its transfer, and only newer ones (`Q`) behind it; or it was
the oldest when there were too many. -/
def Carried (Q : TransferUpdate → Prop) (u : TransferUpdate) (updates : List TransferUpdate) :
    Prop :=
  (∃ v pre post, updates = pre ++ v :: post ∧ v.key = u.key ∧ (v = u ∨ u.Later v) ∧
    ∀ w ∈ post, Q w) ∨
  updates.length = maxUpdates ∧ ∀ w ∈ updates, Q w

theorem Carried.record {Q : TransferUpdate → Prop} {updates : List TransferUpdate}
    {w : TransferUpdate} (h : Carried Q u updates) (hnodup : (updates.map TransferUpdate.key).Nodup)
    (hw : Q w) (hlater : ∀ v ∈ updates, v.key = w.key → v.Later w) :
    Carried Q u (recordUpdate updates w) := by
  have hnewer : ∀ post : List TransferUpdate, (∀ v ∈ post, Q v) → ∀ v ∈ others post w ++ [w], Q v := by
    intro post hpost v hv
    rcases List.mem_append.mp hv with hv | hv
    · exact hpost v (mem_others.mp hv).1
    · rw [List.mem_singleton.mp hv]
      exact hw
  rcases h with ⟨v, pre, post, rfl, hkey, hvu, hpost⟩ | ⟨hfull, hall⟩
  · by_cases hvw : v.key = w.key
    · -- the new one takes its place
      have hvLater := hlater v (by simp) hvw
      refine .inl ⟨w, _, [], recordUpdate_eq, hvw.symm.trans hkey, .inr ?_, by simp⟩
      rcases hvu with rfl | huv
      · exact hvLater
      · exact huv.trans hvLater
    · rcases recordUpdate_of_ne hvw rfl with ⟨pre', heq⟩ | ⟨heq, hlen⟩
      · exact .inl ⟨v, pre', _, heq, hkey, hvu, hnewer post hpost⟩
      · rw [heq]
        exact .inr ⟨by simpa using hlen, hnewer post hpost⟩
  · refine .inr ⟨length_recordUpdate_full hnodup hfull, fun v hv => ?_⟩
    rcases of_mem_recordUpdate hv with rfl | ⟨hv, -⟩
    · exact hw
    · exact hall v hv

theorem reached_move {ft : FileTransfers} (hm : Move P ft ft') {key : TransferDirection × ℕ}
    (h : (ft'.reached key).isSome = true) : (ft.reached key).isSome = true := by
  cases hm with
  | quiet _ _ hreached => rwa [← hreached]
  | @report u n _ hactive _ _ _ hreports =>
    rw [hreports.reached] at h
    split at h
    · next hkey =>
      rw [← hkey, hactive]
      rfl
    · exact h

theorem nextId_move {ft : FileTransfers} (hm : Move P ft ft') : ft'.nextId = ft.nextId := by
  cases hm with
  | quiet _ hnextId => exact hnextId
  | report _ _ _ _ hnextId => exact hnextId

/-- What a call does that goes on with transfers that are there. -/
structure Moved (P : TransferUpdate → Prop) (s : Telemetry) (ft' : FileTransfers) : Prop where
  inv : { s with files := ft' }.Inv
  nextId : ft'.nextId = s.files.nextId
  reached : ∀ key, (ft'.reached key).isSome = true → (s.files.reached key).isSome = true
  carried : ∀ before u after, s.files.updates = before ++ u :: after →
    Carried (fun v => v ∈ after ∨ P v ∧ (s.files.reached v.key).isSome = true) u ft'.updates

theorem Inv.moves (h : s.Inv) (hm : Moves P s.files ft') : Moved P s ft' := by
  induction hm with
  | refl =>
    exact ⟨h, rfl, fun _ => id, fun before u after hu =>
      .inl ⟨u, before, after, hu, rfl, .inl rfl, fun v hv => .inl hv⟩⟩
  | tail _ hmove ih =>
    refine ⟨ih.inv.move hmove, (nextId_move hmove).trans ih.nextId,
      fun key hkey => ih.reached key (reached_move hmove hkey), fun before u after hu => ?_⟩
    have hcarried := ih.carried before u after hu
    cases hmove with
    | quiet hupdates =>
      rw [hupdates]
      exact hcarried
    | @report w n hallowed hactive hle hstate _ hreports =>
      rw [hreports.updates]
      refine hcarried.record ih.inv.nodup (.inr ⟨hallowed, ih.reached _ (hactive ▸ rfl)⟩)
        (ih.inv.later_of_reached hactive (hle ih.inv.ranged) hstate).2

/-- What an update gave way to is in order: nothing is left that waited before it. -/
def Ordered (s : Telemetry) (ft' : FileTransfers) : Prop :=
  ∀ before u after, s.files.updates = before ++ u :: after →
    (∃ v ∈ ft'.updates, v.key = u.key ∧ (v = u ∨ u.Later v)) ∨
      ft'.updates.length = maxUpdates ∧ ∀ v ∈ before, v ∉ ft'.updates

theorem Carried.ordered {Q : TransferUpdate → Prop} {updates before : List TransferUpdate}
    (h : Carried Q u updates)
    (hbefore : updates.length = maxUpdates → (∀ w ∈ updates, Q w) → ∀ v ∈ before, v ∉ updates) :
    (∃ v ∈ updates, v.key = u.key ∧ (v = u ∨ u.Later v)) ∨
      updates.length = maxUpdates ∧ ∀ v ∈ before, v ∉ updates := by
  rcases h with ⟨v, pre, post, rfl, hkey, hvu, -⟩ | ⟨hfull, hall⟩
  · exact .inl ⟨v, by simp, hkey, hvu⟩
  · exact .inr ⟨hfull, hbefore hfull hall⟩

theorem Inv.not_mem_after (h : s.Inv) {before after : List TransferUpdate} {v : TransferUpdate}
    (hu : s.files.updates = before ++ u :: after) (hv : v ∈ before) : v ∉ after := by
  intro hafter
  have hnodup := h.nodup
  rw [hu, List.map_append, List.map_cons] at hnodup
  exact List.disjoint_of_nodup_append hnodup (List.mem_map_of_mem hv)
    (List.mem_cons_of_mem _ (List.mem_map_of_mem hafter))

theorem Moved.ordered_of_key {key : TransferDirection × ℕ} (h : s.Inv)
    (hm : Moved (·.key = key) s ft') : Ordered s ft' := by
  intro before u after hu
  refine (hm.carried before u after hu).ordered fun hfull hall v hv hmem => ?_
  rcases hall v hmem with hafter | ⟨hkey, -⟩
  · exact h.not_mem_after hu hv hafter
  -- all that is left has the key of `v`, or waited behind `u`
  have hsub : ft'.updates.map TransferUpdate.key ⊆ v.key :: after.map TransferUpdate.key := by
    intro k hk
    obtain ⟨w, hw, rfl⟩ := List.mem_map.mp hk
    rcases hall w hw with hw | ⟨hw, -⟩
    · exact List.mem_cons_of_mem _ (List.mem_map_of_mem hw)
    · rw [show w.key = v.key from hw.trans hkey.symm]
      exact List.mem_cons_self
  have hlength := (List.subperm_of_subset hm.inv.nodup hsub).length_le
  have hshort := h.short
  have hpos := List.length_pos_of_mem hv
  simp only [hu, List.length_append, List.length_cons, List.length_map] at hlength hshort
  omega

theorem Moved.ordered_of_terminal (h : s.Inv) (hm : Moved (·.state.terminal = true) s ft') :
    Ordered s ft' := by
  intro before u after hu
  refine (hm.carried before u after hu).ordered fun _ hall v hv hmem => ?_
  rcases hall v hmem with hafter | ⟨hterminal, hreached⟩
  · exact h.not_mem_after hu hv hafter
  obtain ⟨n, hn⟩ := Option.isSome_iff_exists.mp hreached
  have hwaits : v ∈ s.files.updates := by
    rw [hu]
    exact List.mem_append_left _ hv
  rw [(h.pendingReached v hwaits n hn).1] at hterminal
  cases hterminal

/-! ### A call -/

variable {op : TelemetryOp} {key : TransferDirection × ℕ}

theorem Inv.kept_of_moves (hm : Moved P s s'.files) (hordered : Ordered s s'.files)
    (hpublished : s'.published = s.published) (hoffers : s'.offers = s.offers)
    (hop : ∀ now closed, op ≠ .flush now closed) : s'.Inv ∧ Kept s op s' := by
  have hlife : ∀ key, s'.life key = s.life key := by
    intro key
    unfold life
    rw [hoffers]
  have hs' : s'.Inv := by
    have hinv := hm.inv
    obtain ⟨files, world, lastTelemetry, offers, published⟩ := s'
    cases hpublished
    cases hoffers
    exact { hinv with }
  refine ⟨hs', fun _ before u after hu => .inr (hordered before u after hu), ?_, ?_⟩
  · -- No id is drawn, so no key is new.
    rintro key (⟨-, hfresh, hid⟩ | hne)
    · rw [hm.nextId] at hid
      omega
    · exact absurd (hlife _) hne
  · intro now hflush
    exact absurd hflush (hop now false)

theorem Inv.kept_of_key (h : s.Inv) (hm : Moves (·.key = key) s.files s'.files)
    (hpublished : s'.published = s.published) (hoffers : s'.offers = s.offers)
    (hop : ∀ now closed, op ≠ .flush now closed) : s'.Inv ∧ Kept s op s' :=
  have hmoved := h.moves hm
  Inv.kept_of_moves hmoved (hmoved.ordered_of_key h) hpublished hoffers hop

/-- A call that begins a life of `key`. -/
structure Opens (s : Telemetry) (key : TransferDirection × ℕ) (s' : Telemetry) : Prop where
  files : Begins s.files key s'.files
  published : s'.published = s.published
  others : ∀ k, k ≠ key → s'.life k = s.life k
  begun : ∀ k, Begun s s' k ↔ k = key
  life : s.life key ≤ s'.life key
  nextId : s.files.nextId ≤ s'.files.nextId
  id : key.1 = .send → key.2 < s'.files.nextId
  silent : ∀ p ∈ s.published, p.2.key = key → p.1 ≠ s'.life key

theorem Inv.kept_of_opens (h : s.Inv) (ho : Opens s key s')
    (hop : ∀ now closed, op ≠ .flush now closed) : s'.Inv ∧ Kept s op s' := by
  obtain ⟨u, rfl, hinitial, hreports⟩ := ho.files
  refine ⟨h.reports hreports ho.published ho.others ho.life ho.nextId ho.id
    fun p hp hkey hcurrent => absurd hcurrent (ho.silent p hp hkey), ?_, ?_, ?_⟩
  · intro _ before v after hv
    by_cases hkey : v.key = u.key
    · exact .inl ((ho.begun _).mpr hkey)
    refine .inr ?_
    rw [hreports.updates]
    rcases recordUpdate_of_ne hkey hv with ⟨pre, heq⟩ | ⟨heq, hlen⟩
    · rw [heq]
      exact .inl ⟨v, by simp, rfl, .inl rfl⟩
    · -- all but one wait behind it, so none before
      have hshort := h.short
      have hothers : (others after u).length ≤ after.length := List.length_filter_le ..
      rw [hv, List.length_append, List.length_cons] at hshort
      have hbefore : before = [] := List.length_eq_zero_iff.mp (by omega)
      rw [heq, hbefore]
      exact .inr ⟨by simpa using hlen, by simp⟩
  · intro k hbegun
    obtain rfl := (ho.begun k).mp hbegun
    rw [hreports.updates]
    refine ⟨⟨u, mem_recordUpdate_self, rfl, hinitial⟩, ?_⟩
    unfold Telemetry.of
    rw [ho.published, List.map_eq_nil_iff, List.filter_eq_nil_iff]
    intro p hp hpv
    obtain ⟨hkey, hcurrent⟩ := Bool.and_eq_true_iff.mp hpv
    exact ho.silent p hp (of_decide_eq_true hkey) (of_decide_eq_true hcurrent)
  · intro now hflush
    exact absurd hflush (hop now false)

theorem Inv.unsent (h : s.Inv) : s.files.sending[s.files.nextId]? = none :=
  Option.map_eq_none_iff.mp (h.freshReached s.files.nextId le_rfl)

theorem Inv.opens_send (h : s.Inv) (hb : Begins s.files (.send, s.files.nextId) s'.files)
    (hnextId : s'.files.nextId = s.files.nextId + 1) (hpublished : s'.published = s.published)
    (hoffers : s'.offers = s.offers) : Opens s (.send, s.files.nextId) s' := by
  have hlife : ∀ key, s'.life key = s.life key := by
    intro key
    unfold life
    rw [hoffers]
  refine ⟨hb, hpublished, fun k _ => hlife k, fun k => ⟨?_, ?_⟩, (hlife _).ge, by omega, ?_, ?_⟩
  · rintro (⟨hsend, hle, hlt⟩ | hne)
    · exact Prod.ext hsend (by dsimp only; omega)
    · exact absurd (hlife k) hne
  · rintro rfl
    exact .inl ⟨rfl, le_rfl, by dsimp only; omega⟩
  · intro _
    show s.files.nextId < _
    omega
  · intro p hp hkey _
    obtain ⟨hdirection, hid⟩ := Prod.mk.inj hkey
    have hlt := h.freshPublished p hp hdirection
    omega

theorem Inv.opens_offer {id : ℕ} (h : s.Inv) (hb : Begins s.files (.receive, id) s'.files)
    (hnextId : s'.files.nextId = s.files.nextId) (hpublished : s'.published = s.published)
    (hoffers : s'.offers = Function.update s.offers id (s.offers id + 1)) :
    Opens s (.receive, id) s' := by
  have hlife : s'.life (.receive, id) = s.life (.receive, id) + 1 := by
    show s'.offers id = _
    rw [hoffers, Function.update_self]
    rfl
  have hothers : ∀ k, k ≠ (.receive, id) → s'.life k = s.life k := by
    rintro ⟨direction, a⟩ hne
    cases direction with
    | send => rfl
    | receive =>
      show s'.offers a = s.offers a
      rw [hoffers, Function.update_of_ne fun ha => hne (by rw [ha])]
  refine ⟨hb, hpublished, hothers, fun k => ⟨?_, ?_⟩, by omega, hnextId.ge, by simp, ?_⟩
  · rintro (⟨-, hle, hlt⟩ | hne)
    · omega
    · by_contra hk
      exact hne (hothers k hk)
  · rintro rfl
    exact .inr (by omega)
  · intro p hp hkey hcurrent
    have hle := h.lives p hp
    rw [hkey] at hle
    omega

theorem Inv.call (h : s.Inv) (op : FileOp) :
    (s.call p op).Inv ∧ Kept s (.call op) (s.call p op) := by
  cases op with
  | send now source =>
    obtain ⟨hb, hnextId⟩ : Begins s.files _ (s.call p (.send now source)).files ∧
        (s.call p (.send now source)).files.nextId = _ := sendFile_begins h.unsent
    exact h.kept_of_opens (h.opens_send hb hnextId rfl rfl) nofun
  | pump now pick reads => exact h.kept_of_key pump_moves rfl rfl nofun
  | ack now ack => exact h.kept_of_key onAck_moves rfl rfl nofun
  | offer now offer =>
    have hoffers : (s.call p (.offer now offer)).offers =
        if s.files.receiving.contains offer.transferId then s.offers
        else Function.update s.offers offer.transferId (s.offers offer.transferId + 1) := rfl
    cases hknown : s.files.receiving.contains offer.transferId with
    | true =>
      rw [if_pos hknown] at hoffers
      have hfiles : (s.call p (.offer now offer)).files = s.files := onOffer_of_contains hknown
      have hm : Moves (·.key = (.receive, offer.transferId)) s.files
          (s.call p (.offer now offer)).files := by rw [hfiles]
      exact h.kept_of_key hm rfl hoffers nofun
    | false =>
      rw [if_neg (by rw [hknown]; exact Bool.false_ne_true)] at hoffers
      obtain ⟨hb, hnextId⟩ : Begins s.files _ (s.call p (.offer now offer)).files ∧
          (s.call p (.offer now offer)).files.nextId = _ := onOffer_begins hknown
      exact h.kept_of_opens (h.opens_offer hb hnextId rfl hoffers) nofun
  | chunk now header data => exact h.kept_of_key onChunk_moves rfl rfl nofun
  | expire now =>
    have hexpired : Moves (·.state.terminal = true) s.files (s.files.expireStalled now s.world).1 :=
      expireStalled_moves
    have hm := h.moves hexpired
    exact Inv.kept_of_moves hm (hm.ordered_of_terminal h) rfl rfl nofun

/-! ### A flush -/

theorem Inv.flush {closed : Bool} {now : ℕ} (h : s.Inv) : (s.flushUpdatesAt now closed).Inv := by
  unfold flushUpdatesAt
  split
  · exact ⟨h.ranged, List.nodup_nil, Nat.zero_le _, nofun, h.publishedReached,
      fun _ _ _ hu => (nomatch hu), h.ordered, h.lives, h.freshReached, nofun, h.freshPublished⟩
  generalize hdue : decide (now - s.lastTelemetry ≥ telemetryInterval) = progressDue
  -- Two updates that wait have different keys.
  have hkeys : ∀ u ∈ s.files.updates, ∀ v ∈ s.files.updates, u.key = v.key → u = v :=
    fun u hu v hv hkey => List.inj_on_of_nodup_map h.nodup hu hv hkey
  have hsent : ∀ q ∈ (s.files.updates.filter fun u => !deferred progressDue u).map
      (fun u => (s.life u.key, u)), q.1 = s.life q.2.key ∧ q.2 ∈ s.files.updates ∧
        deferred progressDue q.2 = false := by
    intro q hq
    obtain ⟨u, hu, rfl⟩ := List.mem_map.mp hq
    obtain ⟨hu, hnot⟩ := List.mem_filter.mp hu
    exact ⟨rfl, hu, by simpa using hnot⟩
  refine ⟨h.ranged, ?_, ?_, ?_, ?_, ?_, ?_, ?_, h.freshReached, ?_, ?_⟩
  · exact h.nodup.sublist (List.filter_sublist.map _)
  · exact (List.length_filter_le ..).trans h.short
  · intro u hu
    exact h.pendingReached u (List.mem_of_mem_filter hu)
  · intro q hq hcurrent n hn
    rcases List.mem_append.mp hq with hq | hq
    · exact h.publishedReached q hq hcurrent n hn
    · exact h.pendingReached q.2 (hsent q hq).2.1 n hn
  · intro q hq u hu hkey hcurrent
    obtain ⟨hu, hdeferred⟩ := List.mem_filter.mp hu
    rcases List.mem_append.mp hq with hq | hq
    · exact h.pendingLater q hq u hu hkey hcurrent
    · obtain ⟨-, hq, hnot⟩ := hsent q hq
      rw [hkeys _ hq u hu hkey, hdeferred] at hnot
      cases hnot
  · refine List.pairwise_append.mpr ⟨h.ordered, ?_, ?_⟩
    · rw [List.pairwise_map]
      refine ((List.pairwise_map.mp h.nodup).sublist List.filter_sublist).imp ?_
      intro u v hne hkey
      exact absurd hkey hne
    · intro q hq r hr hkey hlife
      obtain ⟨hcurrent, hr, -⟩ := hsent r hr
      exact h.pendingLater q hq r.2 hr hkey (hlife.trans hcurrent)
  · intro q hq
    rcases List.mem_append.mp hq with hq | hq
    · exact h.lives q hq
    · exact (hsent q hq).1.le
  · intro u hu
    exact h.freshPending u (List.mem_of_mem_filter hu)
  · intro q hq
    rcases List.mem_append.mp hq with hq | hq
    · exact h.freshPublished q hq
    · exact h.freshPending q.2 (hsent q hq).2.1

theorem kept_flush {closed : Bool} {now : ℕ} :
    Kept s (.flush now closed) (s.flushUpdatesAt now closed) := by
  have hlife : ∀ key, (s.flushUpdatesAt now closed).life key = s.life key := by
    unfold flushUpdatesAt
    split <;> exact fun _ => rfl
  have hnextId : (s.flushUpdatesAt now closed).files.nextId = s.files.nextId := by
    unfold flushUpdatesAt
    split <;> rfl
  refine ⟨fun hop => absurd rfl (hop now closed), ?_, ?_⟩
  · rintro key (⟨-, hfresh, hid⟩ | hne)
    · omega
    · exact absurd (hlife _) hne
  · intro now' hop u hu
    cases hop
    unfold flushUpdatesAt
    rw [if_neg Bool.false_ne_true]
    cases hd : deferred (decide (now - s.lastTelemetry ≥ telemetryInterval)) u with
    | false =>
      refine .inl (List.mem_append_right _ (List.mem_map.mpr ⟨u, ?_, rfl⟩))
      exact List.mem_filter.mpr ⟨hu, by rw [hd]; rfl⟩
    | true =>
      obtain ⟨hstate, hdue⟩ := Bool.and_eq_true_iff.mp hd
      refine .inr ⟨of_decide_eq_true hstate, ?_, List.mem_filter.mpr ⟨hu, hd⟩⟩
      simpa using hdue

/-! ### Every run -/

theorem Inv.step (h : s.Inv) (op : TelemetryOp) : (s.step p op).Inv ∧ Kept s op (s.step p op) := by
  cases op with
  | call op => exact h.call op
  | rejectLocal source error =>
    exact h.kept_of_opens (h.opens_send (rejectLocal_begins h.unsent) rfl rfl rfl) nofun
  | flush now closed => exact ⟨h.flush, kept_flush⟩

theorem Inv.orderly (h : s.Inv) : s.Orderly where
  published := by
    intro key life
    rw [Telemetry.of, List.pairwise_map]
    refine (List.Pairwise.sublist List.filter_sublist h.ordered).imp_of_mem ?_
    intro q r hq hr hlater
    have hq' := (List.mem_filter.mp hq).2
    have hr' := (List.mem_filter.mp hr).2
    simp only [Bool.and_eq_true, decide_eq_true_eq] at hq' hr'
    exact hlater (hq'.1.trans hr'.1.symm) (hq'.2.trans hr'.2.symm)
  pending := h.nodup
  lives := h.lives

/-- **The life cycle of the transfers, in every run.** -/
theorem transfers_orderly {downloads : PathBuf} {enabled : Bool} {world : World} {now : ℕ}
    (ops : List TelemetryOp) :
    (Runs.run (step p) (new downloads enabled world now) ops).Orderly ∧
      ∀ op, Kept (Runs.run (step p) (new downloads enabled world now) ops) op
        ((Runs.run (step p) (new downloads enabled world now) ops).step p op) := by
  have h : (Runs.run (Telemetry.step p) (new downloads enabled world now) ops).Inv :=
    Runs.run_invariant (fun _ op hs => (hs.step op).1) inv_new ops
  exact ⟨h.orderly, fun op => (h.step op).2⟩

/-! ### Two lives of a key, and a full buffer -/

/-- Everything published of a key, whatever its life. -/
def reported (s : Telemetry) (key : TransferDirection × ℕ) : List TransferUpdate :=
  (s.published.filter fun p => p.2.key = key).map Prod.snd

def sample (ops : List TelemetryOp) : Telemetry :=
  Runs.run (step (.sample .posix true))
    (new .sample true (World.start (Env.sample fun _ => .quiet) .blank) 0) ops

/-- A file of three bytes. -/
def sampleSource : Source :=
  ⟨"a", ['a'], 3, some ['a'], .ok true, .ok (), .ok (true, 3, none), .ok [1, 2, 3], .ok ()⟩

/-- The first chunk is read before the offer is flushed. -/
def sampleSend : List TelemetryOp :=
  [.call (.send 0 sampleSource), .call (.ack 0 ⟨1, 0, fileWindow⟩),
    .call (.pump 0 1 [.ok [1, 2, 3], .ok []]), .flush 100 false]

/-- An offer without a name is made twice. -/
def sampleOffers : List TelemetryOp :=
  [.call (.offer 0 ⟨7, [], 1, [], none⟩), .flush 100 false,
    .call (.offer 0 ⟨7, [], 1, [], none⟩), .flush 200 false]

/-- `n` files that are not even offered. -/
def sampleFailures (n : ℕ) : List TelemetryOp := List.replicate n (.rejectLocal sampleSource "")

def sampleFailure (i : ℕ) : TransferUpdate := ⟨i + 1, ['a'], .send, 0, 3, .failed, some ""⟩

theorem sampleFailure_fresh {n : ℕ} :
    ∀ v ∈ (List.range n).map sampleFailure, v.key ≠ (sampleFailure n).key := by
  intro v hv hkey
  obtain ⟨i, hi, rfl⟩ := List.mem_map.mp hv
  have hid : i + 1 = n + 1 := (Prod.mk.inj hkey).2
  have hlt := List.mem_range.mp hi
  omega

theorem sample_failures_succ {n : ℕ} (hnextId : (sample (sampleFailures n)).files.nextId = n + 1) :
    (sample (sampleFailures (n + 1))).files.updates =
        recordUpdate (sample (sampleFailures n)).files.updates (sampleFailure n) ∧
      (sample (sampleFailures (n + 1))).files.nextId = n + 2 ∧
      (sample (sampleFailures (n + 1))).published = (sample (sampleFailures n)).published := by
  have hstep : sample (sampleFailures (n + 1)) =
      (sample (sampleFailures n)).step (.sample .posix true) (.rejectLocal sampleSource "") := by
    unfold sample sampleFailures
    rw [List.replicate_succ', Runs.run_append]
    rfl
  rw [hstep, sampleFailure, ← hnextId]
  exact ⟨rfl, congrArg (· + 1) hnextId, rfl⟩

theorem sample_failures {n : ℕ} (hn : n ≤ maxUpdates) :
    (sample (sampleFailures n)).files.updates = (List.range n).map sampleFailure ∧
      (sample (sampleFailures n)).files.nextId = n + 1 ∧
      (sample (sampleFailures n)).published = [] := by
  induction n with
  | zero => exact ⟨rfl, rfl, rfl⟩
  | succ n ih =>
    obtain ⟨hupdates, hnextId, hpublished⟩ := ih (by omega)
    obtain ⟨hrecord, hnextId', hpublished'⟩ := sample_failures_succ hnextId
    refine ⟨?_, hnextId', hpublished'.trans hpublished⟩
    rw [hrecord, hupdates, List.range_succ, List.map_append]
    refine recordUpdate_of_room sampleFailure_fresh ?_
    rw [List.length_map, List.length_range]
    omega

theorem sample_failures_full :
    (sample (sampleFailures (maxUpdates + 1))).files.updates =
        ((List.range (maxUpdates + 1)).map sampleFailure).tail ∧
      (sample (sampleFailures (maxUpdates + 1))).published = [] := by
  obtain ⟨hupdates, hnextId, hpublished⟩ := sample_failures le_rfl
  obtain ⟨hrecord, -, hpublished'⟩ := sample_failures_succ hnextId
  have hlength : ((List.range maxUpdates).map sampleFailure).length = maxUpdates := by
    rw [List.length_map, List.length_range]
  refine ⟨?_, hpublished'.trans hpublished⟩
  rw [hrecord, hupdates, recordUpdate_of_full sampleFailure_fresh hlength, List.range_succ,
    List.map_append, List.tail_append_of_ne_nil]
  · rfl
  · exact List.ne_nil_of_length_pos (by rw [hlength]; decide)

/-- A transfer may be heard of only when it moves, a key has two ends if its id is offered twice,
and one failure more than are kept pushes out the first. -/
theorem transfers_coalesced_or_pushed_out :
    (∃ u ∈ ((sample sampleSend).reported (.send, 1)).head?, ¬ u.Initial) ∧
    ((sample sampleOffers).reported (.receive, 7)).map (·.state) = [.failed, .failed] ∧
    ∃ u ∈ (sample (sampleFailures maxUpdates)).files.updates, u.state = .failed ∧
      (∀ v ∈ (sample (sampleFailures (maxUpdates + 1))).files.updates, v.key ≠ u.key) ∧
      (sample (sampleFailures (maxUpdates + 1))).published = [] := by
  refine ⟨?_, by decide +kernel, ?_⟩
  · have hmoving : ((sample sampleSend).reported (.send, 1)).head?.any
        (fun u => u.state = .transferring) = true := by
      decide +kernel
    obtain ⟨u, hu, hstate⟩ := (Option.any_eq_true ..).mp hmoving
    refine ⟨u, hu, fun hinitial => ?_⟩
    rcases hinitial.state with hs | hs <;> rw [of_decide_eq_true hstate] at hs <;> cases hs
  · obtain ⟨hupdates, -, -⟩ := sample_failures le_rfl
    obtain ⟨hafter, hpublished⟩ := sample_failures_full
    refine ⟨sampleFailure 0, ?_, rfl, ?_, hpublished⟩
    · rw [hupdates]
      exact List.mem_map_of_mem (List.mem_range.mpr (by decide))
    · intro v hv hkey
      rw [hafter, ← List.map_tail] at hv
      obtain ⟨i, hi, rfl⟩ := List.mem_map.mp hv
      have hid : i + 1 = 0 + 1 := (Prod.mk.inj hkey).2
      rw [List.range_succ_eq_map, List.tail_cons] at hi
      obtain ⟨j, -, rfl⟩ := List.mem_map.mp hi
      omega

end Telemetry

end NebulaDesk
