/-
What is listed is what is admitted.

`Joined` is the join behind all three readers of the entitlements:

* **`find_entitled_iff`** — a row of the query under a resource's id is a join;
* **`resolveGrant_of_joined`** — `resolve_grant` finds the join's row again;
* **`grant_of_firstBy`** — the ranking leaves no choice between grants;
* **`listed_is_admitted`** — list, detail and admission agree.
-/
import NebulaDesk.Manager.Catalog

namespace NebulaDesk

def ResourceKind.clamp (kind : ResourceKind) (policy : SessionPolicy) : SessionPolicy :=
  match kind with
  | .desktop => policy
  | .app => applicationPolicy policy

def Grant.policy (g : Grant) : SessionPolicy :=
  (effectivePolicy g.role g.allowClipboard g.allowFileTransfer g.allowAudio).2

theorem Grant.policy_within (g : Grant) : g.policy.within g.role.maxPolicy := by
  simp only [Grant.policy, effectivePolicy, SessionPolicy.within, Bool.and_eq_true]
  exact ⟨And.right, And.right, And.right, fun h => h⟩

theorem SessionPolicy.clamp_within {p ceiling : SessionPolicy} (h : p.within ceiling)
    (kind : ResourceKind) : (kind.clamp p).within ceiling := by
  cases kind with
  | desktop => exact h
  | app => exact ⟨by simp [ResourceKind.clamp, applicationPolicy],
      by simp [ResourceKind.clamp, applicationPolicy],
      by simp [ResourceKind.clamp, applicationPolicy], h.2.2.2⟩

namespace EntitledResource

variable (row : EntitledResource) (w : Bool)

@[simp] theorem intoView_id : (row.intoView w).resource.id = row.id := by
  unfold intoView
  split <;> rfl

@[simp] theorem intoView_role : (row.intoView w).resource.role = row.role := by
  unfold intoView
  split <;> rfl

@[simp] theorem intoView_kind : (row.intoView w).resource.kind = row.kind := by
  unfold intoView
  split <;> rfl

@[simp] theorem intoView_machineStatus :
    (row.intoView w).resource.machineStatus = row.machineStatus := by
  unfold intoView
  split <;> rfl

theorem intoView_policy : (row.intoView w).policy = row.kind.clamp
    (effectivePolicy row.role row.allowClipboard row.allowFileTransfer row.allowAudio).2 := by
  unfold intoView
  split
  · next h => rw [h]; rfl
  · next h => rw [h]; rfl

theorem intoView_machine : (row.intoView w).resource.machineId = row.machineId ∧
    (row.intoView w).resource.machineOs = row.machineOs ∧
    (row.intoView w).resource.os = row.os ∧ (row.intoView w).resource.osVersion = row.osVersion ∧
    (row.intoView w).resource.lastSeenAt = row.lastSeenAt ∧
    (row.intoView w).resource.owned = row.owned := by
  unfold intoView
  split <;> exact ⟨rfl, rfl, rfl, rfl, rfl, rfl⟩

end EntitledResource

namespace Catalog

variable {db : Catalog} {tenant user : ℕ} {r : PublishedResource} {m : Device} {g : Grant}

/-- A resource, its machine and the grant that the ranking puts first. -/
structure Joined (db : Catalog) (tenant user : ℕ) (r : PublishedResource) (m : Device)
    (g : Grant) : Prop where
  mem : r ∈ db.resources
  inTenant : r.tenantId = tenant
  enabled : r.enabled = true
  machine : db.machineOf r = some m
  grant : Query.firstBy Grant.key (db.grants tenant user r m) = some g

variable {row : EntitledResource}

theorem entitledRow_iff (hr : r ∈ db.resources) :
    db.entitledRow tenant user r = some row ↔
      ∃ m g, Joined db tenant user r m g ∧ row = db.select user r m g := by
  unfold entitledRow
  constructor
  · intro h
    split at h
    · next hguard =>
      simp only [Bool.and_eq_true, decide_eq_true_eq] at hguard
      simp only [Option.bind_eq_bind, Option.bind_eq_some_iff, Option.pure_def,
        Option.some.injEq] at h
      obtain ⟨m, hm, g, hg, rfl⟩ := h
      exact ⟨m, g, ⟨hr, hguard.1, hguard.2, hm, hg⟩, rfl⟩
    · cases h
  · rintro ⟨m, g, h, rfl⟩
    simp [h.inTenant, h.enabled, h.machine, h.grant]

theorem entitledRow_id (h : db.entitledRow tenant user r = some row) : row.id = r.id := by
  unfold entitledRow at h
  split at h
  · simp only [Option.bind_eq_bind, Option.bind_eq_some_iff, Option.pure_def,
      Option.some.injEq] at h
    obtain ⟨m, -, g, -, rfl⟩ := h
    rfl
  · cases h

theorem find_entitled (id : ℕ) :
    (db.entitledResources tenant user).find? (·.id = id) =
      (db.resources.find? (·.id = id)).bind (db.entitledRow tenant user) :=
  Query.find?_filterMap (fun _ _ h => entitledRow_id h) db.resources_key id

theorem find_entitled_iff {id : ℕ} :
    (db.entitledResources tenant user).find? (·.id = id) = some row ↔
      ∃ r m g, Joined db tenant user r m g ∧ r.id = id ∧ row = db.select user r m g := by
  rw [find_entitled]
  constructor
  · intro h
    obtain ⟨r, hr, hrow⟩ := Option.bind_eq_some_iff.mp h
    obtain ⟨m, g, hj, heq⟩ := (entitledRow_iff (List.mem_of_find?_eq_some hr)).mp hrow
    have hid : r.id = id := by simpa using List.find?_some hr
    exact ⟨r, m, g, hj, hid, heq⟩
  · rintro ⟨r, m, g, hj, rfl, rfl⟩
    rw [Query.find?_of_mem db.resources_key hj.mem, Option.bind_some]
    exact (entitledRow_iff hj.mem).mpr ⟨m, g, hj, rfl⟩

theorem mem_entitled_iff :
    row ∈ db.entitledResources tenant user ↔
      (db.entitledResources tenant user).find? (·.id = row.id) = some row := by
  constructor
  · intro h
    obtain ⟨r, hr, hrow⟩ := List.mem_filterMap.mp h
    obtain ⟨m, g, hj, heq⟩ := (entitledRow_iff hr).mp hrow
    exact find_entitled_iff.mpr ⟨r, m, g, hj, (entitledRow_id hrow).symm, heq⟩
  · exact List.mem_of_find?_eq_some

theorem mem_machineOf (h : db.machineOf r = some m) : m ∈ db.machines ∧ m.id = r.machineId := by
  refine ⟨List.mem_of_find?_eq_some h, ?_⟩
  have hfound := List.find?_some h
  simp only [Bool.and_eq_true, decide_eq_true_eq] at hfound
  exact hfound.1

/-- What `resolve_grant` makes of a join. -/
def grantOf (db : Catalog) (r : PublishedResource) (m : Device) (g : Grant) : ResolvedGrant where
  kind := r.kind
  machineId := m.id
  machineStatus := db.liveStatus m
  noisePublicKey := m.noisePublicKey
  role := g.role
  allowClipboard := g.allowClipboard
  allowFileTransfer := g.allowFileTransfer
  allowAudio := g.allowAudio
  machineCapabilities := m.capabilities
  launchPath := r.launchPath
  launchArgs := r.launchArgs
  workingDir := r.workingDir

theorem resolveGrant_of_joined {caller : AuthUser} (h : Joined db caller.tenant caller.id r m g) :
    db.resolveGrant caller r.id = some (db.grantOf r m g) := by
  have hrow := find_entitled_iff.mpr ⟨r, m, g, h, rfl, rfl⟩
  have hr := Query.find?_of_mem db.resources_key h.mem
  obtain ⟨hmem, hid⟩ := mem_machineOf h.machine
  have hm := Query.find?_of_mem db.machines_key hmem
  rw [hid] at hm
  unfold resolveGrant
  rw [hrow, Option.bind_eq_bind, Option.bind_some]
  have hsel : (db.select caller.id r m g).id = r.id := rfl
  rw [hsel, hr, Option.bind_eq_bind, Option.bind_some, hm]
  rfl

theorem resolveGrant_eq_none {caller : AuthUser} {id : ℕ}
    (h : (db.entitledResources caller.tenant caller.id).find? (·.id = id) = none) :
    db.resolveGrant caller id = none := by
  unfold resolveGrant
  rw [h]
  rfl

/-! ### One grant -/

theorem mem_grants_iff : g ∈ db.grants tenant user r m ↔
    (∃ e ∈ db.entitlements, (e.tenantId = tenant ∧ e.resourceId = r.id ∧ db.live e = true ∧
      db.reaches tenant user e = true) ∧ e.grant = g) ∨
      m.ownerUserId = some user ∧ g = m.ownerGrant := by
  unfold grants
  rw [List.mem_append, List.mem_map]
  refine or_congr ?_ ?_
  · constructor
    · rintro ⟨e, he, rfl⟩
      obtain ⟨hmem, hcond⟩ := List.mem_filter.mp he
      simp only [Bool.and_eq_true, decide_eq_true_eq, and_assoc] at hcond
      exact ⟨e, hmem, hcond, rfl⟩
    · rintro ⟨e, hmem, hcond, rfl⟩
      refine ⟨e, List.mem_filter.mpr ⟨hmem, ?_⟩, rfl⟩
      simpa only [Bool.and_eq_true, decide_eq_true_eq, and_assoc] using hcond
  · split
    · next h => simp [h]
    · next h => simp [h]

theorem Entitlement.priority_pos (e : Entitlement) : 0 < e.grant.priority := by
  unfold Entitlement.grant
  dsimp only
  split <;> decide

/-- No two grants rank alike: entitlements have their own ids, and the owner's grant
its own priority. -/
theorem grant_eq_of_key {g h : Grant} (hg : g ∈ db.grants tenant user r m)
    (hh : h ∈ db.grants tenant user r m) (hkey : g.key = h.key) : g = h := by
  obtain ⟨-, hprio, hid⟩ : g.rank = h.rank ∧ g.priority = h.priority ∧ g.id = h.id := by
    simpa [Grant.key] using hkey
  rcases mem_grants_iff.mp hg with ⟨e, he, -, rfl⟩ | ⟨-, rfl⟩
  · rcases mem_grants_iff.mp hh with ⟨f, hf, -, rfl⟩ | ⟨-, rfl⟩
    · have hfound := Query.find?_of_mem db.entitlements_key he
      have hid' : e.id = f.id := hid
      rw [hid', Query.find?_of_mem db.entitlements_key hf] at hfound
      rw [Option.some.inj hfound]
    · have := Entitlement.priority_pos e
      rw [hprio] at this
      cases this
  · rcases mem_grants_iff.mp hh with ⟨f, hf, -, rfl⟩ | ⟨-, rfl⟩
    · have := Entitlement.priority_pos f
      rw [← hprio] at this
      cases this
    · rfl

theorem grant_of_firstBy (h : Query.FirstBy Grant.key (db.grants tenant user r m) (some g)) :
    Query.firstBy Grant.key (db.grants tenant user r m) = some g := by
  refine Query.FirstBy.eq_some h.1 ?_ (Query.firstBy_spec _ _)
  intro s hs hne
  refine lt_of_le_of_ne (h.2 s hs) ?_
  intro hkey
  exact hne (grant_eq_of_key h.1 hs hkey).symm

theorem Joined.mem_grants (h : Joined db tenant user r m g) : g ∈ db.grants tenant user r m := by
  have hspec := Query.firstBy_spec Grant.key (db.grants tenant user r m)
  rw [h.grant] at hspec
  exact hspec.mem

/-! ### List, detail and admission -/

variable {caller : AuthUser} {w : Bool} {id : ℕ} {v : ResourceView}

theorem mem_listMine_iff : v ∈ db.listMine caller w ↔
    ∃ row, (db.entitledResources caller.tenant caller.id).find? (·.id = v.resource.id) = some row ∧
      v = row.intoView w := by
  unfold listMine
  rw [List.mem_map]
  constructor
  · rintro ⟨row, hrow, rfl⟩
    rw [List.mem_mergeSort] at hrow
    exact ⟨row, by simpa using mem_entitled_iff.mp hrow, rfl⟩
  · rintro ⟨row, hrow, heq⟩
    exact ⟨row, List.mem_mergeSort.mpr (List.mem_of_find?_eq_some hrow), heq.symm⟩

theorem detail_eq_ok_iff : db.detail caller id w = .ok v ↔
    ∃ row, (db.entitledResources caller.tenant caller.id).find? (·.id = id) = some row ∧
      v = row.intoView w := by
  unfold detail
  cases hfind : (db.entitledResources caller.tenant caller.id).find? (·.id = id) with
  | none => simp
  | some row => simp [eq_comm]

theorem listed_iff_detail :
    v ∈ db.listMine caller w ∧ v.resource.id = id ↔ db.detail caller id w = .ok v := by
  rw [mem_listMine_iff, detail_eq_ok_iff]
  constructor
  · rintro ⟨⟨row, hrow, heq⟩, rfl⟩
    exact ⟨row, hrow, heq⟩
  · rintro ⟨row, hrow, rfl⟩
    have hid : row.id = id := by simpa using List.find?_some hrow
    rw [EntitledResource.intoView_id, hid]
    exact ⟨⟨row, hrow, rfl⟩, rfl⟩

theorem detail_joined (h : db.detail caller id w = .ok v) :
    ∃ r m g, Joined db caller.tenant caller.id r m g ∧ r.id = id ∧
      v = (db.select caller.id r m g).intoView w := by
  obtain ⟨row, hrow, rfl⟩ := detail_eq_ok_iff.mp h
  obtain ⟨r, m, g, hj, hid, rfl⟩ := find_entitled_iff.mp hrow
  exact ⟨r, m, g, hj, hid, rfl⟩

theorem detail_iff_admitted :
    (∃ v, db.detail caller id w = .ok v) ↔ ∃ grant, db.resolveGrant caller id = some grant := by
  constructor
  · rintro ⟨v, h⟩
    obtain ⟨r, m, g, hj, rfl, -⟩ := detail_joined h
    exact ⟨_, resolveGrant_of_joined hj⟩
  · rintro ⟨grant, h⟩
    cases hfind : (db.entitledResources caller.tenant caller.id).find? (·.id = id) with
    | none =>
      rw [resolveGrant_eq_none hfind] at h
      cases h
    | some row => exact ⟨_, detail_eq_ok_iff.mpr ⟨row, hfind, rfl⟩⟩

/-- A successful launch target is an application's exactly for an `APP`. -/
theorem launchTarget_clamp {codec : LaunchCodec} {grant : ResolvedGrant} {target : LaunchTarget}
    (h : launchTarget codec grant id w = .ok target) (policy : SessionPolicy) :
    (if target.isApplication then applicationPolicy policy else policy) =
      grant.kind.clamp policy := by
  unfold launchTarget at h
  split at h
  · next hkind =>
    cases h
    rw [hkind]
    rfl
  · next hkind =>
    rw [hkind]
    split at h
    · cases h
    · split at h
      · cases h
        rfl
      · cases h

/-- What `create` signs. -/
theorem createSession_ok {jwt : Jwt} {codec : LaunchCodec} {signer : TicketSigner}
    {req : CreateSession} {gateway relay : Option NodeRow} {session : ℕ} {t : SessionTicket jwt}
    (h : createSession jwt codec signer db caller req gateway relay session = .ok t) :
    ∃ grant claims, db.resolveGrant caller req.resourceId = some grant ∧
      t.ticket = signer.sign jwt claims ∧ claims.role = grant.role ∧
      claims.policy = grant.kind.clamp grant.policy.2 ∧ t.policy = claims.policy := by
  unfold createSession at h
  split at h
  · cases h
  · next grant hgrant =>
    split at h
    · cases h
    · next target htarget =>
      split at h
      · cases h
      · dsimp only at h
        split at h
        · cases h
        · cases h
        · split at h
          · cases h
          · next ticket hissue =>
            cases h
            refine ⟨grant, sessionClaims db caller req grant target session, hgrant, ?_, rfl, ?_, rfl⟩
            · unfold TicketSigner.issue at hissue
              split at hissue
              · exact (Option.some.inj hissue).symm
              · cases hissue
            · exact launchTarget_clamp htarget grant.policy.2

/-- Where the terms of a view come from: one live entitlement of the user or of one
of his groups, or his ownership of the machine. -/
def GrantedBy (db : Catalog) (caller : AuthUser) (v : ResourceView) : Prop :=
  (∃ e ∈ db.entitlements, e.tenantId = caller.tenant ∧ e.resourceId = v.resource.id ∧
    e.revokedAt = none ∧ (∀ t, e.expiresAt = some t → db.now < t) ∧
    (e.subjectKind = .user ∧ e.subjectId = caller.id ∨
      e.subjectKind = .group ∧ ⟨caller.tenant, e.subjectId, caller.id⟩ ∈ db.members) ∧
    v.resource.role = e.role ∧
    v.policy = v.resource.kind.clamp
      (effectivePolicy e.role e.allowClipboard e.allowFileTransfer e.allowAudio).2) ∨
  (∃ r ∈ db.resources, ∃ m ∈ db.machines, r.id = v.resource.id ∧ m.id = r.machineId ∧
    m.ownerUserId = some caller.id ∧ v.resource.role = .admin ∧
    v.policy = v.resource.kind.clamp .full)

theorem reaches_iff {e : Entitlement} : db.reaches tenant user e = true ↔
    e.subjectKind = .user ∧ e.subjectId = user ∨
      e.subjectKind = .group ∧ ⟨tenant, e.subjectId, user⟩ ∈ db.members := by
  unfold reaches
  cases e.subjectKind with
  | user => simp
  | group =>
    simp only [List.any_eq_true, Bool.and_eq_true, decide_eq_true_eq, reduceCtorEq, false_and,
      true_and, false_or]
    constructor
    · rintro ⟨x, hx, ⟨rfl, rfl⟩, hgroup⟩
      rw [← hgroup]
      exact hx
    · intro hx
      exact ⟨_, hx, ⟨rfl, rfl⟩, rfl⟩

theorem live_iff {e : Entitlement} : db.live e = true ↔
    e.revokedAt = none ∧ ∀ t, e.expiresAt = some t → db.now < t := by
  unfold live
  cases e.expiresAt with
  | none => simp
  | some t => simp

theorem Joined.grantedBy (h : Joined db caller.tenant caller.id r m g) :
    GrantedBy db caller ((db.select caller.id r m g).intoView w) := by
  have hpolicy := EntitledResource.intoView_policy (db.select caller.id r m g) w
  rcases mem_grants_iff.mp h.mem_grants with ⟨e, he, ⟨htenant, hres, hlive, hreach⟩, rfl⟩ | ⟨howner, rfl⟩
  · obtain ⟨hrevoked, hexpires⟩ := live_iff.mp hlive
    refine .inl ⟨e, he, htenant, ?_, hrevoked, hexpires, reaches_iff.mp hreach, ?_, ?_⟩
    · rw [EntitledResource.intoView_id]
      exact hres
    · exact EntitledResource.intoView_role _ w
    · rw [hpolicy, EntitledResource.intoView_kind]
      rfl
  · obtain ⟨hmem, hid⟩ := mem_machineOf h.machine
    refine .inr ⟨r, h.mem, m, hmem, ?_, hid, howner, ?_, ?_⟩
    · rw [EntitledResource.intoView_id]
      rfl
    · exact EntitledResource.intoView_role _ w
    · rw [hpolicy, EntitledResource.intoView_kind]
      rfl

/-- For every database state, user and resource: it is listed if and only if its
detail is found, if and only if a session is admitted; and what is shown is
what a session ticket carries, comes from one grant, stays below the role's ceiling,
and says nothing of the machine behind an application. -/
theorem listed_is_admitted (db : Catalog) (caller : AuthUser) (id : ℕ) (w : Bool) :
    ((∃ v ∈ db.listMine caller w, v.resource.id = id) ↔ ∃ v, db.detail caller id w = .ok v) ∧
    ((∃ v, db.detail caller id w = .ok v) ↔ ∃ grant, db.resolveGrant caller id = some grant) ∧
    ∀ v, (v ∈ db.listMine caller w ∧ v.resource.id = id) ∨ db.detail caller id w = .ok v →
      (∀ v', v' ∈ db.listMine caller w ∧ v'.resource.id = id ∨ db.detail caller id w = .ok v' →
        v' = v) ∧
      (∀ (jwt : Jwt) codec signer applicationWindows gateway relay session (t : SessionTicket jwt),
        createSession jwt codec signer db caller ⟨id, applicationWindows⟩ gateway relay session =
          .ok t →
        t.policy = v.policy ∧ ∃ claims, t.ticket = signer.sign jwt claims ∧
          claims.role = v.resource.role ∧ claims.policy = v.policy) ∧
      (∀ r ∈ db.resources, ∀ m g, r.id = id → db.machineOf r = some m →
        Query.FirstBy Grant.key (db.grants caller.tenant caller.id r m) (some g) →
        v.resource.role = g.role ∧ v.policy = v.resource.kind.clamp g.policy) ∧
      GrantedBy db caller v ∧ v.policy.within v.resource.role.maxPolicy ∧
      (v.resource.kind = .app → v.resource.machineId = none ∧ v.resource.machineOs = none ∧
        v.resource.os = none ∧ v.resource.osVersion = none ∧ v.resource.lastSeenAt = none ∧
        v.resource.owned = false) := by
  refine ⟨?_, detail_iff_admitted, ?_⟩
  · constructor
    · rintro ⟨v, hv, hid⟩
      exact ⟨v, listed_iff_detail.mp ⟨hv, hid⟩⟩
    · rintro ⟨v, hv⟩
      exact ⟨v, listed_iff_detail.mpr hv⟩
  · intro v hv
    have hdetail : ∀ {v'}, v' ∈ db.listMine caller w ∧ v'.resource.id = id ∨
        db.detail caller id w = .ok v' → db.detail caller id w = .ok v' := by
      rintro v' (h | h)
      · exact listed_iff_detail.mp h
      · exact h
    obtain ⟨r, m, g, hj, rfl, rfl⟩ := detail_joined (hdetail hv)
    have hpolicy := EntitledResource.intoView_policy (db.select caller.id r m g) w
    refine ⟨?_, ?_, ?_, hj.grantedBy, ?_, ?_⟩
    · intro v' hv'
      have heq := (hdetail hv').symm.trans (hdetail hv)
      exact Except.ok.inj heq
    · intro jwt codec signer applicationWindows gateway relay session t ht
      obtain ⟨grant, claims, hgrant, hticket, hrole, hclaims, ht⟩ := createSession_ok ht
      rw [resolveGrant_of_joined hj] at hgrant
      obtain rfl := Option.some.inj hgrant
      rw [ht, hclaims, hpolicy]
      refine ⟨rfl, claims, hticket, ?_, hclaims⟩
      rw [hrole, EntitledResource.intoView_role]
      rfl
    · intro r' hr' m' g' hid hm' hg'
      -- The ranking of the same join.
      have hsame := Query.find?_of_mem db.resources_key hr'
      rw [hid, Query.find?_of_mem db.resources_key hj.mem] at hsame
      obtain rfl := Option.some.inj hsame
      obtain rfl := Option.some.inj (hj.machine.symm.trans hm')
      obtain rfl := Option.some.inj (hj.grant.symm.trans (grant_of_firstBy hg'))
      rw [EntitledResource.intoView_role, EntitledResource.intoView_kind, hpolicy]
      exact ⟨rfl, rfl⟩
    · rw [hpolicy, EntitledResource.intoView_role]
      exact SessionPolicy.clamp_within g.policy_within r.kind
    · intro hkind
      rw [EntitledResource.intoView_kind] at hkind
      replace hkind : r.kind = .app := hkind
      obtain ⟨h1, h2, h3, h4, h5, h6⟩ := EntitledResource.intoView_machine
        (db.select caller.id r m g) w
      rw [h1, h2, h3, h4, h5, h6]
      simp [select, hkind]

/-! ### A published application -/

/-- A machine that runs applications, seen at time 1000. -/
def sampleDevice : Device where
  id := 1
  tenantId := 1
  os := "MACOS".toList
  osVersion := "15.1".toList
  noisePublicKey := [7]
  ownerUserId := some 5
  status := .online
  capabilities := some ⟨true, 1, 32, false, none⟩
  lastSeenAt := some 1000

def sampleResource : PublishedResource where
  id := 3
  tenantId := 1
  machineId := 1
  kind := .app
  name := "Editor".toList
  description := []
  launchPath := some sampleLaunch.launchPath
  launchArgs := sampleLaunch.launchArgs
  workingDir := none
  enabled := true

/-- User 6 is in a group with a grant, and has an expired one of his own. -/
def sampleCatalog : Catalog where
  resources := [sampleResource]
  machines := [sampleDevice]
  users := [⟨5, 1, "Ann".toList⟩]
  entitlements :=
    [⟨20, 1, 3, .user, 6, .admin, true, true, true, some 900, none⟩,
     ⟨21, 1, 3, .group, 4, .controller, true, false, true, none, none⟩]
  members := [⟨1, 4, 6⟩]
  now := 1010
  resources_key := by decide
  machines_key := by decide
  entitlements_key := by decide

def sampleNode : NodeRow := ⟨7, "10.0.0.7:4433", "pin", "default"⟩

/-- The group's grant is what the ticket carries. -/
theorem sampleCatalog_admitted :
    ∃ v t, sampleCatalog.detail ⟨6, 1, .user⟩ 3 true = .ok v ∧
      createSession SigningKeys.sampleJwt sampleLaunchCodec SigningKeys.signerA sampleCatalog
        ⟨6, 1, .user⟩ ⟨3, true⟩ (some sampleNode) (some sampleNode) 9 = .ok t ∧
      t.policy = v.policy ∧ v.policy = ⟨false, false, false, true⟩ := by
  have hdetail : sampleCatalog.detail ⟨6, 1, .user⟩ 3 true =
      .ok ((sampleCatalog.select 6 sampleResource sampleDevice
        ⟨21, .controller, true, false, true, 2⟩).intoView true) := by
    rfl
  have hcreate : ((createSession SigningKeys.sampleJwt sampleLaunchCodec SigningKeys.signerA
      sampleCatalog ⟨6, 1, .user⟩ ⟨3, true⟩ (some sampleNode) (some sampleNode) 9).map
        (·.sessionId)).toOption = some 9 := by
    decide +kernel
  cases ht : createSession SigningKeys.sampleJwt sampleLaunchCodec SigningKeys.signerA
      sampleCatalog ⟨6, 1, .user⟩ ⟨3, true⟩ (some sampleNode) (some sampleNode) 9 with
  | error e =>
    rw [ht] at hcreate
    cases hcreate
  | ok t =>
    obtain ⟨-, -, hall⟩ := listed_is_admitted sampleCatalog ⟨6, 1, .user⟩ 3 true
    obtain ⟨-, hticket, -⟩ := hall _ (.inr hdetail)
    exact ⟨_, t, hdetail, rfl, (hticket _ _ _ _ _ _ _ t ht).1, rfl⟩

end Catalog

end NebulaDesk
