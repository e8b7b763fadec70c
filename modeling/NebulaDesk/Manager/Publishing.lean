/-
Publishing resources (`nebula-manager/src/routes/resources.rs`, `publish` and
`update`; `nebula-manager/src/routes/machines.rs`, `heartbeat`).

Publication checks that there is something to launch, the list shows whether the
machine runs applications, and only admission looks at the configuration itself.

* **`launchTarget_iff`** — what is shown as launchable launches if and only if it is
  a desktop or its stored configuration validates;
* **`shown_is_launchable`** — so it does in every run whose publications all validate;
* **`blank_path_shown`** — a blank path, which `update` refuses, is published and shown.
-/
import NebulaDesk.Manager.Admission

namespace NebulaDesk

/-- Request to publish a resource from a machine. -/
structure CreateResource where
  kind : Text
  name : Text
  description : Text
  launchPath : Option Text
  launchArgs : List Text
  workingDir : Option Text
deriving DecidableEq

/-- Fields that may be changed on a resource. -/
structure UpdateResource where
  name : Option Text
  description : Option Text
  enabled : Option Bool
  launchPath : Option Text
  launchArgs : Option (List Text)
  workingDir : Option Text
deriving DecidableEq

/-- What an agent reports of itself; the `status` texts other than `ONLINE` and
`DRAINING` are refused. -/
structure Heartbeat where
  status : Option Text
  capabilities : Option (Option ApplicationCapability)
deriving DecidableEq

def Heartbeat.newStatus (req : Heartbeat) : Option MachineStatus :=
  match req.status with
  | none => some .online
  | some status =>
    if status = "ONLINE".toList then some .online
    else if status = "DRAINING".toList then some .draining else none

/-- The kind a request names, with the checks of `publish` on its path. -/
def CreateResource.checkKind (req : CreateResource) : Except ApiError ResourceKind :=
  let kind := req.kind.map Char.toUpper
  if kind = "APP".toList then
    if (req.launchPath.getD []).isEmpty then
      .error (.badRequest "an APP resource needs a launch_path")
    else .ok .app
  else if kind = "DESKTOP".toList then
    if req.launchPath.isSome then
      .error (.badRequest "a DESKTOP resource must not have a launch_path")
    else .ok .desktop
  else .error (.badRequest ("unknown kind " ++ String.ofList kind))

/-- PostgreSQL's `TEXT` holds any character but NUL. -/
def isStorable (text : Text) : Bool := !text.contains '\x00'

def CreateResource.isStorable (req : CreateResource) : Bool :=
  ([req.name, req.description] ++ req.launchPath.toList ++ req.launchArgs ++
    req.workingDir.toList).all NebulaDesk.isStorable

def UpdateResource.isStorable (req : UpdateResource) : Bool :=
  (req.name.toList ++ req.description.toList ++ req.launchPath.toList ++ req.launchArgs.getD [] ++
    req.workingDir.toList).all NebulaDesk.isStorable

def PublishedResource.launch (r : PublishedResource) : ApplicationLaunch where
  launchPath := r.launchPath.getD []
  launchArgs := r.launchArgs
  workingDir := r.workingDir

/-- `COALESCE` of the request's fields with those of the row. -/
def UpdateResource.apply (req : UpdateResource) (r : PublishedResource) : PublishedResource :=
  { r with
    name := req.name.getD r.name
    description := req.description.getD r.description
    enabled := req.enabled.getD r.enabled
    launchPath := req.launchPath.orElse fun _ => r.launchPath
    launchArgs := req.launchArgs.getD r.launchArgs
    workingDir := req.workingDir.orElse fun _ => r.workingDir }

def CreateResource.row (req : CreateResource) (kind : ResourceKind) (tenant machine id : ℕ) :
    PublishedResource :=
  { id, tenantId := tenant, machineId := machine, kind, name := req.name,
    description := req.description, launchPath := req.launchPath, launchArgs := req.launchArgs,
    workingDir := req.workingDir, enabled := true }

namespace Catalog

/-- `lock_managed_machine`: the caller administers the tenant or owns the machine. -/
def managesMachine (db : Catalog) (caller : AuthUser) (machine : ℕ) : Bool :=
  db.machines.any fun m => m.tenantId = caller.tenant && m.id = machine &&
    (caller.role.isAdmin || m.ownerUserId = some caller.id)

/-- `lock_managed_resource`. -/
def managesResource (db : Catalog) (caller : AuthUser) (r : PublishedResource) : Bool :=
  r.tenantId = caller.tenant && (db.machineOf r).any fun m =>
    caller.role.isAdmin || m.ownerUserId = some caller.id

theorem resources_key_cons {db : Catalog} {r : PublishedResource} {rest : List PublishedResource}
    (h : r.id ∉ db.resources.map (·.id)) (hrest : rest = r :: db.resources) :
    (rest.map (·.id)).Nodup := by
  rw [hrest, List.map_cons, List.nodup_cons]
  exact ⟨h, db.resources_key⟩

/-- Publish a resource under a fresh id. -/
def publish (db : Catalog) (caller : AuthUser) (machine id : ℕ) (req : CreateResource) :
    Except ApiError Catalog :=
  match req.checkKind with
  | .error e => .error e
  | .ok kind =>
    if !db.managesMachine caller machine then .error (.notFound "machine")
    else if !req.isStorable then .error .database
    else if db.resources.any fun r => r.machineId = machine && r.name = req.name then
      .error (.conflict "that machine already publishes a resource with this name")
    else if h : id ∉ db.resources.map (·.id) then
      .ok { db with
        resources := req.row kind caller.tenant machine id :: db.resources
        resources_key := resources_key_cons h rfl }
    else .error .database

/-- Rewrite the row of one resource, leaving its id. -/
def setResource (db : Catalog) (id : ℕ) (f : PublishedResource → PublishedResource)
    (hf : ∀ r, (f r).id = r.id) : Catalog :=
  { db with
    resources := db.resources.map fun r => if r.id = id then f r else r
    resources_key := by
      have hids : (db.resources.map fun r => if r.id = id then f r else r).map (·.id) =
          db.resources.map (·.id) := by
        rw [List.map_map]
        refine List.map_congr_left ?_
        intro r _
        simp only [Function.comp_apply]
        split
        · exact hf r
        · rfl
      rw [hids]
      exact db.resources_key }

/-- Change the fields a request names. -/
def update (db : Catalog) (caller : AuthUser) (id : ℕ) (req : UpdateResource) :
    Except ApiError Catalog :=
  match db.resources.find? (·.id = id) with
  | none => .error (.notFound "resource")
  | some r =>
    if !db.managesResource caller r then .error (.notFound "resource")
    else if req.launchPath.any fun path => r.kind ≠ .app || isBlank path then
      .error (.badRequest "launch_path must be nonempty and is only valid for APP resources")
    else if !req.isStorable then .error .database
    else if req.name.any fun name => db.resources.any fun s =>
        s.id ≠ id && s.machineId = r.machineId && s.name = name then
      .error .database
    else .ok (db.setResource id req.apply fun _ => rfl)

/-- An agent reports itself. -/
def heartbeat (db : Catalog) (machine : ℕ) (req : Heartbeat) : Except ApiError Catalog :=
  match req.newStatus with
  | none => .error (.badRequest "status must be ONLINE or DRAINING")
  | some status =>
    .ok { db with
      machines := db.machines.map fun m =>
        if m.id = machine then
          { m with status, capabilities := req.capabilities.getD m.capabilities,
                   lastSeenAt := some db.now }
        else m
      machines_key := by
        have hids : (db.machines.map fun m =>
            if m.id = machine then
              { m with status, capabilities := req.capabilities.getD m.capabilities,
                       lastSeenAt := some db.now }
            else m).map (·.id) = db.machines.map (·.id) := by
          rw [List.map_map]
          refine List.map_congr_left ?_
          intro m _
          simp only [Function.comp_apply]
          split <;> rfl
        rw [hids]
        exact db.machines_key }

end Catalog

/-- The requests that reach the catalog.  `administer` stands for every other one: it
may delete resources, and change all but the resources. -/
inductive CatalogEvent
  | publish (caller : AuthUser) (machine id : ℕ) (req : CreateResource)
  | update (caller : AuthUser) (id : ℕ) (req : UpdateResource)
  | heartbeat (machine : ℕ) (req : Heartbeat)
  | administer (other : Catalog) (kept : ℕ → Bool)

namespace Catalog

/-- A request that fails changes nothing. -/
def step (db : Catalog) : CatalogEvent → Catalog
  | .publish caller machine id req => (db.publish caller machine id req).toOption.getD db
  | .update caller id req => (db.update caller id req).toOption.getD db
  | .heartbeat machine req => (db.heartbeat machine req).toOption.getD db
  | .administer other kept =>
    { other with
      resources := db.resources.filter fun r => kept r.id
      resources_key := db.resources_key.sublist (List.filter_sublist.map _) }

/-- An accepted publication leaves a configuration that admission accepts, or a
resource that is not offered. -/
def validates (codec : LaunchCodec) (db : Catalog) : CatalogEvent → Bool
  | .publish caller machine id req =>
    match db.publish caller machine id req, req.checkKind with
    | .ok _, .ok .app => (req.row .app caller.tenant machine id).launch.validate codec
    | _, _ => true
  | .update caller id req =>
    match db.update caller id req, db.resources.find? (·.id = id) with
    | .ok _, some r =>
      r.kind = .desktop || !(req.apply r).enabled || (req.apply r).launch.validate codec
    | _, _ => true
  | _ => true

def stepValid (codec : LaunchCodec) (db : Catalog) (e : CatalogEvent) : Option Catalog :=
  if db.validates codec e then some (db.step e) else none

variable {codec : LaunchCodec} {db db' init : Catalog} {e : CatalogEvent}

/-! ### What a request does to the resources -/

variable {caller : AuthUser}

theorem publish_resources {machine id : ℕ} {req : CreateResource}
    (h : db.publish caller machine id req = .ok db') :
    ∃ kind, req.checkKind = .ok kind ∧
      db'.resources = req.row kind caller.tenant machine id :: db.resources := by
  unfold publish at h
  split at h
  · cases h
  · next kind hkind =>
    split_ifs at h
    cases h
    exact ⟨kind, hkind, rfl⟩

theorem update_resources {id : ℕ} {req : UpdateResource} (h : db.update caller id req = .ok db') :
    ∃ r, db.resources.find? (·.id = id) = some r ∧
      db'.resources = db.resources.map fun r => if r.id = id then req.apply r else r := by
  unfold update at h
  split at h
  · cases h
  · next r hr =>
    split_ifs at h
    cases h
    exact ⟨r, hr, rfl⟩

theorem heartbeat_resources {machine : ℕ} {req : Heartbeat}
    (h : db.heartbeat machine req = .ok db') : db'.resources = db.resources := by
  unfold heartbeat at h
  split at h
  · cases h
  · cases h
    rfl

/-! ### Configurations that admission accepts -/

/-- Every application on offer has a configuration that admission accepts. -/
def Launchable (codec : LaunchCodec) (db : Catalog) : Prop :=
  ∀ r ∈ db.resources, r.kind = .app → r.enabled = true → r.launch.validate codec = true

theorem Launchable.publish (h : Launchable codec db) {machine id : ℕ}
    {req : CreateResource} (hv : db.validates codec (.publish caller machine id req) = true)
    (hs : db.publish caller machine id req = .ok db') : Launchable codec db' := by
  obtain ⟨kind, hkind, hrows⟩ := publish_resources hs
  intro r hr happ hen
  rw [hrows] at hr
  rcases List.mem_cons.mp hr with rfl | hr
  · obtain rfl : kind = .app := happ
    simpa [validates, hs, hkind] using hv
  · exact h r hr happ hen

theorem Launchable.update (h : Launchable codec db) {id : ℕ}
    {req : UpdateResource} (hv : db.validates codec (.update caller id req) = true)
    (hs : db.update caller id req = .ok db') : Launchable codec db' := by
  obtain ⟨found, hfound, hrows⟩ := update_resources hs
  intro r hr happ hen
  rw [hrows] at hr
  obtain ⟨old, hold, rfl⟩ := List.mem_map.mp hr
  by_cases hsame : old.id = id
  · -- The row that the request has changed.
    have heq := Query.find?_of_mem db.resources_key hold
    rw [hsame, hfound] at heq
    cases heq
    rw [if_pos hsame] at happ hen ⊢
    replace happ : found.kind = .app := happ
    simpa [validates, hs, hfound, happ, hen] using hv
  · rw [if_neg hsame] at happ hen ⊢
    exact h old hold happ hen

theorem Launchable.step (h : Launchable codec db) (hs : db.stepValid codec e = some db') :
    Launchable codec db' := by
  obtain ⟨hv, rfl⟩ := Runs.some_of_guard hs
  cases e with
  | publish caller machine id req =>
    simp only [Catalog.step]
    cases hp : db.publish caller machine id req with
    | error _ => exact h
    | ok _ => exact h.publish hv hp
  | update caller id req =>
    simp only [Catalog.step]
    cases hu : db.update caller id req with
    | error _ => exact h
    | ok _ => exact h.update hv hu
  | heartbeat machine req =>
    simp only [Catalog.step]
    cases hb : db.heartbeat machine req with
    | error _ => exact h
    | ok after =>
      intro r hr
      replace hr : r ∈ after.resources := hr
      rw [heartbeat_resources hb] at hr
      exact h r hr
  | administer other kept =>
    intro r hr
    exact h r (List.mem_filter.mp hr).1

theorem launchable_reach (hinit : init.resources = [])
    (hr : Runs.Reach (stepValid codec) init db) : Launchable codec db := by
  refine hr.invariant ?_ ?_
  · intro r hmem
    rw [hinit] at hmem
    cases hmem
  · intro s s' e h hs
    exact h.step hs

/-! ### From the list to the launch -/

variable {caller : AuthUser} {id : ℕ} {v : ResourceView}

theorem supported_of_shown (row : EntitledResource) (hkind : row.kind = .app)
    (h : (row.intoView true).resource.launchSupported = true) :
    (ApplicationCapability.fromMachineCapabilities row.machineCapabilities).isSupported = true := by
  unfold EntitledResource.intoView at h
  rw [hkind] at h
  exact h

/-- What is shown as launchable launches if and only if it is a desktop or its stored
configuration validates. -/
theorem launchTarget_iff {r : PublishedResource} {m : Device} {g : Grant}
    (hshown : ((db.select caller.id r m g).intoView true).resource.launchSupported = true) :
    (∃ target, launchTarget codec (db.grantOf r m g) r.id true = .ok target ∧
      ∀ policy, target.validate codec r.id
        (if target.isApplication then applicationPolicy policy else policy) = true) ↔
      (r.kind = .app → r.launch.validate codec = true) := by
  unfold launchTarget
  cases hkind : r.kind with
  | desktop =>
    have hgrant : (db.grantOf r m g).kind = .desktop := hkind
    rw [hgrant]
    refine ⟨fun _ h => (by cases h), fun _ => ⟨.desktop, rfl, fun _ => rfl⟩⟩
  | app =>
    have hgrant : (db.grantOf r m g).kind = .app := hkind
    have hsup := supported_of_shown (db.select caller.id r m g) hkind hshown
    have hcap : (db.grantOf r m g).machineCapabilities =
        (db.select caller.id r m g).machineCapabilities := rfl
    have hlaunch : (db.grantOf r m g).launch = r.launch := rfl
    rw [hgrant]
    simp only [hcap, hsup, hlaunch, Bool.not_true, Bool.or_self, Bool.false_eq_true, if_false,
      forall_const]
    constructor
    · rintro ⟨target, htarget, -⟩
      split at htarget
      · next hv => exact hv
      · cases htarget
    · intro hv
      rw [if_pos hv]
      refine ⟨_, rfl, ?_⟩
      intro policy
      exact LaunchTarget.validate_application.trans hv

/-- In every run whose accepted publications validate, whatever is shown as launchable
on a machine that is online can be launched, and the target passes the signer's
check under the policy of the session. -/
theorem shown_is_launchable (hinit : init.resources = [])
    (hr : Runs.Reach (stepValid codec) init db)
    (hshown : v ∈ db.listMine caller true ∧ v.resource.id = id ∨ db.detail caller id true = .ok v)
    (hsupported : v.resource.launchSupported = true) (honline : v.resource.machineStatus = .online) :
    ∃ grant target, db.resolveGrant caller id = some grant ∧ grant.machineStatus = .online ∧
      launchTarget codec grant id true = .ok target ∧
      ∀ policy, target.validate codec id
        (if target.isApplication then applicationPolicy policy else policy) = true := by
  have hdetail : db.detail caller id true = .ok v := by
    rcases hshown with h | h
    · exact listed_iff_detail.mp h
    · exact h
  obtain ⟨r, m, g, hj, rfl, rfl⟩ := detail_joined hdetail
  have hvalid : r.kind = .app → r.launch.validate codec = true :=
    fun happ => launchable_reach hinit hr r hj.mem happ hj.enabled
  obtain ⟨target, htarget, hsigner⟩ := (launchTarget_iff hsupported).mpr hvalid
  refine ⟨_, target, resolveGrant_of_joined hj, ?_, htarget, hsigner⟩
  rw [EntitledResource.intoView_machineStatus] at honline
  exact honline

/-! ### One application -/

/-- A machine of user 5 without resources, which has not reported yet. -/
def sampleEmpty : Catalog where
  resources := []
  machines := [{ sampleDevice with status := .offline, capabilities := none }]
  users := []
  entitlements := []
  members := []
  now := 1010
  resources_key := by decide
  machines_key := by decide
  entitlements_key := by decide

def samplePublish (path : Text) : CreateResource where
  kind := "app".toList
  name := "Editor".toList
  description := []
  launchPath := some path
  launchArgs := sampleLaunch.launchArgs
  workingDir := none

def sampleReport : CatalogEvent := .heartbeat 1 ⟨none, some (some ⟨true, 1, 32, false, none⟩)⟩

/-- User 5 publishes an application, and the machine reports that it runs them. -/
def sampleEvents (path : Text) : List CatalogEvent :=
  [.publish ⟨5, 1, .user⟩ 1 3 (samplePublish path), sampleReport]

/-- The catalog of `sampleEvents`, and whether it is shown as launchable. -/
def sampleShown (path : Text) : Option (Bool × MachineStatus) :=
  ((Runs.run step sampleEmpty (sampleEvents path)).detail ⟨5, 1, .user⟩ 3 true).toOption.map
    fun v => (v.resource.launchSupported, v.resource.machineStatus)

/-- An absolute path: shown and launched. -/
theorem sample_launchable :
    ∃ db v, Runs.Reach (stepValid sampleLaunchCodec) sampleEmpty db ∧
      db.detail ⟨5, 1, .user⟩ 3 true = .ok v ∧ v.resource.launchSupported = true ∧
      ∃ grant target, db.resolveGrant ⟨5, 1, .user⟩ 3 = some grant ∧
        launchTarget sampleLaunchCodec grant 3 true = .ok target := by
  have hpub : sampleEmpty.validates sampleLaunchCodec
      (.publish ⟨5, 1, .user⟩ 1 3 (samplePublish sampleLaunch.launchPath)) = true := by
    decide +kernel
  have hr : Runs.Reach (stepValid sampleLaunchCodec) sampleEmpty
      (Runs.run step sampleEmpty (sampleEvents sampleLaunch.launchPath)) :=
    (Runs.Reach.init.step _ (if_pos hpub)).step sampleReport (if_pos rfl)
  have hshown : sampleShown sampleLaunch.launchPath = some (true, .online) := by decide +kernel
  obtain ⟨v, hv, hflags⟩ := Option.map_eq_some_iff.mp hshown
  obtain ⟨hsup, hon⟩ := Prod.mk.inj hflags
  have hdetail : (Runs.run step sampleEmpty (sampleEvents sampleLaunch.launchPath)).detail
      ⟨5, 1, .user⟩ 3 true = .ok v := by
    revert hv
    cases (Runs.run step sampleEmpty (sampleEvents sampleLaunch.launchPath)).detail
      ⟨5, 1, .user⟩ 3 true with
    | error e => intro h; cases h
    | ok v' => intro h; rw [Option.some.inj h]
  obtain ⟨grant, target, hgrant, -, htarget, -⟩ :=
    shown_is_launchable rfl hr (.inr hdetail) hsup hon
  exact ⟨_, v, hr, hdetail, hsup, grant, target, hgrant, htarget⟩

/-- A blank path is published and shown as launchable on a machine that is online, and
is refused at the launch; `update` would not have taken it. -/
theorem blank_path_shown :
    sampleShown " ".toList = some (true, .online) ∧
      ((Runs.run step sampleEmpty (sampleEvents " ".toList)).resolveGrant ⟨5, 1, .user⟩ 3).map
        (fun grant => (launchTarget sampleLaunchCodec grant 3 true).toOption) = some none ∧
      ((Runs.run step sampleEmpty (sampleEvents " ".toList)).update ⟨5, 1, .user⟩ 3
        ⟨none, none, none, some " ".toList, none, none⟩).toOption.isNone = true := by
  refine ⟨?_, ?_, ?_⟩
  · decide +kernel
  · decide +kernel
  · decide +kernel

end Catalog

end NebulaDesk
